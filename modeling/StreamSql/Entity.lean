import StreamSql.Naming

namespace StreamSql

inductive RecordFormat
  | none
  | delimited
  | json
  | jsonSr
  | avro
  | kafka
  | protobuf
  | protobufNoSr
deriving DecidableEq

namespace RecordFormat

def all : List RecordFormat :=
  [.none, .delimited, .json, .jsonSr, .avro, .kafka, .protobuf, .protobufNoSr]

def text : RecordFormat → String
  | .none => "None"
  | .delimited => "Delimited"
  | .json => "Json"
  | .jsonSr => "Json_SR"
  | .avro => "Avro"
  | .kafka => "Kafka"
  | .protobuf => "Protobuf"
  | .protobufNoSr => "Protobuf_NoSR"

end RecordFormat

inductive WindowType
  | session
  | hopping
  | tumbling
deriving DecidableEq

namespace WindowType

def all : List WindowType := [.session, .hopping, .tumbling]

def tag : WindowType → String
  | .session => "Session"
  | .hopping => "Hopping"
  | .tumbling => "Tumbling"

def text : WindowType → String
  | .session => "SESSION"
  | .hopping => "HOPPING"
  | .tumbling => "TUMBLING"

end WindowType

inductive StatementKind
  | createStream
  | createOrReplaceStream
  | createSourceStream
  | createTable
  | createOrReplaceTable
  | createSourceTable
deriving DecidableEq

namespace StatementKind

def all : List StatementKind :=
  [.createStream, .createOrReplaceStream, .createSourceStream, .createTable,
   .createOrReplaceTable, .createSourceTable]

def tag : StatementKind → String
  | .createStream => "create_stream"
  | .createOrReplaceStream => "create_or_replace_stream"
  | .createSourceStream => "create_source_stream"
  | .createTable => "create_table"
  | .createOrReplaceTable => "create_or_replace_table"
  | .createSourceTable => "create_source_table"

def keyword : StatementKind → String
  | .createStream => "CREATE STREAM"
  | .createOrReplaceStream => "CREATE OR REPLACE STREAM"
  | .createSourceStream => "CREATE SOURCE STREAM"
  | .createTable => "CREATE TABLE"
  | .createOrReplaceTable => "CREATE OR REPLACE TABLE"
  | .createSourceTable => "CREATE SOURCE TABLE"

def isTable : StatementKind → Bool
  | .createTable | .createOrReplaceTable | .createSourceTable => true
  | _ => false

def isReplace : StatementKind → Bool
  | .createOrReplaceStream | .createOrReplaceTable => true
  | _ => false

def isSource : StatementKind → Bool
  | .createSourceStream | .createSourceTable => true
  | _ => false

end StatementKind

structure Metadata where
  entityName : Option String
  pluralize : Bool
  topic : Option String
  keyFormat : Option RecordFormat
  valueFormat : Option RecordFormat
  valueDelimiter : Option String
  partitions : Option UInt32
  replicas : Option UInt32
  timestamp : Option String
  timestampFormat : Option String
  wrapSingleValue : Option Bool
  windowType : Option WindowType
  windowSize : Option String
deriving DecidableEq

namespace Metadata

def standard : Metadata :=
  { entityName := none
    pluralize := true
    topic := none
    keyFormat := none
    valueFormat := some .json
    valueDelimiter := none
    partitions := none
    replicas := none
    timestamp := none
    timestampFormat := none
    wrapSingleValue := none
    windowType := none
    windowSize := none }

def ofTopic (topic : String) : Metadata := { standard with topic := some topic }

def resolveName (m : Metadata) (typeName : String) : String :=
  Naming.entityName m.pluralize (m.entityName.getD typeName)

/-- The format of values; a windowed entity always has one. -/
def effectiveValueFormat (m : Metadata) : Option RecordFormat :=
  match m.valueFormat, m.windowType with
  | none, some _ => some .json
  | f, _ => f

def property {α : Type} (key : String) (text : α → String) : Option α → List String
  | some a => [key ++ "='" ++ text a ++ "'"]
  | none => []

def properties (m : Metadata) : List String :=
  property "KAFKA_TOPIC" id m.topic ++
  property "KEY_FORMAT" RecordFormat.text m.keyFormat ++
  property "VALUE_FORMAT" RecordFormat.text m.effectiveValueFormat ++
  property "VALUE_DELIMITER" id m.valueDelimiter ++
  property "PARTITIONS" (fun n => toString n.toNat) m.partitions ++
  property "REPLICAS" (fun n => toString n.toNat) m.replicas ++
  property "TIMESTAMP" id m.timestamp ++
  property "TIMESTAMP_FORMAT" id m.timestampFormat ++
  property "WRAP_SINGLE_VALUE" (fun b => if b then "true" else "false") m.wrapSingleValue ++
  property "WINDOW_TYPE" WindowType.text m.windowType ++
  property "WINDOW_SIZE" id m.windowSize

def withClause (m : Metadata) : String :=
  if m.properties.isEmpty then "" else " WITH ( " ++ Text.join ", " m.properties ++ " )"

def withTimestamp (m : Metadata) (column : String) (format : Option String) : Metadata :=
  { m with timestamp := some column, timestampFormat := format }

def windowed (m : Metadata) (type : WindowType) (size : Option String) : Metadata :=
  { m with windowType := some type, windowSize := size }

end Metadata
end StreamSql
