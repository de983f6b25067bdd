import StreamSql.Entity
import StreamSql.Entity.Insert
import StreamSql.Json.Record

namespace StreamSql

def RecordFormat.ofJson? : Json → Option RecordFormat := Json.choice? all text

def WindowType.ofJson? : Json → Option WindowType := Json.choice? all tag

def StatementKind.toJson (kind : StatementKind) : Json := .string kind.tag

def StatementKind.ofJson? : Json → Option StatementKind := Json.choice? all tag

def Metadata.toJson (m : Metadata) : Json :=
  .object [
    ("entity_name", .ofOption .string m.entityName),
    ("should_pluralize", .bool m.pluralize),
    ("kafka_topic", .ofOption .string m.topic),
    ("key_format", .ofOption (.string ·.text) m.keyFormat),
    ("value_format", .ofOption (.string ·.text) m.valueFormat),
    ("value_delimiter", .ofOption .string m.valueDelimiter),
    ("partitions", .ofOption .ofUInt32 m.partitions),
    ("replicas", .ofOption .ofUInt32 m.replicas),
    ("timestamp", .ofOption .string m.timestamp),
    ("timestamp_format", .ofOption .string m.timestampFormat),
    ("wrap_single_value", .ofOption .bool m.wrapSingleValue),
    ("window_type", .ofOption (.string ·.tag) m.windowType),
    ("window_size", .ofOption .string m.windowSize)]

def Metadata.ofJson? (j : Json) : Option Metadata := do
  let fs ← j.fields? ["entity_name", "should_pluralize", "kafka_topic", "key_format",
    "value_format", "value_delimiter", "partitions", "replicas", "timestamp", "timestamp_format",
    "wrap_single_value", "window_type", "window_size"]
  some {
    entityName := ← fs.optional "entity_name" Json.string?
    pluralize := ← fs.orElse "should_pluralize" Json.bool? standard.pluralize
    topic := ← fs.optional "kafka_topic" Json.string?
    keyFormat := ← fs.optional "key_format" RecordFormat.ofJson?
    valueFormat := ←
      fs.orElse "value_format" (Json.nullable? RecordFormat.ofJson?) standard.valueFormat
    valueDelimiter := ← fs.optional "value_delimiter" Json.string?
    partitions := ← fs.optional "partitions" Json.uint32?
    replicas := ← fs.optional "replicas" Json.uint32?
    timestamp := ← fs.optional "timestamp" Json.string?
    timestampFormat := ← fs.optional "timestamp_format" Json.string?
    wrapSingleValue := ← fs.optional "wrap_single_value" Json.bool?
    windowType := ← fs.optional "window_type" WindowType.ofJson?
    windowSize := ← fs.optional "window_size" Json.string? }

def InsertProperties.toJson (p : InsertProperties) : Json :=
  .object [
    ("entity_name", .ofOption .string p.entityName),
    ("should_pluralize", .bool p.pluralize),
    ("decimal_separator", .ofChar p.decimalSeparator)]

def InsertProperties.ofJson? (j : Json) : Option InsertProperties := do
  let fs ← j.fields? ["entity_name", "should_pluralize", "decimal_separator"]
  some {
    entityName := ← fs.optional "entity_name" Json.string?
    pluralize := ← fs.orElse "should_pluralize" Json.bool? standard.pluralize
    decimalSeparator := ← fs.orElse "decimal_separator" Json.char? standard.decimalSeparator }

end StreamSql
