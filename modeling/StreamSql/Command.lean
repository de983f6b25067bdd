import StreamSql.Config
import StreamSql.Entity.Form

namespace StreamSql

inductive EntityType
  | stream
  | table
deriving DecidableEq

namespace EntityType

def all : List EntityType := [.stream, .table]

def tag : EntityType → String
  | .stream => "stream"
  | .table => "table"

/-- The statement for an entity; a source is never replaced. -/
def statement (replace source : Bool) : EntityType → StatementKind
  | .stream =>
    if source then .createSourceStream else if replace then .createOrReplaceStream else .createStream
  | .table =>
    if source then .createSourceTable else if replace then .createOrReplaceTable else .createTable

end EntityType

inductive Command
  | compile (file : String) (keepNames : Bool)
  | create (file : String) (kind : StatementKind) (ifNotExists : Bool)
  | decode (file : Option String) (format : Option ResponseFormat) (json : Bool)
deriving DecidableEq

def Command.file? : Command → Option String
  | .compile file _ => some file
  | .create file _ _ => some file
  | .decode file _ _ => file

structure Invocation where
  config : Option String
  verbose : Bool
  command : Command
deriving DecidableEq

structure CreateDocument where
  metadata : Metadata
  schema : Option Schema
  query : Option Query

def CreateDocument.ofJson? (o : Json.Origin) (j : Json) : Option CreateDocument := do
  let fs ← j.fields? ["metadata", "schema", "query"]
  some {
    metadata := ← fs.orElse "metadata" Metadata.ofJson? .standard
    schema := ← fs.nullable "schema" (Schema.ofJson? o)
    query := ← fs.nullable "query" (Query.ofJson? o) }

end StreamSql
