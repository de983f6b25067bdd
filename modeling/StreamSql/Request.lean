import StreamSql.Json.Record

namespace StreamSql

inductive OffsetReset
  | earliest
  | latest
deriving DecidableEq

namespace OffsetReset

def all : List OffsetReset := [.earliest, .latest]

def text : OffsetReset → String
  | .earliest => "earliest"
  | .latest => "latest"

def ofJson? : Json → Option OffsetReset := Json.choice? all text

end OffsetReset

structure Request where
  statement : String
  properties : List (String × String)
deriving DecidableEq

inductive Body
  | queryStream
  | statement
deriving DecidableEq

def Body.statementName : Body → String
  | .queryStream => "sql"
  | .statement => "ksql"

def Body.propertiesName : Body → String
  | .queryStream => "properties"
  | .statement => "streamsProperties"

namespace Request

def ofStatement (statement : String) : Request := ⟨statement, []⟩

def withProperty (r : Request) (key value : String) : Request :=
  { r with properties := Json.insert key value r.properties }

def offsetKey : String := "auto.offset.reset"

def withOffsetReset (r : Request) (reset : OffsetReset) : Request :=
  r.withProperty offsetKey reset.text

def toJson (b : Body) (r : Request) : Json :=
  .object ((b.statementName, .string r.statement) ::
    if r.properties.isEmpty then []
    else [(b.propertiesName, .object (r.properties.map fun (k, v) => (k, .string v)))])

def propertyTexts : List (String × Json) → Option (List (String × String))
  | [] => some []
  | (k, .string v) :: ms => (propertyTexts ms).map ((k, v) :: ·)
  | _ => none

def propertiesOfJson? : Json → Option (List (String × String))
  | .object ms => (propertyTexts ms).map Json.sorted
  | _ => none

def ofJson? (b : Body) (j : Json) : Option Request := do
  let fs ← j.fields? [b.statementName, b.propertiesName]
  some {
    statement := ← fs.required b.statementName Json.string?
    properties := ← fs.orElse b.propertiesName propertiesOfJson? [] }

end Request
end StreamSql
