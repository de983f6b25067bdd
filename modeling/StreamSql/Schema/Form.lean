import StreamSql.Json.Record
import StreamSql.Schema

namespace StreamSql

namespace KeyRole

def all : List KeyRole := [.none, .key, .primaryKey]

def tag : KeyRole → String
  | .none => "None"
  | .key => "Key"
  | .primaryKey => "PrimaryKey"

end KeyRole

namespace TypeKind

def simple : List TypeKind :=
  [.int, .bigInt, .double, .boolean, .string, .bytes, .date, .time, .timestamp]

def tag : TypeKind → String
  | .int => "Int"
  | .bigInt => "BigInt"
  | .double => "Double"
  | .boolean => "Boolean"
  | .string => "String"
  | .bytes => "Bytes"
  | .date => "Date"
  | .time => "Time"
  | .timestamp => "Timestamp"
  | .decimal _ _ => "Decimal"
  | .array _ => "Array"
  | .map _ _ => "Map"
  | .struct _ => "Struct"

mutual
def toJson : TypeKind → Json
  | .decimal precision scale =>
    .tagged "Decimal" (.object [("precision", .ofUInt8 precision), ("scale", .ofUInt8 scale)])
  | .array element => .tagged "Array" element.toJson
  | .map key value => .tagged "Map" (.array [key.toJson, value.toJson])
  | .struct fields => .tagged "Struct" (.array (fieldsToJson fields))
  | k => .string k.tag
termination_by structural k => k
def fieldsToJson : List Column → List Json
  | [] => []
  | ⟨name, rename, kind, nullable, role⟩ :: cs =>
    .object [("name", .string name), ("rename", .ofOption .string rename), ("kind", kind.toJson),
      ("nullable", .bool nullable), ("key", .string role.tag)] :: fieldsToJson cs
termination_by structural cs => cs
end

end TypeKind

def Column.toJson (c : Column) : Json :=
  .object [("name", .string c.name), ("rename", .ofOption .string c.rename),
    ("kind", c.kind.toJson), ("nullable", .bool c.nullable), ("key", .string c.key.tag)]

def Schema.toJson (s : Schema) : Json :=
  .object [("name", .string s.name), ("columns", .ofList Column.toJson s.columns)]

def Column.ofJsonWith? (kind? : Json → Option TypeKind) (j : Json) : Option Column := do
  let fs ← j.fields? ["name", "rename", "kind", "nullable", "key"]
  some {
    name := ← fs.required "name" Json.string?
    rename := ← fs.optional "rename" Json.string?
    kind := ← fs.required "kind" kind?
    nullable := ← fs.orElse "nullable" Json.bool? false
    key := ← fs.orElse "key" (Json.choice? KeyRole.all KeyRole.tag) .none }

def TypeKind.ofJsonWithin? (o : Json.Origin) : Nat → Json → Option TypeKind
  | 0, _ => none
  | n + 1, j => do
    match ← j.case? with
    | ("Decimal", some j) => do
      let fs ← j.caseFields? o ["precision", "scale"]
      some (.decimal (← fs.required "precision" Json.uint8?) (← fs.required "scale" Json.uint8?))
    | ("Array", some j) => do some (.array (← ofJsonWithin? o n j))
    | ("Map", some j) => do
      let (k, v) ← j.pair? (ofJsonWithin? o n) (ofJsonWithin? o n)
      some (.map k v)
    | ("Struct", some j) => do some (.struct (← j.list? (Column.ofJsonWith? (ofJsonWithin? o n))))
    | _ => j.choice? simple tag

def TypeKind.ofJson? (o : Json.Origin) (j : Json) : Option TypeKind := ofJsonWithin? o (j.depth + 1) j

def Column.ofJson? (o : Json.Origin) : Json → Option Column := ofJsonWith? (TypeKind.ofJson? o)

def Schema.ofJson? (o : Json.Origin) (j : Json) : Option Schema := do
  let fs ← j.fields? ["name", "columns"]
  some {
    name := ← fs.required "name" Json.string?
    columns := ← fs.required "columns" (Json.list? (Column.ofJson? o)) }

end StreamSql
