import StreamSql.Json.Record
import StreamSql.Json.Printer
import StreamSql.Value

namespace StreamSql

def Decimal.toJson (d : Decimal) : Json := .string d.text

/-- A decimal is read from its text, or from a number by the number's shortest text. -/
def Decimal.ofJson? : Json → Option Decimal
  | .string s => Decimal.read? s
  | .number (.whole n _) => Decimal.ofInt? n
  | .number (.double x) => readPlain? (x.text ⟨.up, none, none, ""⟩).toList
  | _ => none

def Date.ofJson? (j : Json) : Option Date := j.string?.bind Date.read?
def ClockTime.ofJson? (j : Json) : Option ClockTime := j.string?.bind ClockTime.read?
def Timestamp.ofJson? (j : Json) : Option Timestamp := j.string?.bind Timestamp.read?

namespace SortOrder

def all : List SortOrder := [.asc, .desc]

def tag : SortOrder → String
  | .asc => "Asc"
  | .desc => "Desc"

end SortOrder

namespace Value

mutual
def toJson : Value → Json
  | .null => .string "Null"
  | .bool b => .tagged "Bool" (.bool b)
  | .int n => .tagged "Int" (.ofInt64 n)
  | .float x => .tagged "Float" (.ofDouble x)
  | .decimal d => .tagged "Decimal" d.toJson
  | .string s => .tagged "String" (.string s)
  | .bytes bs => .tagged "Bytes" (.ofList .ofUInt8 bs)
  | .date d => .tagged "Date" (.string d.text)
  | .time t => .tagged "Time" (.string t.text)
  | .timestamp t => .tagged "Timestamp" (.string t.text)
  | .enum name => .tagged "Enum" (.string name)
  | .array items => .tagged "Array" (.array (itemsToJson items))
  | .map entries => .tagged "Map" (.array (entriesToJson entries))
  | .struct fields => .tagged "Struct" (.array (fieldsToJson fields))
termination_by structural v => v
def itemsToJson : List Value → List Json
  | [] => []
  | v :: vs => v.toJson :: itemsToJson vs
termination_by structural vs => vs
def entriesToJson : List (Value × Value) → List Json
  | [] => []
  | (k, v) :: es => .array [k.toJson, v.toJson] :: entriesToJson es
termination_by structural es => es
def fieldsToJson : List (String × Value) → List Json
  | [] => []
  | (k, v) :: fs => .array [.string k, v.toJson] :: fieldsToJson fs
termination_by structural fs => fs
end

def leaf? (tag : String) (j : Json) : Option Value :=
  match tag with
  | "Null" => if j matches .null then some .null else none
  | "Bool" => j.bool?.map .bool
  | "Int" => j.int64?.map .int
  | "Float" => j.double?.map .float
  | "Decimal" => (Decimal.ofJson? j).map .decimal
  | "String" => j.string?.map .string
  | "Bytes" => (j.list? Json.uint8?).map .bytes
  | "Date" => (Date.ofJson? j).map .date
  | "Time" => (ClockTime.ofJson? j).map .time
  | "Timestamp" => (Timestamp.ofJson? j).map .timestamp
  | "Enum" => j.string?.map .enum
  | _ => none

mutual
def ofJson? : Json → Option Value
  | .string s => if s = "Null" then some .null else none
  | .object [(tag, .array js)] =>
    if tag = "Array" then (itemsOfJson? js).map .array
    else if tag = "Map" then (entriesOfJson? js).map .map
    else if tag = "Struct" then (fieldsOfJson? js).map .struct
    else leaf? tag (.array js)
  | .object [(tag, j)] => leaf? tag j
  | _ => none
termination_by structural j => j
def itemsOfJson? : List Json → Option (List Value)
  | [] => some []
  | j :: js => do
    let v ← ofJson? j
    let vs ← itemsOfJson? js
    some (v :: vs)
termination_by structural js => js
def entriesOfJson? : List Json → Option (List (Value × Value))
  | [] => some []
  | .array [k, v] :: js => do
    let k ← ofJson? k
    let v ← ofJson? v
    let es ← entriesOfJson? js
    some ((k, v) :: es)
  | _ => none
termination_by structural js => js
def fieldsOfJson? : List Json → Option (List (String × Value))
  | [] => some []
  | .array [.string k, v] :: js => do
    let v ← ofJson? v
    let fs ← fieldsOfJson? js
    some ((k, v) :: fs)
  | _ => none
termination_by structural js => js
end

end Value
end StreamSql
