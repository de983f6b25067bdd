import StreamSql.Text

namespace StreamSql

inductive KeyRole
  | none
  | key
  | primaryKey
deriving DecidableEq

mutual
inductive TypeKind
  | int
  | bigInt
  | double
  | boolean
  | string
  | bytes
  | date
  | time
  | timestamp
  | decimal (precision scale : UInt8)
  | array (element : TypeKind)
  | map (key value : TypeKind)
  | struct (fields : List Column)
/-- A column, or a field of a structure. It goes by its wire name, `rename` if there is one. -/
structure Column where
  name : String
  rename : Option String
  kind : TypeKind
  nullable : Bool
  key : KeyRole
end

structure Schema where
  name : String
  columns : List Column

namespace Column

def ofKind (name : String) (kind : TypeKind) : Column := ⟨name, none, kind, false, .none⟩

def wireName (c : Column) : String := c.rename.getD c.name

/-- The first column of that name, its own and not the one on the wire. -/
def find? (name : String) : List Column → Option Column
  | [] => none
  | c :: cs => if c.name = name then some c else find? name cs

def renamed (c : Column) (wireName : String) : Column := { c with rename := some wireName }
def asNullable (c : Column) : Column := { c with nullable := true }
def asKey (c : Column) : Column := { c with key := .key }
def asPrimaryKey (c : Column) : Column := { c with key := .primaryKey }

end Column

namespace TypeKind

mutual
def text : TypeKind → String
  | .int => "INT"
  | .bigInt => "BIGINT"
  | .double => "DOUBLE"
  | .boolean => "BOOLEAN"
  | .string => "VARCHAR"
  | .bytes => "BYTES"
  | .date => "DATE"
  | .time => "TIME"
  | .timestamp => "TIMESTAMP"
  | .decimal precision scale =>
    "DECIMAL(" ++ toString precision.toNat ++ ", " ++ toString scale.toNat ++ ")"
  | .array element => "ARRAY<" ++ element.text ++ ">"
  | .map key value => "MAP<" ++ key.text ++ ", " ++ value.text ++ ">"
  | .struct fields => "STRUCT<" ++ Text.join ", " (fieldTexts fields) ++ ">"
termination_by structural k => k
def fieldTexts : List Column → List String
  | [] => []
  | ⟨name, rename, kind, _, _⟩ :: cs => (rename.getD name ++ " " ++ kind.text) :: fieldTexts cs
termination_by structural cs => cs
end

def element? : TypeKind → Option TypeKind
  | .array element => some element
  | .map _ value => some value
  | _ => none

def fields? : TypeKind → Option (List Column)
  | .struct fields => some fields
  | _ => none

end TypeKind

namespace Schema

def empty (name : String) : Schema := ⟨name, []⟩

def push (s : Schema) (c : Column) : Schema := { s with columns := s.columns ++ [c] }

def find? (s : Schema) (name : String) : Option Column := Column.find? name s.columns

end Schema
end StreamSql
