import StreamSql.Text
import StreamSql.Double.Shortest
import StreamSql.Schema
import StreamSql.Value

namespace StreamSql

structure LiteralStyle where
  lowerBools : Bool
  /-- An array is written as the bare list that stands inside `IN (…)`. -/
  membership : Bool
  separator : Char
deriving DecidableEq

namespace LiteralStyle

def standard : LiteralStyle := ⟨false, false, '.'⟩

def nested (s : LiteralStyle) : LiteralStyle := { s with membership := false }

/-- Full notation, no fraction on a whole number, a half away from zero. -/
def digits : DigitLayout := ⟨.up, none, none, ""⟩

def boolText (s : LiteralStyle) (b : Bool) : String :=
  if s.lowerBools then (if b then "true" else "false") else (if b then "True" else "False")

end LiteralStyle

def withSeparator (separator : Char) (s : String) : String := Text.replaceChar '.' separator s

def quoted (s : String) : String := "'" ++ s ++ "'"

/-- The language has no empty array: the only item of an array is removed from it. -/
def emptyArray : Option TypeKind → String
  | some .string => "ARRAY_REMOVE(ARRAY[''], '')"
  | _ => "ARRAY_REMOVE(ARRAY[0], 0)"

def hexPair (b : UInt8) : List Char :=
  [Nat.digitChar (b.toNat / 16), Nat.digitChar (b.toNat % 16)]

def bytesLiteral (bs : List UInt8) : String :=
  "TO_BYTES('" ++ .ofList (bs.flatMap hexPair) ++ "', 'hex')"

namespace Value

mutual
def literal (s : LiteralStyle) : Value → String
  | .null => "NULL"
  | .bool b => s.boolText b
  | .int n => toString n.toInt
  | .float x => withSeparator s.separator (x.text LiteralStyle.digits)
  | .decimal d => withSeparator s.separator d.text
  | .string t => quoted t
  | .enum name => quoted name
  | .bytes bs => bytesLiteral bs
  | .date d => quoted d.text
  | .time t => quoted t.hms
  | .timestamp t => quoted t.textMillis
  | .array items =>
    let parts := literals s.nested items
    if s.membership then Text.join ", " parts
    else if parts.isEmpty then emptyArray none
    else "ARRAY[" ++ Text.join ", " parts ++ "]"
  | .map entries => "MAP(" ++ Text.join ", " (entryLiterals s.nested entries) ++ ")"
  | .struct fields => "STRUCT(" ++ Text.join ", " (fieldLiterals s.nested fields) ++ ")"
termination_by structural v => v
def literals (s : LiteralStyle) : List Value → List String
  | [] => []
  | v :: vs => v.literal s :: literals s vs
termination_by structural vs => vs
def entryLiterals (s : LiteralStyle) : List (Value × Value) → List String
  | [] => []
  | (k, v) :: es => (k.literal s ++ " := " ++ v.literal s) :: entryLiterals s es
termination_by structural es => es
def fieldLiterals (s : LiteralStyle) : List (String × Value) → List String
  | [] => []
  | (k, v) :: fs => (k ++ " := " ++ v.literal s) :: fieldLiterals s fs
termination_by structural fs => fs
end

variable (s : LiteralStyle)

theorem literals_eq_map (vs : List Value) : literals s vs = vs.map (literal s) := by
  induction vs with
  | nil => rfl
  | cons v vs ih => rw [literals, ih, List.map_cons]

theorem entryLiterals_eq_map (es : List (Value × Value)) :
    entryLiterals s es = es.map fun e => e.1.literal s ++ " := " ++ e.2.literal s := by
  induction es with
  | nil => rfl
  | cons e es ih => rw [entryLiterals, ih, List.map_cons]

theorem fieldLiterals_eq_map (fs : List (String × Value)) :
    fieldLiterals s fs = fs.map fun f => f.1 ++ " := " ++ f.2.literal s := by
  induction fs with
  | nil => rfl
  | cons f fs ih => rw [fieldLiterals, ih, List.map_cons]

end Value
end StreamSql
