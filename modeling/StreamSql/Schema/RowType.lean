import StreamSql.Schema

namespace StreamSql

inductive FieldType
  | octet
  | int
  | long
  | floating
  | boolean
  | text
  | decimal
  | date
  | time
  | timestamp
  | optional (t : FieldType)
  /-- A list; one of octets is a column of bytes. -/
  | list (t : FieldType)
  /-- An array of fixed length, a queue or a set. -/
  | collection (t : FieldType)
  | map (key value : FieldType)
  | record (s : Schema)

structure Field where
  name : String
  type : FieldType
  rename : Option String := none
  key : KeyRole := .none
  decimal : Option (UInt8 × UInt8) := none
  skip : Bool := false

/-- The kind of column for a type. Decimals need a precision and a scale, and are no keys of maps. -/
def FieldType.kind? (decimal : Option (UInt8 × UInt8)) : FieldType → Option TypeKind
  | .octet | .int => some .int
  | .long => some .bigInt
  | .floating => some .double
  | .boolean => some .boolean
  | .text => some .string
  | .decimal => decimal.map fun (precision, scale) => .decimal precision scale
  | .date => some .date
  | .time => some .time
  | .timestamp => some .timestamp
  | .optional t => t.kind? decimal
  | .list .octet => some .bytes
  | .list t | .collection t => (t.kind? decimal).map .array
  | .map key value => do return .map (← key.kind? none) (← value.kind? decimal)
  | .record s => some (.struct s.columns)

namespace Field

def isOptional (f : Field) : Bool :=
  match f.type with
  | .optional _ => true
  | _ => false

def column? (f : Field) : Option Column := do
  return ⟨f.name, f.rename, ← f.type.kind? f.decimal, f.isOptional, f.key⟩

end Field

def columnsOf? : List Field → Option (List Column)
  | [] => some []
  | f :: fs => if f.skip then columnsOf? fs else do return (← f.column?) :: (← columnsOf? fs)

def Schema.ofFields? (name : String) (fields : List Field) : Option Schema := do
  return ⟨name, ← columnsOf? fields⟩

end StreamSql
