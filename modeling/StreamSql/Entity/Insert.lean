import StreamSql.Expr.Compile
import StreamSql.Naming

namespace StreamSql

structure InsertProperties where
  entityName : Option String
  pluralize : Bool
  decimalSeparator : Char
deriving DecidableEq

namespace InsertProperties

def standard : InsertProperties := ⟨none, true, '.'⟩

def style (p : InsertProperties) : LiteralStyle := ⟨true, false, p.decimalSeparator⟩

def resolveName (p : InsertProperties) (typeName : String) : String :=
  Naming.entityName p.pluralize (p.entityName.getD typeName)

end InsertProperties

namespace Insert

def valueOf? (wireName name : String) (fields : List (String × Json)) : Option Json :=
  (Json.find? wireName fields).orElse fun _ => Json.find? name fields

def byte? (j : Json) : Option UInt8 := do
  some (.ofNat (← (← j.number?).toNat? 256))

def bytes? : List Json → Option (List UInt8)
  | [] => some []
  | j :: js => do
    let b ← byte? j
    let bs ← bytes? js
    some (b :: bs)

def isInt64 (s : String) : Bool :=
  let (sign, ds) : Int × List Char := match s.toList with
    | '-' :: ds => (-1, ds)
    | '+' :: ds => (1, ds)
    | ds => (1, ds)
  let n := sign * (Text.ofDigits ds : Nat)
  ds ≠ [] && ds.all Char.isDigit && -0x8000000000000000 ≤ n && n < 0x8000000000000000

def scalar? (style : LiteralStyle) : TypeKind → Json → Option String
  | .int, .number n | .bigInt, .number n =>
    match n.toInt64? with
    | some i => some ((Value.int i).literal style)
    | none => some n.text
  | .double, .number n => some ((Value.float n.toDouble).literal style)
  | .decimal _ _, .number n => some (withSeparator style.separator n.text)
  | .decimal _ _, .string s => some (withSeparator style.separator s)
  | .boolean, .bool b => some ((Value.bool b).literal style)
  | .string, .string s | .date, .string s | .time, .string s | .timestamp, .string s =>
    some ((Value.string s).literal style)
  | .int, .string s | .bigInt, .string s => if isInt64 s then some s else none
  | _, _ => none

def itemLiterals (literal : Json → Compiled) : List Json → Compiled (List String)
  | [] => .ok []
  | j :: js => do
    let t ← literal j
    let ts ← itemLiterals literal js
    .ok (t :: ts)

def entryLiterals (key value : Json → Compiled) : List (String × Json) → Compiled (List String)
  | [] => .ok []
  | (k, j) :: ms => do
    let k ← key (.string k)
    let t ← value j
    let ts ← entryLiterals key value ms
    .ok ((k ++ " := " ++ t) :: ts)

mutual
def literal (style : LiteralStyle) : TypeKind → Json → Compiled
  | _, .null => .ok "NULL"
  | .bytes, .array items =>
    match bytes? items with
    | some bs => .ok ((Value.bytes bs).literal style)
    | none => invalid .byteRange
  | .array element, .array items =>
    if items.isEmpty then .ok (emptyArray (some element))
    else do .ok ("ARRAY[" ++ Text.join ", " (← itemLiterals (literal style element) items) ++ "]")
  | .map key value, .object ms => do
    .ok ("MAP(" ++
      Text.join ", " (← entryLiterals (literal style key) (literal style value) ms) ++ ")")
  | .struct fields, .object ms => do
    .ok ("STRUCT(" ++ Text.join ", " (← fieldLiterals style fields ms) ++ ")")
  | kind, j =>
    match scalar? style kind j with
    | some t => .ok t
    | none => invalid (.misfit j kind)
termination_by structural k => k
def fieldLiterals (style : LiteralStyle) : List Column → List (String × Json) → Compiled (List String)
  | [], _ => .ok []
  | ⟨name, rename, kind, _, _⟩ :: cs, ms =>
    match valueOf? (rename.getD name) name ms with
    | none => fieldLiterals style cs ms
    | some j => do
      let t ← literal style kind j
      let ts ← fieldLiterals style cs ms
      .ok ((rename.getD name ++ " := " ++ t) :: ts)
termination_by structural cs => cs
end

def assignments (style : LiteralStyle) (fields : List (String × Json)) :
    List Column → Compiled (List (String × String))
  | [] => .ok []
  | c :: cs =>
    match valueOf? c.wireName c.name fields with
    | none => assignments style fields cs
    | some j => do
      let t ← literal style c.kind j
      let ts ← assignments style fields cs
      .ok ((c.wireName, t) :: ts)

end Insert

def insertStatement (schema : Schema) (row : Json) (p : InsertProperties) : Compiled :=
  match row with
  | .object fields => do
    let values ← Insert.assignments p.style fields schema.columns
    if values.isEmpty then invalid (.nothingToInsert schema.name)
    else
      .ok ("INSERT INTO " ++ p.resolveName schema.name ++
        " (" ++ Text.join ", " (values.map (·.1)) ++
        ") VALUES (" ++ Text.join ", " (values.map (·.2)) ++ ");")
  | _ => invalid (.notAnObject schema.name)

end StreamSql
