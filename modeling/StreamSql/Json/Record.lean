import StreamSql.Json.Basic

/-!
JSON forms of data. A record is an object with a member per field; it is also read from the list of
its fields in order. A choice is the name of the case, or an object whose only member is the case
with its data. Where the data are fields, the list of them is read from texts only.
-/

namespace StreamSql.Json

/-- A field of a record: given, left out of an object, or past the end of a list. -/
inductive Slot
  | given (j : Json)
  | omitted
  | beyond

abbrev Fields := List (String × Slot)

def slot? (ms : List (String × Json)) (name : String) : Option Slot :=
  match ms.filter (·.1 = name) with
  | [] => some .omitted
  | [(_, j)] => some (.given j)
  | _ => none

def positional : List String → List Json → Option Fields
  | [], [] => some []
  | [], _ :: _ => none
  | n :: ns, [] => (positional ns []).map ((n, .beyond) :: ·)
  | n :: ns, j :: js => (positional ns js).map ((n, .given j) :: ·)

def byName (ms : List (String × Json)) : List String → Option Fields
  | [] => some []
  | n :: ns => do
    let s ← slot? ms n
    let fs ← byName ms ns
    some ((n, s) :: fs)

def fields? (names : List String) : Json → Option Fields
  | .object ms => byName ms names
  | .array items => positional names items
  | _ => none

inductive Origin
  | text
  | data
deriving DecidableEq

def caseFields? (o : Origin) (names : List String) : Json → Option Fields
  | .array items => if o = .text then positional names items else none
  | j => j.fields? names

namespace Fields

def get (fs : Fields) (name : String) : Slot := (fs.lookup name).getD .omitted

variable {α : Type} (fs : Fields) (name : String) (read : Json → Option α)

def required : Option α :=
  match fs.get name with
  | .given j => read j
  | _ => none

def orElse (default : α) : Option α :=
  match fs.get name with
  | .given j => read j
  | _ => some default

end Fields

def nullable? {α : Type} (read : Json → Option α) : Json → Option (Option α)
  | .null => some none
  | j => (read j).map some

namespace Fields

def optional {α : Type} (fs : Fields) (name : String) (read : Json → Option α) :
    Option (Option α) :=
  fs.orElse name (nullable? read) none

def nullable {α : Type} (fs : Fields) (name : String) (read : Json → Option α) :
    Option (Option α) :=
  match fs.get name with
  | .given j => nullable? read j
  | .omitted => some none
  | .beyond => none

end Fields

def case? : Json → Option (String × Option Json)
  | .string s => some (s, none)
  | .object [(s, j)] => some (s, some j)
  | _ => none

def choice? {α : Type} (all : List α) (tag : α → String) (j : Json) : Option α := do
  match ← j.case? with
  | (s, none) => all.find? (tag · = s)
  | (s, some .null) => all.find? (tag · = s)
  | _ => none

def list? {α : Type} (read : Json → Option α) : Json → Option (List α)
  | .array items => items.mapM read
  | _ => none

def pair? {α β : Type} (read : Json → Option α) (read' : Json → Option β) : Json → Option (α × β)
  | .array [a, b] => do some (← read a, ← read' b)
  | _ => none

def int64? (j : Json) : Option Int64 := j.number?.bind (·.toInt64?)

def int32? (j : Json) : Option Int32 := do
  let n ← (← j.number?).toInt?
  if -0x80000000 ≤ n && n < 0x80000000 then some (.ofInt n) else none

def uint64? (j : Json) : Option UInt64 := do
  some (.ofNat (← (← j.number?).toNat? 0x10000000000000000))

def uint32? (j : Json) : Option UInt32 := do some (.ofNat (← (← j.number?).toNat? 0x100000000))

def uint8? (j : Json) : Option UInt8 := do some (.ofNat (← (← j.number?).toNat? 0x100))

def double? (j : Json) : Option Double := j.number?.map (·.toDouble)

def char? (j : Json) : Option Char := do
  match (← j.string?).toList with
  | [c] => some c
  | _ => none

def ofInt64 (n : Int64) : Json := .number (.ofInt64 n)
def ofUInt64 (n : UInt64) : Json := .number (.ofUInt64 n)
def ofUInt32 (n : UInt32) : Json := .number (.ofUInt32 n)
def ofUInt8 (n : UInt8) : Json := .number (.ofUInt8 n)
def ofDouble (x : Double) : Json := .number (.double x)
def ofChar (c : Char) : Json := .string (.singleton c)

def ofOption {α : Type} (write : α → Json) : Option α → Json
  | some a => write a
  | none => .null

def ofList {α : Type} (write : α → Json) (xs : List α) : Json := .array (xs.map write)

def tagged (tag : String) (j : Json) : Json := .object [(tag, j)]

end StreamSql.Json
