import StreamSql.Double.Basic

/-!
JSON values. A value read from a text keeps its object members as they were written, and holds a mark
in place of what is well formed but out of range, so that a member that nobody asks for does no harm.
`Json.normal` gives the value that generic data has, where members are sorted by name and the last of
equal names counts.
-/

namespace StreamSql

inductive Number
  | whole (n : Int) (fits : -0x8000000000000000 ≤ n ∧ n < 0x10000000000000000)
  | double (x : Double)
deriving DecidableEq

inductive Json
  | null
  | bool (b : Bool)
  | number (n : Number)
  | string (s : String)
  | array (items : List Json)
  | object (members : List (String × Json))
  /-- A number past the range of binary64, a string with half a surrogate pair, an object with such a
  name, or what is nested too deep. -/
  | outOfRange

namespace Number

def whole? (n : Int) : Option Number :=
  if h : -0x8000000000000000 ≤ n ∧ n < 0x10000000000000000 then some (.whole n h) else none

def ofInt64 (n : Int64) : Number :=
  .whole n.toInt ⟨Int64.le_toInt n, by have := Int64.toInt_lt n; omega⟩

def ofUInt64 (n : UInt64) : Number :=
  .whole n.toNat ⟨by omega, by have := n.toNat_lt; omega⟩

def ofUInt32 (n : UInt32) : Number :=
  .whole n.toNat ⟨by omega, by have := n.toNat_lt; omega⟩

def ofUInt8 (n : UInt8) : Number :=
  .whole n.toNat ⟨by omega, by have := n.toNat_lt; omega⟩

def toInt? : Number → Option Int
  | .whole n _ => some n
  | .double _ => none

def toInt64? (n : Number) : Option Int64 := do
  let i ← n.toInt?
  if i < 0x8000000000000000 then some (.ofInt i) else none

def toNat? (bound : Nat) (n : Number) : Option Nat := do
  let i ← n.toInt?
  if 0 ≤ i && i < bound then some i.toNat else none

def toDouble : Number → Double
  | .whole n _ => .ofInt n
  | .double x => x

end Number

namespace Json

def insert {α : Type} (k : String) (v : α) : List (String × α) → List (String × α)
  | [] => [(k, v)]
  | (l, w) :: ms =>
    if k < l then (k, v) :: (l, w) :: ms
    else if k = l then (k, v) :: ms
    else (l, w) :: insert k v ms

/-- The members sorted by name, the last of equal names kept. -/
def sorted {α : Type} (ms : List (String × α)) : List (String × α) :=
  ms.foldl (fun acc m => insert m.1 m.2 acc) []

def record (ms : List (String × Json)) : Json := .object (sorted ms)

mutual
def normal : Json → Json
  | .array items => .array (normalItems items)
  | .object ms => record (normalMembers ms)
  | .outOfRange => .null
  | j => j
termination_by structural j => j
def normalItems : List Json → List Json
  | [] => []
  | j :: js => j.normal :: normalItems js
termination_by structural js => js
def normalMembers : List (String × Json) → List (String × Json)
  | [] => []
  | (k, j) :: ms => (k, j.normal) :: normalMembers ms
termination_by structural ms => ms
end

def find? (k : String) : List (String × Json) → Option Json
  | [] => none
  | (l, j) :: ms => if l = k then some j else find? k ms

mutual
def depth : Json → Nat
  | .array items => depthItems items + 1
  | .object ms => depthMembers ms + 1
  | _ => 0
termination_by structural j => j
def depthItems : List Json → Nat
  | [] => 0
  | j :: js => max j.depth (depthItems js)
termination_by structural js => js
def depthMembers : List (String × Json) → Nat
  | [] => 0
  | (_, j) :: ms => max j.depth (depthMembers ms)
termination_by structural ms => ms
end

mutual
def inRange : Json → Bool
  | .array items => inRangeItems items
  | .object ms => inRangeMembers ms
  | .outOfRange => false
  | _ => true
termination_by structural j => j
def inRangeItems : List Json → Bool
  | [] => true
  | j :: js => j.inRange && inRangeItems js
termination_by structural js => js
def inRangeMembers : List (String × Json) → Bool
  | [] => true
  | (_, j) :: ms => j.inRange && inRangeMembers ms
termination_by structural ms => ms
end

def string? : Json → Option String
  | .string s => some s
  | _ => none

def bool? : Json → Option Bool
  | .bool b => some b
  | _ => none

def number? : Json → Option Number
  | .number n => some n
  | _ => none

def array? : Json → Option (List Json)
  | .array items => some items
  | _ => none

def object? : Json → Option (List (String × Json))
  | .object ms => some ms
  | _ => none

end Json
end StreamSql
