import StreamSql.Double.Basic
import StreamSql.Decimal
import StreamSql.Calendar

namespace StreamSql

/-- What a constant holds. A `float` is a finite number: the not-a-number value and the infinities of
binary64 are left out. -/
inductive Value
  | null
  | bool (b : Bool)
  | int (n : Int64)
  | float (x : Double)
  | decimal (d : Decimal)
  | string (s : String)
  | bytes (bs : List UInt8)
  | date (d : Date)
  | time (t : ClockTime)
  | timestamp (t : Timestamp)
  | enum (name : String)
  | array (items : List Value)
  | map (entries : List (Value × Value))
  | struct (fields : List (String × Value))

instance : Inhabited Value := ⟨.null⟩

namespace Value

def isNull : Value → Bool
  | .null => true
  | _ => false

def findField? (name : String) : List (String × Value) → Option Value
  | [] => none
  | (n, v) :: fs => if n = name then some v else findField? name fs

def field? (name : String) : Value → Option Value
  | .struct fields => findField? name fields
  | _ => none

mutual
/-- Equality of values, numbers being compared as numbers. -/
def same : Value → Value → Bool
  | .null, .null => true
  | .bool a, .bool b => a == b
  | .int m, .int n => m == n
  | .float x, .float y => x.same y
  | .decimal x, .decimal y => x.same y
  | .string s, .string t => s == t
  | .bytes bs, .bytes cs => bs == cs
  | .date a, .date b => a == b
  | .time a, .time b => a == b
  | .timestamp a, .timestamp b => a == b
  | .enum a, .enum b => a == b
  | .array vs, .array ws => sameItems vs ws
  | .map vs, .map ws => sameEntries vs ws
  | .struct vs, .struct ws => sameFields vs ws
  | _, _ => false
termination_by structural v => v
def sameItems : List Value → List Value → Bool
  | [], [] => true
  | v :: vs, w :: ws => v.same w && sameItems vs ws
  | _, _ => false
termination_by structural vs => vs
def sameEntries : List (Value × Value) → List (Value × Value) → Bool
  | [], [] => true
  | (k, v) :: vs, (l, w) :: ws => k.same l && v.same w && sameEntries vs ws
  | _, _ => false
termination_by structural vs => vs
def sameFields : List (String × Value) → List (String × Value) → Bool
  | [], [] => true
  | (k, v) :: vs, (l, w) :: ws => k == l && v.same w && sameFields vs ws
  | _, _ => false
termination_by structural vs => vs
end

def findValue? (key : Value) : List (Value × Value) → Option Value
  | [] => none
  | (k, v) :: es => if k.same key then some v else findValue? key es

def at? : Value → Value → Option Value
  | .array items, .int i => if i < 0 then none else items[i.toInt.toNat]?
  | .map entries, key => findValue? key entries
  | _, _ => none

end Value

inductive SortOrder
  | asc
  | desc
deriving DecidableEq

def SortOrder.text : SortOrder → String
  | .asc => "ASC"
  | .desc => "DESC"

class ToValue (α : Type) where
  toValue : α → Value

export ToValue (toValue)

instance : ToValue Value := ⟨id⟩
instance : ToValue Bool := ⟨.bool⟩
instance : ToValue Int32 := ⟨fun n => .int n.toInt64⟩
instance : ToValue Int64 := ⟨.int⟩
instance : ToValue UInt32 := ⟨fun n => .int (.ofNat n.toNat)⟩
instance : ToValue Double := ⟨.float⟩
instance : ToValue Decimal := ⟨.decimal⟩
instance : ToValue String := ⟨.string⟩
instance : ToValue Date := ⟨.date⟩
instance : ToValue ClockTime := ⟨.time⟩
instance : ToValue Timestamp := ⟨.timestamp⟩
instance : ToValue SortOrder := ⟨fun o => .enum o.text⟩

instance {α : Type} [ToValue α] : ToValue (List α) := ⟨fun xs => .array (xs.map toValue)⟩

instance {α : Type} [ToValue α] : ToValue (Option α) where
  toValue
    | some a => toValue a
    | none => .null

def Value.ofFields {α : Type} [ToValue α] (fields : List (String × α)) : Value :=
  .struct (fields.map fun (k, v) => (k, toValue v))

def Value.ofEntries {α β : Type} [ToValue α] [ToValue β] (entries : List (α × β)) : Value :=
  .map (entries.map fun (k, v) => (toValue k, toValue v))

end StreamSql
