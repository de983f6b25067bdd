import Mathlib.Data.String.Basic
import StreamSql.Json.Record
import StreamSql.Proofs.Value.Moment

namespace StreamSql.Value

def isKey : Value → Bool
  | .string _ | .int _ | .date _ | .time _ | .timestamp _ => true
  | _ => false

def keyText : Value → String
  | .string s => s
  | .int n => toString n.toInt
  | .date d => d.text
  | .time t => t.text
  | .timestamp t => t.text
  | _ => ""

mutual
def data : Value → Json
  | .null => .null
  | .bool b => .bool b
  | .int n => .ofInt64 n
  | .float x => .ofDouble x
  | .decimal d => .string d.text
  | .string s | .enum s => .string s
  | .bytes bs => .ofList .ofUInt8 bs
  | .date d => .string d.text
  | .time t => .string t.text
  | .timestamp t => .string t.text
  | .array items => .array (itemsData items)
  | .map entries => .record (entriesData entries)
  | .struct fields => .record (fieldsData fields)
termination_by structural v => v
def itemsData : List Value → List Json
  | [] => []
  | v :: vs => v.data :: itemsData vs
termination_by structural vs => vs
def entriesData : List (Value × Value) → List (String × Json)
  | [] => []
  | (k, v) :: es => (k.keyText, v.data) :: entriesData es
termination_by structural es => es
def fieldsData : List (String × Value) → List (String × Json)
  | [] => []
  | (n, v) :: fs => (n, v.data) :: fieldsData fs
termination_by structural fs => fs
end

theorem itemsData_eq_map (vs : List Value) : itemsData vs = vs.map data := by
  induction vs with
  | nil => rfl
  | cons v vs ih => rw [itemsData, ih, List.map_cons]

theorem entriesData_eq_map (es : List (Value × Value)) :
    entriesData es = es.map fun e => (e.1.keyText, e.2.data) := by
  induction es with
  | nil => rfl
  | cons e es ih => rw [entriesData, ih, List.map_cons]

theorem fieldsData_eq_map (fs : List (String × Value)) :
    fieldsData fs = fs.map fun f => (f.1, f.2.data) := by
  induction fs with
  | nil => rfl
  | cons f fs ih => rw [fieldsData, ih, List.map_cons]

inductive ScalarOf : TypeKind → Value → Prop
  | null {kind} : ScalarOf kind .null
  | int {n} : ScalarOf .int (.int n)
  | bigInt {n} : ScalarOf .bigInt (.int n)
  | double {x} : ScalarOf .double (.float x)
  | decimal {precision scale d} : ScalarOf (.decimal precision scale) (.decimal d)
  | boolean {b} : ScalarOf .boolean (.bool b)
  | string {s} : ScalarOf .string (.string s)
  | bytes {bs} : ScalarOf .bytes (.bytes bs)

inductive LeafOf : TypeKind → Value → Prop
  | scalar {kind v} : ScalarOf kind v → LeafOf kind v
  | moment {m : Moment} : m.IsOrdinary → LeafOf m.kind m.value
  | empty {element} : LeafOf (.array element) (.array [])

def InOrder (names : List String) : Prop := names.Pairwise (· < ·)

instance (names : List String) : Decidable (InOrder names) :=
  inferInstanceAs (Decidable (names.Pairwise (· < ·)))

/-- The values of a kind over the given leaves, with maps whose keys have names as `Keys` says. A
structure has a value for each of its fields, which differ in their names. -/
inductive HasKind (Leaf : TypeKind → Value → Prop) (Keys : List String → Prop) : TypeKind → Value → Prop
  | leaf {kind v} : Leaf kind v → HasKind Leaf Keys kind v
  | array {element items} : items ≠ [] → (∀ v ∈ items, HasKind Leaf Keys element v) →
    HasKind Leaf Keys (.array element) (.array items)
  | map {key value entries} : (∀ e ∈ entries, e.1.isKey = true ∧ Leaf key e.1) →
    (∀ e ∈ entries, HasKind Leaf Keys value e.2) → Keys (entries.map (·.1.keyText)) →
    HasKind Leaf Keys (.map key value) (.map entries)
  | struct {members : List (Column × Value)} : (members.map (·.1.wireName)).Nodup →
    (∀ m ∈ members, HasKind Leaf Keys m.1.kind m.2) →
    HasKind Leaf Keys (.struct (members.map (·.1)))
      (.struct (members.map fun m => (m.1.wireName, m.2)))

theorem HasKind.mono {Leaf Leaf' : TypeKind → Value → Prop} {Keys Keys' : List String → Prop}
    (leaf : ∀ {kind v}, Leaf kind v → Leaf' kind v) (keys : ∀ {names}, Keys names → Keys' names)
    {kind : TypeKind} {v : Value} (h : HasKind Leaf Keys kind v) : HasKind Leaf' Keys' kind v := by
  induction h with
  | leaf h => exact .leaf (leaf h)
  | array some _ ih => exact .array some ih
  | map parts _ names ih =>
    exact .map (fun e mem => ⟨(parts e mem).1, leaf (parts e mem).2⟩) ih (keys names)
  | struct nodup _ ih => exact .struct nodup ih

end StreamSql.Value
