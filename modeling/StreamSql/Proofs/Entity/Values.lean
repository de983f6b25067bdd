import StreamSql.Proofs.Entity.Shape
import StreamSql.Proofs.Json.Members
import StreamSql.Proofs.Json.Record
import StreamSql.Proofs.Value.Kind

namespace StreamSql.Value

open Text (Template)

/-- A value that has a place in a literal, with its kind and the data that stand for it. -/
structure Part where
  kind : TypeKind
  value : Value
  data : Json

namespace Part

def ofValue (kind : TypeKind) (v : Value) : Part := ⟨kind, v, v.data⟩

def ofKey (kind : TypeKind) (v : Value) : Part := ⟨kind, v, .string v.keyText⟩

def leaf (p : Part) : Insert.Leaf := (p.kind, p.data)

def inserted (style : LiteralStyle) (p : Part) : Compiled := Insert.literal style p.kind p.data

end Part

inductive IsPart (Leaf : TypeKind → Value → Prop) : Part → Prop
  | value {kind v} : Leaf kind v → IsPart Leaf (.ofValue kind v)
  | key {kind v} : v.isKey = true → Leaf kind v → IsPart Leaf (.ofKey kind v)

mutual
def shape : TypeKind → Value → Template Part
  | .array element, .array (v :: vs) => Template.enclosed "ARRAY[" ((v :: vs).map (shape element)) "]"
  | .map key value, .map entries =>
    Template.enclosed "MAP("
      (entries.map fun e => .inr (.ofKey key e.1) :: .inl " := " :: shape value e.2) ")"
  | .struct columns, .struct fields => Template.enclosed "STRUCT(" (fieldShapes columns fields) ")"
  | kind, v => [.inr (.ofValue kind v)]
termination_by structural k => k
def fieldShapes : List Column → List (String × Value) → List (Template Part)
  | ⟨_, _, kind, _, _⟩ :: cs, f :: fs => (.inl (f.1 ++ " := ") :: shape kind f.2) :: fieldShapes cs fs
  | _, _ => []
termination_by structural cs => cs
end

/-- The template of a literal in a query: in a membership test, the items of an array stand without
brackets. -/
def writtenShape (membership : Bool) (kind : TypeKind) (v : Value) : Template Part :=
  match membership, v, kind with
  | true, .array items, .array element => [.inl ", "].intercalate (items.map (shape element))
  | _, _, _ => shape kind v

theorem fieldShapes_eq_map (members : List (Column × Value)) :
    fieldShapes (members.map (·.1)) (members.map fun m => (m.1.wireName, m.2)) =
      members.map fun m => .inl (m.1.wireName ++ " := ") :: shape m.1.kind m.2 := by
  induction members with
  | nil => rfl
  | cons m members ih =>
    obtain ⟨⟨name, rename, kind, _, _⟩, v⟩ := m
    rw [List.map_cons, List.map_cons, fieldShapes, ih, List.map_cons]

section

variable {kind : TypeKind} {v : Value} {Leaf : TypeKind → Value → Prop} {Keys : List String → Prop}

theorem LeafOf.shape_eq (h : LeafOf kind v) : shape kind v = [.inr (.ofValue kind v)] := by
  cases h with
  | scalar h =>
    cases h with
    | null => cases kind <;> rfl
    | _ => rfl
  | @moment m _ => cases m <;> rfl
  | empty => rfl

theorem LeafOf.shape_data (h : LeafOf kind v) : Insert.shape kind v.data = [.inr (kind, v.data)] := by
  cases h with
  | scalar h =>
    cases h with
    | null => cases kind <;> rfl
    | _ => rfl
  | @moment m _ => cases m <;> rfl
  | empty => rfl

theorem HasKind.literal_eq_fill (h : HasKind LeafOf Keys kind v) {s : LiteralStyle}
    (bare : s.membership = false) : v.literal s = (shape kind v).fill fun p => p.value.literal s := by
  have nested : s.nested = s := by rw [LiteralStyle.nested, ← bare]
  induction h with
  | leaf h => simp [h.shape_eq, Template.fill, Part.ofValue]
  | @array element items some _ ih =>
    obtain ⟨v, vs, rfl⟩ := List.exists_cons_of_ne_nil some
    have texts : (v :: vs).map (literal s) =
        (v :: vs).map fun v => (shape element v).fill fun p => p.value.literal s :=
      List.map_congr_left ih
    rw [shape, Template.fill_enclosed, List.map_map, literal, nested, literals_eq_map, texts]
    simp [bare, Function.comp_def]
  | @map key value entries _ _ _ ih =>
    have texts : (entries.map fun e => e.1.literal s ++ " := " ++ e.2.literal s) = entries.map fun e =>
        Template.fill (fun p : Part => p.value.literal s)
          (.inr (.ofKey key e.1) :: .inl " := " :: shape value e.2) := by
      refine List.map_congr_left fun e mem => ?_
      simp only [Template.fill, Part.ofKey, ← ih e mem, String.append_assoc]
    rw [shape, Template.fill_enclosed, List.map_map, literal, nested, entryLiterals_eq_map, texts]
    rfl
  | @struct members _ _ ih =>
    have texts : (members.map fun m => m.1.wireName ++ " := " ++ m.2.literal s) = members.map fun m =>
        Template.fill (fun p : Part => p.value.literal s)
          (.inl (m.1.wireName ++ " := ") :: shape m.1.kind m.2) := by
      refine List.map_congr_left fun m mem => ?_
      simp only [Template.fill, ← ih m mem]
    rw [shape, fieldShapes_eq_map, Template.fill_enclosed, List.map_map, literal, nested,
      fieldLiterals_eq_map, List.map_map]
    simp only [Function.comp_def, texts]

theorem valueOf?_sorted {members : List (Column × Value)} (nodup : (members.map (·.1.wireName)).Nodup)
    {m : Column × Value} (mem : m ∈ members) :
    Insert.valueOf? m.1.wireName m.1.name
      (Json.sorted (members.map fun m => (m.1.wireName, m.2.data))) = some m.2.data := by
  have among : (m.1.wireName, m.2.data) ∈ members.map fun m => (m.1.wireName, m.2.data) :=
    List.mem_map_of_mem mem
  rw [Insert.valueOf?, Json.find?_sorted (by simpa [Function.comp_def] using nodup) among]
  rfl

theorem fieldShapes_data {members : List (Column × Value)}
    (nodup : (members.map (·.1.wireName)).Nodup) :
    Insert.fieldShapes (members.map (·.1))
        (Json.sorted (members.map fun m => (m.1.wireName, m.2.data))) =
      members.map fun m => .inl (m.1.wireName ++ " := ") :: Insert.shape m.1.kind m.2.data := by
  rw [Insert.fieldShapes_eq_filterMap, List.filterMap_map]
  refine (List.filterMap_congr fun m mem => ?_).trans (congrFun List.filterMap_eq_map members)
  exact congrArg (Option.map _) (valueOf?_sorted nodup mem)

theorem HasKind.shape_data (h : HasKind LeafOf InOrder kind v) :
    Insert.shape kind v.data = (shape kind v).map (Sum.map id Part.leaf) := by
  induction h with
  | leaf h => rw [h.shape_eq, h.shape_data]; rfl
  | @array element items some _ ih =>
    obtain ⟨v, vs, rfl⟩ := List.exists_cons_of_ne_nil some
    have parts : (v :: vs).map (fun v => Insert.shape element v.data) =
        (v :: vs).map fun v => (shape element v).map (Sum.map id Part.leaf) :=
      List.map_congr_left ih
    rw [data, itemsData_eq_map, List.map_cons, Insert.shape, ← List.map_cons, List.map_map, shape,
      Template.map_enclosed, List.map_map]
    exact congrArg (Template.enclosed "ARRAY[" · "]") parts
  | @map key value entries _ _ order ih =>
    have sorted : Json.sorted (entries.map fun e => (e.1.keyText, e.2.data)) =
        entries.map fun e => (e.1.keyText, e.2.data) :=
      Json.sorted_of_pairwise (by simpa [InOrder, List.pairwise_map] using order)
    have parts : (entries.map fun e =>
          (.inr (key, .string e.1.keyText) :: .inl " := " :: Insert.shape value e.2.data : Template _)) =
        entries.map fun e =>
          (.inr (.ofKey key e.1) :: .inl " := " :: shape value e.2 : Template Part).map
            (Sum.map id Part.leaf) := by
      refine List.map_congr_left fun e mem => ?_
      rw [ih e mem]
      rfl
    rw [data, Json.record, entriesData_eq_map, sorted, Insert.shape, List.map_map, shape,
      Template.map_enclosed, List.map_map]
    exact congrArg (Template.enclosed "MAP(" · ")") parts
  | @struct members nodup _ ih =>
    have parts : (members.map fun m =>
          (.inl (m.1.wireName ++ " := ") :: Insert.shape m.1.kind m.2.data : Template Insert.Leaf)) =
        members.map fun m =>
          (.inl (m.1.wireName ++ " := ") :: shape m.1.kind m.2 : Template Part).map
            (Sum.map id Part.leaf) := by
      refine List.map_congr_left fun m mem => ?_
      rw [ih m mem]
      rfl
    rw [data, Json.record, fieldsData_eq_map, List.map_map, Insert.shape]
    simp only [Function.comp_def]
    rw [fieldShapes_data nodup, shape, fieldShapes_eq_map, Template.map_enclosed, List.map_map]
    exact congrArg (Template.enclosed "STRUCT(" · ")") parts

theorem exists_mem_congr {α β : Type} {xs : List α} {P : α → Prop} {Q : α → β → Prop} {R : β → Prop}
    (h : ∀ x ∈ xs, (P x ↔ ∃ b, Q x b ∧ R b)) : (∃ x ∈ xs, P x) ↔ ∃ b, (∃ x ∈ xs, Q x b) ∧ R b := by
  constructor
  · rintro ⟨x, mem, holds⟩
    obtain ⟨b, related, last⟩ := (h x mem).1 holds
    exact ⟨b, ⟨x, mem, related⟩, last⟩
  · rintro ⟨b, ⟨x, mem, related⟩, last⟩
    exact ⟨x, mem, (h x mem).2 ⟨b, related, last⟩⟩

theorem HasKind.mem_shape_data (h : HasKind LeafOf List.Nodup kind v) {l : Insert.Leaf} :
    .inr l ∈ Insert.shape kind v.data ↔ ∃ p, .inr p ∈ shape kind v ∧ p.leaf = l := by
  induction h with
  | leaf h =>
    rw [h.shape_eq, h.shape_data]
    simp [Part.leaf, Part.ofValue, eq_comm]
  | @array element items some _ ih =>
    obtain ⟨v, vs, rfl⟩ := List.exists_cons_of_ne_nil some
    simp only [data, itemsData_eq_map, List.map_cons, Insert.shape]
    rw [← List.map_cons, ← List.map_cons, List.map_map, shape]
    simp only [Template.mem_enclosed_map]
    exact exists_mem_congr ih
  | @map key value entries _ _ nodup ih =>
    have kept : (Json.sorted (entries.map fun e => (e.1.keyText, e.2.data))).Perm
        (entries.map fun e => (e.1.keyText, e.2.data)) :=
      Json.sorted_perm (by simpa [Function.comp_def] using nodup)
    rw [data, Json.record, entriesData_eq_map, Insert.shape, shape]
    simp only [Template.mem_enclosed_map, kept.mem_iff, List.mem_map, exists_exists_and_eq_and]
    refine exists_mem_congr fun e mem => ?_
    simp only [List.mem_cons, ih e mem, reduceCtorEq, false_or, Sum.inr.injEq, or_and_right, exists_or,
      exists_eq_left]
    exact or_congr eq_comm .rfl
  | @struct members nodup _ ih =>
    rw [data, Json.record, fieldsData_eq_map, List.map_map, Insert.shape]
    simp only [Function.comp_def]
    rw [fieldShapes_data nodup, shape, fieldShapes_eq_map]
    simp only [Template.mem_enclosed_map]
    refine exists_mem_congr fun m mem => ?_
    simpa using ih m mem

theorem HasKind.insert_eq_fillM (h : HasKind LeafOf InOrder kind v) (style : LiteralStyle) :
    Insert.literal style kind v.data = (shape kind v).fillM (Part.inserted style) := by
  rw [Insert.literal_eq_fillM, h.shape_data, Template.fillM_map]
  rfl

theorem HasKind.isPart (le : ∀ {kind v}, Leaf kind v → LeafOf kind v) (h : HasKind Leaf Keys kind v)
    {p : Part} (mem : .inr p ∈ shape kind v) : IsPart Leaf p := by
  induction h with
  | leaf h =>
    rw [(le h).shape_eq, List.mem_singleton] at mem
    exact Sum.inr.inj mem ▸ .value h
  | @array element items some _ ih =>
    obtain ⟨v, vs, rfl⟩ := List.exists_cons_of_ne_nil some
    rw [shape, Template.mem_enclosed] at mem
    obtain ⟨T, among, inside⟩ := mem
    obtain ⟨w, item, rfl⟩ := List.mem_map.1 among
    exact ih w item inside
  | @map key value entries keys _ _ ih =>
    rw [shape, Template.mem_enclosed] at mem
    obtain ⟨T, among, inside⟩ := mem
    obtain ⟨e, entry, rfl⟩ := List.mem_map.1 among
    rcases List.mem_cons.1 inside with first | inside
    · exact Sum.inr.inj first ▸ .key (keys e entry).1 (keys e entry).2
    · exact ih e entry (by simpa using inside)
  | @struct members _ _ ih =>
    rw [shape, fieldShapes_eq_map, Template.mem_enclosed] at mem
    obtain ⟨T, among, inside⟩ := mem
    obtain ⟨m, member, rfl⟩ := List.mem_map.1 among
    exact ih m member (by simpa using inside)

theorem bytes?_ofUInt8 (bs : List UInt8) : Insert.bytes? (bs.map Json.ofUInt8) = some bs := by
  induction bs with
  | nil => rfl
  | cons b bs ih =>
    have first : Insert.byte? (Json.ofUInt8 b) = some b := Json.uint8?_ofUInt8 b
    rw [List.map_cons, Insert.bytes?, first, ih]
    rfl

theorem ScalarOf.inserted_ofValue (h : ScalarOf kind v) (style : LiteralStyle) :
    (Part.ofValue kind v).inserted style = .ok (v.literal style) := by
  cases h with
  | null => cases kind <;> rfl
  | @int n | @bigInt n =>
    have read : (Number.ofInt64 n).toInt64? = some n := Json.int64?_ofInt64 n
    simp [Part.inserted, Part.ofValue, data, Json.ofInt64, Insert.literal, Insert.scalar?, read]
  | @bytes bs =>
    simp [Part.inserted, Part.ofValue, data, Json.ofList, Insert.literal, bytes?_ofUInt8]
  | _ => rfl

theorem ScalarOf.inserted_ofKey (h : ScalarOf kind v) (key : v.isKey = true) (style : LiteralStyle) :
    (Part.ofKey kind v).inserted style = .ok (v.literal style) := by
  cases h with
  | @int n | @bigInt n =>
    simp only [Part.inserted, Part.ofKey, keyText, literal, Insert.literal, Insert.scalar?,
      Insert.isInt64_toInt, if_true]
  | string => rfl
  | _ => cases key

/-- An insertion writes the data of a value as a query writes the value. -/
theorem HasKind.insert_literal (h : HasKind ScalarOf InOrder kind v) (separator : Char) :
    Insert.literal ⟨true, false, separator⟩ kind v.data = .ok (v.literal ⟨true, false, separator⟩) := by
  have leaves := h.mono LeafOf.scalar id
  rw [leaves.insert_eq_fillM, leaves.literal_eq_fill rfl]
  refine Template.fillM_of_ok fun p mem => ?_
  cases h.isPart LeafOf.scalar mem with
  | value scalar => exact scalar.inserted_ofValue _
  | key key scalar => exact scalar.inserted_ofKey key _

end

private abbrev oneAndHalf : Decimal := ⟨false, 15, 1, by decide, by decide⟩

private abbrev priced : List (Column × Value) :=
  [(.ofKind "No" .bigInt, .int (-5)),
    ((Column.ofKind "Prices" (.map .int (.array (.decimal 4 2)))).renamed "prices",
      .map [(.int (-1), .array [.decimal oneAndHalf, .null]), (.int 7, .null)]),
    (.ofKind "Raw" .bytes, .bytes [10, 255])]

theorem HasKind.insert_literal_priced :
    HasKind ScalarOf InOrder (.struct (priced.map (·.1))) (.struct (priced.map fun m => (m.1.wireName, m.2))) ∧
      Insert.literal ⟨true, false, ','⟩ (.struct (priced.map (·.1)))
          (Value.struct (priced.map fun m => (m.1.wireName, m.2))).data =
        .ok ("STRUCT(No := -5, prices := MAP(-1 := ARRAY[1,5, NULL], 7 := NULL), " ++
          "Raw := TO_BYTES('0aff', 'hex'))") := by
  have prices : HasKind ScalarOf InOrder (.map .int (.array (.decimal 4 2)))
      (.map [(.int (-1), .array [.decimal oneAndHalf, .null]), (.int 7, .null)]) := by
    refine .map ?_ ?_ (by decide)
    · simp [isKey, ScalarOf.int]
    · simp only [List.forall_mem_cons]
      refine ⟨.array (by simp) ?_, .leaf .null, by simp⟩
      simpa using ⟨HasKind.leaf .decimal, HasKind.leaf .null⟩
  have row : HasKind ScalarOf InOrder (.struct (priced.map (·.1)))
      (.struct (priced.map fun m => (m.1.wireName, m.2))) := by
    refine .struct (by decide) ?_
    simp only [List.forall_mem_cons]
    exact ⟨.leaf .bigInt, prices, .leaf .bytes, by simp⟩
  exact ⟨row, (row.insert_literal ',').trans (congrArg Except.ok (by decide))⟩

end StreamSql.Value
