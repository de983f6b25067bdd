import StreamSql.Proofs.Entity.Values

namespace StreamSql.Value

open Text (Template)

section

variable {kind : TypeKind} {v : Value} {p : Part} {m : Moment} {Keys : List String → Prop}

theorem LeafOf.of_array {items : List Value} (h : LeafOf kind (.array items)) :
    ∃ element, kind = .array element ∧ items = [] := by
  generalize e : Value.array items = v at h
  cases h with
  | scalar h => cases h <;> cases e
  | @moment m _ => cases m <;> cases e
  | @empty element =>
    cases e
    exact ⟨element, rfl, rfl⟩

theorem HasKind.of_array {items : List Value} (h : HasKind LeafOf Keys kind (.array items)) :
    ∃ element, kind = .array element ∧ ∀ v ∈ items, HasKind LeafOf Keys element v := by
  cases h with
  | leaf h =>
    obtain ⟨element, rfl, rfl⟩ := h.of_array
    exact ⟨element, rfl, by simp⟩
  | @array element _ _ all => exact ⟨element, rfl, all⟩

theorem LeafOf.of_moment (h : LeafOf kind m.value) : kind = m.kind ∧ m.IsOrdinary := by
  generalize e : m.value = v at h
  cases h with
  | scalar h => cases h <;> cases m <;> cases e
  | @moment n ordinary =>
    obtain rfl : m = n := by cases m <;> cases n <;> cases e <;> rfl
    exact ⟨rfl, ordinary⟩
  | empty => cases m <;> cases e

theorem HasKind.literal_eq_fill_written (h : HasKind LeafOf Keys kind v) (s : LiteralStyle) :
    v.literal s = (writtenShape s.membership kind v).fill fun p => p.value.literal s.nested := by
  cases bare : s.membership with
  | false =>
    have same : s.nested = s := by rw [LiteralStyle.nested, ← bare]
    have shapes : writtenShape false kind v = shape kind v := by unfold writtenShape; split <;> trivial
    rw [same, shapes, h.literal_eq_fill bare]
  | true =>
    cases v with
    | array items =>
      obtain ⟨element, rfl, all⟩ := h.of_array
      have texts : items.map (literal s.nested) =
          items.map fun v => (shape element v).fill fun p => p.value.literal s.nested :=
        List.map_congr_left fun v mem => (all v mem).literal_eq_fill rfl
      simp only [writtenShape, Template.fill_intercalate, literal, bare, if_true, literals_eq_map,
        texts, List.map_map, Function.comp_def]
    | _ => exact (h.literal_eq_fill (s := s.nested) rfl)

theorem IsPart.inserted_moment (h : IsPart LeafOf p) (moment : p.value = m.value)
    (style : LiteralStyle) :
    p.kind = m.kind ∧ m.IsOrdinary ∧ p.inserted style = .ok (quoted m.text) := by
  cases h with
  | @value kind v leaf =>
    obtain rfl : v = m.value := moment
    obtain ⟨rfl, ordinary⟩ := leaf.of_moment
    exact ⟨rfl, ordinary, by cases m <;> rfl⟩
  | @key kind v _ leaf =>
    obtain rfl : v = m.value := moment
    obtain ⟨rfl, ordinary⟩ := leaf.of_moment
    exact ⟨rfl, ordinary, by cases m <;> rfl⟩

theorem IsPart.exists_inserted (h : IsPart LeafOf p) (style : LiteralStyle) :
    ∃ t, p.inserted style = .ok t := by
  cases h with
  | value leaf =>
    cases leaf with
    | scalar h => exact ⟨_, h.inserted_ofValue style⟩
    | @moment m _ => cases m <;> exact ⟨_, rfl⟩
    | empty => exact ⟨_, rfl⟩
  | key key leaf =>
    cases leaf with
    | scalar h => exact ⟨_, h.inserted_ofKey key style⟩
    | @moment m _ => cases m <;> exact ⟨_, rfl⟩
    | empty => cases key

/-- The places of an insertion are those of the query. What an insertion writes for a moment denotes it,
and what a query writes denotes the same to the millisecond, exactly if it is no time of day with
milliseconds. -/
theorem HasKind.moments (h : HasKind LeafOf List.Nodup kind v) (s style : LiteralStyle) :
    v.literal s = (writtenShape s.membership kind v).fill (fun p => p.value.literal s.nested) ∧
    ∃ g : Insert.Leaf → String,
      Insert.literal style kind v.data = .ok ((Insert.shape kind v.data).fill g) ∧
      (∀ l, .inr l ∈ Insert.shape kind v.data ↔ ∃ p, .inr p ∈ shape kind v ∧ p.leaf = l) ∧
      ∀ p m, .inr p ∈ shape kind v → p.value = Moment.value m →
        Moment.denoted? p.kind (g p.leaf) = some m ∧
        ∃ q, Moment.denoted? p.kind (p.value.literal s.nested) = some q ∧
          (q.toMillis = m.toMillis ↔ ¬ m.IsFractionalTime) := by
  refine ⟨h.literal_eq_fill_written s, ?_⟩
  have all : ∀ l, .inr l ∈ Insert.shape kind v.data → ∃ t, Insert.leafLiteral style l = .ok t := by
    intro l mem
    obtain ⟨p, place, rfl⟩ := h.mem_shape_data.1 mem
    exact (h.isPart id place).exists_inserted style
  choose! g texts using all
  refine ⟨g, ?_, fun _ => h.mem_shape_data, ?_⟩
  · rw [Insert.literal_eq_fillM]
    exact Template.fillM_of_ok texts
  · intro p m place moment
    obtain ⟨same, ordinary, text⟩ := (h.isPart id place).inserted_moment moment style
    have written : g p.leaf = quoted m.text :=
      Except.ok.inj ((texts p.leaf (h.mem_shape_data.2 ⟨p, place, rfl⟩)).symm.trans text)
    rw [same, moment, written]
    exact ⟨Moment.denoted?_text ordinary, Moment.denoted?_literal ordinary s.nested⟩

end

private abbrev quarterPast : ClockTime := ⟨10, 15, 0, 500000000, by decide, by decide, by decide, by decide⟩

private abbrev seen : Timestamp := ⟨⟨2021, 3, 4, by decide, by decide, by decide⟩, quarterPast⟩

theorem HasKind.moments_seen :
    ∃ g : Insert.Leaf → String,
      Insert.literal InsertProperties.standard.style (.array .timestamp)
          (Value.array [.timestamp seen]).data =
        .ok ("ARRAY[" ++ g (.timestamp, .string seen.text) ++ "]") ∧
      Moment.denoted? .timestamp (g (.timestamp, .string seen.text)) = some (.timestamp seen) ∧
      ∃ q, Moment.denoted? .timestamp ((Value.timestamp seen).literal .standard) = some q ∧
        q.toMillis = (Moment.timestamp seen).toMillis := by
  have leaf : HasKind LeafOf List.Nodup .timestamp (.timestamp seen) :=
    .leaf (.moment (m := .timestamp seen) (by decide))
  have all : HasKind LeafOf List.Nodup (.array .timestamp) (.array [.timestamp seen]) :=
    .array (by simp) (by simpa using leaf)
  obtain ⟨-, g, literal, -, denoted⟩ := HasKind.moments all .standard InsertProperties.standard.style
  obtain ⟨read, q, cut, same⟩ := denoted (.ofValue .timestamp (.timestamp seen)) (.timestamp seen)
    (Template.mem_enclosed.2 ⟨_, List.mem_cons_self, List.mem_cons_self⟩) rfl
  exact ⟨g, literal, read, q, cut, same.2 id⟩

theorem not_moments :
    ¬ ∀ (m : Moment) (s style : LiteralStyle) (t : String), m.IsOrdinary →
      Insert.literal style m.kind m.value.data = .ok t →
      (Moment.denoted? m.kind (m.value.literal s)).map Moment.toMillis =
        (Moment.denoted? m.kind t).map Moment.toMillis := by
  intro alike
  have same := alike (.time quarterPast) .standard InsertProperties.standard.style _ (by decide) rfl
  exact absurd same (by decide)

end StreamSql.Value
