import StreamSql.Query.Select

/-!
The kinds that constants show. That of an array goes by its first item, and is an array of texts where
the first item shows none. So it is right where the array has a kind at all, and the first of its
innermost items shows what they are.
-/

namespace StreamSql

namespace Value

/-- The values of a kind. Null is one of every kind; the parts of a value are of the parts of its kind. -/
inductive Inhabits : TypeKind → Value → Prop
  | null {kind} : Inhabits kind .null
  | boolean {b} : Inhabits .boolean (.bool b)
  | int {n : Int64} : n.toInt32.toInt64 = n → Inhabits .int (.int n)
  | bigInt {n} : Inhabits .bigInt (.int n)
  | double {x} : Inhabits .double (.float x)
  | decimal {precision scale d} : Inhabits (.decimal precision scale) (.decimal d)
  | string {s} : Inhabits .string (.string s)
  | enum {name} : Inhabits .string (.enum name)
  | bytes {bs} : Inhabits .bytes (.bytes bs)
  | date {d} : Inhabits .date (.date d)
  | time {t} : Inhabits .time (.time t)
  | timestamp {t} : Inhabits .timestamp (.timestamp t)
  | array {element items} : (∀ v ∈ items, Inhabits element v) → Inhabits (.array element) (.array items)
  | map {key value entries} : (∀ e ∈ entries, Inhabits key e.1) → (∀ e ∈ entries, Inhabits value e.2) →
    Inhabits (.map key value) (.map entries)
  | struct {members : List (Column × Value)} : (∀ m ∈ members, Inhabits m.1.kind m.2) →
    Inhabits (.struct (members.map (·.1))) (.struct (members.map fun m => (m.1.name, m.2)))

def IsText : Value → Prop
  | .null | .string _ | .enum _ => True
  | _ => False

variable {v w : Value} {k k' : TypeKind} {n : Nat}

theorem inhabits_string_iff : Inhabits .string v ↔ v.IsText := by
  constructor
  · intro h
    cases h <;> trivial
  · intro h
    cases v with
    | null => exact .null
    | string s => exact .string
    | enum name => exact .enum
    | _ => cases h

theorem Inhabits.of_kind? (h : Inhabits k' w) (shown : w.kind? = some k)
    (scalar : ∀ items, w ≠ .array items) (hv : Inhabits k' v) : Inhabits k v := by
  cases h with
  | null | decimal | date | time | timestamp | map | struct => cases shown
  | array => exact absurd rfl (scalar _)
  | int =>
    obtain rfl := Option.some.inj shown
    cases hv with
    | null => exact .null
    | int => exact .bigInt
  | _ =>
    obtain rfl := Option.some.inj shown
    exact hv

def rank : Value → Nat
  | .array [] => 1
  | .array (v :: _) => v.rank + 1
  | _ => 0

def lead? : Value → Option Value
  | .array [] => none
  | .array (v :: _) => v.lead?
  | v => some v

def level : Nat → Value → List Value
  | 0, v => [v]
  | n + 1, .array items => items.flatMap (level n)
  | _ + 1, _ => []

def nested : Nat → TypeKind → TypeKind
  | 0, k => k
  | n + 1, k => .array (nested n k)

theorem rank_eq_zero (empty : v ≠ .array []) (items : ∀ u us, v ≠ .array (u :: us)) : v.rank = 0 := by
  unfold rank
  split <;> simp_all

theorem lead?_mem_level (h : v.lead? = some w) : w ∈ level v.rank v := by
  fun_induction lead? v with
  | case1 => cases h
  | case2 v vs ih => exact List.mem_flatMap.2 ⟨v, List.mem_cons_self, ih h⟩
  | case3 v empty items =>
    obtain rfl := Option.some.inj h
    rw [rank_eq_zero empty items]
    exact List.mem_cons_self

theorem lead?_ne_array (h : v.lead? = some w) (items : List Value) : w ≠ .array items := by
  fun_induction lead? v with
  | case1 => cases h
  | case2 v vs ih => exact ih h
  | case3 v empty some =>
    obtain rfl := Option.some.inj h
    rintro rfl
    cases items with
    | nil => exact empty rfl
    | cons u us => exact some u us rfl

theorem Inhabits.exists_nested (h : Inhabits k v) : ∃ k', k = nested v.rank k' := by
  fun_induction rank v generalizing k with
  | case1 =>
    cases h with
    | array => exact ⟨_, rfl⟩
  | case2 v vs ih =>
    cases h with
    | array items =>
      obtain ⟨k', rfl⟩ := ih (items v List.mem_cons_self)
      exact ⟨k', rfl⟩
  | case3 => exact ⟨k, rfl⟩

theorem Inhabits.of_mem_level (h : Inhabits (nested n k) v) (hw : w ∈ level n v) : Inhabits k w := by
  induction n generalizing v with
  | zero => exact List.mem_singleton.1 hw ▸ h
  | succ n ih =>
    cases h with
    | null => cases hw
    | array items =>
      obtain ⟨u, hu, hw⟩ := List.mem_flatMap.1 hw
      exact ih (items u hu) hw

theorem Inhabits.of_level (h : Inhabits (nested n k) v) (items : ∀ w ∈ level n v, Inhabits k' w) :
    Inhabits (nested n k') v := by
  induction n generalizing v with
  | zero => exact items v List.mem_cons_self
  | succ n ih =>
    cases h with
    | null => exact .null
    | array parts =>
      refine .array fun u hu => ih (parts u hu) fun w hw => ?_
      exact items w (List.mem_flatMap.2 ⟨u, hu, hw⟩)

def ShowsKind : Value → Prop
  | .bool _ | .int _ | .float _ | .string _ | .enum _ | .bytes _ => True
  | _ => False

theorem isSome_kind?_iff (scalar : ∀ items, v ≠ .array items) : v.kind?.isSome ↔ v.ShowsKind := by
  cases v with
  | array items => exact absurd rfl (scalar items)
  | _ => simp [kind?, ShowsKind]

theorem IsText.kind?_getD (h : v.IsText) : v.kind?.getD .string = .string := by
  cases v with
  | null | string | enum => rfl
  | _ => cases h

theorem kind?_getD (v : Value) :
    v.kind?.getD .string = nested v.rank ((v.lead?.bind kind?).getD .string) := by
  fun_induction lead? v with
  | case1 => rfl
  | case2 v vs ih => exact congrArg TypeKind.array ih
  | case3 v empty items =>
    rw [rank_eq_zero empty items]
    rfl

theorem eq_nested_of_kind? (shown : v.kind? = some k) :
    k = nested v.rank ((v.lead?.bind kind?).getD .string) := by
  rw [← kind?_getD, shown, Option.getD_some]

end Value

open Value

/-- The kind that a constant shows is one of its kinds exactly if it has one, and either its innermost
first item shows a kind or all its items as deep as that are texts. -/
theorem Expr.inhabits_kind?_iff (s : Scope) {v : Value} {k : TypeKind}
    (shown : (Expr.constant v).kind? s = some k) :
    v.Inhabits k ↔ (∃ k', v.Inhabits k') ∧
      ((∃ w, v.lead? = some w ∧ w.ShowsKind) ∨ ∀ w ∈ v.level v.rank, w.IsText) := by
  obtain rfl := eq_nested_of_kind? shown
  constructor
  · intro h
    refine ⟨⟨_, h⟩, ?_⟩
    cases lead : v.lead?.bind Value.kind? with
    | some b =>
      obtain ⟨w, first, kind⟩ := Option.bind_eq_some_iff.1 lead
      exact .inl ⟨w, first, (isSome_kind?_iff (lead?_ne_array first)).1 (by simp [kind])⟩
    | none =>
      rw [lead] at h
      exact .inr fun w hw => inhabits_string_iff.1 (h.of_mem_level hw)
  · rintro ⟨⟨k', h⟩, ⟨w, first, shows⟩ | texts⟩
    · -- Of a kind that has the first item, all its values are of the kind that the item shows.
      have scalar := lead?_ne_array first
      obtain ⟨b, kind⟩ := Option.isSome_iff_exists.1 ((isSome_kind?_iff scalar).2 shows)
      obtain ⟨k', rfl⟩ := h.exists_nested
      rw [first, Option.bind_some, kind, Option.getD_some]
      have leads := h.of_mem_level (lead?_mem_level first)
      exact h.of_level fun u hu => leads.of_kind? kind scalar (h.of_mem_level hu)
    · have text : (v.lead?.bind Value.kind?).getD .string = .string := by
        cases first : v.lead? with
        | none => rfl
        | some w => exact (texts w (lead?_mem_level first)).kind?_getD
      obtain ⟨k', rfl⟩ := h.exists_nested
      rw [text]
      exact h.of_level fun u hu => inhabits_string_iff.2 (texts u hu)

private abbrev bare : Scope := ⟨[], [], [], false, '.'⟩

private abbrev gapped : Value := .array [.null, .array [.int 1]]

theorem Expr.inhabits_kind?_iff_gapped :
    (Expr.constant gapped).kind? bare = some (.array .string) ∧
      gapped.Inhabits (.array (.array .bigInt)) ∧ ¬ gapped.Inhabits (.array .string) := by
  have shown : (Expr.constant gapped).kind? bare = some (.array .string) := rfl
  have nested : gapped.Inhabits (.array (.array .bigInt)) := by
    refine .array (List.forall_mem_cons.2 ⟨.null, List.forall_mem_cons.2 ⟨.array ?_, by simp⟩⟩)
    exact List.forall_mem_cons.2 ⟨.bigInt, by simp⟩
  refine ⟨shown, nested, fun texts => ?_⟩
  obtain ⟨-, ⟨w, first, shows⟩ | texts⟩ := (inhabits_kind?_iff bare shown).1 texts
  · cases first
    exact shows
  · exact texts (.array [.int 1]) (by simp [Value.rank, Value.level])

theorem Expr.not_inhabits_kind? :
    ¬ ∀ (s : Scope) (v : Value) (k : TypeKind), (Expr.constant v).kind? s = some k → v.Inhabits k := by
  intro inhabits
  cases inhabits bare (.array [.null, .array [.int 1]]) (.array .string) rfl with
  | array items => exact nomatch items (.array [.int 1]) (by simp)

private def lengths : Query := ⟨[.source ⟨"Location", none, none⟩,
  .select (.lambda ["l"] (.call (some (.constant (.array [.null, .array [.int 1]])))
    (.higherOrder .transform) [.lambda ["x"] (.member (.parameter "x") "Length" none)]))], false⟩

example : (lengths.compile .standard).toOption =
    some "SELECT TRANSFORM(ARRAY[NULL, ARRAY[1]], (x) => LEN(x)) FROM Locations EMIT CHANGES;" := by
  decide +kernel

end StreamSql
