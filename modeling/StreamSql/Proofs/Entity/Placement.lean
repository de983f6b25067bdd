import Mathlib.Data.List.Forall2
import Mathlib.Data.List.Nodup
import StreamSql.Proofs.Entity.Name

namespace StreamSql

def Text.Within (u t : String) : Prop := ∃ before behind, t = before ++ u ++ behind

namespace Text.Within

variable {t u v : String}

theorem refl (t : String) : Within t t := ⟨"", "", by simp⟩

theorem trans (h : Within u v) (k : Within v t) : Within u t := by
  obtain ⟨before, behind, rfl⟩ := h
  obtain ⟨before', behind', rfl⟩ := k
  exact ⟨before' ++ before, behind ++ behind', by simp only [String.append_assoc]⟩

theorem append_left (h : Within u t) (v : String) : Within u (v ++ t) :=
  h.trans ⟨v, "", by simp⟩

theorem append_right (h : Within u t) (v : String) : Within u (t ++ v) :=
  h.trans ⟨"", v, by simp⟩

theorem join (sep : String) {ts : List String} (mem : t ∈ ts) : Within t (Text.join sep ts) :=
  exists_join_eq sep mem

end Text.Within

namespace Insert

def keys (ms : List (String × Json)) : List String := ms.map (·.1)

def keyOf? (ms : List (String × Json)) (c : Column) : Option String :=
  [c.wireName, c.name].find? (· ∈ keys ms)

def placed (ms : List (String × Json)) (cs : List Column) : List (Column × String) :=
  cs.filterMap fun c => (keyOf? ms c).map (c, ·)

def own (ms : List (String × Json)) (cs : List Column) : List Column :=
  cs.filter (·.wireName ∈ keys ms)

/-- No column without a value under its wire name finds one under its own. -/
def Unshadowed (ms : List (String × Json)) (cs : List Column) : Prop :=
  ∀ c ∈ cs, c.wireName ∉ keys ms → c.name ∉ keys ms

instance (ms : List (String × Json)) (cs : List Column) : Decidable (Unshadowed ms cs) :=
  inferInstanceAs (Decidable (∀ c ∈ cs, c.wireName ∉ keys ms → c.name ∉ keys ms))

structure ByWire (ms : List (String × Json)) (cs : List Column) : Prop where
  names : (cs.map Column.name).Nodup
  wireNames : (cs.map Column.wireName).Nodup
  keys : ∀ k ∈ keys ms, ∃ c ∈ cs, c.wireName = k

section

variable {ms : List (String × Json)} {cs : List Column} {c : Column} {k : String}

theorem find?_eq_none : Json.find? k ms = none ↔ k ∉ keys ms := by
  induction ms with
  | nil => simp [Json.find?, keys]
  | cons m ms ih =>
    rw [Json.find?]
    split
    · simp_all [keys]
    · simp_all [keys, eq_comm]

theorem exists_find? (mem : k ∈ keys ms) : ∃ j, Json.find? k ms = some j := by
  rw [← Option.ne_none_iff_exists']
  exact fun absent => find?_eq_none.1 absent mem

theorem keyOf?_of_mem (mem : c.wireName ∈ keys ms) : keyOf? ms c = some c.wireName := by
  simp [keyOf?, mem]

theorem keyOf?_of_not_mem (absent : c.wireName ∉ keys ms) :
    keyOf? ms c = if c.name ∈ keys ms then some c.name else none := by
  by_cases mem : c.name ∈ keys ms <;> simp [keyOf?, absent, mem]

theorem mem_of_keyOf? (h : keyOf? ms c = some k) : k ∈ keys ms := by
  simpa using List.find?_some h

theorem valueOf?_eq (ms : List (String × Json)) (c : Column) :
    valueOf? c.wireName c.name ms = (keyOf? ms c).bind (Json.find? · ms) := by
  by_cases mem : c.wireName ∈ keys ms
  · obtain ⟨j, found⟩ := exists_find? mem
    rw [valueOf?, keyOf?_of_mem mem, found, Option.bind_some, found, Option.orElse_some]
  · rw [valueOf?, find?_eq_none.2 mem, keyOf?_of_not_mem mem, Option.orElse_none]
    split
    · rfl
    · exact find?_eq_none.2 ‹_›

theorem mem_placed {p : Column × String} :
    p ∈ placed ms cs ↔ p.1 ∈ cs ∧ keyOf? ms p.1 = some p.2 := by
  obtain ⟨c, k⟩ := p
  simp only [placed, List.mem_filterMap, Option.map_eq_some_iff, Prod.mk.injEq]
  constructor
  · rintro ⟨d, mem, l, key, rfl, rfl⟩
    exact ⟨mem, key⟩
  · rintro ⟨mem, key⟩
    exact ⟨c, mem, k, key, rfl, rfl⟩

theorem placed_of_unshadowed (h : Unshadowed ms cs) :
    placed ms cs = (own ms cs).map fun c => (c, c.wireName) := by
  rw [own, ← List.filterMap_eq_map, List.filterMap_filter]
  refine List.filterMap_congr fun c mem => ?_
  by_cases key : c.wireName ∈ keys ms
  · simp [keyOf?_of_mem key, key]
  · simp [keyOf?_of_not_mem key, key, h c mem key]

theorem nodup_placed_iff (h : ByWire ms cs) :
    ((placed ms cs).map (·.2)).Nodup ↔ Unshadowed ms cs := by
  constructor
  · intro nodup c mem absent key
    obtain ⟨d, mem', wire⟩ := h.keys _ key
    have first : (c, c.name) ∈ placed ms cs := by
      rw [mem_placed, keyOf?_of_not_mem absent, if_pos key]
      exact ⟨mem, rfl⟩
    have second : (d, c.name) ∈ placed ms cs := by
      rw [mem_placed, keyOf?_of_mem (wire ▸ key)]
      exact ⟨mem', congrArg some wire⟩
    have same := List.inj_on_of_nodup_map nodup first second rfl
    obtain rfl : c = d := congrArg Prod.fst same
    exact absent (wire ▸ key)
  · intro unshadowed
    rw [placed_of_unshadowed unshadowed, List.map_map]
    exact h.wireNames.sublist (List.filter_sublist.map _)

end

variable {style : LiteralStyle}

def Writes (style : LiteralStyle) (ms : List (String × Json)) (p : Column × String)
    (a : String × String) : Prop :=
  a.1 = p.1.wireName ∧ ∃ j, Json.find? p.2 ms = some j ∧ literal style p.1.kind j = .ok a.2

theorem assignments_eq_ok {ms : List (String × Json)} {cs : List Column}
    {as : List (String × String)} :
    assignments style ms cs = .ok as ↔ List.Forall₂ (Writes style ms) (placed ms cs) as := by
  induction cs generalizing as with
  | nil => simp [assignments, placed, eq_comm]
  | cons c cs ih =>
    rw [assignments, valueOf?_eq, placed, List.filterMap_cons]
    cases key : keyOf? ms c with
    | none => exact ih
    | some k =>
      obtain ⟨j, found⟩ := exists_find? (mem_of_keyOf? key)
      simp only [Option.bind_some, found, Option.map_some, List.forall₂_cons_left_iff]
      constructor
      · intro ok
        obtain ⟨t, wrote, ok⟩ := Compiled.bind_eq_ok.1 ok
        obtain ⟨ts, rest, ok⟩ := Compiled.bind_eq_ok.1 ok
        exact ⟨(c.wireName, t), ts, ⟨rfl, j, found, wrote⟩, ih.1 rest, (Except.ok.inj ok).symm⟩
      · rintro ⟨⟨name, t⟩, ts, ⟨rfl, j', found', wrote⟩, rest, rfl⟩
        obtain rfl : j = j' := Option.some.inj (found.symm.trans found')
        rw [wrote, ih.2 rest]
        rfl

theorem fieldLiterals_eq (ms : List (String × Json)) (cs : List Column) :
    fieldLiterals style cs ms =
      (assignments style ms cs).map (List.map fun a => a.1 ++ " := " ++ a.2) := by
  induction cs with
  | nil => rfl
  | cons c cs ih =>
    obtain ⟨name, rename, kind, _, _⟩ := c
    rw [fieldLiterals, assignments, Column.wireName]
    cases valueOf? (rename.getD name) name ms with
    | none => exact ih
    | some j =>
      simp only [Compiled.map_bind, ih]
      cases literal style kind j with
      | error => rfl
      | ok t => cases assignments style ms cs <;> rfl

theorem map_fst_of_writes {ms : List (String × Json)} {ps : List (Column × String)}
    {as : List (String × String)} (h : List.Forall₂ (Writes style ms) ps as) :
    as.map (·.1) = ps.map (·.1.wireName) := by
  induction h with
  | nil => rfl
  | cons wrote _ ih => rw [List.map_cons, List.map_cons, wrote.1, ih]

/-- One level of an instance is written as `as`: each column that has a value, in order, with the
literal of the value under its key. -/
structure Level (style : LiteralStyle) (ms : List (String × Json)) (cs : List Column)
    (as : List (String × String)) : Prop where
  writes : List.Forall₂ (Writes style ms) (placed ms cs) as
  /-- These are the columns whose wire names are keys, each with the value under its wire name, exactly
  if no column is shadowed. -/
  own_iff :
    List.Forall₂ (Writes style ms) ((own ms cs).map fun c => (c, c.wireName)) as ↔ Unshadowed ms cs
  once_iff : ByWire ms cs → (((placed ms cs).map (·.2)).Nodup ↔ Unshadowed ms cs)

theorem Level.of_assignments {ms : List (String × Json)} {cs : List Column}
    {as : List (String × String)} (ok : assignments style ms cs = .ok as) : Level style ms cs as where
  writes := assignments_eq_ok.1 ok
  own_iff := by
    have writes := assignments_eq_ok.1 ok
    constructor
    · intro owned c mem absent key
      have names := (map_fst_of_writes writes).symm.trans (map_fst_of_writes owned)
      have shadowed : (c, c.name) ∈ placed ms cs := by
        rw [mem_placed, keyOf?_of_not_mem absent, if_pos key]
        exact ⟨mem, rfl⟩
      have among := List.mem_map_of_mem (f := (·.1.wireName)) shadowed
      rw [names, List.map_map] at among
      obtain ⟨d, found, wire⟩ := List.mem_map.1 among
      have has : d.wireName ∈ keys ms := by simpa using (List.mem_filter.1 found).2
      exact absent (wire ▸ has)
    · intro unshadowed
      rwa [placed_of_unshadowed unshadowed] at writes
  once_iff := nodup_placed_iff

/-- The object `ms` with the fields `fs` is the value of a kind, or stands within it. -/
inductive Nested : TypeKind → Json → List Column → List (String × Json) → Prop
  | here {fs ms} : Nested (.struct fs) (.object ms) fs ms
  | item {kind j js fs ms} : j ∈ js → Nested kind j fs ms → Nested (.array kind) (.array js) fs ms
  | entry {key kind name j entries fs ms} : (name, j) ∈ entries → Nested kind j fs ms →
    Nested (.map key kind) (.object entries) fs ms
  | field {p j cs members fs ms} : p ∈ placed members cs → Json.find? p.2 members = some j →
    Nested p.1.kind j fs ms → Nested (.struct cs) (.object members) fs ms

def structText (as : List (String × String)) : String :=
  "STRUCT(" ++ Text.join ", " (as.map fun a => a.1 ++ " := " ++ a.2) ++ ")"

theorem literal_struct_eq_ok {ms : List (String × Json)} {fs : List Column} {t : String}
    (ok : literal style (.struct fs) (.object ms) = .ok t) :
    ∃ as, assignments style ms fs = .ok as ∧ t = structText as := by
  obtain ⟨ts, fields, ok⟩ := Compiled.bind_eq_ok.1 ok
  rw [fieldLiterals_eq] at fields
  obtain ⟨as, assigned, rfl⟩ := Compiled.map_eq_ok.1 fields
  exact ⟨as, assigned, (Except.ok.inj ok).symm⟩

theorem mem_of_itemLiterals {f : Json → Compiled} {j : Json} {js : List Json} {ts : List String}
    (ok : itemLiterals f js = .ok ts) (mem : j ∈ js) : ∃ t ∈ ts, f j = .ok t := by
  induction js generalizing ts with
  | nil => cases mem
  | cons j' js ih =>
    obtain ⟨t, first, ok⟩ := Compiled.bind_eq_ok.1 ok
    obtain ⟨ts', rest, ok⟩ := Compiled.bind_eq_ok.1 ok
    obtain rfl := Except.ok.inj ok
    rcases List.mem_cons.1 mem with rfl | mem
    · exact ⟨t, List.mem_cons_self, first⟩
    · obtain ⟨u, found, written⟩ := ih rest mem
      exact ⟨u, List.mem_cons_of_mem _ found, written⟩

theorem mem_of_entryLiterals {f g : Json → Compiled} {name : String} {j : Json}
    {ms : List (String × Json)} {ts : List String} (ok : entryLiterals f g ms = .ok ts)
    (mem : (name, j) ∈ ms) : ∃ k t, k ++ " := " ++ t ∈ ts ∧ g j = .ok t := by
  induction ms generalizing ts with
  | nil => cases mem
  | cons m ms ih =>
    obtain ⟨k, -, ok⟩ := Compiled.bind_eq_ok.1 ok
    obtain ⟨t, first, ok⟩ := Compiled.bind_eq_ok.1 ok
    obtain ⟨ts', rest, ok⟩ := Compiled.bind_eq_ok.1 ok
    obtain rfl := Except.ok.inj ok
    rcases List.mem_cons.1 mem with rfl | mem
    · exact ⟨k, t, List.mem_cons_self, first⟩
    · obtain ⟨l, u, found, written⟩ := ih rest mem
      exact ⟨l, u, List.mem_cons_of_mem _ found, written⟩

theorem exists_of_forall₂ {α β : Type} {r : α → β → Prop} {as : List α} {bs : List β} {a : α}
    (h : List.Forall₂ r as bs) (mem : a ∈ as) : ∃ b ∈ bs, r a b := by
  induction h with
  | nil => cases mem
  | cons first _ ih =>
    rcases List.mem_cons.1 mem with rfl | mem
    · exact ⟨_, List.mem_cons_self, first⟩
    · obtain ⟨b, found, related⟩ := ih mem
      exact ⟨b, List.mem_cons_of_mem _ found, related⟩

theorem mem_of_assignments {ms : List (String × Json)} {cs : List Column} {p : Column × String}
    {j : Json} {as : List (String × String)} (ok : assignments style ms cs = .ok as)
    (mem : p ∈ placed ms cs) (found : Json.find? p.2 ms = some j) :
    ∃ a ∈ as, literal style p.1.kind j = .ok a.2 := by
  obtain ⟨a, among, -, j', found', written⟩ := exists_of_forall₂ (assignments_eq_ok.1 ok) mem
  obtain rfl : j = j' := Option.some.inj (found.symm.trans found')
  exact ⟨a, among, written⟩

theorem literal_nested {kind : TypeKind} {j : Json} {fs : List Column} {ms : List (String × Json)}
    {t : String} (nested : Nested kind j fs ms) (ok : literal style kind j = .ok t) :
    ∃ as, assignments style ms fs = .ok as ∧ Text.Within (structText as) t := by
  induction nested generalizing t with
  | here =>
    obtain ⟨as, assigned, rfl⟩ := literal_struct_eq_ok ok
    exact ⟨as, assigned, .refl _⟩
  | @item kind j js fs ms mem _ ih =>
    have some : js.isEmpty = false := by
      cases js with
      | nil => cases mem
      | cons => rfl
    simp only [literal, some, Bool.false_eq_true, if_false] at ok
    obtain ⟨ts, items, ok⟩ := Compiled.bind_eq_ok.1 ok
    obtain rfl := Except.ok.inj ok
    obtain ⟨u, found, written⟩ := mem_of_itemLiterals items mem
    obtain ⟨as, assigned, within⟩ := ih written
    exact ⟨as, assigned, ((within.trans (.join ", " found)).append_left _).append_right _⟩
  | entry mem _ ih =>
    obtain ⟨ts, entries, ok⟩ := Compiled.bind_eq_ok.1 ok
    obtain rfl := Except.ok.inj ok
    obtain ⟨k, u, found, written⟩ := mem_of_entryLiterals entries mem
    obtain ⟨as, assigned, within⟩ := ih written
    have shown := (within.append_left (k ++ " := ")).trans (.join ", " found)
    exact ⟨as, assigned, (shown.append_left _).append_right _⟩
  | field mem found _ ih =>
    obtain ⟨bs, assigned, rfl⟩ := literal_struct_eq_ok ok
    obtain ⟨a, among, written⟩ := mem_of_assignments assigned mem found
    obtain ⟨as, inner, within⟩ := ih written
    have member := List.mem_map_of_mem (f := fun a : String × String => a.1 ++ " := " ++ a.2) among
    have shown := (within.append_left (a.1 ++ " := ")).trans (.join ", " member)
    exact ⟨as, inner, (shown.append_left _).append_right _⟩

end Insert

/-- A column gets the value under its wire name, or else the one under its own name. So every value
stands under its own column, and once, exactly if the second is never found without the first; and so
on for every structure within the instance. -/
theorem insertStatement_levels {schema : Schema} {ms : List (String × Json)} {p : InsertProperties}
    {t : String} (ok : insertStatement schema (.object ms) p = .ok t) :
    (∃ as, Insert.Level p.style ms schema.columns as ∧
      t = "INSERT INTO " ++ p.resolveName schema.name ++
        (" (" ++ Text.join ", " (as.map (·.1)) ++ ") VALUES (" ++ Text.join ", " (as.map (·.2)) ++
          ");")) ∧
    ∀ c ∈ Insert.placed ms schema.columns, ∀ j, Json.find? c.2 ms = some j →
      ∀ fs members, Insert.Nested c.1.kind j fs members →
        ∃ as, Insert.Level p.style members fs as ∧ Text.Within (Insert.structText as) t := by
  obtain ⟨ms', as, same, assigned, -, rfl⟩ := insertStatement_eq_ok ok
  obtain rfl := Json.object.inj same
  refine ⟨⟨as, .of_assignments assigned, rfl⟩, ?_⟩
  intro c mem j found fs members nested
  obtain ⟨a, among, written⟩ := Insert.mem_of_assignments assigned mem found
  obtain ⟨bs, inner, within⟩ := Insert.literal_nested nested written
  have value := List.mem_map_of_mem (f := Prod.snd) among
  have shown := within.trans (.join ", " value)
  exact ⟨bs, .of_assignments inner, ((shown.append_left _).append_right _).append_left _⟩

private abbrev shifted : List Column :=
  [(Column.ofKind "A" .boolean).renamed "B", (Column.ofKind "B" .boolean).renamed "C"]

private abbrev givenB : List (String × Json) := [("B", .bool true)]

theorem insertStatement_levels_struct :
    ∃ t, insertStatement ⟨"Item", [.ofKind "S" (.struct shifted)]⟩ (.object [("S", .object givenB)])
        .standard = .ok t ∧
      (∃ as, Insert.Level InsertProperties.standard.style givenB shifted as ∧
        Text.Within (Insert.structText as) t) ∧
      Insert.ByWire givenB shifted ∧ ¬ Insert.Unshadowed givenB shifted := by
  obtain ⟨-, nested⟩ := @insertStatement_levels ⟨"Item", [.ofKind "S" (.struct shifted)]⟩
    [("S", .object givenB)] .standard _ rfl
  have level := nested (.ofKind "S" (.struct shifted), "S") List.mem_cons_self _ rfl _ _ .here
  exact ⟨_, rfl, level, ⟨by decide, by decide, by decide⟩, by decide⟩

theorem not_insertStatement_own :
    ¬ ∀ (schema : Schema) (ms : List (String × Json)) (p : InsertProperties) (t : String),
      Insert.ByWire ms schema.columns → insertStatement schema (.object ms) p = .ok t →
      ∃ as, List.Forall₂ (Insert.Writes p.style ms)
          ((Insert.own ms schema.columns).map fun c => (c, c.wireName)) as ∧
        t = "INSERT INTO " ++ p.resolveName schema.name ++
          (" (" ++ Text.join ", " (as.map (·.1)) ++ ") VALUES (" ++ Text.join ", " (as.map (·.2)) ++
            ");") := by
  intro owned
  obtain ⟨as, writes, text⟩ := owned ⟨"Item", shifted⟩ givenB .standard
    "INSERT INTO Items (B, C) VALUES (true, true);" ⟨by decide, by decide, by decide⟩ rfl
  -- The owned column alone would be written `B := true`.
  have assigned : Insert.assignments InsertProperties.standard.style givenB (shifted.take 1) = .ok as :=
    Insert.assignments_eq_ok.2 writes
  obtain rfl : [("B", "true")] = as := Except.ok.inj assigned
  exact absurd text (by decide)

end StreamSql
