import StreamSql.Proofs.Reading.Literal
import StreamSql.Proofs.Text.Boundary
import StreamSql.Proofs.Text.Sealed
import StreamSql.Proofs.Text.Trim

/-!
Literals that can be read in one way only. A literal begins with the word of its kind or with its only
part, and each part ends where a comma, a blank or a bracket comes; so two values have one literal only
if they are the same.
-/

namespace StreamSql

open Text (Begins Ends IsWord Leaves Shows append_cons_inj append_inj_of_leaves join_inj
  toString_append_inj)

theorem hexPair_inj {b c : UInt8} (h : hexPair b = hexPair c) : b = c := by
  have digit : ∀ i < 16, ∀ j < 16, Nat.digitChar i = Nat.digitChar j → i = j := by decide
  have hb := b.toNat_lt
  have hc := c.toNat_lt
  simp only [hexPair, List.cons.injEq, and_true] at h
  have high := digit (b.toNat / 16) (by omega) (c.toNat / 16) (by omega) h.1
  have low := digit (b.toNat % 16) (by omega) (c.toNat % 16) (by omega) h.2
  exact UInt8.toNat_inj.1 (by omega)

theorem flatMap_hexPair_inj {bs cs : List UInt8} (h : bs.flatMap hexPair = cs.flatMap hexPair) :
    bs = cs := by
  induction bs generalizing cs with
  | nil =>
    cases cs with
    | nil => rfl
    | cons c cs => simp [hexPair] at h
  | cons b bs ih =>
    cases cs with
    | nil => simp [hexPair] at h
    | cons c cs =>
      obtain ⟨first, rest⟩ := List.append_inj h rfl
      rw [hexPair_inj first, ih rest]

namespace Value

/-- Values without fractions, dates and times, without quotes in texts, and with words as the names of
fields. -/
inductive IsLegible : Value → Prop
  | null : IsLegible .null
  | bool {b} : IsLegible (.bool b)
  | int {n} : IsLegible (.int n)
  | string {t : String} : '\x27' ∉ t.toList → IsLegible (.string t)
  | bytes {bs} : IsLegible (.bytes bs)
  | array {items} : (∀ v ∈ items, IsLegible v) → IsLegible (.array items)
  | map {entries} : (∀ e ∈ entries, IsLegible e.1) → (∀ e ∈ entries, IsLegible e.2) →
    IsLegible (.map entries)
  | struct {fields} : (∀ f ∈ fields, IsWord f.1) → (∀ f ∈ fields, IsLegible f.2) →
    IsLegible (.struct fields)

def plainLiteral (v : Value) : String := v.literal .standard

def entryLiteral (e : Value × Value) : String := e.1.plainLiteral ++ " := " ++ e.2.plainLiteral

def fieldLiteral (f : String × Value) : String := f.1 ++ " := " ++ f.2.plainLiteral

@[simp] def keyword : Value → String
  | .null => "NULL"
  | .bool b => if b then "True" else "False"
  | .bytes _ => "TO"
  | .array _ => "ARRAY"
  | .map _ => "MAP"
  | .struct _ => "STRUCT"
  | _ => ""

@[simp] def arguments : Value → String
  | .int n => toString n.toInt
  | .string t => quoted t
  | .bytes bs => "_BYTES('" ++ .ofList (bs.flatMap hexPair) ++ "', 'hex')"
  | .array [] => "_REMOVE(ARRAY[0], 0)"
  | .array items => "[" ++ Text.join ", " (items.map plainLiteral) ++ "]"
  | .map entries => "(" ++ Text.join ", " (entries.map entryLiteral) ++ ")"
  | .struct fields => "(" ++ Text.join ", " (fields.map fieldLiteral) ++ ")"
  | _ => ""

variable {v w : Value} {r s : List Char}

theorem nested_standard : LiteralStyle.standard.nested = .standard := rfl

theorem plainLiteral_array (items : List Value) :
    (Value.array items).plainLiteral = if items.isEmpty then emptyArray none
      else "ARRAY[" ++ Text.join ", " (items.map plainLiteral) ++ "]" := by
  rw [plainLiteral, literal, literals_eq_map, nested_standard, List.isEmpty_map]
  rfl

theorem plainLiteral_map (entries : List (Value × Value)) :
    (Value.map entries).plainLiteral = "MAP(" ++ Text.join ", " (entries.map entryLiteral) ++ ")" := by
  rw [plainLiteral, literal, entryLiterals_eq_map, nested_standard]
  rfl

theorem plainLiteral_struct (fields : List (String × Value)) :
    (Value.struct fields).plainLiteral =
      "STRUCT(" ++ Text.join ", " (fields.map fieldLiteral) ++ ")" := by
  rw [plainLiteral, literal, fieldLiterals_eq_map, nested_standard]
  rfl

theorem IsLegible.plainLiteral_eq (h : v.IsLegible) : v.plainLiteral = v.keyword ++ v.arguments := by
  cases h with
  | null | int | string => simp [plainLiteral, literal]
  | bool =>
    simp [plainLiteral, literal, LiteralStyle.boolText, LiteralStyle.standard]
  | bytes => simp [plainLiteral, literal, bytesLiteral, ← String.append_assoc]
  | @array items _ =>
    rw [plainLiteral_array]
    cases items with
    | nil => rfl
    | cons v vs => simp [← String.append_assoc]
  | map => simp [plainLiteral_map, ← String.append_assoc]
  | struct => simp [plainLiteral_struct, ← String.append_assoc]

theorem isAlpha_keyword (v : Value) : ∀ c ∈ v.keyword.toList, c.isAlpha = true := by
  cases v with
  | bool b => cases b <;> simp
  | _ => simp

theorem IsLegible.leaves_arguments (h : v.IsLegible) (hr : Ends r) :
    Leaves Char.isAlpha (v.arguments.toList ++ r) := by
  refine .append ?_ (hr.leaves (by decide))
  cases h with
  | null | bool => simp [Leaves]
  | @int n =>
    obtain ⟨c, cs, split, digit | rfl⟩ := Text.exists_toString_eq_cons n.toInt <;>
      rw [arguments, split]
    · exact .cons (Text.not_isAlpha_of_isDigit digit)
    · exact .cons (by decide)
  | @array items _ => cases items <;> simp [Leaves]
  | string | bytes | map | struct => simp [quoted, Leaves]

theorem IsLegible.shows_of_arguments (hv : v.IsLegible)
    (arguments : ∀ w r s, w.IsLegible → Ends r → Ends s → v.keyword = w.keyword →
      v.arguments.toList ++ r = w.arguments.toList ++ s → v = w ∧ r = s) :
    Shows plainLiteral id IsLegible v := by
  intro w r s hw hr hs same
  rw [hv.plainLiteral_eq, hw.plainLiteral_eq, String.toList_append, String.toList_append,
    List.append_assoc, List.append_assoc] at same
  obtain ⟨word, behind⟩ := append_inj_of_leaves (isAlpha_keyword v) (isAlpha_keyword w)
    (hv.leaves_arguments hr) (hw.leaves_arguments hs) same
  exact arguments w r s hw hr hs (String.toList_inj.1 word) behind

theorem IsLegible.begins (h : v.IsLegible) : Begins v.plainLiteral := by
  rw [h.plainLiteral_eq]
  cases h with
  | int => exact Text.begins_toString _
  | string => exact ⟨'\x27', by simp [quoted], by decide⟩
  | @bool b => cases b <;> exact (IsWord.begins (by decide)).append _
  | _ =>
    rw [keyword]
    exact (IsWord.begins (by decide)).append _

theorem shows_entry {e : Value × Value} (hk : Shows plainLiteral id IsLegible e.1)
    (hv : Shows plainLiteral id IsLegible e.2) :
    Shows entryLiteral id (fun e => e.1.IsLegible ∧ e.2.IsLegible) e := by
  intro f r s hf hr hs same
  have parts :
      e.1.plainLiteral.toList ++ ' ' :: ':' :: '=' :: ' ' :: (e.2.plainLiteral.toList ++ r) =
        f.1.plainLiteral.toList ++ ' ' :: ':' :: '=' :: ' ' :: (f.2.plainLiteral.toList ++ s) := by
    simpa [entryLiteral] using same
  obtain ⟨keys, behind⟩ := hk f.1 _ _ hf.1 (.cons (by decide)) (.cons (by decide)) parts
  obtain ⟨values, rest⟩ := hv f.2 r s hf.2 hr hs (by simpa using behind)
  exact ⟨Prod.ext keys values, rest⟩

theorem shows_field {f : String × Value} (word : IsWord f.1)
    (h : Shows plainLiteral id IsLegible f.2) :
    Shows fieldLiteral id (fun f => IsWord f.1 ∧ f.2.IsLegible) f := by
  intro g r s hg hr hs same
  have parts : f.1.toList ++ ' ' :: ':' :: '=' :: ' ' :: (f.2.plainLiteral.toList ++ r) =
      g.1.toList ++ ' ' :: ':' :: '=' :: ' ' :: (g.2.plainLiteral.toList ++ s) := by
    simpa [fieldLiteral] using same
  obtain ⟨names, behind⟩ := word.append_inj hg.1 parts
  obtain ⟨values, rest⟩ := h g.2 r s hg.2 hr hs (by simpa using behind)
  exact ⟨Prod.ext names values, rest⟩

theorem begins_entry {e : Value × Value} (h : e.1.IsLegible) : Begins (entryLiteral e) := by
  rw [entryLiteral, String.append_assoc]
  exact h.begins.append _

theorem begins_field {f : String × Value} (h : IsWord f.1) : Begins (fieldLiteral f) := by
  rw [fieldLiteral, String.append_assoc]
  exact h.begins.append _

theorem int_ne_string (n : Int64) (t : String) :
    (Value.int n).arguments.toList ++ r ≠ (Value.string t).arguments.toList ++ s := by
  obtain ⟨c, cs, split, sign⟩ := Text.exists_toString_eq_cons n.toInt
  rw [arguments, split]
  intro same
  have quote : c = '\x27' := by simpa [quoted] using congrArg List.head? same
  subst quote
  simp at sign

theorem items_inj {vs ws : List Value} (hv : ∀ v ∈ vs, v.IsLegible) (hw : ∀ w ∈ ws, w.IsLegible)
    (ih : ∀ v ∈ vs, Shows plainLiteral id IsLegible v)
    (same : (Value.array vs).arguments.toList ++ r = (Value.array ws).arguments.toList ++ s) :
    vs = ws ∧ r = s := by
  cases vs with
  | nil =>
    cases ws with
    | nil => exact ⟨rfl, List.append_cancel_left same⟩
    | cons w ws => simp at same
  | cons v vs =>
    cases ws with
    | nil => simp at same
    | cons w ws =>
      have parts : (Text.join ", " ((v :: vs).map plainLiteral)).toList ++ ']' :: r =
          (Text.join ", " ((w :: ws).map plainLiteral)).toList ++ ']' :: s := by
        simpa using same
      obtain ⟨values, rest⟩ := join_inj (by decide) (by decide) ih hw
        (fun v mem => ((List.mem_append.1 mem).elim (hv v) (hw v)).begins) parts
      exact ⟨by simpa using values, rest⟩

theorem bytes_inj {bs cs : List UInt8}
    (same : (Value.bytes bs).arguments.toList ++ r = (Value.bytes cs).arguments.toList ++ s) :
    bs = cs ∧ r = s := by
  have parts : bs.flatMap hexPair ++ '\x27' :: ',' :: ' ' :: '\x27' :: 'h' :: 'e' :: 'x' ::
      '\x27' :: ')' :: r = cs.flatMap hexPair ++ '\x27' :: ',' :: ' ' :: '\x27' :: 'h' :: 'e' ::
      'x' :: '\x27' :: ')' :: s := by
    simpa using same
  obtain ⟨pairs, rest⟩ := append_cons_inj (Reading.hex_free bs) (Reading.hex_free cs) parts
  exact ⟨flatMap_hexPair_inj pairs, by simpa using rest⟩

theorem entries_inj {es fs : List (Value × Value)}
    (he : ∀ e ∈ es, e.1.IsLegible ∧ e.2.IsLegible) (hf : ∀ f ∈ fs, f.1.IsLegible ∧ f.2.IsLegible)
    (ih : ∀ e ∈ es, Shows plainLiteral id IsLegible e.1 ∧ Shows plainLiteral id IsLegible e.2)
    (same : (Value.map es).arguments.toList ++ r = (Value.map fs).arguments.toList ++ s) :
    es = fs ∧ r = s := by
  have parts : (Text.join ", " (es.map entryLiteral)).toList ++ ')' :: r =
      (Text.join ", " (fs.map entryLiteral)).toList ++ ')' :: s := by
    simpa using same
  obtain ⟨entries, rest⟩ := join_inj (by decide) (by decide)
    (fun e mem => shows_entry (ih e mem).1 (ih e mem).2) hf
    (fun e mem => begins_entry ((List.mem_append.1 mem).elim (he e) (hf e)).1) parts
  exact ⟨by simpa using entries, rest⟩

theorem fields_inj {fs gs : List (String × Value)}
    (hf : ∀ f ∈ fs, IsWord f.1 ∧ f.2.IsLegible) (hg : ∀ g ∈ gs, IsWord g.1 ∧ g.2.IsLegible)
    (ih : ∀ f ∈ fs, Shows plainLiteral id IsLegible f.2)
    (same : (Value.struct fs).arguments.toList ++ r = (Value.struct gs).arguments.toList ++ s) :
    fs = gs ∧ r = s := by
  have parts : (Text.join ", " (fs.map fieldLiteral)).toList ++ ')' :: r =
      (Text.join ", " (gs.map fieldLiteral)).toList ++ ')' :: s := by
    simpa using same
  obtain ⟨fields, rest⟩ := join_inj (by decide) (by decide)
    (fun f mem => shows_field (hf f mem).1 (ih f mem)) hg
    (fun f mem => begins_field ((List.mem_append.1 mem).elim (hf f) (hg f)).1) parts
  exact ⟨by simpa using fields, rest⟩

theorem IsLegible.shows (h : v.IsLegible) : Shows plainLiteral id IsLegible v := by
  -- The word tells the constructor, but for numbers and texts: they have none and begin differently.
  induction h with
  | null =>
    refine IsLegible.null.shows_of_arguments fun w r s hw hr hs word behind => ?_
    cases hw with
    | null => exact ⟨rfl, by simpa using behind⟩
    | _ => simp [eq_ite_iff] at word
  | @bool b =>
    refine IsLegible.bool.shows_of_arguments fun w r s hw hr hs word behind => ?_
    cases hw with
    | @bool c =>
      obtain rfl : b = c := by cases b <;> cases c <;> simp at word ⊢
      exact ⟨rfl, by simpa using behind⟩
    | _ => simp [ite_eq_iff] at word
  | @int n =>
    refine IsLegible.int.shows_of_arguments fun w r s hw hr hs word behind => ?_
    cases hw with
    | int =>
      obtain ⟨values, rest⟩ :=
        toString_append_inj (hr.leaves (by decide)) (hs.leaves (by decide)) behind
      exact ⟨by rw [Int64.toInt_inj.1 values], rest⟩
    | string => exact absurd behind (int_ne_string n _)
    | _ => simp [eq_ite_iff] at word
  | @string t free =>
    refine (IsLegible.string free).shows_of_arguments fun w r s hw hr hs word behind => ?_
    cases hw with
    | int => exact absurd behind.symm (int_ne_string _ _)
    | @string u free' =>
      have parts : t.toList ++ '\x27' :: r = u.toList ++ '\x27' :: s := by
        simpa [quoted] using behind
      obtain ⟨texts, rest⟩ := append_cons_inj free free' parts
      exact ⟨by rw [String.toList_inj.1 texts], rest⟩
    | _ => simp [eq_ite_iff] at word
  | @bytes bs =>
    refine IsLegible.bytes.shows_of_arguments fun w r s hw hr hs word behind => ?_
    cases hw with
    | @bytes cs =>
      obtain ⟨bytes, rest⟩ := bytes_inj behind
      exact ⟨by rw [bytes], rest⟩
    | _ => simp [eq_ite_iff] at word
  | @array items legible ih =>
    refine (IsLegible.array legible).shows_of_arguments fun w r s hw hr hs word behind => ?_
    cases hw with
    | @array items' legible' =>
      obtain ⟨values, rest⟩ := items_inj legible legible' ih behind
      exact ⟨by rw [values], rest⟩
    | _ => simp [eq_ite_iff] at word
  | @map entries keys values ihk ihv =>
    refine (IsLegible.map keys values).shows_of_arguments fun w r s hw hr hs word behind => ?_
    cases hw with
    | @map entries' keys' values' =>
      obtain ⟨same, rest⟩ := entries_inj (fun e mem => ⟨keys e mem, values e mem⟩)
        (fun e mem => ⟨keys' e mem, values' e mem⟩) (fun e mem => ⟨ihk e mem, ihv e mem⟩) behind
      exact ⟨by rw [same], rest⟩
    | _ => simp [eq_ite_iff] at word
  | @struct fields words values ih =>
    refine (IsLegible.struct words values).shows_of_arguments fun w r s hw hr hs word behind => ?_
    cases hw with
    | @struct fields' words' values' =>
      obtain ⟨same, rest⟩ := fields_inj (fun f mem => ⟨words f mem, values f mem⟩)
        (fun f mem => ⟨words' f mem, values' f mem⟩) ih behind
      exact ⟨by rw [same], rest⟩
    | _ => simp [eq_ite_iff] at word

/-- Two values have the same literal only if they are the same. -/
theorem literal_inj (hv : v.IsLegible) (hw : w.IsLegible)
    (same : v.literal .standard = w.literal .standard) : v = w :=
  hv.shows.seen_eq hw same

private abbrev marked : Value :=
  .ofFields [("Marks", Value.ofEntries [("], a := ARRAY[", [(1 : Int64), -2])])]

private abbrev spelled : Value :=
  .struct [("Marks", .map [(.string "], a := ARRAY[", .array [.int 1, .int (-2)])])]

theorem literal_inj_marks :
    marked.IsLegible ∧ spelled.IsLegible ∧ marked.literal .standard = spelled.literal .standard ∧
      marked = spelled := by
  have key : IsLegible (.string "], a := ARRAY[") := .string (by decide)
  have marks : IsLegible (.array [.int 1, .int (-2)]) := .array (by simp [IsLegible.int])
  have legible : spelled.IsLegible :=
    .struct (by decide) (by simpa using .map (by simpa using key) (by simpa using marks))
  exact ⟨legible, legible, rfl, literal_inj legible legible rfl⟩

end Value
end StreamSql
