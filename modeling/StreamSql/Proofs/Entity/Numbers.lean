import StreamSql.Proofs.Entity.Placement
import StreamSql.Proofs.Entity.Shape
import StreamSql.Proofs.Value.Number
import StreamSql.Proofs.Value.Plain

/-!
The numbers of an insertion. A place for a number gets a number of its kind or NULL, or the insertion
fails, but for two slips: a number that is no integer of 64 bits stands as it is in place of an integer,
and any text in place of a decimal.
-/

namespace StreamSql

def TypeKind.isNumeric : TypeKind → Bool
  | .int | .bigInt | .double | .decimal _ _ => true
  | _ => false

namespace Insert

open Text (Template)

variable {style : LiteralStyle} {kind : TypeKind} {j : Json} {l : Leaf}

theorem shape_of_single (single : shape kind j = [.inr (kind, j)]) (mem : .inr l ∈ shape kind j) :
    shape l.1 l.2 = [.inr l] := by
  rw [single, List.mem_singleton] at mem
  obtain rfl := Sum.inr.inj mem
  exact single

mutual
theorem shape_of_mem : ∀ kind j, .inr l ∈ shape kind j → shape l.1 l.2 = [.inr l]
  | .array element, .array (j :: js), mem => by
    obtain ⟨T, among, inside⟩ := Template.mem_enclosed.1 mem
    obtain ⟨i, -, rfl⟩ := List.mem_map.1 among
    exact shape_of_mem element i inside
  | .map key value, .object ms, mem => by
    obtain ⟨T, among, inside⟩ := Template.mem_enclosed.1 mem
    obtain ⟨m, -, rfl⟩ := List.mem_map.1 among
    rcases List.mem_cons.1 inside with first | inside
    · obtain rfl := Sum.inr.inj first
      cases key <;> rfl
    · exact shape_of_mem value m.2 (by simpa using inside)
  | .struct fields, .object ms, mem => by
    obtain ⟨T, among, inside⟩ := Template.mem_enclosed.1 mem
    exact shape_of_mem_fields fields ms T among inside
  | .array _, .array [], mem => shape_of_single rfl mem
  | .array _, .null, mem | .array _, .bool _, mem | .array _, .number _, mem | .array _, .string _, mem
  | .array _, .object _, mem | .array _, .outOfRange, mem => shape_of_single rfl mem
  | .map _ _, .null, mem | .map _ _, .bool _, mem | .map _ _, .number _, mem | .map _ _, .string _, mem
  | .map _ _, .array _, mem | .map _ _, .outOfRange, mem => shape_of_single rfl mem
  | .struct _, .null, mem | .struct _, .bool _, mem | .struct _, .number _, mem
  | .struct _, .string _, mem | .struct _, .array _, mem | .struct _, .outOfRange, mem =>
    shape_of_single rfl mem
  | .int, _, mem | .bigInt, _, mem | .double, _, mem | .boolean, _, mem | .string, _, mem
  | .bytes, _, mem | .date, _, mem | .time, _, mem | .timestamp, _, mem | .decimal _ _, _, mem =>
    shape_of_single rfl mem
termination_by structural k => k
theorem shape_of_mem_fields : ∀ cs ms T, T ∈ fieldShapes cs ms → .inr l ∈ T → shape l.1 l.2 = [.inr l]
  | [], _, _, among, _ => nomatch among
  | ⟨name, rename, kind, _, _⟩ :: cs, ms, T, among, inside => by
    rw [fieldShapes] at among
    split at among
    · exact shape_of_mem_fields cs ms T among inside
    · next j _ =>
      rcases List.mem_cons.1 among with rfl | among
      · exact shape_of_mem kind j (by simpa using inside)
      · exact shape_of_mem_fields cs ms T among inside
termination_by structural cs => cs
end

theorem invalid_of_leaf {e : Error} (leaf : shape kind j = [.inr (kind, j)])
    (failed : literal style kind j = .error e) : ∃ what, e = .invalid what := by
  unfold literal at failed
  split at failed
  · cases failed
  · split at failed
    · cases failed
    · exact ⟨_, (Except.error.inj failed).symm⟩
  · next element items =>
    cases items with
    | nil => cases failed
    | cons => cases leaf
  · cases leaf
  · cases leaf
  · split at failed
    · cases failed
    · exact ⟨_, (Except.error.inj failed).symm⟩

theorem invalid_of_literal {e : Error} (failed : literal style kind j = .error e) :
    ∃ what, e = .invalid what := by
  rw [literal_eq_fillM] at failed
  obtain ⟨l, mem, failed⟩ := Template.exists_of_fillM_error failed
  exact invalid_of_leaf (shape_of_mem kind j mem) failed

def IsLiteral : TypeKind → String → Prop
  | .int, t | .bigInt, t => t = "NULL" ∨ isInt64 t = true
  | .double, t | .decimal _ _, t => t = "NULL" ∨ IsNumber t
  | _, _ => False

def Fits : TypeKind → Json → Prop
  | .int, .number n | .bigInt, .number n => n.toInt64? ≠ none
  | .int, .string t | .bigInt, .string t => isInt64 t = true
  | .double, .number _ | .decimal _ _, .number _ => True
  | .decimal precision scale, .string t => IsLiteral (.decimal precision scale) t
  | _, j => j = .null

/-- The value does not fit the kind, and is written nevertheless. -/
def Strays : TypeKind → Json → Prop
  | .int, .number n | .bigInt, .number n => n.toInt64? = none
  | .decimal precision scale, .string t => ¬ IsLiteral (.decimal precision scale) t
  | _, _ => False

theorem chars_of_isInt64 {t : String} (h : isInt64 t = true) :
    ∀ c ∈ t.toList, c.isDigit = true ∨ c = '-' ∨ c = '+' := by
  simp only [isInt64] at h
  split at h <;> simp_all

theorem not_isInt64_of_fractional {t : String} (h : IsFractional t.toList) : isInt64 t = false := by
  by_contra integer
  have chars := chars_of_isInt64 (by simpa using integer)
  rcases h with mem | mem
  · exact absurd (chars _ mem) (by decide)
  · exact absurd (chars _ mem) (by decide)

theorem not_isInt64_text {n : Number} (h : n.toInt64? = none) : isInt64 n.text = false := by
  cases n with
  | whole i fits =>
    have large : ¬ i < 0x8000000000000000 := by
      intro less
      simp [Number.toInt64?, Number.toInt?, less] at h
    rw [← Bool.not_eq_true, Number.text, isInt64_toString]
    omega
  | double x =>
    obtain ⟨mantissa, exponent, written, -, -, fractional⟩ := x.layout_text
    refine not_isInt64_of_fractional ?_
    rw [Number.text, written]
    have behind (c : Char) (mem : c ∈ mantissa ++ exponent) :
        c ∈ (signedText x.negative (mantissa ++ exponent)).toList := by
      rw [signedText, String.toList_append, String.toList_ofList]
      exact List.mem_append_right _ mem
    exact fractional.imp (behind _) (behind _)

section

variable (point : style.separator = '.')

include point

theorem literal_of_fits (numeric : kind.isNumeric = true) (fits : Fits kind j) :
    ∃ t, literal style kind j = .ok t ∧ IsLiteral kind t := by
  cases kind with
  | int | bigInt =>
    cases j with
    | null => exact ⟨"NULL", rfl, .inl rfl⟩
    | number n =>
      obtain ⟨i, read⟩ := Option.ne_none_iff_exists'.1 fits
      exact ⟨toString i.toInt, by simp only [literal, scalar?, read]; rfl, .inr (isInt64_toInt i)⟩
    | string t =>
      have integer : isInt64 t = true := fits
      exact ⟨t, by simp only [literal, scalar?, integer]; rfl, .inr integer⟩
    | _ => cases fits
  | double =>
    cases j with
    | null => exact ⟨"NULL", rfl, .inl rfl⟩
    | number n =>
      obtain ⟨cs, numeral, text⟩ := n.toDouble.text_eq_signedText
      refine ⟨_, rfl, .inr ?_⟩
      rw [Value.literal, point, withSeparator_point, text]
      exact isNumber_of_numeral numeral
    | _ => cases fits
  | decimal precision scale =>
    cases j with
    | null => exact ⟨"NULL", rfl, .inl rfl⟩
    | number n =>
      refine ⟨_, rfl, .inr ?_⟩
      rw [point, withSeparator_point]
      exact n.isNumber_text
    | string t =>
      refine ⟨_, rfl, ?_⟩
      rw [point, withSeparator_point]
      exact fits
    | _ => cases fits
  | _ => cases numeric

theorem literal_of_strays (strays : Strays kind j) :
    ∃ t, literal style kind j = .ok t ∧ ¬ IsLiteral kind t := by
  cases kind with
  | int | bigInt =>
    cases j with
    | number n =>
      have read : n.toInt64? = none := strays
      refine ⟨n.text, by simp only [literal, scalar?, read], ?_⟩
      rintro (null | integer)
      · exact n.isNumber_text.ne_null null
      · simp [not_isInt64_text read] at integer
    | _ => cases strays
  | decimal precision scale =>
    cases j with
    | string t =>
      refine ⟨_, rfl, ?_⟩
      rw [point, withSeparator_point]
      exact strays
    | _ => cases strays
  | _ => cases strays

end

theorem literal_of_misfit (numeric : kind.isNumeric = true) (misfit : ¬ Fits kind j)
    (kept : ¬ Strays kind j) : literal style kind j = invalid (.misfit j kind) := by
  cases kind with
  | int | bigInt =>
    cases j with
    | null => exact absurd rfl misfit
    | number n => exact absurd misfit (not_not.2 kept)
    | string t =>
      have other : isInt64 t = false := by simpa [Fits] using misfit
      simp only [literal, scalar?, other]
      rfl
    | _ => rfl
  | double =>
    cases j with
    | null => exact absurd rfl misfit
    | number n => exact absurd trivial misfit
    | _ => rfl
  | decimal precision scale =>
    cases j with
    | null => exact absurd rfl misfit
    | number n => exact absurd trivial misfit
    | string t => exact absurd misfit kept
    | _ => rfl
  | _ => cases numeric

theorem invalid_of_assignments {ms : List (String × Json)} {cs : List Column} {e : Error}
    (failed : assignments style ms cs = .error e) : ∃ what, e = .invalid what := by
  induction cs with
  | nil => cases failed
  | cons c cs ih =>
    rw [assignments] at failed
    cases found : valueOf? c.wireName c.name ms with
    | none =>
      rw [found] at failed
      exact ih failed
    | some j =>
      cases first : literal style c.kind j with
      | error d =>
        simp only [found, first] at failed
        obtain rfl : d = e := Except.error.inj failed
        exact invalid_of_literal first
      | ok t =>
        cases rest : assignments style ms cs with
        | error d =>
          simp only [found, first, rest] at failed
          obtain rfl : d = e := Except.error.inj failed
          exact ih rest
        | ok ts => simp only [found, first, rest] at failed; cases failed

theorem invalid_of_place {schema : Schema} {ms : List (String × Json)} {p : InsertProperties}
    {c : Column × String} (mem : c ∈ placed ms schema.columns) (found : Json.find? c.2 ms = some j)
    (place : .inr l ∈ shape c.1.kind j) {e : Error} (failed : leafLiteral p.style l = .error e) :
    ∃ what, insertStatement schema (.object ms) p = .error (.invalid what) := by
  cases assigned : assignments p.style ms schema.columns with
  | ok as =>
    obtain ⟨a, -, written⟩ := mem_of_assignments assigned mem found
    rw [literal_eq_fillM] at written
    obtain ⟨t, ok⟩ := Template.exists_of_fillM_ok written place
    rw [failed] at ok
    cases ok
  | error d =>
    obtain ⟨what, rfl⟩ := invalid_of_assignments assigned
    exact ⟨what, by rw [insertStatement, assigned]; rfl⟩

/-- Where a number has to stand, what is written is NULL or a number of the kind, exactly if the value
is none of those that stray; and if it is none of them and has no literal, the insertion fails. -/
theorem literal_numbers (schema : Schema) (ms : List (String × Json)) (p : InsertProperties)
    (point : p.decimalSeparator = '.') :
    (∀ kind j t, literal p.style kind j = .ok t →
      ∃ g : Leaf → String, t = (shape kind j).fill g ∧
        ∀ l, .inr l ∈ shape kind j → leafLiteral p.style l = .ok (g l) ∧
          (l.1.isNumeric = true → (IsLiteral l.1 (g l) ↔ ¬ Strays l.1 l.2))) ∧
    ∀ c ∈ placed ms schema.columns, ∀ j, Json.find? c.2 ms = some j →
      ∀ l, .inr l ∈ shape c.1.kind j → l.1.isNumeric = true → ¬ Fits l.1 l.2 → ¬ Strays l.1 l.2 →
        ∃ what, insertStatement schema (.object ms) p = .error (.invalid what) := by
  have style : p.style.separator = '.' := point
  constructor
  · intro kind j t ok
    rw [literal_eq_fillM] at ok
    obtain ⟨g, texts, rfl⟩ := Template.fillM_eq_ok_iff.1 ok
    refine ⟨g, rfl, fun l place => ⟨texts l place, fun numeric => ?_⟩⟩
    have written : literal p.style l.1 l.2 = .ok (g l) := texts l place
    constructor
    · intro number strays
      obtain ⟨t, ok, other⟩ := literal_of_strays style strays
      exact other (Except.ok.inj (written.symm.trans ok) ▸ number)
    · intro kept
      by_cases fits : Fits l.1 l.2
      · obtain ⟨t, ok, number⟩ := literal_of_fits style numeric fits
        exact Except.ok.inj (ok.symm.trans written) ▸ number
      · rw [literal_of_misfit numeric fits kept] at written
        cases written
  · intro c mem j found l place numeric misfit kept
    exact invalid_of_place mem found place (literal_of_misfit numeric misfit kept)

private abbrev keyedPrices : Json := .object [("5", .array [.number (.whole 7 (by decide)), .null])]

theorem literal_numbers_priced :
    (∃ g : Leaf → String,
      "MAP(5 := ARRAY[7, NULL])" = (shape (.map .int (.array (.decimal 4 2))) keyedPrices).fill g ∧
        IsLiteral .int (g (.int, .string "5"))) ∧
      ∃ what, insertStatement ⟨"Item", [.ofKind "N" (.array .int)]⟩
        (.object [("N", .array [.bool true])]) .standard = .error (.invalid what) := by
  obtain ⟨written, failed⟩ := literal_numbers ⟨"Item", [.ofKind "N" (.array .int)]⟩
    [("N", .array [.bool true])] .standard rfl
  constructor
  · obtain ⟨g, text, places⟩ := written (.map .int (.array (.decimal 4 2))) keyedPrices
      "MAP(5 := ARRAY[7, NULL])" rfl
    have key : (.inr (.int, .string "5")) ∈ shape (.map .int (.array (.decimal 4 2))) keyedPrices :=
      Template.mem_enclosed.2 ⟨_, List.mem_cons_self, List.mem_cons_self⟩
    exact ⟨g, text, ((places _ key).2 rfl).2 not_false⟩
  · exact failed (.ofKind "N" (.array .int), "N") List.mem_cons_self _ rfl (.int, .bool true)
      (Template.mem_enclosed.2 ⟨_, List.mem_cons_self, List.mem_cons_self⟩) rfl (by simp [Fits])
      not_false

private abbrev twoAndHalf : Number :=
  .double ⟨false, 0x14000000000000, 1023, by decide, by decide, by decide⟩

theorem not_literal_numbers :
    ¬ ∀ (kind : TypeKind) (j : Json) (t : String), kind.isNumeric = true →
      literal InsertProperties.standard.style kind j = .ok t → IsLiteral kind t := by
  intro numbers
  have text : twoAndHalf.text = "2.5" := by decide +kernel
  have number := numbers .int (.number twoAndHalf) twoAndHalf.text rfl rfl
  rw [text] at number
  rcases number with null | integer
  · exact absurd null (by decide)
  · exact absurd integer (by decide)

end Insert
end StreamSql
