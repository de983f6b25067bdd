import Mathlib.Data.List.Basic
import Mathlib.Data.List.Induction
import StreamSql.Naming
import StreamSql.Proofs.Text.Bytes

/-!
Names in lower case. Only ASCII characters, the dotted capital I and the sign of the unit kelvin have an
ASCII character in their lower case, so a word of ASCII letters at the end of a name in lower case is that
of as many characters of the name, whatever the lower case of all others is.
-/

namespace StreamSql.Naming

open Text

variable {c d : Char} {word name low s e t : List Char}

@[elab_as_elim]
theorem forall_isLower {P : Char → Prop} (small : c.isLower = true)
    (h : ∀ i < 26, P (.ofNat (97 + i))) : P c := by
  have bounds : 97 ≤ c.toNat ∧ c.toNat ≤ 122 := by
    obtain ⟨low, high⟩ := Bool.and_eq_true_iff.1 small
    exact ⟨UInt32.le_iff_toNat_le.1 (of_decide_eq_true low),
      UInt32.le_iff_toNat_le.1 (of_decide_eq_true high)⟩
  rw [← Char.ofNat_toNat c, ← Nat.add_sub_of_le bounds.1]
  exact h _ (by omega)

theorem lower_of_isLower (small : c.isLower = true) : lower c = [c] :=
  forall_isLower small (by decide)

theorem lower_toUpper (small : c.isLower = true) : lower c.toUpper = [c] :=
  forall_isLower small (by decide)

theorem isUpper_of_isLower (small : c.isLower = true) : Text.isUpper c = false :=
  forall_isLower small (by decide)

theorem isUpper_toUpper (small : c.isLower = true) : Text.isUpper c.toUpper = true :=
  forall_isLower small (by decide)

def IsSmall (word : List Char) : Prop := ∀ c ∈ word, c.isLower = true

/-- A word of small letters that only the letters of ASCII are lowered to. -/
def IsPlain (word : List Char) : Prop := ∀ c ∈ word, c.isLower = true ∧ c ≠ 'k'

-- By the word: a statement about all characters would be decided one character after the other.
instance : DecidablePred IsSmall := fun word => List.decidableBAll _ word

instance : DecidablePred IsPlain := fun word => List.decidableBAll _ word

theorem isSmall_cons : IsSmall (c :: word) ↔ c.isLower = true ∧ IsSmall word := List.forall_mem_cons

theorem isSmall_append : IsSmall (s ++ e) ↔ IsSmall s ∧ IsSmall e := List.forall_mem_append

theorem isAscii_of_isLower (small : c.isLower = true) : isAscii c = true :=
  forall_isLower small (by decide)

theorem isAscii_of_toLower (small : d.toLower.isLower = true) : isAscii d = true := by
  by_contra other
  rw [Bool.not_eq_true] at other
  rw [toLower_of_not_isAscii other] at small
  exact absurd (isAscii_of_isLower small) (by simp [other])

inductive LowerCase : Char → List Char → Prop
  | ascii {c : Char} : isAscii c = true → LowerCase c [c.toLower]
  | dotted : LowerCase '\u0130' ['i', '\u0307']
  | kelvin : LowerCase '\u212A' ['k']
  | other {c : Char} {low : List Char} : isAscii c = false → low ≠ [] →
    (∀ d ∈ low, isAscii d = false) → LowerCase c low

/-- `low` is a name in lower case. A character may have another one in another place of the name. -/
inductive Lowers : List Char → List Char → Prop
  | nil : Lowers [] []
  | cons {c : Char} {first name low : List Char} : LowerCase c first → Lowers name low →
    Lowers (c :: name) (first ++ low)

theorem lowerCase_lower (c : Char) : LowerCase c (lower c) := by
  unfold lower
  split
  · next same => exact same ▸ .dotted
  · split
    · next same => exact same ▸ .kelvin
    · cases h : isAscii c with
      | true => exact .ascii h
      | false =>
        rw [toLower_of_not_isAscii h]
        exact .other h (by simp) (by simp [h])

theorem lowers_lowered (name : List Char) : Lowers name (lowered name) := by
  induction name with
  | nil => exact .nil
  | cons c name ih => exact .cons (lowerCase_lower c) ih

namespace LowerCase

theorem ne_nil (h : LowerCase c low) : low ≠ [] := by
  cases h with
  | other _ ne _ => exact ne
  | _ => simp

theorem eq_of_mem_getLast? (plain : c.isLower = true ∧ c ≠ 'k') (h : LowerCase d low)
    (last : c ∈ low.getLast?) : low = [c] := by
  cases h with
  | ascii => simpa using last
  | dotted =>
    obtain rfl : '\u0307' = c := by simpa using last
    exact absurd plain.1 (by decide)
  | kelvin => exact absurd (by simpa using last.symm) plain.2
  | other _ _ outside =>
    have mem := outside c (List.mem_of_getLast? last)
    exact absurd (isAscii_of_isLower plain.1) (by simp [mem])

theorem eq_singleton_iff (plain : c.isLower = true ∧ c ≠ 'k') (h : LowerCase d low) :
    low = [c] ↔ d.toLower = c := by
  cases h with
  | ascii => simp
  | dotted =>
    exact iff_of_false (by simp) fun same => absurd plain.1 (same ▸ by decide)
  | kelvin =>
    refine iff_of_false (fun same => plain.2 (by simpa using same.symm)) fun same => ?_
    exact absurd plain.1 (same ▸ by decide)
  | other other _ outside =>
    refine iff_of_false ?_ fun same => ?_
    · rintro rfl
      exact absurd (isAscii_of_isLower plain.1) (by simp [outside c])
    · exact absurd (isAscii_of_toLower (same ▸ plain.1)) (by simp [other])

end LowerCase

theorem lowers_nil_iff : Lowers [] low ↔ low = [] :=
  ⟨fun h => by cases h; rfl, fun h => h ▸ .nil⟩

theorem lowers_cons_iff :
    Lowers (c :: name) low ↔ ∃ l m, low = l ++ m ∧ LowerCase c l ∧ Lowers name m := by
  constructor
  · intro h
    cases h with
    | cons first rest => exact ⟨_, _, rfl, first, rest⟩
  · rintro ⟨l, m, rfl, first, rest⟩
    exact .cons first rest

theorem lowers_singleton_iff : Lowers [c] low ↔ LowerCase c low := by
  simp [lowers_cons_iff, lowers_nil_iff]

theorem lowers_append_iff :
    Lowers (s ++ e) low ↔ ∃ l m, low = l ++ m ∧ Lowers s l ∧ Lowers e m := by
  induction s generalizing low with
  | nil => simp [lowers_nil_iff]
  | cons c s ih =>
    rw [List.cons_append, lowers_cons_iff]
    constructor
    · rintro ⟨l, _, rfl, first, rest⟩
      obtain ⟨m, r, rfl, hs, he⟩ := ih.1 rest
      exact ⟨l ++ m, r, by simp, .cons first hs, he⟩
    · rintro ⟨_, r, rfl, hs, he⟩
      obtain ⟨l, m, rfl, first, rest⟩ := lowers_cons_iff.1 hs
      exact ⟨l, m ++ r, by simp, first, ih.2 ⟨m, r, rfl, rest, he⟩⟩

namespace Lowers

theorem eq_nil (h : Lowers name []) : name = [] := by
  cases name with
  | nil => rfl
  | cons c name =>
    obtain ⟨l, m, none, first, -⟩ := lowers_cons_iff.1 h
    exact absurd (List.append_eq_nil_iff.1 none.symm).1 first.ne_nil

theorem exists_ending (plain : IsPlain word) (h : Lowers name (t ++ word)) :
    ∃ s e, name = s ++ e ∧ Lowers s t ∧ e.map Char.toLower = word := by
  -- From the end, where a character that is lowered to two cannot stand: the second is no letter.
  induction word using List.reverseRecOn generalizing name with
  | nil => exact ⟨name, [], by simp, by simpa using h, rfl⟩
  | append_singleton word c ih =>
    obtain rfl | ⟨name, d, rfl⟩ := List.eq_nil_or_concat name
    · exact absurd (lowers_nil_iff.1 h) (by simp)
    · rw [List.concat_eq_append] at h ⊢
      obtain ⟨l, m, same, front, final⟩ := lowers_append_iff.1 h
      have lowerCase := lowers_singleton_iff.1 final
      have last : m = [c] := by
        refine lowerCase.eq_of_mem_getLast? (plain c (by simp)) ?_
        have ends := congrArg List.getLast? same
        rw [← List.append_assoc, List.getLast?_concat,
          List.getLast?_append_of_ne_nil _ lowerCase.ne_nil] at ends
        exact ends.symm
      rw [last, ← List.append_assoc] at same
      obtain rfl := List.append_cancel_right same
      obtain ⟨s, e, rfl, hs, low⟩ := ih (fun c mem => plain c (by simp [mem])) front
      have letter := (lowerCase.eq_singleton_iff (plain c (by simp))).1 last
      exact ⟨s, e ++ [d], by simp, hs, by simp [low, letter]⟩

theorem eq_of_map_toLower (plain : IsPlain word) (h : Lowers e low) (same : e.map Char.toLower = word) :
    low = word := by
  induction e generalizing word low with
  | nil => rw [lowers_nil_iff.1 h, ← same]; rfl
  | cons c e ih =>
    subst same
    obtain ⟨first, rest⟩ := List.forall_mem_cons.1 plain
    obtain ⟨l, m, rfl, lowerCase, others⟩ := lowers_cons_iff.1 h
    rw [(lowerCase.eq_singleton_iff first).2 rfl, ih rest others rfl]
    rfl

theorem suffix_iff (plain : IsPlain word) (h : Lowers name low) :
    word <:+ low ↔ ∃ e, e <:+ name ∧ e.map Char.toLower = word := by
  constructor
  · rintro ⟨t, rfl⟩
    obtain ⟨s, e, rfl, -, same⟩ := exists_ending plain h
    exact ⟨e, List.suffix_append s e, same⟩
  · rintro ⟨e, ⟨s, rfl⟩, same⟩
    obtain ⟨l, m, rfl, -, final⟩ := lowers_append_iff.1 h
    exact eq_of_map_toLower plain final same ▸ List.suffix_append l m

theorem eq_iff (plain : IsPlain word) (h : Lowers name low) :
    low = word ↔ name.map Char.toLower = word := by
  constructor
  · rintro rfl
    obtain ⟨s, e, rfl, nothing, same⟩ := exists_ending plain (t := []) h
    rw [nothing.eq_nil, List.nil_append, same]
  · exact eq_of_map_toLower plain h

end Lowers
end StreamSql.Naming
