import Mathlib.Data.List.TakeWhile
import StreamSql.Json.Printer
import StreamSql.Json.Token
import StreamSql.Proofs.Value.Numeral

namespace StreamSql.Number

def ReadsBack (n : Number) : Prop :=
  (Numeral.read? n.text.toList).bind Numeral.value? = some n

instance (n : Number) : Decidable n.ReadsBack := inferInstanceAs (Decidable (_ = _))

theorem ofDigits_toDigits (n : Nat) : Text.ofDigits (Nat.toDigits 10 n) = n := by
  change Nat.ofDigitChars 10 (Nat.toDigits 10 n) 0 = n
  simp

theorem head?_toDigits {n : Nat} : n ≠ 0 → (Nat.toDigits 10 n).head? ≠ some '0' := by
  induction n using Nat.strongRecOn with
  | _ n ih =>
    intro ne
    by_cases small : n < 10
    · have digit : ∀ m < 10, m ≠ 0 → m.digitChar ≠ '0' := by decide
      simpa [Nat.toDigits_of_lt_base small] using digit n small ne
    · obtain ⟨c, cs, split⟩ :=
        List.exists_cons_of_ne_nil (Nat.toDigits_ne_nil (n := n / 10) (b := 10))
      have first := ih (n / 10) (by omega) (by omega)
      rw [Nat.toDigits_of_base_le (by decide) (by omega), split]
      simpa [split] using first

theorem isWhole_toDigits (n : Nat) : isWhole (Nat.toDigits 10 n) = true := by
  by_cases zero : n = 0
  · subst zero
    rfl
  · have first := head?_toDigits zero
    unfold isWhole
    split
    · exact absurd ‹_› Nat.toDigits_ne_nil
    · simp [‹_ = '0' :: _›] at first
    · rfl

theorem read?_signedText (negative : Bool) (n : Nat) :
    Numeral.read? (signedText negative (Nat.toDigits 10 n)).toList =
      some ⟨negative, Nat.toDigits 10 n, none, none⟩ := by
  have digits : ∀ c ∈ Nat.toDigits 10 n, c.isDigit = true := fun _ => isDigit_of_mem_toDigits
  have whole := isWhole_toDigits n
  obtain ⟨c, cs, split⟩ := List.exists_cons_of_ne_nil (Nat.toDigits_ne_nil (n := n) (b := 10))
  have sign : c ≠ '-' := by
    rintro rfl
    exact absurd (digits '-' (by simp [split])) (by decide)
  have taken := List.takeWhile_eq_self_iff.2 digits
  have dropped := List.dropWhile_eq_nil_iff.2 digits
  rw [split] at whole taken dropped ⊢
  cases negative <;>
    simp [Numeral.read?, signedText, sign, taken, dropped, whole, exponent?]

theorem readsBack_whole (n : Int) (fits : -0x8000000000000000 ≤ n ∧ n < 0x10000000000000000) :
    (Number.whole n fits).ReadsBack := by
  rw [ReadsBack, text, toString_eq_signedText, read?_signedText]
  simp only [Option.bind_some, Numeral.value?, ofDigits_toDigits]
  by_cases negative : n < 0
  · have value : (-(n.natAbs : Int)) = n := by omega
    have ne : n.natAbs ≠ 0 := by omega
    generalize n.natAbs = m at value ne ⊢
    simp [negative, ne, value, whole?, fits]
  · have value : (n.natAbs : Int) = n := by omega
    generalize n.natAbs = m at value ⊢
    simp [negative, value, whole?, fits]

theorem isNumeric_of_isDigit {c : Char} (h : c.isDigit = true) : Json.isNumeric c = true := by
  simp [Json.isNumeric, h]

theorem numeric_takeWhile {c : Char} {cs : List Char} (h : c ∈ cs.takeWhile Char.isDigit) :
    Json.isNumeric c = true :=
  isNumeric_of_isDigit (List.all_eq_true.1 List.all_takeWhile c h)

theorem numeric_of_exponent? {cs : List Char} {e : Option Int} (h : exponent? cs = some e) :
    ∀ c ∈ cs, Json.isNumeric c = true := by
  have digits {ds : List Char} (h : ∀ c ∈ ds, c.isDigit = true) :
      ∀ c ∈ ds, Json.isNumeric c = true := fun c mem => isNumeric_of_isDigit (h c mem)
  rcases cs with _ | ⟨c, _ | ⟨d, cs⟩⟩
  · simp
  · simp [exponent?] at h
  · simp only [exponent?, Option.ite_none_right_eq_some, Bool.or_eq_true, decide_eq_true_eq] at h
    obtain ⟨letter, h⟩ := h
    have mark : Json.isNumeric c = true := by rcases letter with rfl | rfl <;> rfl
    refine List.forall_mem_cons.2 ⟨mark, ?_⟩
    by_cases plus : d = '+'
    · subst plus
      simp at h
      exact List.forall_mem_cons.2 ⟨rfl, digits h.1.2⟩
    · by_cases minus : d = '-'
      · subst minus
        simp at h
        exact List.forall_mem_cons.2 ⟨rfl, digits h.1.2⟩
      · simp [plus, minus] at h
        exact digits (List.forall_mem_cons.2 h.1)

theorem numeric_of_fraction {cs : List Char} {l : Numeral}
    {make : Option (List Char) → Option Int → Numeral}
    (h : (match cs with
      | '.' :: ds =>
        if ds.takeWhile Char.isDigit = [] then none
        else (exponent? (ds.dropWhile Char.isDigit)).bind fun e =>
          some (make (some (ds.takeWhile Char.isDigit)) e)
      | rest => (exponent? rest).bind fun e => some (make none e)) = some l) :
    ∀ c ∈ cs, Json.isNumeric c = true := by
  split at h
  · rename_i ds
    split at h
    · cases h
    · obtain ⟨e, he, -⟩ := Option.bind_eq_some_iff.1 h
      rw [← List.takeWhile_append_dropWhile (p := Char.isDigit) (l := ds)]
      refine List.forall_mem_cons.2 ⟨rfl, fun c mem => ?_⟩
      exact (List.mem_append.1 mem).elim numeric_takeWhile (numeric_of_exponent? he c)
  · obtain ⟨e, he, -⟩ := Option.bind_eq_some_iff.1 h
    exact numeric_of_exponent? he

theorem read?_parts {cs : List Char} {l : Numeral} (h : Numeral.read? cs = some l) :
    ∃ sign body, cs = sign ++ body ∧ (sign = [] ∨ sign = ['-']) ∧
      isWhole (body.takeWhile Char.isDigit) = true ∧
      ∀ c ∈ body.dropWhile Char.isDigit, Json.isNumeric c = true := by
  rcases cs with _ | ⟨c, cs⟩
  · simp [Numeral.read?, isWhole] at h
  · by_cases sign : c = '-'
    · subst sign
      simp [-List.takeWhile_eq_nil_iff, Numeral.read?] at h
      exact ⟨['-'], cs, rfl, .inr rfl, h.1, numeric_of_fraction h.2⟩
    · simp [-List.takeWhile_eq_nil_iff, Numeral.read?, sign] at h
      exact ⟨[], c :: cs, rfl, .inl rfl, h.1, numeric_of_fraction h.2⟩

theorem numeric_of_read? {cs : List Char} {l : Numeral} (h : Numeral.read? cs = some l) :
    ∀ c ∈ cs, Json.isNumeric c = true := by
  obtain ⟨sign, body, rfl, shape, -, numeric⟩ := read?_parts h
  rw [← List.takeWhile_append_dropWhile (p := Char.isDigit) (l := body)]
  intro c mem
  simp only [List.mem_append] at mem
  rcases mem with mem | mem | mem
  · rcases shape with rfl | rfl
    · simp at mem
    · obtain rfl := List.mem_singleton.1 mem
      rfl
  · exact numeric_takeWhile mem
  · exact numeric c mem

theorem begins_of_read? {cs : List Char} {l : Numeral} (h : Numeral.read? cs = some l) :
    ∃ c ds, cs = c :: ds ∧ (c.isDigit || c = '-') = true := by
  obtain ⟨sign, body, rfl, shape, whole, -⟩ := read?_parts h
  rcases shape with rfl | rfl
  · cases body with
    | nil => simp [isWhole] at whole
    | cons c cs =>
      by_cases digit : c.isDigit = true
      · exact ⟨c, cs, rfl, by simp [digit]⟩
      · simp [digit, isWhole] at whole
  · exact ⟨'-', body, rfl, rfl⟩

end StreamSql.Number
