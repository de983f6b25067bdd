import StreamSql.Json.Printer
import StreamSql.Proofs.Value.Numeral

namespace StreamSql

def IsSign (cs : List Char) : Prop := cs = [] ∨ cs = ['-'] ∨ cs = ['+']

inductive IsMantissa : List Char → Prop
  | whole {ds : List Char} : ds ≠ [] → (∀ c ∈ ds, c.isDigit = true) → IsMantissa ds
  | point {ds es : List Char} : ds ++ es ≠ [] → (∀ c ∈ ds ++ es, c.isDigit = true) →
    IsMantissa (ds ++ '.' :: es)

inductive IsExponent : List Char → Prop
  | none : IsExponent []
  | some {e : Char} {sign ds : List Char} : e = 'e' ∨ e = 'E' → IsSign sign → ds ≠ [] →
    (∀ c ∈ ds, c.isDigit = true) → IsExponent (e :: (sign ++ ds))

def IsNumber (t : String) : Prop :=
  ∃ sign mantissa exponent, t.toList = sign ++ mantissa ++ exponent ∧
    IsSign sign ∧ IsMantissa mantissa ∧ IsExponent exponent

theorem IsMantissa.exists_digit {cs : List Char} (h : IsMantissa cs) : ∃ c ∈ cs, c.isDigit = true := by
  cases h with
  | whole ne digits =>
    obtain ⟨c, mem⟩ := List.exists_mem_of_ne_nil _ ne
    exact ⟨c, mem, digits c mem⟩
  | @point ds es ne digits =>
    obtain ⟨c, mem⟩ := List.exists_mem_of_ne_nil _ ne
    refine ⟨c, ?_, digits c mem⟩
    rcases List.mem_append.1 mem with mem | mem <;> simp [mem]

theorem IsNumber.ne_null {t : String} (h : IsNumber t) : t ≠ "NULL" := by
  rintro rfl
  obtain ⟨sign, mantissa, exponent, text, -, m, -⟩ := h
  obtain ⟨c, mem, digit⟩ := m.exists_digit
  have among : c ∈ "NULL".toList := by simp [text, mem]
  have some : "NULL".toList.any Char.isDigit = true := List.any_eq_true.2 ⟨c, among, digit⟩
  exact absurd some (by decide)

theorem IsNumeral.isMantissa {cs : List Char} (h : IsNumeral cs) : IsMantissa cs := by
  cases h with
  | whole ne digits => exact .whole ne digits
  | fraction ne _ digits => exact .point (by simp [ne]) digits

theorem isNumber_signedText (negative : Bool) {mantissa exponent : List Char}
    (m : IsMantissa mantissa) (e : IsExponent exponent) :
    IsNumber (signedText negative (mantissa ++ exponent)) := by
  refine ⟨if negative then ['-'] else [], mantissa, exponent, ?_, ?_, m, e⟩
  · cases negative <;> simp [signedText]
  · cases negative <;> simp [IsSign]

theorem isNumber_of_numeral {negative : Bool} {cs : List Char} (h : IsNumeral cs) :
    IsNumber (signedText negative cs) := by
  simpa using isNumber_signedText negative h.isMantissa .none

theorem isNumeral_toDigits (n : Nat) : IsNumeral (Nat.toDigits 10 n) :=
  .whole Nat.toDigits_ne_nil fun _ => isDigit_of_mem_toDigits

theorem isNumber_toString (n : Int) : IsNumber (toString n) :=
  toString_eq_signedText n ▸ isNumber_of_numeral (isNumeral_toDigits _)

def IsFractional (cs : List Char) : Prop := '.' ∈ cs ∨ 'e' ∈ cs

theorem Digits.layout_text {d : Digits} (ne : d.digits ≠ [])
    (digits : ∀ c ∈ d.digits, c.isDigit = true) :
    ∃ mantissa exponent, d.text Number.layout = .ofList (mantissa ++ exponent) ∧
      IsMantissa mantissa ∧ IsExponent exponent ∧ IsFractional (mantissa ++ exponent) := by
  have zeros {n : Nat} : ∀ c ∈ List.replicate n '0', c.isDigit = true := fun _ =>
    isDigit_of_mem_replicate
  simp only [text]
  split
  · split
    · refine ⟨['0'] ++ '.' :: (List.replicate (-d.point).toNat '0' ++ d.digits), [], ?_,
        .point (by simp) ?_, .none, .inl (by simp)⟩
      · simp [String.ofList_cons, ← String.append_assoc]
      · simp only [List.forall_mem_append]
        exact ⟨by simp, zeros, digits⟩
    · split
      · refine ⟨d.digits.take d.point.toNat ++ '.' :: d.digits.drop d.point.toNat, [], ?_,
          .point (by simpa using ne) (by simpa using digits), .none, .inl (by simp)⟩
        simp [String.append_assoc, String.ofList_append, String.ofList_cons]
      · refine ⟨d.digits ++ List.replicate (d.point - d.digits.length).toNat '0' ++ '.' :: ['0'], [],
          ?_, .point (by simp) ?_, .none, .inl (by simp)⟩
        · simp [Number.layout, String.ofList_append, String.append_assoc]
        · simp only [List.forall_mem_append]
          exact ⟨⟨digits, zeros⟩, by simp⟩
  · have tail : (if d.point - 1 < 0 then "e-" else "e+") ++ toString (d.point - 1).natAbs =
        .ofList ('e' :: ((if d.point - 1 < 0 then ['-'] else ['+']) ++
          Nat.toDigits 10 (d.point - 1).natAbs)) := by
      split <;> simp [String.ofList_cons, Nat.repr_eq_ofList_toDigits, ← String.append_assoc]
    have exponent : IsExponent ('e' :: ((if d.point - 1 < 0 then ['-'] else ['+']) ++
        Nat.toDigits 10 (d.point - 1).natAbs)) := by
      refine .some (.inl rfl) ?_ Nat.toDigits_ne_nil fun _ => isDigit_of_mem_toDigits
      split <;> simp [IsSign]
    obtain ⟨c, cs, split⟩ := List.exists_cons_of_ne_nil ne
    rw [split] at digits ⊢
    rw [String.append_assoc, tail]
    cases cs with
    | nil =>
      refine ⟨[c], _, ?_, .whole (by simp) digits, exponent, .inr (by simp)⟩
      rw [String.ofList_append]
    | cons c' cs =>
      refine ⟨[c] ++ '.' :: (c' :: cs), _, ?_, .point (by simp) digits, exponent, .inr (by simp)⟩
      rw [String.ofList_append]
      rfl

theorem Double.layout_text (x : Double) :
    ∃ mantissa exponent, x.text Number.layout = signedText x.negative (mantissa ++ exponent) ∧
      IsMantissa mantissa ∧ IsExponent exponent ∧ IsFractional (mantissa ++ exponent) := by
  by_cases zero : x.isZero = true
  · refine ⟨['0'] ++ '.' :: ['0'], [], ?_, .point (by simp) (by simp), .none, .inl (by simp)⟩
    simp [text, zero, signedText, Number.layout]
  · obtain ⟨ne, digits⟩ := shortest_digits Number.layout.tie (x := x) (by simpa using zero)
    obtain ⟨mantissa, exponent, written, m, e, fractional⟩ := Digits.layout_text ne digits
    exact ⟨mantissa, exponent, by simp [text, zero, written, signedText], m, e, fractional⟩

theorem Number.isNumber_text (n : Number) : IsNumber n.text := by
  cases n with
  | whole n => exact isNumber_toString n
  | double x =>
    obtain ⟨mantissa, exponent, written, m, e, -⟩ := x.layout_text
    rw [text, written]
    exact isNumber_signedText x.negative m e

end StreamSql
