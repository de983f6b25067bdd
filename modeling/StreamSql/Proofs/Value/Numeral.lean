import StreamSql.Proofs.Double.Shortest
import StreamSql.Value.Literal

namespace StreamSql

inductive IsNumeral : List Char → Prop
  | whole {ds : List Char} : ds ≠ [] → (∀ c ∈ ds, c.isDigit = true) → IsNumeral ds
  | fraction {ds es : List Char} : ds ≠ [] → es ≠ [] → (∀ c ∈ ds ++ es, c.isDigit = true) →
    IsNumeral (ds ++ '.' :: es)

theorem IsNumeral.cut {ds : List Char} {k : Nat} (digits : ∀ c ∈ ds, c.isDigit = true) (pos : 0 < k)
    (lt : k < ds.length) : IsNumeral (ds.take k ++ '.' :: ds.drop k) := by
  refine .fraction ?_ ?_ (by simpa using digits)
  · rw [← List.length_pos_iff, List.length_take]
    omega
  · rw [← List.length_pos_iff, List.length_drop]
    omega

def signedText (negative : Bool) (cs : List Char) : String :=
  (if negative then "-" else "") ++ .ofList cs

theorem isDigit_of_mem_toDigits {n : Nat} {c : Char} (h : c ∈ Nat.toDigits 10 n) :
    c.isDigit = true :=
  Nat.isDigit_of_mem_toDigits (by decide) (by decide) h

theorem isDigit_of_mem_replicate {n : Nat} {c : Char} (h : c ∈ List.replicate n '0') :
    c.isDigit = true := by
  obtain rfl := (List.mem_replicate.1 h).2
  rfl

theorem toString_eq_signedText (n : Int) :
    toString n = signedText (n < 0) (Nat.toDigits 10 n.natAbs) := by
  rw [Int.toString_eq_repr, Int.repr_eq_if, signedText]
  by_cases h : 0 ≤ n
  · rw [if_pos h, if_neg (by simpa using h), show n.toNat = n.natAbs by omega]
    simp [Nat.repr_eq_ofList_toDigits]
  · rw [if_neg h, if_pos (by simpa using h), show (-n).toNat = n.natAbs by omega]
    simp [Nat.repr_eq_ofList_toDigits]

theorem Text.isDigit_of_mem_padNat {width n : Nat} {c : Char}
    (h : c ∈ (padNat width n).toList) : c.isDigit = true := by
  simp only [padNat, String.toList_ofList, List.mem_append] at h
  exact h.elim isDigit_of_mem_replicate isDigit_of_mem_toDigits

theorem Text.le_length_padNat (width n : Nat) : width ≤ (padNat width n).toList.length := by
  simp [padNat]
  omega

theorem Decimal.text_eq_signedText (d : Decimal) :
    ∃ cs, IsNumeral cs ∧ d.text = signedText d.negative cs := by
  have digits {c : Char} (hc : c ∈ (Text.padNat (d.scale + 1) d.coefficient).toList) :
      c.isDigit = true := Text.isDigit_of_mem_padNat hc
  have length := Text.le_length_padNat (d.scale + 1) d.coefficient
  simp only [text]
  generalize (Text.padNat (d.scale + 1) d.coefficient).toList = ds at *
  by_cases whole : d.scale = 0
  · refine ⟨ds, .whole (by rintro rfl; simp at length) fun _ => digits, ?_⟩
    simp [signedText, whole]
  · refine ⟨_, .cut (k := ds.length - d.scale) (fun _ => digits) (by omega) (by omega), ?_⟩
    simp [signedText, whole, String.append_assoc, String.ofList_append, String.ofList_cons]

theorem Digits.text_eq {d : Digits} (ne : d.digits ≠ [])
    (digits : ∀ c ∈ d.digits, c.isDigit = true) :
    ∃ cs, IsNumeral cs ∧ d.text LiteralStyle.digits = .ofList cs := by
  have full : DigitLayout.writesFull LiteralStyle.digits d.point = true := rfl
  simp only [text, full, if_true]
  split
  · refine ⟨'0' :: '.' :: (List.replicate (-d.point).toNat '0' ++ d.digits),
      IsNumeral.fraction (List.cons_ne_nil '0' []) (by simp [ne]) ?_, ?_⟩
    · intro c hc
      simp only [List.cons_append, List.nil_append, List.mem_cons, List.mem_append] at hc
      rcases hc with rfl | hc | hc
      · rfl
      · exact isDigit_of_mem_replicate hc
      · exact digits c hc
    · simp [String.ofList_cons, ← String.append_assoc]
  · split
    · refine ⟨_, .cut (k := d.point.toNat) digits (by omega) (by omega), ?_⟩
      simp [String.append_assoc, String.ofList_append, String.ofList_cons]
    · refine ⟨d.digits ++ List.replicate (d.point - d.digits.length).toNat '0',
        .whole (by simp [ne]) ?_,
        by simp [LiteralStyle.digits]⟩
      intro c hc
      exact (List.mem_append.1 hc).elim (digits c) isDigit_of_mem_replicate

theorem Double.text_eq_signedText (x : Double) :
    ∃ cs, IsNumeral cs ∧ x.text LiteralStyle.digits = signedText x.negative cs := by
  simp only [text]
  by_cases zero : x.isZero = true
  · exact ⟨['0'], .whole (by simp) (by simp), by simp [zero, LiteralStyle.digits, signedText]⟩
  · obtain ⟨ne, digits⟩ := shortest_digits LiteralStyle.digits.tie (x := x) (by simpa using zero)
    obtain ⟨cs, numeral, text⟩ := Digits.text_eq ne digits
    exact ⟨cs, numeral, by simp [zero, text, signedText]⟩

end StreamSql
