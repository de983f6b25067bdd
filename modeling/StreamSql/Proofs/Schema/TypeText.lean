import StreamSql.Proofs.Response.Brackets
import StreamSql.Proofs.Text.Trim
import StreamSql.Proofs.Value.Numeral
import StreamSql.Schema

namespace StreamSql

open Header (Inert opens closes marks)

def IsPlainName (n : String) : Prop := ∀ c ∈ n.toList, c ∉ marks

instance (n : String) : Decidable (IsPlainName n) :=
  List.decidableBAll (· ∉ marks) n.toList

structure IsTypeText (t : String) : Prop where
  inert : Inert 0 t.toList
  isTrimmed : Text.IsTrimmed t.toList

theorem IsPlainName.inert {n : String} (h : IsPlainName n) (k : Nat) : Inert k n.toList :=
  .of_not_mem_marks h

theorem inert_word {k : Nat} {cs : List Char} (h : ∀ c ∈ cs, c.isAlphanum = true) : Inert k cs :=
  .of_not_mem_marks fun c hc => Header.not_mem_marks_of_isAlphanum (h c hc)

theorem isDigit_of_mem_toString {n : Nat} {c : Char} (hc : c ∈ (toString n).toList) :
    c.isDigit = true := by
  refine isDigit_of_mem_toDigits (n := n) ?_
  simpa [Nat.repr_eq_ofList_toDigits] using hc

theorem inert_toString (k n : Nat) : Inert k (toString n).toList :=
  inert_word fun c hc => by simp [Char.isAlphanum, isDigit_of_mem_toString hc]

theorem inert_separator : Inert 1 [',', ' '] := (Inert.nil.cons (by decide)).comma

theorem inert_bracketed {word : List Char} {l r : Char} {cs : List Char}
    (hw : word.all Char.isAlphanum = true) (hl : opens l = true) (hr : closes r = true)
    (h : Inert 1 cs) : Inert 0 (word ++ l :: (cs ++ [r])) :=
  (inert_word (by simpa using hw)).append (.brackets hl hr h)

namespace TypeKind

mutual
def wireNames : TypeKind → List String
  | .array element => element.wireNames
  | .map key value => key.wireNames ++ value.wireNames
  | .struct fields => fieldNames fields
  | _ => []
termination_by structural k => k
def fieldNames : List Column → List String
  | [] => []
  | ⟨name, rename, kind, _, _⟩ :: cs => rename.getD name :: (kind.wireNames ++ fieldNames cs)
termination_by structural cs => cs
end

mutual
theorem inert_text : ∀ k : TypeKind, (∀ n ∈ k.wireNames, IsPlainName n) → Inert 0 k.text.toList
  | .int, _ | .bigInt, _ | .double, _ | .boolean, _ | .string, _ | .bytes, _ | .date, _ | .time, _
  | .timestamp, _ => inert_word (List.all_eq_true.1 (by decide))
  | .decimal precision scale, _ => by
    have sizes := (inert_toString 1 precision.toNat).append
      (inert_separator.append (inert_toString 1 scale.toNat))
    have whole : Inert 0 ("DECIMAL".toList ++ '(' :: (_ ++ [')'])) :=
      inert_bracketed (by decide) rfl rfl sizes
    simpa [text] using whole
  | .array element, h => by
    have whole : Inert 0 ("ARRAY".toList ++ '<' :: (_ ++ ['>'])) :=
      inert_bracketed (by decide) rfl rfl ((inert_text element h).mono (Nat.zero_le 1))
    simpa [text] using whole
  | .map key value, h => by
    have left := inert_text key fun n hn => h n (List.mem_append_left _ hn)
    have right := inert_text value fun n hn => h n (List.mem_append_right _ hn)
    have whole : Inert 0 ("MAP".toList ++ '<' :: (_ ++ ['>'])) :=
      inert_bracketed (by decide) rfl rfl ((left.mono (Nat.zero_le 1)).append
        (inert_separator.append (right.mono (Nat.zero_le 1))))
    simpa [text] using whole
  | .struct fields, h => by
    have inner := Inert.join [',', ' '] inert_separator
      fun t ht => (inert_fieldTexts fields h t ht).mono (Nat.zero_le 1)
    have whole : Inert 0 ("STRUCT".toList ++ '<' :: (_ ++ ['>'])) :=
      inert_bracketed (by decide) rfl rfl inner
    simpa [text] using whole
theorem inert_fieldTexts : ∀ fields : List Column, (∀ n ∈ fieldNames fields, IsPlainName n) →
    ∀ t ∈ fieldTexts fields, Inert 0 t.toList
  | [], _, _, ht => by simp [fieldTexts] at ht
  | ⟨name, rename, kind, _, _⟩ :: cs, h, t, ht => by
    simp only [fieldTexts, List.mem_cons] at ht
    rcases ht with rfl | ht
    · have plain : IsPlainName (rename.getD name) := h _ List.mem_cons_self
      have type := inert_text kind fun n hn =>
        h n (List.mem_cons_of_mem _ (List.mem_append_left _ hn))
      simpa using (plain.inert 0).append (type.cons (by decide))
    · exact inert_fieldTexts cs
        (fun n hn => h n (List.mem_cons_of_mem _ (List.mem_append_right _ hn))) t ht
end

theorem isTrimmed_text (k : TypeKind) : Text.IsTrimmed k.text.toList := by
  cases k with
  | int | bigInt | double | boolean | string | bytes | date | time | timestamp =>
    constructor <;> simp [text, Text.isBlank]
  | decimal | array | map | struct =>
    constructor <;> simp [text, List.getLast?_cons, Text.isBlank]

theorem isTypeText_text {k : TypeKind} (h : ∀ n ∈ k.wireNames, IsPlainName n) :
    IsTypeText k.text :=
  ⟨k.inert_text h, k.isTrimmed_text⟩

end TypeKind
end StreamSql
