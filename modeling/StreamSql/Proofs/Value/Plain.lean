import StreamSql.Proofs.Reading.Literal
import StreamSql.Proofs.Text.Sealed

namespace StreamSql

open Text Reading

theorem withSeparator_point (t : String) : withSeparator '.' t = t := by
  have same : (fun c : Char => if c = '.' then '.' else c) = id := by
    funext c
    simp only [id]
    split
    · exact (‹c = '.'›).symm
    · rfl
  rw [withSeparator, replaceChar, same, List.map_id, String.ofList_toList]

theorem IsNumeral.ne {cs : List Char} (h : IsNumeral cs) : cs ≠ [] := by
  cases h with
  | whole ne => exact ne
  | fraction => simp

theorem IsNumeral.unmarked {cs : List Char} (h : IsNumeral cs) : Unmarked cs := by
  have digit {c : Char} (hc : c.isDigit = true) : c ∉ marks :=
    not_mem_marks_of_letter (letter_of_isDigit hc)
  cases h with
  | whole _ digits => exact fun c mem => digit (digits c mem)
  | fraction _ _ digits =>
    intro c mem
    simp only [List.mem_append, List.mem_cons] at mem digits
    rcases mem with mem | rfl | mem
    · exact digit (digits c (.inl mem))
    · decide
    · exact digit (digits c (.inr mem))

theorem solid_signedText {negative : Bool} {cs : List Char} (ne : cs ≠ [])
    (h : Unmarked cs) : Solid (signedText negative cs) := by
  refine .append_right (.of_unmarked (by simpa using h) (by simpa using ne)) ?_
  cases negative <;> exact .of_unmarked (by decide)

theorem solid_int (n : Int) : Solid (toString n) := by
  rw [toString_eq_signedText]
  exact solid_signedText Nat.toDigits_ne_nil fun c mem =>
    not_mem_marks_of_letter (letter_of_isDigit (isDigit_of_mem_toDigits mem))

namespace Value

mutual
def isPlain : Value → Bool
  | .string t | .enum t => !t.toList.contains '\x27'
  | .array items => areItemsPlain items
  | .map entries => areEntriesPlain entries
  | .struct fields => areFieldsPlain fields
  | _ => true
termination_by structural v => v
def areItemsPlain : List Value → Bool
  | [] => true
  | v :: vs => v.isPlain && areItemsPlain vs
termination_by structural vs => vs
def areEntriesPlain : List (Value × Value) → Bool
  | [] => true
  | (k, v) :: es => k.isPlain && v.isPlain && areEntriesPlain es
termination_by structural es => es
def areFieldsPlain : List (String × Value) → Bool
  | [] => true
  | (n, v) :: fs => decide (IsWord n) && v.isPlain && areFieldsPlain fs
termination_by structural fs => fs
end

section

variable {u v : Value} {vs : List Value} {name : String}

theorem areItemsPlain_iff : areItemsPlain vs = true ↔ ∀ v ∈ vs, v.isPlain = true := by
  induction vs with
  | nil => simp [areItemsPlain]
  | cons v vs ih => simp [areItemsPlain, ih]

theorem isPlain_field? (plain : v.isPlain = true) (h : v.field? name = some u) :
    u.isPlain = true := by
  cases v with
  | struct fields =>
    simp only [field?] at h
    simp only [isPlain] at plain
    induction fields with
    | nil => cases h
    | cons f fs ih =>
      obtain ⟨n, w⟩ := f
      simp only [areFieldsPlain, Bool.and_eq_true] at plain
      rw [findField?] at h
      split at h
      · exact Option.some.inj h ▸ plain.1.2
      · exact ih plain.2 h
  | _ => cases h

theorem isPlain_at? (plain : v.isPlain = true) {i : Value} (h : v.at? i = some u) :
    u.isPlain = true := by
  cases v with
  | array items =>
    cases i with
    | int n =>
      simp only [at?] at h
      split at h
      · cases h
      · exact areItemsPlain_iff.1 plain u (List.mem_of_getElem? h)
    | _ => cases h
  | map entries =>
    have found : findValue? i entries = some u := by cases i <;> exact h
    simp only [isPlain] at plain
    clear h
    induction entries with
    | nil => cases found
    | cons e es ih =>
      obtain ⟨k, w⟩ := e
      simp only [areEntriesPlain, Bool.and_eq_true] at plain
      rw [findValue?] at found
      split at found
      · exact Option.some.inj found ▸ plain.1.2
      · exact ih plain.2 found
  | _ => cases i <;> cases h

end

theorem solid_boolText (s : LiteralStyle) (b : Bool) : Solid (s.boolText b) := by
  unfold LiteralStyle.boolText
  split <;> cases b <;> exact .of_unmarked (by decide) (by decide)

theorem solid_emptyArray : Solid (emptyArray none) := by
  have zero : Solid "0" := .of_unmarked (by decide) (by decide)
  have item : Solid ("ARRAY[" ++ join ", " ["0"] ++ "]") :=
    .list (w := "ARRAY") rfl (by decide) (.inr rfl) (.inr rfl) (by simpa using zero.toSealed)
  have text : emptyArray none =
      "ARRAY_REMOVE(" ++ join ", " ["ARRAY[" ++ join ", " ["0"] ++ "]", "0"] ++ ")" := by decide
  rw [text]
  exact .list (w := "ARRAY_REMOVE") rfl (by decide) (.inl rfl) (.inl rfl)
    (by simp [item.toSealed, zero.toSealed])

theorem solid_bytesLiteral (bs : List UInt8) : Solid (bytesLiteral bs) := by
  have text : bytesLiteral bs =
      "TO_BYTES(" ++ join ", " [quoted (.ofList (bs.flatMap hexPair)), quoted "hex"] ++ ")" := by
    rw [← String.toList_inj]
    simp [bytesLiteral, quoted, join]
  have hex : Sealed 0 (quoted (.ofList (bs.flatMap hexPair))) := .quoted (by simpa using hex_free bs)
  have word : Sealed 0 (quoted "hex") := .quoted (by decide)
  rw [text]
  exact .list (w := "TO_BYTES") rfl (by decide) (.inl rfl) (.inl rfl) (by simp [hex, word])

theorem literal_array {s : LiteralStyle} {items : List Value}
    (h : ∀ t ∈ literals s.nested items, Solid t) :
    Sealed 1 ((Value.array items).literal s) ∧
      (s.membership = false → Solid ((Value.array items).literal s)) := by
  have list : Sealed 1 (join ", " (literals s.nested items)) :=
    .join fun t mem => (h t mem).mono (Nat.zero_le 1)
  simp only [literal]
  generalize literals s.nested items = parts at *
  cases s.membership with
  | true => exact ⟨by simpa using list, by simp⟩
  | false =>
    have solid : Solid (if parts.isEmpty then emptyArray none else "ARRAY[" ++ join ", " parts ++ "]") := by
      split
      · exact solid_emptyArray
      · exact .list (w := "ARRAY") rfl (by decide) (.inr rfl) (.inr rfl)
          fun t mem => (h t mem).toSealed
    exact ⟨by simpa using solid.mono (Nat.zero_le 1), fun _ => by simpa using solid⟩

theorem literal_scalar {t : String} {s : LiteralStyle} (h : Solid t) :
    Sealed 1 t ∧ (s.membership = false → Solid t) :=
  ⟨h.mono (Nat.zero_le 1), fun _ => h⟩

mutual
theorem sealed_literal : ∀ (v : Value) (s : LiteralStyle), v.isPlain = true → s.separator = '.' →
    Sealed 1 (v.literal s) ∧ (s.membership = false → Solid (v.literal s))
  | .null, _, _, _ => literal_scalar (.of_unmarked (t := "NULL") (by decide) (by decide))
  | .bool b, s, _, _ => literal_scalar (solid_boolText s b)
  | .int n, _, _, _ => literal_scalar (solid_int n.toInt)
  | .float x, s, _, point => by
    obtain ⟨cs, numeral, text⟩ := x.text_eq_signedText
    simp only [literal, point, withSeparator_point, text]
    exact literal_scalar (solid_signedText numeral.ne numeral.unmarked)
  | .decimal d, s, _, point => by
    obtain ⟨cs, numeral, text⟩ := d.text_eq_signedText
    simp only [literal, point, withSeparator_point, text]
    exact literal_scalar (solid_signedText numeral.ne numeral.unmarked)
  | .string t, _, plain, _ => literal_scalar (.quoted (by simpa [isPlain] using plain))
  | .enum t, _, plain, _ => literal_scalar (.quoted (by simpa [isPlain] using plain))
  | .bytes bs, _, _, _ => literal_scalar (solid_bytesLiteral bs)
  | .date d, _, _, _ => literal_scalar (.quoted (date_free d))
  | .time t, _, _, _ => literal_scalar (.quoted (hms_free t))
  | .timestamp t, _, _, _ => literal_scalar (.quoted (textMillis_free t))
  | .array items, s, plain, point => literal_array (solid_literals items s.nested plain point rfl)
  | .map entries, s, plain, point => literal_scalar <|
    .list (w := "MAP") rfl (by decide) (.inl rfl) (.inl rfl)
      (sealed_entryLiterals entries s.nested plain point rfl)
  | .struct fields, s, plain, point => literal_scalar <|
    .list (w := "STRUCT") rfl (by decide) (.inl rfl) (.inl rfl)
      (sealed_fieldLiterals fields s.nested plain point rfl)
termination_by structural v => v
theorem solid_literals : ∀ (vs : List Value) (s : LiteralStyle), areItemsPlain vs = true →
    s.separator = '.' → s.membership = false → ∀ t ∈ literals s vs, Solid t
  | [], _, _, _, _, _, mem => nomatch mem
  | v :: vs, s, plain, point, nested, t, mem => by
    simp only [areItemsPlain, Bool.and_eq_true] at plain
    rcases List.mem_cons.1 mem with rfl | mem
    · exact (sealed_literal v s plain.1 point).2 nested
    · exact solid_literals vs s plain.2 point nested t mem
termination_by structural vs => vs
theorem sealed_entryLiterals : ∀ (es : List (Value × Value)) (s : LiteralStyle),
    areEntriesPlain es = true → s.separator = '.' → s.membership = false →
    ∀ t ∈ entryLiterals s es, Sealed 0 t
  | [], _, _, _, _, _, mem => nomatch mem
  | (k, v) :: es, s, plain, point, nested, t, mem => by
    simp only [areEntriesPlain, Bool.and_eq_true] at plain
    rcases List.mem_cons.1 mem with rfl | mem
    · have key := (sealed_literal k s plain.1.1 point).2 nested
      have value := (sealed_literal v s plain.1.2 point).2 nested
      exact (key.append (.of_unmarked (by decide))).append value.toSealed
    · exact sealed_entryLiterals es s plain.2 point nested t mem
termination_by structural es => es
theorem sealed_fieldLiterals : ∀ (fs : List (String × Value)) (s : LiteralStyle),
    areFieldsPlain fs = true → s.separator = '.' → s.membership = false →
    ∀ t ∈ fieldLiterals s fs, Sealed 0 t
  | [], _, _, _, _, _, mem => nomatch mem
  | (n, v) :: fs, s, plain, point, nested, t, mem => by
    simp only [areFieldsPlain, Bool.and_eq_true, decide_eq_true_eq] at plain
    rcases List.mem_cons.1 mem with rfl | mem
    · have value := (sealed_literal v s plain.1.2 point).2 nested
      exact (plain.1.1.solid.append (.of_unmarked (by decide))).append value.toSealed
    · exact sealed_fieldLiterals fs s plain.2 point nested t mem
termination_by structural fs => fs
end

theorem solid_literal {v : Value} {s : LiteralStyle} (plain : v.isPlain = true)
    (point : s.separator = '.') (nested : s.membership = false) : Solid (v.literal s) :=
  (sealed_literal v s plain point).2 nested

end Value
end StreamSql
