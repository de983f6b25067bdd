import StreamSql.Proofs.Naming.LastWord

/-!
Plurals in capitals. In a name of capitals every letter counts as the start of a word, so an exception is
found wherever the name ends in it. The plural is the same as in small letters just where that makes no
difference: no exception is found, the word is one as a whole, or it looks plural.
-/

namespace StreamSql.Naming

variable {word w : List Char}

theorem endsInWord_map_toUpper_iff (small : IsSmall w) (mem : word ∈ exceptions) :
    endsInWord word (w.map Char.toUpper) = true ↔ word <:+ w := by
  constructor
  · intro ends
    exact lowered_map_toUpper small ▸ suffix_of_endsInWord ends
  · rintro ⟨s, rfl⟩
    obtain ⟨ne, letters⟩ := isSmall_exceptions word mem
    refine (endsInWord_iff (isPlain_exceptions word mem)).2
      ⟨s.map Char.toUpper, word.map Char.toUpper, List.map_append, lowered_map_toUpper letters,
        List.length_map _, .inr (.inr ?_)⟩
    obtain ⟨c, cs, rfl⟩ := List.exists_cons_of_ne_nil ne
    exact ⟨c.toUpper, rfl, isUpper_toUpper (letters c List.mem_cons_self)⟩

theorem endsInWord_iff_eq (small : IsSmall w) (mem : word ∈ exceptions) :
    endsInWord word w = true ↔ w = word := by
  rw [endsInWord_iff (isPlain_exceptions word mem)]
  constructor
  · rintro ⟨s, e, rfl, rfl, -, starts⟩
    obtain ⟨before, letters⟩ := isSmall_append.1 small
    rw [lowered_of_small letters]
    obtain rfl | behind | ⟨c, head, upper⟩ := starts
    · rfl
    · exact absurd (before '_' (List.mem_of_getLast? behind)) (by decide)
    · rw [isUpper_of_isLower (letters c (List.mem_of_head? head))] at upper
      cases upper
  · rintro rfl
    exact ⟨[], w, rfl, lowered_of_small small, rfl, .inl rfl⟩

theorem pluralChars_of_small (small : IsSmall w) (ne : w ≠ []) (part : w ∉ exceptions)
    (singular : isPlural w = false) : pluralChars w = regularPlural w :=
  pluralChars_eq_regularPlural ne
    (fun _ mem => Bool.eq_false_iff.2 fun ends => part ((endsInWord_iff_eq small mem).1 ends ▸ mem))
    (by rwa [lowered_of_small small])

theorem regularPlural_map_toUpper (small : IsSmall w) (ne : w ≠ []) :
    regularPlural (w.map Char.toUpper) = (regularPlural w).map Char.toUpper := by
  obtain nil | ⟨l, c, last⟩ := List.eq_nil_or_concat w
  · exact absurd nil ne
  · rw [List.concat_eq_append] at last
    have letter : c.isLower = true := small c (by simp [last])
    have capitals : (w.map Char.toUpper).getLast?.any Text.isUpper = true := by
      simp [last, isUpper_toUpper letter]
    have none : w.getLast?.any Text.isUpper = false := by
      simp [last, isUpper_of_isLower letter]
    rw [regularPlural, regularPlural, lowered_map_toUpper small, lowered_of_small small, capitals, none]
    simp [stem, List.map_take]

theorem pluralChars_map_toUpper_of_isPlural (small : IsSmall w) (h : isPlural w = true) :
    pluralChars (w.map Char.toUpper) = (pluralChars w).map Char.toUpper := by
  rw [pluralChars_of_isPlural (by rwa [lowered_map_toUpper small]),
    pluralChars_of_isPlural (by rwa [lowered_of_small small])]

theorem irregular_ne_regularPlural {v : Irregular} {s : List Char} (mem : v ∈ irregulars)
    (small : IsSmall (s ++ v.singular)) (e : List Char) :
    s.map Char.toUpper ++ matchCase e v.plural ≠ regularPlural ((s ++ v.singular).map Char.toUpper) := by
  intro same
  have rule : ∀ v ∈ irregulars, 2 ≤ v.singular.length ∧ v.singular ≠ ['i', 's'] ∧
      (regular v.singular).1 = 0 ∧ v.plural ≠ v.singular ++ (regular v.singular).2.toList := by decide
  obtain ⟨long, ne, nothing, other⟩ := rule v mem
  have low := congrArg lowered same
  rw [lowered_append, lowered_map_toUpper (isSmall_append.1 small).1,
    lowered_matchCase (isSmall_exceptions _ (plural_mem_exceptions mem)).2, lowered_regularPlural,
    lowered_map_toUpper small, regular_append s long ne, nothing, stem, Nat.sub_zero, List.take_length,
    List.append_assoc] at low
  exact other (List.append_cancel_left low)

theorem pluralChars_map_toUpper_ne (small : IsSmall w) (mem : word ∈ exceptions)
    (suffix : word <:+ w) (part : w ∉ exceptions) (singular : isPlural w = false) :
    pluralChars (w.map Char.toUpper) ≠ (pluralChars w).map Char.toUpper := by
  have ne : w ≠ [] := by
    rintro rfl
    exact (isSmall_exceptions word mem).1 (List.suffix_nil.1 suffix)
  rw [pluralChars_of_small small ne part singular, ← regularPlural_map_toUpper small ne]
  obtain same | ⟨v, hv, ends, same⟩ | ⟨-, none, -, -⟩ := pluralChars_cases (w.map Char.toUpper)
  · rw [same]
    exact (regularPlural_ne _).symm
  · obtain ⟨s, rfl⟩ := (endsInWord_map_toUpper_iff small (singular_mem_exceptions hv)).1 ends
    have len : (v.singular.map Char.toUpper).length = v.singular.length := List.length_map _
    rw [same, List.map_append, ← len, stem_append, ending_append, ← List.map_append]
    exact irregular_ne_regularPlural hv small _
  · exact absurd ((endsInWord_map_toUpper_iff small mem).2 suffix) (by simp [none word mem])

theorem pluralChars_map_toUpper_iff (small : IsSmall w) :
    pluralChars (w.map Char.toUpper) = (pluralChars w).map Char.toUpper ↔
      ((∃ word ∈ exceptions, word <:+ w) → w ∈ exceptions ∨ isPlural w = true) := by
  have table : ∀ word ∈ exceptions,
      pluralChars (word.map Char.toUpper) = (pluralChars word).map Char.toUpper := by decide +kernel
  constructor
  · rintro same ⟨word, mem, suffix⟩
    by_contra neither
    rw [not_or, Bool.not_eq_true] at neither
    exact pluralChars_map_toUpper_ne small mem suffix neither.1 neither.2 same
  · intro h
    by_cases plural : isPlural w = true
    · exact pluralChars_map_toUpper_of_isPlural small plural
    by_cases whole : w ∈ exceptions
    · exact table w whole
    have none : ∀ word ∈ exceptions, ¬ word <:+ w := fun word mem suffix =>
      (h ⟨word, mem, suffix⟩).elim whole plural
    have capitals : ∀ word ∈ exceptions, endsInWord word (w.map Char.toUpper) = false := fun word mem =>
      Bool.eq_false_iff.2 fun ends => none word mem ((endsInWord_map_toUpper_iff small mem).1 ends)
    rw [Bool.not_eq_true] at plural
    by_cases ne : w = []
    · subst ne
      rfl
    · rw [pluralChars_eq_regularPlural (by simpa using ne) capitals (by rwa [lowered_map_toUpper small]),
        pluralChars_of_small small ne whole plural, regularPlural_map_toUpper small ne]

theorem pluralize_toUpper_eq_iff (w : String) :
    pluralize w.toUpper = (pluralize w).toUpper ↔
      pluralChars (w.toList.map Char.toUpper) = (pluralChars w.toList).map Char.toUpper := by
  simp [← String.toList_inj, pluralize, String.toUpper]

/-- A word in capitals has the plural in capitals, unless it only ends in an exception and does not look
plural. -/
theorem pluralize_toUpper_iff (w : String) (small : IsSmall w.toList) :
    pluralize w.toUpper = (pluralize w).toUpper ↔
      ((∃ word ∈ exceptions, word <:+ w.toList) →
        w.toList ∈ exceptions ∨ isPlural w.toList = true) :=
  (pluralize_toUpper_eq_iff w).trans (pluralChars_map_toUpper_iff small)

theorem pluralize_toUpper_box :
    IsSmall "box".toList ∧ pluralize "box".toUpper ≠ (pluralize "box").toUpper :=
  have small : IsSmall "box".toList := by decide
  ⟨small, fun same => absurd ((pluralize_toUpper_iff "box" small).1 same ⟨"ox".toList, by decide⟩)
    (by decide)⟩

theorem pluralize_toUpper_price : pluralize "price".toUpper ≠ (pluralize "price").toUpper :=
  mt (pluralize_toUpper_eq_iff "price").1 (by decide)

end StreamSql.Naming
