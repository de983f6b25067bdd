import StreamSql.Proofs.Naming.Lowering

namespace StreamSql.Naming

variable {c d : Char} {word name s e low : List Char}

@[simp] theorem lowered_append (s e : List Char) : lowered (s ++ e) = lowered s ++ lowered e :=
  List.flatMap_append

theorem lowered_cons (c : Char) (cs : List Char) : lowered (c :: cs) = lower c ++ lowered cs :=
  List.flatMap_cons

theorem lowered_of_small (small : IsSmall word) : lowered word = word := by
  induction word with
  | nil => rfl
  | cons c word ih =>
    obtain ⟨first, rest⟩ := isSmall_cons.1 small
    rw [lowered_cons, lower_of_isLower first, ih rest]
    rfl

theorem lowered_map_toUpper (small : IsSmall word) : lowered (word.map Char.toUpper) = word := by
  induction word with
  | nil => rfl
  | cons c word ih =>
    obtain ⟨first, rest⟩ := isSmall_cons.1 small
    rw [List.map_cons, lowered_cons, lower_toUpper first, ih rest]
    rfl

theorem lowered_ne_nil (ne : name ≠ []) : lowered name ≠ [] :=
  fun nothing => ne (Lowers.eq_nil (nothing ▸ lowers_lowered name))

theorem length_le_lowered (name : List Char) : name.length ≤ (lowered name).length := by
  induction name with
  | nil => exact Nat.zero_le _
  | cons c cs ih =>
    have := List.length_pos_iff.2 (lowerCase_lower c).ne_nil
    rw [lowered_cons, List.length_append, List.length_cons]
    omega

theorem exists_ending (plain : IsPlain word) (h : word <:+ lowered name) :
    ∃ s e, name = s ++ e ∧ lowered e = word ∧ e.length = word.length := by
  obtain ⟨t, same⟩ := h
  obtain ⟨s, e, rfl, -, letters⟩ := Lowers.exists_ending plain (same ▸ lowers_lowered name)
  exact ⟨s, e, rfl, (lowers_lowered e).eq_of_map_toLower plain letters, by simp [← letters]⟩

theorem singleton_suffix_lowered_iff (plain : c.isLower = true ∧ c ≠ 'k') :
    [c] <:+ lowered name ↔ ∃ d ∈ name.getLast?, d.toLower = c := by
  rw [(lowers_lowered name).suffix_iff (by simpa [IsPlain] using plain)]
  constructor
  · rintro ⟨e, ⟨s, rfl⟩, same⟩
    obtain ⟨d, rfl, letter⟩ := List.map_eq_singleton_iff.1 same
    exact ⟨d, by simp, letter⟩
  · rintro ⟨d, last, same⟩
    obtain ⟨s, rfl⟩ := List.getLast?_eq_some_iff.1 last
    exact ⟨[d], List.suffix_append s [d], by simp [same]⟩

theorem hasEnding_iff {t : String} : hasEnding t low = true ↔ t.toList <:+ low :=
  List.isSuffixOf_iff_suffix

theorem suffix_append_iff (h : word.length ≤ e.length) : word <:+ s ++ e ↔ word <:+ e :=
  ⟨fun suffix => List.suffix_of_suffix_length_le suffix (List.suffix_append s e) h,
    fun suffix => suffix.trans (List.suffix_append s e)⟩

theorem eq_of_suffix (hw : word <:+ low) (he : e <:+ low) (len : word.length = e.length) : word = e :=
  (List.suffix_of_suffix_length_le hw he (Nat.le_of_eq len)).eq_of_length len

theorem getLast?_of_suffix (h : word <:+ low) (ne : word ≠ []) : low.getLast? = word.getLast? := by
  obtain ⟨s, rfl⟩ := h
  exact List.getLast?_append_of_ne_nil s ne

@[simp] theorem stem_append (s e : List Char) : stem e.length (s ++ e) = s := by
  simp [stem]

@[simp] theorem ending_append (s e : List Char) : ending e.length (s ++ e) = e := by
  simp [ending]

def StartsWord (s e : List Char) : Prop :=
  s = [] ∨ s.getLast? = some '_' ∨ ∃ c ∈ e.head?, Text.isUpper c = true

theorem isWord_append_iff : isWord e.length (s ++ e) = true ↔ StartsWord s e := by
  simp [isWord, StartsWord, or_assoc, Option.any_eq_true]

theorem endsInWord_iff (plain : IsPlain word) :
    endsInWord word name = true ↔
      ∃ s e, name = s ++ e ∧ lowered e = word ∧ e.length = word.length ∧ StartsWord s e := by
  rw [endsInWord, Bool.and_eq_true, List.isSuffixOf_iff_suffix]
  constructor
  · rintro ⟨suffix, starts⟩
    obtain ⟨s, e, rfl, low, len⟩ := exists_ending plain suffix
    exact ⟨s, e, rfl, low, len, isWord_append_iff.1 (len ▸ starts)⟩
  · rintro ⟨s, e, rfl, rfl, len, starts⟩
    rw [← len, lowered_append]
    exact ⟨List.suffix_append _ _, isWord_append_iff.2 starts⟩

theorem suffix_of_endsInWord (h : endsInWord word name = true) : word <:+ lowered name :=
  List.isSuffixOf_iff_suffix.1 (Bool.and_eq_true_iff.1 h).1

def exceptions : List (List Char) := uncountables ++ irregulars.flatMap fun w => [w.singular, w.plural]

theorem forall_exceptions {P : List Char → Prop} :
    (∀ word ∈ exceptions, P word) ↔
      (∀ word ∈ uncountables, P word) ∧ ∀ w ∈ irregulars, P w.singular ∧ P w.plural := by
  rw [exceptions, List.forall_mem_append, List.forall_mem_flatMap]
  simp

theorem singular_mem_exceptions {w : Irregular} (h : w ∈ irregulars) : w.singular ∈ exceptions :=
  List.mem_append_right _ (List.mem_flatMap.2 ⟨w, h, by simp⟩)

theorem plural_mem_exceptions {w : Irregular} (h : w ∈ irregulars) : w.plural ∈ exceptions :=
  List.mem_append_right _ (List.mem_flatMap.2 ⟨w, h, by simp⟩)

theorem isPlain_exceptions : ∀ word ∈ exceptions, IsPlain word := by decide

theorem isSmall_exceptions : ∀ word ∈ exceptions, word ≠ [] ∧ IsSmall word := by decide

end StreamSql.Naming
