import StreamSql.Proofs.Naming.Plural

namespace StreamSql.Naming

variable {c : Char} {word name low s e w : List Char} {n : Nat} {v : Irregular}

theorem hasEnding_append {t : String} (h : t.toList.length ≤ low.length) :
    hasEnding t (s ++ low) = hasEnding t low := by
  rw [Bool.eq_iff_iff, hasEnding_iff, hasEnding_iff, suffix_append_iff h]

theorem isPlural_append (s : List Char) (long : 2 ≤ low.length) : isPlural (s ++ low) = isPlural low := by
  rw [Bool.eq_iff_iff, isPlural_iff, isPlural_iff]
  exact exists_congr fun c => and_congr_right fun _ => suffix_append_iff long

theorem regular_append (s : List Char) (long : 2 ≤ low.length) (ne : low ≠ ['i', 's']) :
    regular (s ++ low) = regular low := by
  have short {t : String} (h : t.toList.length ≤ 2) : hasEnding t (s ++ low) = hasEnding t low :=
    hasEnding_append (Nat.le_trans h long)
  have before : (s ++ low).dropLast.getLast? = low.dropLast.getLast? := by
    rw [List.dropLast_append_of_ne_nil (by rintro rfl; simp at long)]
    exact List.getLast?_append_of_ne_nil s (by rw [ne_eq, ← List.length_eq_zero_iff]; simp; omega)
  have longer : s ++ low ≠ ['i', 's'] := by
    intro same
    exact ne (List.IsSuffix.eq_of_length_le (same ▸ List.suffix_append s low) long)
  simp (disch := decide) only [regular, before, iff_of_false longer ne, ne_eq, short]

theorem stem_append_of_le (s : List Char) (h : n ≤ w.length) : stem n (s ++ w) = s ++ stem n w := by
  rw [stem, List.length_append, Nat.add_sub_assoc h, List.take_length_add_append, stem]

theorem ending_append_of_le (s : List Char) (h : n ≤ w.length) : ending n (s ++ w) = ending n w := by
  rw [ending, List.length_append, Nat.add_sub_assoc h, List.drop_length_add_append, ending]

theorem startsWord_append_iff (p : List Char) : StartsWord (p ++ '_' :: s) e ↔ StartsWord s e := by
  cases s with
  | nil => simp [StartsWord]
  | cons c s => simp [StartsWord]

theorem underscore_not_mem (plain : IsPlain (lowered e)) : '_' ∉ e := by
  intro mem
  have letter : '_' ∈ lowered e := List.mem_flatMap.2 ⟨'_', mem, by decide⟩
  exact absurd (plain _ letter).1 (by decide)

theorem endsInWord_append (plain : IsPlain word) (p w : List Char) :
    endsInWord word (p ++ '_' :: w) = endsInWord word w := by
  rw [Bool.eq_iff_iff, endsInWord_iff plain, endsInWord_iff plain]
  constructor
  · rintro ⟨s, e, same, rfl, len, starts⟩
    obtain ⟨t, rfl, rest⟩ | ⟨t, rfl, rfl⟩ := List.append_eq_append_iff.1 same
    · cases t with
      | nil =>
        obtain rfl : '_' :: w = e := rest
        exact absurd List.mem_cons_self (underscore_not_mem plain)
      | cons c t =>
        obtain ⟨rfl, rfl⟩ := List.cons_eq_cons.1 rest
        exact ⟨t, e, rfl, rfl, len, (startsWord_append_iff p).1 starts⟩
    · exact absurd (by simp) (underscore_not_mem plain)
  · rintro ⟨s, e, rfl, low, len, starts⟩
    exact ⟨p ++ '_' :: s, e, by simp, low, len, (startsWord_append_iff p).2 starts⟩

theorem lowered_append_underscore (p w : List Char) :
    lowered (p ++ '_' :: w) = lowered p ++ ['_'] ++ lowered w := by
  rw [List.append_cons, lowered_append, lowered_append]
  rfl

theorem plural?_append (mem : v ∈ irregulars) (p w : List Char) :
    v.plural? (p ++ '_' :: w) = (v.plural? w).map (p ++ '_' :: ·) := by
  obtain ⟨singular, plural⟩ := (forall_exceptions.1 isPlain_exceptions).2 v mem
  simp only [Irregular.plural?, endsInWord_append singular, endsInWord_append plural]
  split
  · next ends =>
    obtain ⟨s, e, rfl, -, len, -⟩ := (endsInWord_iff singular).1 ends
    have short : v.singular.length ≤ (s ++ e).length := by simp [← len]
    rw [List.append_cons, stem_append_of_le _ short, ending_append_of_le _ short]
    simp
  · split <;> rfl

theorem regularPlural_append (long : 3 ≤ w.length) (p : List Char) :
    regularPlural (p ++ '_' :: w) = p ++ '_' :: regularPlural w := by
  have longer := Nat.le_trans long (length_le_lowered w)
  have same : regular (lowered (p ++ '_' :: w)) = regular (lowered w) := by
    rw [lowered_append_underscore]
    refine regular_append _ (by omega) fun same => ?_
    simp [same] at longer
  have short : (regular (lowered w)).1 ≤ w.length := by
    obtain ⟨r, mem, -, same, -⟩ := regular_cases (lowered w)
    have two : ∀ r ∈ rules, r.1.length ≤ 2 := by decide
    have := two r mem
    rw [same]
    simp only
    omega
  have last : (p ++ '_' :: w).getLast? = w.getLast? := by
    rw [List.append_cons]
    exact List.getLast?_append_of_ne_nil _ (by rintro rfl; simp at long)
  rw [regularPlural, regularPlural, same, last, List.append_cons]
  simp only [stem_append_of_le _ short]
  simp

theorem findSome?_plural?_append {ws : List Irregular} (sub : ws ⊆ irregulars) (p w : List Char) :
    ws.findSome? (·.plural? (p ++ '_' :: w)) = (ws.findSome? (·.plural? w)).map (p ++ '_' :: ·) := by
  induction ws with
  | nil => rfl
  | cons v ws ih =>
    obtain ⟨mem, sub⟩ := List.cons_subset.1 sub
    rw [List.findSome?_cons, List.findSome?_cons, plural?_append mem, ih sub]
    cases v.plural? w <;> rfl

theorem pluralChars_append (long : 3 ≤ w.length) (p : List Char) :
    pluralChars (p ++ '_' :: w) = p ++ '_' :: pluralChars w := by
  have uncountable :
      uncountables.any (endsInWord · (p ++ '_' :: w)) = uncountables.any (endsInWord · w) := by
    rw [Bool.eq_iff_iff, List.any_eq_true, List.any_eq_true]
    refine exists_congr fun word => and_congr_right fun mem => ?_
    rw [endsInWord_append ((forall_exceptions.1 isPlain_exceptions).1 word mem)]
  have plural : isPlural (lowered (p ++ '_' :: w)) = isPlural (lowered w) := by
    rw [lowered_append_underscore]
    exact isPlural_append _ (Nat.le_trans (by omega) (length_le_lowered w))
  have ne : w ≠ [] := by
    rintro rfl
    simp at long
  rw [pluralChars, pluralChars, uncountable, findSome?_plural?_append (List.Subset.refl _), plural,
    regularPlural_append long]
  cases irregulars.findSome? (·.plural? w) with
  | none => simp only [Option.map_none]; split_ifs <;> simp_all
  | some t => simp [ne, apply_ite (p ++ '_' :: ·)]

/-- Only the last word of a name is put in the plural, unless it is too short to tell. -/
theorem pluralize_append (p w : String) (long : 3 ≤ w.length) :
    pluralize (p ++ "_" ++ w) = p ++ "_" ++ pluralize w := by
  have chars : (p ++ "_" ++ w).toList = p.toList ++ '_' :: w.toList := by simp
  rw [pluralize, pluralize, chars, pluralChars_append (by rwa [String.length_toList])]
  simp [← String.toList_inj]

theorem pluralize_append_man :
    3 ≤ "Man".length ∧ pluralize ("OLD_wo" ++ "_" ++ "Man") = "OLD_wo_Men" :=
  ⟨by decide, (pluralize_append "OLD_wo" "Man" (by decide)).trans (by decide)⟩

end StreamSql.Naming
