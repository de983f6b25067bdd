import StreamSql.Proofs.Naming.Ending

namespace StreamSql.Naming

variable {c : Char} {name low s e : List Char} {w : Irregular}

theorem isPlural_iff : isPlural low = true ↔ ∃ c, c ∉ ['i', 's', 'u'] ∧ [c, 's'] <:+ low := by
  simp only [isPlural, Bool.or_eq_true, Bool.and_eq_true, Bool.not_eq_true', ← Bool.not_eq_true,
    hasEnding_iff, decide_eq_true_eq]
  constructor
  · rintro (((ies | ches) | shes) | ⟨⟨⟨⟨⟨l, rfl⟩, ss⟩, us⟩, is⟩, long⟩)
    · exact ⟨'e', by decide, .trans (by decide) ies⟩
    · exact ⟨'e', by decide, .trans (by decide) ches⟩
    · exact ⟨'e', by decide, .trans (by decide) shes⟩
    · obtain rfl | ⟨l, c, rfl⟩ := List.eq_nil_or_concat l
      · exact absurd rfl long
      · have suffix : [c, 's'] <:+ l.concat c ++ "s".toList := ⟨l, by simp⟩
        refine ⟨c, fun mem => ?_, suffix⟩
        simp only [List.mem_cons, List.not_mem_nil, or_false] at mem
        obtain rfl | rfl | rfl := mem
        · exact is suffix
        · exact ss suffix
        · exact us suffix
  · rintro ⟨c, other, suffix⟩
    have last {d : Char} (h : [d, 's'] <:+ low) : d ∉ ['i', 's', 'u'] := by
      obtain rfl : d = c := by simpa using eq_of_suffix h suffix rfl
      exact other
    have s : ['s'] <:+ low := (List.suffix_append [c] ['s']).trans suffix
    have long : low ≠ ['s'] := by
      rintro rfl
      exact absurd suffix.length_le (by simp)
    exact .inr ⟨⟨⟨⟨s, fun ss => last ss (by decide)⟩, fun us => last us (by decide)⟩,
      fun is => last is (by decide)⟩, long⟩

def rules : List (String × String) :=
  [("y", "ies"), ("is", "es"), ("", "es"), ("fe", "ves"), ("f", "ves"), ("", "s")]

theorem regular_cases (low : List Char) :
    ∃ r ∈ rules, r.1.toList <:+ low ∧ regular low = (r.1.length, r.2) ∧
      (r.2 = "s" → ¬ ['s'] <:+ low) := by
  unfold regular
  simp only [← hasEnding_iff]
  split_ifs with y is es fe f
  · exact ⟨("y", "ies"), by decide, (Bool.and_eq_true_iff.1 y).1, rfl, fun h => absurd h (by decide)⟩
  · exact ⟨("is", "es"), by decide, (Bool.and_eq_true_iff.1 is).1, rfl, fun h => absurd h (by decide)⟩
  · exact ⟨("", "es"), by decide, hasEnding_iff.2 List.nil_suffix, rfl, fun h => absurd h (by decide)⟩
  · exact ⟨("fe", "ves"), by decide, fe, rfl, fun h => absurd h (by decide)⟩
  · exact ⟨("f", "ves"), by decide, (Bool.and_eq_true_iff.1 f).1, rfl, fun h => absurd h (by decide)⟩
  · refine ⟨("", "s"), by decide, hasEnding_iff.2 List.nil_suffix, rfl, fun _ s => es ?_⟩
    simp [hasEnding_iff (t := "s") |>.2 s]

theorem regular_of_vowel (vowel : c ∈ ['i', 'u']) (suffix : [c] <:+ low) : regular low = (0, "s") := by
  have other (t : String) (h : t.toList ≠ [] ∧ t.toList.getLast? ∉ [some 'i', some 'u']) :
      hasEnding t low = false := by
    refine Bool.eq_false_iff.2 fun ends => h.2 ?_
    have last := getLast?_of_suffix (hasEnding_iff.1 ends) h.1
    rw [← last, getLast?_of_suffix suffix (by simp)]
    simpa using vowel
  simp (disch := decide) [regular, other]

theorem lowered_regularPlural (name : List Char) :
    lowered (regularPlural name) =
      stem (regular (lowered name)).1 (lowered name) ++ (regular (lowered name)).2.toList := by
  obtain ⟨r, mem, suffix, same, -⟩ := regular_cases (lowered name)
  have plain : ∀ r ∈ rules, IsPlain r.1.toList := by decide
  have put : ∀ r ∈ rules, lowered r.2.toList = r.2.toList ∧
      lowered (r.2.toList.map Char.toUpper) = r.2.toList := by decide
  obtain ⟨s, e, rfl, low, len⟩ := exists_ending (plain r mem) suffix
  rw [regularPlural, same]
  simp only
  rw [← String.length_toList, ← len, stem_append, lowered_append s e, low, len, stem_append,
    lowered_append]
  split
  · rw [(put r mem).2]
  · rw [(put r mem).1]

theorem regularPlural_cases (name : List Char) :
    ∃ r ∈ rules, ∃ l, lowered name = l ++ r.1.toList ∧
      lowered (regularPlural name) = l ++ r.2.toList ∧ (r.2 = "s" → ¬ ['s'] <:+ lowered name) := by
  obtain ⟨r, mem, ⟨l, same⟩, regular, bare⟩ := regular_cases (lowered name)
  refine ⟨r, mem, l, same.symm, ?_, bare⟩
  rw [lowered_regularPlural, regular, ← same, ← String.length_toList, stem_append]

theorem regularPlural_ne (name : List Char) : regularPlural name ≠ name := by
  intro same
  obtain ⟨r, mem, l, before, after, -⟩ := regularPlural_cases name
  rw [same, before] at after
  have differ : ∀ r ∈ rules, r.1.toList ≠ r.2.toList := by decide
  exact differ r mem (List.append_cancel_left after)

theorem plural?_eq_none_iff :
    w.plural? name = none ↔ endsInWord w.singular name = false ∧ endsInWord w.plural name = false := by
  unfold Irregular.plural?
  split <;> simp_all

theorem pluralChars_cases (name : List Char) :
    pluralChars name = name ∨
      (∃ w ∈ irregulars, endsInWord w.singular name = true ∧ pluralChars name =
        stem w.singular.length name ++ matchCase (ending w.singular.length name) w.plural) ∨
      (name ≠ [] ∧ (∀ word ∈ exceptions, endsInWord word name = false) ∧
        isPlural (lowered name) = false ∧ pluralChars name = regularPlural name) := by
  unfold pluralChars
  split
  · next empty => exact .inl (List.isEmpty_iff.1 empty).symm
  · next ne =>
    split
    · exact .inl rfl
    · next uncountable =>
      split
      · next plural found =>
        obtain ⟨w, mem, found⟩ := List.exists_of_findSome?_eq_some found
        unfold Irregular.plural? at found
        split at found
        · next singular => exact .inr (.inl ⟨w, mem, singular, (Option.some.inj found).symm⟩)
        · split at found
          · exact .inl (Option.some.inj found).symm
          · cases found
      · next none =>
        split
        · exact .inl rfl
        · next singular =>
          have other : ∀ word ∈ exceptions, endsInWord word name = false :=
            forall_exceptions.2 ⟨by simpa using uncountable, fun w mem =>
              plural?_eq_none_iff.1 (List.findSome?_eq_none_iff.1 none w mem)⟩
          exact .inr (.inr ⟨mt List.isEmpty_iff.2 ne, other, Bool.eq_false_iff.2 singular, rfl⟩)

theorem pluralChars_eq_regularPlural (ne : name ≠ [])
    (none : ∀ word ∈ exceptions, endsInWord word name = false) (h : isPlural (lowered name) = false) :
    pluralChars name = regularPlural name := by
  obtain ⟨uncountable, irregular⟩ := forall_exceptions.1 none
  have none : irregulars.findSome? (·.plural? name) = .none :=
    List.findSome?_eq_none_iff.2 fun w mem => plural?_eq_none_iff.2 (irregular w mem)
  have countable : uncountables.any (endsInWord · name) = false := by simpa using uncountable
  simp [pluralChars, ne, countable, none, h]

theorem pluralChars_eq_self (none : ∀ w ∈ irregulars, endsInWord w.singular name = false)
    (h : isPlural (lowered name) = true ∨ ∃ w ∈ irregulars, endsInWord w.plural name = true) :
    pluralChars name = name := by
  obtain same | ⟨w, mem, ends, -⟩ | ⟨-, other, singular, -⟩ := pluralChars_cases name
  · exact same
  · exact absurd ends (by simp [none w mem])
  · obtain plural | ⟨w, mem, ends⟩ := h
    · exact absurd plural (by simp [singular])
    · exact absurd ends (by simp [((forall_exceptions.1 other).2 w mem).2])

theorem pluralChars_of_isPlural (h : isPlural (lowered name) = true) : pluralChars name = name := by
  refine pluralChars_eq_self (fun w mem => Bool.eq_false_iff.2 fun ends => ?_) (.inl h)
  obtain ⟨c, -, suffix⟩ := isPlural_iff.1 h
  have other : ∀ w ∈ irregulars, w.singular ≠ [] ∧ w.singular.getLast? ≠ some 's' := by decide
  have last := getLast?_of_suffix (suffix_of_endsInWord ends) (other w mem).1
  rw [getLast?_of_suffix suffix (by simp)] at last
  exact (other w mem).2 last.symm

theorem matchCase_cases (e word : List Char) :
    matchCase e word = word ∨ matchCase e word = word.map Char.toUpper ∨
      ∃ c cs, word = c :: cs ∧ matchCase e word = c.toUpper :: cs := by
  unfold matchCase
  split
  · exact .inr (.inl rfl)
  · split
    · split
      · exact .inr (.inr ⟨_, _, rfl, rfl⟩)
      · exact .inl rfl
    · exact .inl rfl

theorem length_matchCase (e word : List Char) : (matchCase e word).length = word.length := by
  obtain same | same | ⟨c, cs, rfl, same⟩ := matchCase_cases e word <;> simp [same]

theorem lowered_matchCase {word : List Char} (small : IsSmall word) (e : List Char) :
    lowered (matchCase e word) = word := by
  obtain same | same | ⟨c, cs, rfl, same⟩ := matchCase_cases e word
  · rw [same, lowered_of_small small]
  · rw [same, lowered_map_toUpper small]
  · obtain ⟨first, rest⟩ := isSmall_cons.1 small
    rw [same, lowered_cons, lower_toUpper first, lowered_of_small rest]
    rfl

theorem startsWord_matchCase {word : List Char} (small : IsSmall word) (ne : word ≠ [])
    (starts : StartsWord s e) : StartsWord s (matchCase e word) := by
  obtain first | behind | ⟨c, head, upper⟩ := starts
  · exact .inl first
  · exact .inr (.inl behind)
  · obtain ⟨r, rs, rfl⟩ := List.exists_cons_of_ne_nil ne
    obtain ⟨cs, rfl⟩ := List.head?_eq_some_iff.1 head
    refine .inr (.inr ⟨r.toUpper, ?_, isUpper_toUpper (small r List.mem_cons_self)⟩)
    simp only [matchCase, upper]
    split <;> rfl

theorem pluralChars_irregular (mem : w ∈ irregulars) (starts : StartsWord s e) :
    pluralChars (s ++ matchCase e w.plural) = s ++ matchCase e w.plural := by
  have apart : ∀ w ∈ irregulars, ∀ v ∈ irregulars,
      ¬ v.singular <:+ w.plural ∧ ¬ w.plural <:+ v.singular := by decide
  obtain ⟨ne, small⟩ := isSmall_exceptions _ (plural_mem_exceptions mem)
  refine pluralChars_eq_self (fun v hv => Bool.eq_false_iff.2 fun ends => ?_) (.inr ⟨w, mem, ?_⟩)
  · have suffix := suffix_of_endsInWord ends
    rw [lowered_append, lowered_matchCase small] at suffix
    obtain inside | around := List.suffix_or_suffix_of_suffix suffix (List.suffix_append _ _)
    · exact (apart w mem v hv).1 inside
    · exact (apart w mem v hv).2 around
  · exact (endsInWord_iff (isPlain_exceptions _ (plural_mem_exceptions mem))).2
      ⟨s, _, rfl, lowered_matchCase small e, length_matchCase e _, startsWord_matchCase small ne starts⟩

/-- The endings that have a name taken for a singular whatever stands before them. -/
def singularEndings : List (List Char) := [['i'], ['u'], ['i', 's'], ['u', 's']]

theorem pluralChars_of_singularEnding {t : List Char} (mem : t ∈ singularEndings)
    (suffix : t <:+ lowered name) : pluralChars name = regularPlural name := by
  refine pluralChars_eq_regularPlural ?_ (fun word hw => Bool.eq_false_iff.2 fun ends => ?_)
    (Bool.eq_false_iff.2 fun plural => ?_)
  · rintro rfl
    obtain rfl := List.suffix_nil.1 suffix
    exact absurd mem (by decide)
  · have other : ∀ t ∈ singularEndings, ∀ word ∈ exceptions, ¬ t <:+ word ∧ ¬ word <:+ t := by
      decide
    obtain inside | around := List.suffix_or_suffix_of_suffix suffix (suffix_of_endsInWord ends)
    · exact (other t mem word hw).1 inside
    · exact (other t mem word hw).2 around
  · have short : ∀ t ∈ singularEndings, t ≠ [] ∧
        (t.getLast? = some 's' → t.length = 2 ∧ t.head? ∈ [some 'i', some 'u']) := by decide
    obtain ⟨ne, twice⟩ := short t mem
    obtain ⟨c, other, looks⟩ := isPlural_iff.1 plural
    have last : t.getLast? = some 's' := by
      rw [← getLast?_of_suffix suffix ne, getLast?_of_suffix looks (by simp)]
      rfl
    obtain ⟨two, vowel⟩ := twice last
    obtain rfl := eq_of_suffix suffix looks two
    simp_all

theorem isPlain_vowels : IsPlain ['i', 'u'] := by decide

theorem pluralChars_pluralChars (other : ∀ c ∈ name.getLast?, c.toLower ∉ ['i', 'u']) :
    pluralChars (pluralChars name) = pluralChars name := by
  obtain same | ⟨w, mem, ends, same⟩ | ⟨ne, -, -, same⟩ := pluralChars_cases name
  · rw [same, same]
  · have plain := isPlain_exceptions _ (singular_mem_exceptions mem)
    obtain ⟨s, e, rfl, -, len, starts⟩ := (endsInWord_iff plain).1 ends
    rw [same, ← len, stem_append, ending_append]
    exact pluralChars_irregular mem starts
  · -- Every rule but the last puts on an `es`, and that one is for names without an `s` at the end.
    rw [same]
    refine pluralChars_of_isPlural (isPlural_iff.2 ?_)
    obtain ⟨r, mem, l, before, after, bare⟩ := regularPlural_cases name
    have put : ∀ r ∈ rules, ['e', 's'] <:+ r.2.toList ∨ r = ("", "s") := by decide
    rw [after]
    obtain es | rfl := put r mem
    · exact ⟨'e', by decide, es.trans (List.suffix_append _ _)⟩
    · rw [show l = lowered name by simp [before]]
      obtain nothing | ⟨l, c, low⟩ := List.eq_nil_or_concat (lowered name)
      · exact absurd nothing (lowered_ne_nil ne)
      · rw [List.concat_eq_append] at low
        have suffix : [c] <:+ lowered name := low ▸ List.suffix_append l [c]
        refine ⟨c, fun mem => ?_, l, by simp [low]⟩
        by_cases s : c = 's'
        · exact bare rfl (s ▸ suffix)
        · have vowel : c ∈ ['i', 'u'] := by simp_all
          obtain ⟨d, last, same⟩ := (singleton_suffix_lowered_iff (isPlain_vowels c vowel)).1 suffix
          exact other d last (same ▸ vowel)

theorem pluralChars_pluralChars_ne (last : c ∈ name.getLast?) (vowel : c.toLower ∈ ['i', 'u']) :
    pluralChars (pluralChars name) ≠ pluralChars name := by
  have suffix := (singleton_suffix_lowered_iff (isPlain_vowels _ vowel)).2 ⟨c, last, rfl⟩
  have first : [c.toLower] ∈ singularEndings ∧ [c.toLower, 's'] ∈ singularEndings := by
    simpa [singularEndings] using vowel
  have low : lowered (regularPlural name) = lowered name ++ ['s'] := by
    rw [lowered_regularPlural, regular_of_vowel vowel suffix]
    simp [stem]
  obtain ⟨l, same⟩ := suffix
  rw [pluralChars_of_singularEnding first.1 ⟨l, same⟩,
    pluralChars_of_singularEnding first.2 ⟨l, by simp [low, ← same]⟩]
  exact regularPlural_ne _

/-- Another time, a plural stays as it is for all names but those in `i` and `u`. -/
theorem pluralize_pluralize_iff (name : String) :
    pluralize (pluralize name) = pluralize name ↔
      ∀ c ∈ name.toList.getLast?, c.toLower ≠ 'i' ∧ c.toLower ≠ 'u' := by
  rw [pluralize, pluralize, String.toList_ofList, String.ofList_inj]
  constructor
  · intro same c last
    simpa using mt (pluralChars_pluralChars_ne last) (not_not_intro same)
  · intro other
    exact pluralChars_pluralChars fun c last => by simpa using other c last

theorem pluralize_pluralize_menu : pluralize (pluralize "Menu") ≠ pluralize "Menu" := by decide

end StreamSql.Naming
