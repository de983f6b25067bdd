import StreamSql.Proofs.Naming.Plural

namespace StreamSql.Naming

open Text
open String (utf8Len)

variable {word name low s e : List Char} {w : Irregular}

def isWordByBytes (n : Nat) (name : List Char) : Cut Bool := do
  let start ← placeBefore (utf8Len name) n
  if start = 0 then .ok true
  else
    let (before, behind) ← cutAtByte start name
    .ok (before.getLast? = some '_' || behind.head?.any isUpper)

def endsInWordByBytes (low name word : List Char) : Cut Bool :=
  if word.isSuffixOf low then isWordByBytes (utf8Len word) name else .ok false

def stemByBytes (n : Nat) (name : List Char) : Cut (List Char) := do
  let (stem, _) ← cutAtByte (← placeBefore (utf8Len name) n) name
  .ok stem

def Irregular.pluralByBytes? (low name : List Char) (w : Irregular) : Cut (Option (List Char)) := do
  if ← endsInWordByBytes low name w.singular then
    let stem ← stemByBytes (utf8Len w.singular) name
    let (_, ending) ← cutAtByte (utf8Len stem) name
    .ok (some (stem ++ matchCase ending w.plural))
  else if ← endsInWordByBytes low name w.plural then .ok (some name)
  else .ok none

def regularPluralByBytes (low name : List Char) : Cut (List Char) := do
  let (n, put) := regular low
  let put := if name.getLast?.any isUpper then put.toList.map Char.toUpper else put.toList
  if n = 0 then .ok (name ++ put) else .ok ((← stemByBytes n name) ++ put)

def pluralByBytes (low name : List Char) : Cut (List Char) := do
  if name.isEmpty then .ok []
  else if ← uncountables.anyM (endsInWordByBytes low name) then .ok name
  else match ← irregulars.findSomeM? (Irregular.pluralByBytes? low name) with
    | some plural => .ok plural
    | none => if isPlural low then .ok name else regularPluralByBytes low name

theorem isPlain_of_isVowel {v : Char} (h : isVowel v = true) : IsPlain [v, 'y'] := by
  have vowels : "aeiou".toList.all (fun v => IsPlain [v, 'y']) = true := by decide
  have mem : v ∈ "aeiou".toList := by simpa [isVowel] using h
  exact of_decide_eq_true (List.all_eq_true.1 vowels v mem)

theorem endsInConsonantY_iff :
    (hasEnding "y" low && !low.dropLast.getLast?.any isVowel) = true ↔
      ['y'] <:+ low ∧ ∀ v, isVowel v = true → ¬ [v, 'y'] <:+ low := by
  rw [Bool.and_eq_true, hasEnding_iff]
  refine and_congr_right fun suffix => ?_
  obtain ⟨l, rfl⟩ := suffix
  have pair (v : Char) : [v, 'y'] <:+ l ++ "y".toList ↔ l.getLast? = some v := by
    rw [List.getLast?_eq_some_iff]
    constructor
    · rintro ⟨m, same⟩
      rw [List.append_cons] at same
      exact ⟨m, (List.append_cancel_right same).symm⟩
    · rintro ⟨m, rfl⟩
      exact ⟨m, by simp⟩
  have before : (l ++ "y".toList).dropLast = l := List.dropLast_concat
  simp only [pair, before, Bool.not_eq_true', Bool.eq_false_iff, ne_eq, Option.any_eq_true, not_exists,
    not_and']

namespace Lowers

variable (h : Lowers name low)
include h

theorem suffix_iff_lowered (plain : IsPlain word) : word <:+ low ↔ word <:+ lowered name := by
  rw [h.suffix_iff plain, (lowers_lowered name).suffix_iff plain]

theorem eq_iff_lowered (plain : IsPlain word) : low = word ↔ lowered name = word := by
  rw [h.eq_iff plain, (lowers_lowered name).eq_iff plain]

theorem hasEnding_eq {t : String} (plain : IsPlain t.toList) :
    hasEnding t low = hasEnding t (lowered name) := by
  rw [Bool.eq_iff_iff, hasEnding_iff, hasEnding_iff, h.suffix_iff_lowered plain]

theorem isPlural_eq : isPlural low = isPlural (lowered name) := by
  have long : low = ['s'] ↔ lowered name = ['s'] := h.eq_iff_lowered (by decide)
  simp (disch := decide) only [isPlural, ne_eq, long, h.hasEnding_eq]

theorem regular_eq : regular low = regular (lowered name) := by
  have long : low = ['i', 's'] ↔ lowered name = ['i', 's'] := h.eq_iff_lowered (by decide)
  have consonant : (hasEnding "y" low && !low.dropLast.getLast?.any isVowel) =
      (hasEnding "y" (lowered name) && !(lowered name).dropLast.getLast?.any isVowel) := by
    rw [Bool.eq_iff_iff, endsInConsonantY_iff, endsInConsonantY_iff]
    refine and_congr (h.suffix_iff_lowered (by decide)) (forall_congr' fun v => ?_)
    exact imp_congr_right fun vowel => not_congr (h.suffix_iff_lowered (isPlain_of_isVowel vowel))
  rw [regular, regular, consonant]
  simp (disch := decide) only [ne_eq, long, h.hasEnding_eq]

theorem exists_bytes (plain : IsPlain word) (suffix : word <:+ low) :
    ∃ s e, name = s ++ e ∧ e.length = word.length ∧ utf8Len e = utf8Len word := by
  obtain ⟨e, ⟨s, rfl⟩, same⟩ := (h.suffix_iff plain).1 suffix
  have len : e.length = word.length := by simp [← same]
  have ascii : ∀ c ∈ e, isAscii c = true := fun c mem =>
    isAscii_of_toLower (plain _ (same ▸ List.mem_map_of_mem mem)).1
  refine ⟨s, e, rfl, len, ?_⟩
  rw [utf8Len_of_isAscii ascii, utf8Len_of_isAscii fun c mem => isAscii_of_isLower (plain c mem).1, len]

end Lowers

theorem isWordByBytes_append (s e : List Char) :
    isWordByBytes (utf8Len e) (s ++ e) = .ok (isWord e.length (s ++ e)) := by
  rw [isWordByBytes, placeBefore_append, Cut.ok_bind]
  split
  · next start =>
    obtain rfl := String.utf8Len_eq_zero.1 start
    simp [isWord, stem]
  · next start =>
    have some : s.isEmpty = false := List.isEmpty_eq_false_iff.2 (mt String.utf8Len_eq_zero.2 start)
    rw [cutAtByte_append, Cut.ok_bind, isWord, stem_append, ending_append, some, Bool.false_or]

theorem stemByBytes_append (s e : List Char) : stemByBytes (utf8Len e) (s ++ e) = .ok s := by
  rw [stemByBytes, placeBefore_append, Cut.ok_bind, cutAtByte_append, Cut.ok_bind]

theorem endsInWordByBytes_eq (plain : IsPlain word) (h : Lowers name low) :
    endsInWordByBytes low name word = .ok (endsInWord word name) := by
  have same : word.isSuffixOf low = word.isSuffixOf (lowered name) := by
    rw [Bool.eq_iff_iff, List.isSuffixOf_iff_suffix, List.isSuffixOf_iff_suffix,
      h.suffix_iff_lowered plain]
  rw [endsInWordByBytes, endsInWord, ← same]
  split
  · next ends =>
    obtain ⟨s, e, rfl, len, bytes⟩ := h.exists_bytes plain (List.isSuffixOf_iff_suffix.1 ends)
    rw [← bytes, isWordByBytes_append, ends, len, Bool.true_and]
  · next other => simp [other]

theorem pluralByBytes?_eq (mem : w ∈ irregulars) (h : Lowers name low) :
    w.pluralByBytes? low name = .ok (w.plural? name) := by
  obtain ⟨singular, plural⟩ := (forall_exceptions.1 isPlain_exceptions).2 w mem
  rw [Irregular.pluralByBytes?, Irregular.plural?, endsInWordByBytes_eq singular h,
    endsInWordByBytes_eq plural h, Cut.ok_bind, Cut.ok_bind]
  split
  · next ends =>
    obtain ⟨s, e, rfl, len, bytes⟩ :=
      (lowers_lowered name).exists_bytes singular (suffix_of_endsInWord ends)
    rw [← bytes, ← len, stemByBytes_append, Cut.ok_bind, cutAtByte_append, Cut.ok_bind, stem_append,
      ending_append]
  · split <;> rfl

theorem regularPluralByBytes_eq (h : Lowers name low) :
    regularPluralByBytes low name = .ok (regularPlural name) := by
  obtain ⟨r, mem, suffix, rule, -⟩ := regular_cases (lowered name)
  have plain : ∀ r ∈ rules, IsPlain r.1.toList ∧ utf8Len r.1.toList = r.1.length := by decide
  obtain ⟨letters, size⟩ := plain r mem
  obtain ⟨s, e, rfl, len, bytes⟩ := (lowers_lowered name).exists_bytes letters suffix
  rw [regularPluralByBytes, regularPlural, h.regular_eq, rule]
  simp only
  split
  · next nothing => rw [nothing, stem, Nat.sub_zero, List.take_length]
  · rw [← size, ← bytes, stemByBytes_append, Cut.ok_bind, bytes, size, ← String.length_toList, ← len,
      stem_append]

theorem pluralByBytes_eq (h : Lowers name low) : pluralByBytes low name = .ok (pluralChars name) := by
  obtain ⟨uncountable, irregular⟩ := forall_exceptions.1 isPlain_exceptions
  have whole := Cut.anyM_eq fun word mem => endsInWordByBytes_eq (uncountable word mem) h
  have found := Cut.findSomeM?_eq fun w (mem : w ∈ irregulars) => pluralByBytes?_eq mem h
  rw [pluralByBytes, pluralChars, whole, found, Cut.ok_bind, Cut.ok_bind, h.isPlural_eq,
    regularPluralByBytes_eq h]
  cases irregulars.findSome? (·.plural? name) <;> simp only [apply_ite Except.ok]

-- Were the dotless i an `i` in lower case, the ending of this name would begin within it.
example : pluralByBytes "xis".toList "x\u0131s".toList = .error .withinCharacter := by decide

end StreamSql.Naming
