import Mathlib.Data.List.TakeWhile
import StreamSql.Text

namespace StreamSql.Text

variable {c : Char} {cs ds : List Char}

structure IsTrimmed (cs : List Char) : Prop where
  head : ∀ c ∈ cs.head?, isBlank c = false
  last : ∀ c ∈ cs.getLast?, isBlank c = false

theorem trimStart_of_head (h : ∀ c ∈ cs.head?, isBlank c = false) : trimStart cs = cs := by
  cases cs with
  | nil => rfl
  | cons c cs => exact List.dropWhile_cons_of_neg (by simp [h c rfl])

theorem trimEnd_of_last (h : ∀ c ∈ cs.getLast?, isBlank c = false) : trimEnd cs = cs := by
  have head : ∀ c ∈ cs.reverse.head?, isBlank c = false := by simpa using h
  rw [trimEnd, show cs.reverse.dropWhile isBlank = cs.reverse from trimStart_of_head head,
    List.reverse_reverse]

theorem IsTrimmed.trim_eq (h : IsTrimmed cs) : trim cs = cs := by
  rw [trim, trimStart_of_head h.head, trimEnd_of_last h.last]

theorem trimStart_append_of_blank (blank : ∀ c ∈ cs, isBlank c = true) :
    trimStart (cs ++ ds) = trimStart ds :=
  List.dropWhile_append_of_pos blank

theorem trimEnd_append_of_blank (blank : ∀ c ∈ ds, isBlank c = true) :
    trimEnd (cs ++ ds) = trimEnd cs := by
  have start : (ds.reverse ++ cs.reverse).dropWhile isBlank = cs.reverse.dropWhile isBlank :=
    trimStart_append_of_blank (by simpa using blank)
  rw [trimEnd, List.reverse_append, start, trimEnd]

theorem IsTrimmed.trim_padded {pad pad' : List Char} (h : IsTrimmed cs)
    (before : ∀ c ∈ pad, isBlank c = true) (behind : ∀ c ∈ pad', isBlank c = true) :
    trim (pad ++ (cs ++ pad')) = cs := by
  rw [trim, trimStart_append_of_blank before]
  cases cs with
  | nil =>
    have none : trimStart pad' = [] := List.dropWhile_eq_nil_iff.2 behind
    rw [List.nil_append, none]
    rfl
  | cons c cs =>
    have start : trimStart (c :: cs ++ pad') = c :: cs ++ pad' :=
      trimStart_of_head (by simpa using h.head)
    rw [start, trimEnd_append_of_blank behind, trimEnd_of_last h.last]

theorem trimEnd_append_cons (h : isBlank c = false) :
    trimEnd (cs ++ c :: ds) = cs ++ c :: trimEnd ds := by
  have stop : (c :: cs.reverse).dropWhile isBlank = c :: cs.reverse :=
    List.dropWhile_cons_of_neg (by simp [h])
  simp only [trimEnd, List.reverse_append, List.reverse_cons, List.append_assoc,
    List.singleton_append, List.dropWhile_append, stop]
  split
  · rename_i none
    simp [List.isEmpty_iff.1 none]
  · simp

theorem trimEnd_cons (h : isBlank c = false) : trimEnd (c :: ds) = c :: trimEnd ds :=
  @trimEnd_append_cons c [] ds h

theorem mem_of_mem_trimEnd (h : c ∈ trimEnd cs) : c ∈ cs := by
  have mem := (List.dropWhile_sublist isBlank).mem (List.mem_reverse.1 h)
  exact List.mem_reverse.1 mem

theorem mem_trimEnd (h : c ∈ cs) (hc : isBlank c = false) : c ∈ trimEnd cs := by
  obtain ⟨xs, ys, rfl⟩ := List.append_of_mem h
  simp [trimEnd_append_cons hc]

theorem mem_trim (h : c ∈ cs) (hc : isBlank c = false) : c ∈ trim cs := by
  have start : c ∈ trimStart cs := by
    rw [← List.takeWhile_append_dropWhile (p := isBlank) (l := cs), List.mem_append] at h
    rcases h with h | h
    · simp [List.mem_takeWhile_imp h] at hc
    · exact h
  exact mem_trimEnd start hc

theorem trim_append_cons (blank : ∀ d ∈ cs, isBlank d = true) (hc : isBlank c = false) :
    trim (cs ++ c :: ds) = c :: trimEnd ds := by
  have start : trimStart (c :: ds) = c :: ds := List.dropWhile_cons_of_neg (by simp [hc])
  rw [trim, trimStart_append_of_blank blank, start, trimEnd_cons hc]

theorem IsTrimmed.trim_trimEnd_blank (h : IsTrimmed cs) (blank : isBlank c = true) :
    trim (trimEnd (c :: cs)) = cs := by
  cases cs with
  | nil => simp [trim, trimStart, trimEnd, blank]
  | cons d cs =>
    have whole : trimEnd (c :: d :: cs) = c :: d :: cs :=
      trimEnd_of_last (by simpa using h.last)
    rw [whole, ← List.singleton_append, trim_append_cons (by simpa using blank) (h.head d rfl),
      ← trimEnd_cons (h.head d rfl), trimEnd_of_last h.last]

theorem toNat_of_isAlpha (h : c.isAlpha = true) :
    65 ≤ c.toNat ∧ c.toNat ≤ 90 ∨ 97 ≤ c.toNat ∧ c.toNat ≤ 122 := by
  have bounds {l r : UInt32} (h : l ≤ c.val ∧ c.val ≤ r) :
      l.toNat ≤ c.toNat ∧ c.toNat ≤ r.toNat := h
  rcases Bool.or_eq_true_iff.1 h with upper | lower
  · exact .inl (bounds (of_decide_eq_true upper))
  · obtain ⟨low, high⟩ := Bool.and_eq_true_iff.1 lower
    exact .inr (bounds ⟨of_decide_eq_true low, of_decide_eq_true high⟩)

theorem toNat_of_isAlphanum (h : c.isAlphanum = true) : 48 ≤ c.toNat ∧ c.toNat ≤ 57 ∨
    65 ≤ c.toNat ∧ c.toNat ≤ 90 ∨ 97 ≤ c.toNat ∧ c.toNat ≤ 122 :=
  (Bool.or_eq_true_iff.1 h).symm.imp Char.isDigit_iff_toNat.1 toNat_of_isAlpha

theorem not_isAlpha_of_isDigit (h : c.isDigit = true) : c.isAlpha = false := by
  have digit : 48 ≤ c.toNat ∧ c.toNat ≤ 57 := Char.isDigit_iff_toNat.1 h
  refine Bool.eq_false_iff.2 fun alpha => ?_
  have letter := toNat_of_isAlpha alpha
  omega

theorem not_isBlank_of_isAlphanum (h : c.isAlphanum = true) : isBlank c = false := by
  have code := toNat_of_isAlphanum h
  simp only [isBlank, Bool.or_eq_false_iff, Bool.and_eq_false_iff, decide_eq_false_iff_not]
  omega

theorem cutAt?_append (h : c ∉ cs) : cutAt? c (cs ++ c :: ds) = some (cs, ds) := by
  have before : ∀ d ∈ cs, decide (d ≠ c) = true := by
    intro d hd
    exact decide_eq_true (ne_of_mem_of_not_mem hd h)
  have behind : (cs ++ c :: ds).dropWhile (· ≠ c) = c :: ds := by
    rw [List.dropWhile_append_of_pos before, List.dropWhile_cons_of_neg (by simp)]
  have front : (cs ++ c :: ds).takeWhile (· ≠ c) = cs := by
    rw [List.takeWhile_append_of_pos before, List.takeWhile_cons_of_neg (by simp), List.append_nil]
  rw [cutAt?, behind, front]

theorem afterFirst?_eq_none (h : ∀ d ∈ cs.head?, d ≠ c) : afterFirst? c cs = none := by
  cases cs with
  | nil => rfl
  | cons d ds => exact if_neg (h d rfl)

theorem beforeLast?_concat : beforeLast? c (cs ++ [c]) = some cs := by
  simp [beforeLast?, afterFirst?]

theorem beforeLast?_eq_none (h : ∀ d ∈ cs.getLast?, d ≠ c) : beforeLast? c cs = none := by
  have none : afterFirst? c cs.reverse = none := afterFirst?_eq_none (by simpa using h)
  rw [beforeLast?, none, Option.map_none]

theorem contains_iff {part : List Char} : contains part cs = true ↔ part <:+: cs := by
  induction cs with
  | nil => simp [contains]
  | cons c cs ih => rw [contains, Bool.or_eq_true, ih, List.isPrefixOf_iff_prefix, List.infix_cons_iff]

theorem cutAt?_eq_none (h : c ∉ cs) : cutAt? c cs = none := by
  have behind : cs.dropWhile (· ≠ c) = [] :=
    List.dropWhile_eq_nil_iff.2 fun d hd => decide_eq_true (ne_of_mem_of_not_mem hd h)
  rw [cutAt?, behind]

end StreamSql.Text
