import StreamSql.Alias

namespace StreamSql.Aliases

variable {a : Aliases} {m n x : String}

theorem letter_letter (n : String) : letter (letter n) = letter n := by
  simp [letter, List.take_take]

theorem letter_append (h : n ≠ "") (t : String) : letter (letter n ++ t) = letter n := by
  cases hn : n.toList with
  | nil => exact absurd (String.toList_inj.1 (hn.trans rfl)) h
  | cons c cs => simp [letter, hn]

theorem letter_eq_empty (h : letter n = "") : n = "" := by
  by_cases hn : n = ""
  · exact hn
  · exact absurd (letter_append hn "a") (by rw [h]; decide)

theorem letter_numbered {k : Nat} (h : n = "" → k = 0) : letter (numbered (letter n) k) = letter n := by
  unfold numbered
  split
  · exact letter_letter n
  · next pos => exact letter_append (fun empty => pos (h empty)) _

theorem toString_inj {i j : Nat} (h : toString i = toString j) : i = j := by
  have digits := congrArg (fun t : String => Nat.ofDigitChars 10 t.toList 0) h
  simpa [Nat.toString_eq_ofList_toDigits] using digits

theorem numbered_inj {l : String} {i j : Nat} (h : numbered l i = numbered l j) : i = j := by
  have ne (k : Nat) : l ≠ l ++ toString k := by
    intro h
    have := congrArg String.length h
    simp at this
  unfold numbered at h
  split at h <;> split at h
  · next hi hj => rw [hi, hj]
  · exact absurd h (ne j)
  · exact absurd h.symm (ne i)
  · exact toString_inj ((String.append_right_inj l).1 h)

theorem assign_of_find? (h : a.find? n = some x) : a.assign n = (x, a) := by
  simp [assign, h]

theorem assign_of_none (h : a.find? n = none) :
    a.assign n =
      (numbered (letter n) (a.count (letter n)),
        ⟨(n, numbered (letter n) (a.count (letter n))) :: a.assigned,
          (letter n, a.count (letter n) + 1) :: a.taken⟩) := by
  simp [assign, h]

theorem find?_assign_of_none (h : a.find? n = none) (m : String) :
    (a.assign n).2.find? m =
      if m = n then some (numbered (letter n) (a.count (letter n))) else a.find? m := by
  rw [assign_of_none h]
  by_cases hm : m = n
  · simp [find?, hm]
  · simp [find?, List.lookup_cons, beq_false_of_ne hm, hm]

theorem count_assign_of_none (h : a.find? n = none) (l : String) :
    (a.assign n).2.count l = if l = letter n then a.count (letter n) + 1 else a.count l := by
  rw [assign_of_none h]
  by_cases hl : l = letter n
  · simp [count, hl]
  · simp [count, List.lookup_cons, beq_false_of_ne hl, hl]

theorem find?_assign (a : Aliases) (n : String) :
    (a.assign n).2.find? n = some (a.assign n).1 := by
  cases h : a.find? n with
  | some x => rw [assign_of_find? h, h]
  | none => simp [assign_of_none h, find?]

theorem find?_assign_of_find? (h : a.find? m = some x) (n : String) :
    (a.assign n).2.find? m = some x := by
  cases hn : a.find? n with
  | some y => rwa [assign_of_find? hn]
  | none =>
    rw [find?_assign_of_none hn, if_neg, h]
    rintro rfl
    cases h.symm.trans hn

structure Sound (a : Aliases) : Prop where
  numbered {n x : String} : a.find? n = some x →
    ∃ k < a.count (letter n), (n = "" → k = 0) ∧ x = numbered (letter n) k
  unique {m n x : String} : a.find? m = some x → a.find? n = some x → m = n
  empty : a.find? "" = none → a.count "" = 0

theorem sound_empty : empty.Sound where
  numbered h := by cases h
  unique h := by cases h
  empty _ := rfl

namespace Sound

variable (h : a.Sound)

include h

theorem count_letter (hn : a.find? n = none) : n = "" → a.count (letter n) = 0 := by
  rintro rfl
  exact h.empty hn

theorem ne_numbered (hn : a.find? n = none) (hm : a.find? m = some x) :
    x ≠ Aliases.numbered (letter n) (a.count (letter n)) := by
  obtain ⟨k, lt, first, rfl⟩ := h.numbered hm
  intro same
  -- Aliases that are the same have one letter, and then one number.
  have letters := congrArg letter same
  rw [letter_numbered first, letter_numbered (h.count_letter hn)] at letters
  rw [letters] at same lt
  exact Nat.ne_of_lt lt (numbered_inj same)

theorem assign (n : String) : (a.assign n).2.Sound := by
  cases hn : a.find? n with
  | some x => rwa [assign_of_find? hn]
  | none =>
    constructor
    case numbered =>
      intro m x hm
      rw [count_assign_of_none hn]
      rw [find?_assign_of_none hn] at hm
      split at hm
      · next eq =>
        obtain rfl := Option.some.inj hm
        exact ⟨_, by simp [eq], eq ▸ h.count_letter hn, by rw [eq]⟩
      · obtain ⟨k, lt, first, rfl⟩ := h.numbered hm
        refine ⟨k, ?_, first, rfl⟩
        split
        · next letters => exact Nat.lt_succ_of_lt (letters ▸ lt)
        · exact lt
    case unique =>
      intro m m' x hm hm'
      rw [find?_assign_of_none hn] at hm hm'
      -- Where one of the two is the name asked for, the other had its alias before.
      split at hm <;> split at hm'
      · next eq eq' => rw [eq, eq']
      · exact absurd (Option.some.inj hm).symm (h.ne_numbered hn hm')
      · exact absurd (Option.some.inj hm').symm (h.ne_numbered hn hm)
      · exact h.unique hm hm'
    case empty =>
      intro none
      rw [find?_assign_of_none hn] at none
      split at none
      · cases none
      · next ne =>
        rw [count_assign_of_none hn, if_neg fun letters => ne (letter_eq_empty letters.symm).symm]
        exact h.empty none

end Sound

def after (a : Aliases) : List String → Aliases
  | [] => a
  | n :: ns => (a.assign n).2.after ns

theorem Sound.after (h : a.Sound) (ns : List String) : (a.after ns).Sound := by
  induction ns generalizing a with
  | nil => exact h
  | cons n ns ih => exact ih (h.assign n)

theorem find?_after_of_find? (h : a.find? m = some x) (ns : List String) :
    (a.after ns).find? m = some x := by
  induction ns generalizing a with
  | nil => exact h
  | cons n ns ih => exact ih (find?_assign_of_find? h n)

theorem length_assignAll (a : Aliases) (ns : List String) :
    (a.assignAll ns).length = ns.length := by
  induction ns generalizing a with
  | nil => rfl
  | cons n ns ih => simp [assignAll, ih]

theorem take_assignAll (a : Aliases) (ns : List String) (k : Nat) :
    (a.assignAll ns).take k = a.assignAll (ns.take k) := by
  induction ns generalizing a k with
  | nil => simp [assignAll]
  | cons n ns ih =>
    cases k with
    | zero => rfl
    | succ k => simp [assignAll, ih]

theorem map_some_assignAll (a : Aliases) (ns : List String) :
    (a.assignAll ns).map some = ns.map (a.after ns).find? := by
  induction ns generalizing a with
  | nil => rfl
  | cons n ns ih =>
    rw [List.map_cons, assignAll, List.map_cons]
    congr 1
    · exact (find?_after_of_find? (find?_assign a n) ns).symm
    · exact ih (a.assign n).2

theorem Sound.assignAll_eq_map (h : a.Sound) (ns : List String) :
    ∃ f : String → String, a.assignAll ns = ns.map f ∧ ∀ m ∈ ns, ∀ n ∈ ns, f m = f n → m = n := by
  have given := map_some_assignAll a ns
  refine ⟨fun n => ((a.after ns).find? n).getD "", ?_, fun m hm n hn same => ?_⟩
  · simpa [Function.comp_def] using congrArg (List.map (Option.getD · "")) given
  · have found {k : String} (hk : k ∈ ns) : ∃ x, (a.after ns).find? k = some x := by
      have := given ▸ List.mem_map_of_mem hk
      obtain ⟨x, -, hx⟩ := List.mem_map.1 this
      exact ⟨x, hx.symm⟩
    obtain ⟨x, hx⟩ := found hm
    obtain ⟨y, hy⟩ := found hn
    obtain rfl : x = y := by simpa [hx, hy] using same
    exact (h.after ns).unique hx hy

inductive Call
  | assign (name : String)
  | find (name : String)
deriving DecidableEq

def Call.name : Call → String
  | .assign n | .find n => n

def answer (a : Aliases) : Call → Option String × Aliases
  | .assign n => ((a.assign n).1, (a.assign n).2)
  | .find n => (a.find? n, a)

def log (a : Aliases) : List Call → List (Call × Option String)
  | [] => []
  | c :: cs => (c, (a.answer c).1) :: (a.answer c).2.log cs

variable {c : Call} {cs : List Call} {p : Call × Option String}

theorem find?_answer_of_find? (h : a.find? n = some x) (c : Call) :
    (a.answer c).2.find? n = some x := by
  cases c with
  | assign m => exact find?_assign_of_find? h m
  | find m => exact h

theorem find?_answer (h : (a.answer c).1 = some x) : (a.answer c).2.find? c.name = some x := by
  cases c with
  | assign m => exact (find?_assign a m).trans h
  | find m => exact h

theorem answer_of_find? (h : a.find? c.name = some x) : (a.answer c).1 = some x := by
  cases c with
  | assign m => exact congrArg (some ·.1) (assign_of_find? h)
  | find m => exact h

theorem Sound.answer (h : a.Sound) (c : Call) : (a.answer c).2.Sound := by
  cases c with
  | assign m => exact h.assign m
  | find m => exact h

theorem isSome_find?_answer (a : Aliases) (c : Call) (n : String) :
    ((a.answer c).2.find? n).isSome ↔ (a.find? n).isSome ∨ .assign n = c := by
  cases c with
  | find m => simp [answer]
  | assign m =>
    cases hm : a.find? m with
    | some x =>
      have same : (a.answer (.assign m)).2 = a := congrArg Prod.snd (assign_of_find? hm)
      rw [same]
      refine ⟨.inl, ?_⟩
      rintro (found | given)
      · exact found
      · obtain rfl := Call.assign.inj given
        exact hm ▸ rfl
    | none =>
      have found : (a.answer (.assign m)).2.find? n = _ := find?_assign_of_none hm n
      rw [found]
      by_cases eq : n = m
      · simp [eq]
      · simp [eq]

theorem map_fst_log (a : Aliases) (cs : List Call) : (a.log cs).map (·.1) = cs := by
  induction cs generalizing a with
  | nil => rfl
  | cons c cs ih => rw [log, List.map_cons, ih]

theorem isSome_of_log (a : Aliases) (cs : List Call) {i : Nat} (hp : (a.log cs)[i]? = some p) :
    p.2.isSome ↔ (a.find? p.1.name).isSome ∨ .assign p.1.name ∈ cs.take (i + 1) := by
  induction cs generalizing a i with
  | nil => simp [log] at hp
  | cons c cs ih =>
    cases i with
    | zero =>
      obtain rfl : (c, (a.answer c).1) = p := by simpa [log] using hp
      cases c with
      | assign m => simp [answer, Call.name]
      | find m => simp [answer, Call.name]
    | succ i =>
      rw [ih (a.answer c).2 (by simpa [log] using hp), isSome_find?_answer, List.take_succ_cons,
        List.mem_cons, or_assoc]

theorem Sound.eq_alias_iff (h : a.Sound) (hn : a.find? n = some x) (hp : p ∈ a.log cs) :
    p.2 = some x ↔ p.1.name = n := by
  induction cs generalizing a with
  | nil => cases hp
  | cons c cs ih =>
    have kept := find?_answer_of_find? hn c
    rcases List.mem_cons.1 hp with rfl | hp
    · constructor
      · intro given
        exact (h.answer c).unique (find?_answer given) kept
      · rintro rfl
        exact answer_of_find? hn
    · exact ih (h.answer c) kept hp

theorem Sound.pairwise_log (h : a.Sound) (cs : List Call) :
    (a.log cs).Pairwise fun p q => ∀ x, p.2 = some x → (q.2 = some x ↔ q.1.name = p.1.name) := by
  induction cs generalizing a with
  | nil => exact .nil
  | cons c cs ih =>
    refine .cons (fun q hq x given => ?_) (ih (h.answer c))
    exact (h.answer c).eq_alias_iff (find?_answer given) hq

/-- Of a registry that was empty at first: a name that has an alias keeps it, no other name gets the
same one, and the names that have one are those that were given one. -/
theorem log_aliases (cs : List Call) :
    (empty.log cs).map (·.1) = cs ∧
      ((empty.log cs).Pairwise fun p q =>
        ∀ x, p.2 = some x → (q.2 = some x ↔ q.1.name = p.1.name)) ∧
      ∀ i p, (empty.log cs)[i]? = some p →
        (p.2.isSome ↔ .assign p.1.name ∈ cs.take (i + 1)) := by
  refine ⟨map_fst_log empty cs, sound_empty.pairwise_log cs, fun i p hp => ?_⟩
  have nothing : ¬ (empty.find? p.1.name).isSome := Bool.false_ne_true
  rw [isSome_of_log empty cs hp, or_iff_right nothing]

private abbrev odd : List Call :=
  [.find "1", .assign "1", .assign "", .assign "1x", .assign "Äpfel", .assign "Ä", .find "1", .assign ""]

theorem log_aliases_odd :
    empty.log odd = [(.find "1", none), (.assign "1", "1"), (.assign "", ""), (.assign "1x", "11"),
        (.assign "Äpfel", "Ä"), (.assign "Ä", "Ä1"), (.find "1", "1"), (.assign "", "")] ∧
      ((none : Option String).isSome ↔ .assign "1" ∈ odd.take 1) ∧
      ((some "11" : Option String) = some "1" ↔ "1x" = "1") := by
  have answers : empty.log odd = [(.find "1", none), (.assign "1", "1"), (.assign "", ""),
      (.assign "1x", "11"), (.assign "Äpfel", "Ä"), (.assign "Ä", "Ä1"), (.find "1", "1"),
      (.assign "", "")] := by decide
  obtain ⟨-, order, given⟩ := log_aliases odd
  refine ⟨answers, given 0 _ (by rw [answers]; rfl), ?_⟩
  rw [answers] at order
  simp only [List.pairwise_cons] at order
  exact order.2.1 (.assign "1x", "11") (by simp) "1" rfl

end StreamSql.Aliases
