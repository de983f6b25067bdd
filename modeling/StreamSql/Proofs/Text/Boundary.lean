import StreamSql.Proofs.Json.Number
import StreamSql.Proofs.Text.Sealed

namespace StreamSql.Text

variable {p : Char → Bool} {c : Char} {cs xs ys r s : List Char}

def Leaves (p : Char → Bool) (cs : List Char) : Prop := ∀ c ∈ cs.head?, p c = false

theorem Leaves.nil : Leaves p [] := by simp [Leaves]

theorem Leaves.cons (h : p c = false) : Leaves p (c :: cs) := by simpa [Leaves] using h

theorem Leaves.append (h : Leaves p xs) (rest : Leaves p ys) : Leaves p (xs ++ ys) := by
  cases xs with
  | nil => exact rest
  | cons c cs => exact .cons (h c rfl)

theorem takeWhile_append_of_leaves (h : ∀ c ∈ xs, p c = true) (rest : Leaves p r) :
    (xs ++ r).takeWhile p = xs := by
  rw [List.takeWhile_append_of_pos h]
  cases r with
  | nil => simp
  | cons c cs => rw [List.takeWhile_cons_of_neg (by simp [rest c rfl]), List.append_nil]

theorem append_inj_of_leaves (hx : ∀ c ∈ xs, p c = true) (hy : ∀ c ∈ ys, p c = true)
    (hr : Leaves p r) (hs : Leaves p s) (same : xs ++ r = ys ++ s) : xs = ys ∧ r = s := by
  have first : xs = ys := by
    rw [← takeWhile_append_of_leaves hx hr, same, takeWhile_append_of_leaves hy hs]
  subst first
  exact ⟨rfl, List.append_cancel_left same⟩

theorem append_cons_inj (hx : c ∉ xs) (hy : c ∉ ys) (same : xs ++ c :: r = ys ++ c :: s) :
    xs = ys ∧ r = s := by
  have other {zs : List Char} (h : c ∉ zs) : ∀ d ∈ zs, decide (d ≠ c) = true := fun d mem =>
    decide_eq_true (ne_of_mem_of_not_mem mem h)
  obtain ⟨texts, behind⟩ :=
    append_inj_of_leaves (other hx) (other hy) (.cons (by simp)) (.cons (by simp)) same
  exact ⟨texts, (List.cons.inj behind).2⟩

theorem toDigits_append_inj {m n : Nat} (hr : Leaves Char.isDigit r) (hs : Leaves Char.isDigit s)
    (same : Nat.toDigits 10 m ++ r = Nat.toDigits 10 n ++ s) : m = n ∧ r = s := by
  obtain ⟨digits, behind⟩ := append_inj_of_leaves (fun _ => isDigit_of_mem_toDigits)
    (fun _ => isDigit_of_mem_toDigits) hr hs same
  have values := congrArg ofDigits digits
  rw [Number.ofDigits_toDigits, Number.ofDigits_toDigits] at values
  exact ⟨values, behind⟩

theorem toList_toString (n : Int) :
    (toString n).toList = (if n < 0 then ['-'] else []) ++ Nat.toDigits 10 n.natAbs := by
  rw [toString_eq_signedText]
  by_cases negative : n < 0 <;> simp [signedText, negative]

theorem exists_toDigits_eq_cons (n : Nat) :
    ∃ c cs, Nat.toDigits 10 n = c :: cs ∧ c.isDigit = true := by
  obtain ⟨c, cs, split⟩ := List.exists_cons_of_ne_nil (Nat.toDigits_ne_nil (n := n) (b := 10))
  exact ⟨c, cs, split, isDigit_of_mem_toDigits (n := n) (by simp [split])⟩

theorem exists_toString_eq_cons (n : Int) :
    ∃ c cs, (toString n).toList = c :: cs ∧ (c.isDigit = true ∨ c = '-') := by
  rw [toList_toString]
  split
  · exact ⟨'-', _, rfl, .inr rfl⟩
  · obtain ⟨c, cs, split, digit⟩ := exists_toDigits_eq_cons n.natAbs
    exact ⟨c, cs, split, .inl digit⟩

theorem toString_append_inj {m n : Int} (hr : Leaves Char.isDigit r) (hs : Leaves Char.isDigit s)
    (same : (toString m).toList ++ r = (toString n).toList ++ s) : m = n ∧ r = s := by
  have sign (k : Int) : ∀ c ∈ (if k < 0 then ['-'] else []), (!c.isDigit) = true := by
    intro c
    split <;> simp +contextual
  have digits (k : Nat) (rest : List Char) :
      Leaves (fun c => !c.isDigit) (Nat.toDigits 10 k ++ rest) := by
    obtain ⟨c, cs, split, digit⟩ := exists_toDigits_eq_cons k
    rw [split]
    exact .cons (by rw [digit]; rfl)
  rw [toList_toString, toList_toString, List.append_assoc, List.append_assoc] at same
  obtain ⟨signs, behind⟩ := append_inj_of_leaves (sign m) (sign n) (digits _ r) (digits _ s) same
  obtain ⟨sizes, rest⟩ := toDigits_append_inj hr hs behind
  have negative : m < 0 ↔ n < 0 := by
    by_cases hm : m < 0 <;> by_cases hn : n < 0 <;> simp [hm, hn] at signs ⊢
  exact ⟨by omega, rest⟩

def closers : List Char := [',', ' ', ')', ']', '>']

def Ends (rest : List Char) : Prop := ∀ c ∈ rest.head?, c ∈ closers

theorem Ends.nil : Ends [] := by simp [Ends]

theorem Ends.cons (h : c ∈ closers) : Ends (c :: cs) := by simpa [Ends] using h

theorem Ends.leaves (h : Ends r) (outside : closers.all (!p ·) = true) : Leaves p r := fun c hc => by
  simpa using List.all_eq_true.1 outside c (h c hc)

def Begins (t : String) : Prop := ∃ c ∈ t.toList.head?, c ∉ closers

theorem Begins.append {t : String} (h : Begins t) (u : String) : Begins (t ++ u) := by
  obtain ⟨c, first, other⟩ := h
  exact ⟨c, by simp [Option.mem_def.1 first], other⟩

theorem not_closer_of_letter (h : Reading.CharClass.of c = .letter) : c ∉ closers := by
  intro mem
  simp only [closers, List.mem_cons, List.not_mem_nil, or_false] at mem
  rcases mem with rfl | rfl | rfl | rfl | rfl <;> exact absurd h (by decide)

theorem begins_toString (n : Int) : Begins (toString n) := by
  obtain ⟨c, cs, split, digit | rfl⟩ := exists_toString_eq_cons n
  · exact ⟨c, by rw [split]; rfl, not_closer_of_letter (Reading.letter_of_isDigit digit)⟩
  · exact ⟨'-', by rw [split]; rfl, by decide⟩

theorem IsWord.begins {t : String} (h : IsWord t) : Begins t := by
  obtain ⟨c, cs, split⟩ := List.exists_cons_of_ne_nil (show t.toList ≠ [] by simpa using h.ne)
  exact ⟨c, by rw [split]; rfl, not_closer_of_letter (h.letters c (by simp [split]))⟩

theorem IsWord.append_inj {t u : String} (ht : IsWord t) (hu : IsWord u)
    (same : t.toList ++ ' ' :: r = u.toList ++ ' ' :: s) : t = u ∧ r = s :=
  (append_cons_inj ht.blank_not_mem hu.blank_not_mem same).imp_left String.toList_inj.1

variable {α β : Type} {text : α → String} {seen : α → β} {P : α → Prop}

/-- The text of `a` shows what is seen of `a`, and where it ends, wherever an item may end. -/
def Shows (text : α → String) (seen : α → β) (P : α → Prop) (a : α) : Prop :=
  ∀ b r s, P b → Ends r → Ends s → (text a).toList ++ r = (text b).toList ++ s →
    seen a = seen b ∧ r = s

theorem Shows.seen_eq {a b : α} (h : Shows text seen P a) (hb : P b) (same : text a = text b) :
    seen a = seen b :=
  (h b [] [] hb .nil .nil (by rw [same])).1

def more (ts : List String) : List Char := ts.flatMap fun t => ',' :: ' ' :: t.toList

theorem toList_join_cons (t : String) (ts : List String) :
    (join ", " (t :: ts)).toList = t.toList ++ more ts := by
  induction ts generalizing t with
  | nil => simp [join, more]
  | cons u us ih => simp [join_cons_cons, ih, more]

theorem ends_more (hc : c ∈ closers) (ts : List String) : Ends (more ts ++ c :: r) := by
  cases ts with
  | nil => exact .cons hc
  | cons t ts => exact .cons (by decide)

variable {as bs : List α} (hc : c ∈ closers) (ne : c ≠ ',')

include hc ne

theorem more_inj (ha : ∀ a ∈ as, Shows text seen P a) (hb : ∀ b ∈ bs, P b)
    (same : more (as.map text) ++ c :: r = more (bs.map text) ++ c :: s) :
    as.map seen = bs.map seen ∧ r = s := by
  induction as generalizing bs with
  | nil =>
    cases bs with
    | nil => exact ⟨rfl, by simpa [more] using same⟩
    | cons b bs => exact absurd (List.cons.inj same).1 ne
  | cons a as ih =>
    cases bs with
    | nil => exact absurd (List.cons.inj same).1.symm ne
    | cons b bs =>
      have items : (text a).toList ++ (more (as.map text) ++ c :: r) =
          (text b).toList ++ (more (bs.map text) ++ c :: s) := by
        simpa [more] using same
      obtain ⟨first, rest⟩ := ha a List.mem_cons_self b _ _ (hb b List.mem_cons_self)
        (ends_more hc _) (ends_more hc _) items
      obtain ⟨others, behind⟩ := ih (fun a mem => ha a (List.mem_cons_of_mem _ mem))
        (fun b mem => hb b (List.mem_cons_of_mem _ mem)) rest
      exact ⟨by rw [List.map_cons, List.map_cons, first, others], behind⟩

theorem join_inj (ha : ∀ a ∈ as, Shows text seen P a) (hb : ∀ b ∈ bs, P b)
    (begins : ∀ a ∈ as ++ bs, Begins (text a))
    (same : (join ", " (as.map text)).toList ++ c :: r = (join ", " (bs.map text)).toList ++ c :: s) :
    as.map seen = bs.map seen ∧ r = s := by
  have apart (a : α) (mem : a ∈ as ++ bs) (us vs : List Char) : (text a).toList ++ us ≠ c :: vs := by
    obtain ⟨d, first, other⟩ := begins a mem
    obtain ⟨ds, split⟩ := List.head?_eq_some_iff.1 first
    rw [split]
    intro same
    exact other ((List.cons.inj same).1 ▸ hc)
  cases as with
  | nil =>
    cases bs with
    | nil => exact ⟨rfl, by simpa [join] using same⟩
    | cons b bs =>
      rw [List.map_cons, toList_join_cons, List.append_assoc] at same
      exact absurd same.symm (apart b (by simp) _ _)
  | cons a as =>
    cases bs with
    | nil =>
      rw [List.map_cons, toList_join_cons, List.append_assoc] at same
      exact absurd same (apart a (by simp) _ _)
    | cons b bs =>
      rw [List.map_cons, List.map_cons, toList_join_cons, toList_join_cons] at same
      exact more_inj hc ne ha hb (by simpa [more] using same)

end StreamSql.Text
