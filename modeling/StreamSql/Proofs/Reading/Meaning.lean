import StreamSql.Proofs.Reading.Formula

/-!
What formulas say. A printed text has fewer parentheses than its tree where operators of one level may
be regrouped, so it is not the tree that is read back, but what it says in every meaning with these
laws.
-/

namespace StreamSql

/-- Whether `a op (b op' c)` and `(a op b) op' c` are the same. -/
def BinaryOp.regroups : BinaryOp → BinaryOp → Bool
  | .and, .and | .or, .or | .add, .add | .add, .sub | .mul, .mul => true
  | _, _ => false

namespace Reading

structure Meaning (α : Type) where
  atom : List Token → α
  binary : BinaryOp → α → α → α
  unary : UnaryOp → α → α
  isNull : Bool → α → α
  between : Bool → α → α → α → α
  isIn : α → List α → α
  like : α → α → α
  regroup : ∀ {op op'}, op.regroups op' = true → ∀ a b c,
    binary op' (binary op a b) c = binary op a (binary op' b c)

namespace Formula

variable {α : Type}

mutual
def denote (M : Meaning α) : Formula → α
  | .atom ts => M.atom ts
  | .binary op l r => M.binary op (l.denote M) (r.denote M)
  | .unary op x => M.unary op (x.denote M)
  | .isNull negated x => M.isNull negated (x.denote M)
  | .between negated x l h => M.between negated (x.denote M) (l.denote M) (h.denote M)
  | .isIn x xs => M.isIn (x.denote M) (denotes M xs)
  | .like x y => M.like (x.denote M) (y.denote M)
termination_by structural x => x
def denotes (M : Meaning α) : List Formula → List α
  | [] => []
  | x :: xs => x.denote M :: denotes M xs
termination_by structural xs => xs
end

def Same (x y : Formula) : Prop := ∀ (α : Type) (M : Meaning α), x.denote M = y.denote M

namespace Same

variable {x x' y y' z z' : Formula}

theorem refl (x : Formula) : x.Same x := fun _ _ => rfl

theorem trans (h : x.Same y) (h' : y.Same z) : x.Same z := fun α M => (h α M).trans (h' α M)

theorem binary (op : BinaryOp) (hx : x.Same x') (hy : y.Same y') :
    (Formula.binary op x y).Same (.binary op x' y') := by
  intro α M
  change M.binary op (x.denote M) (y.denote M) = M.binary op (x'.denote M) (y'.denote M)
  rw [hx α M, hy α M]

theorem unary (op : UnaryOp) (hx : x.Same x') : (Formula.unary op x).Same (.unary op x') :=
  fun α M => congrArg (M.unary op) (hx α M)

theorem isNull (negated : Bool) (hx : x.Same x') :
    (Formula.isNull negated x).Same (.isNull negated x') :=
  fun α M => congrArg (M.isNull negated) (hx α M)

theorem between (negated : Bool) (hx : x.Same x') (hy : y.Same y') (hz : z.Same z') :
    (Formula.between negated x y z).Same (.between negated x' y' z') := by
  intro α M
  change M.between negated (x.denote M) (y.denote M) (z.denote M) =
    M.between negated (x'.denote M) (y'.denote M) (z'.denote M)
  rw [hx α M, hy α M, hz α M]

theorem isIn (xs : List Formula) (hx : x.Same x') : (Formula.isIn x xs).Same (.isIn x' xs) :=
  fun α M => congrArg (M.isIn · _) (hx α M)

theorem like (y : Formula) (hx : x.Same x') : (Formula.like x y).Same (.like x' y) :=
  fun α M => congrArg (M.like · _) (hx α M)

theorem regroup {op op' : BinaryOp} (h : op.regroups op' = true) (x y z : Formula) :
    (Formula.binary op' (.binary op x y) z).Same (.binary op x (.binary op' y z)) :=
  fun _ M => M.regroup h _ _ _

end Same

/-- Between operators that are looser than level `n` the text is a formula that says what `x` does. -/
def Reads (n : Nat) (t : String) (x : Formula) : Prop :=
  ∃ ts y, Lexes t.toList ts ∧ ReadsAlone n ts y ∧ y.Same x

/-- Behind the operator the text is the right side `x`, although its own operators may be of the same
level. -/
def ReadsRight (op : BinaryOp) (t : String) (x : Formula) : Prop :=
  ∃ ts f, Lexes t.toList ts ∧ ReadsBehind op ts f ∧ ∀ y, (f y).Same (.binary op y x)

variable {m n : Nat} {t l r h : String} {x y z : Formula} {op op' : BinaryOp}

theorem Reads.exists_read (h : Reads n t x) : ∃ y, read t = some y ∧ y.Same x := by
  obtain ⟨ts, y, lexes, reads, same⟩ := h
  have whole := reads [] [] trivial trivial
  simp only [List.append_nil] at whole
  exact ⟨y, by simp [read, lexes.tokens, whole, resume, build], same⟩

theorem Reads.mono (h : Reads n t x) (le : m ≤ n) : Reads m t x := by
  obtain ⟨ts, y, lexes, reads, same⟩ := h
  exact ⟨ts, y, lexes, reads.mono le, same⟩

theorem Reads.right (h : Reads n t x) (lt : level op < n) : ReadsRight op t x := by
  obtain ⟨ts, y, lexes, reads, same⟩ := h
  exact ⟨ts, _, lexes, reads.behind lt, fun z => .binary op (.refl z) same⟩

theorem Reads.parenthesized (h : Reads n t x) : Reads closedLevel (parens t) x := by
  obtain ⟨ts, y, lexes, reads, same⟩ := h
  refine ⟨_, y, ?_, reads.parenthesized, same⟩
  simpa [parens] using lexes.parenthesized

theorem exists_mark (index : op ≠ .index) :
    ∃ t, Lexes op.text.toList [t] ∧ Mark.of t = .operator op := by
  cases op with
  | and =>
    exact ⟨keyword "AND", .word (by decide) (CharClass.forall_of_all (by decide)), by decide⟩
  | or =>
    exact ⟨keyword "OR", .word (by decide) (CharClass.forall_of_all (by decide)), by decide⟩
  | index => exact absurd rfl index
  | _ => exact ⟨_, .sign (by decide) (CharClass.forall_of_all (by decide)), rfl⟩

theorem Reads.binary (index : op ≠ .index) (hl : Reads (level op) l x) (hr : ReadsRight op r y) :
    Reads (level op) (l ++ " " ++ op.text ++ " " ++ r) (.binary op x y) := by
  obtain ⟨ts, x', lexesL, readsL, sameL⟩ := hl
  obtain ⟨us, f, lexesR, readsR, sameR⟩ := hr
  obtain ⟨t, lexes, mark⟩ := exists_mark index
  refine ⟨_, _, ?_, readsL.binary mark readsR, (sameR x').trans (.binary op sameL (.refl y))⟩
  simpa using lexesL.spaced (lexes.spaced lexesR)

theorem ReadsRight.binary (index : op ≠ .index) (regroups : op'.regroups op = true)
    (same : level op' = level op) (hl : ReadsRight op' l x) (hr : ReadsRight op r y) :
    ReadsRight op' (l ++ " " ++ op.text ++ " " ++ r) (.binary op x y) := by
  obtain ⟨ts, f, lexesL, readsL, sameL⟩ := hl
  obtain ⟨us, g, lexesR, readsR, sameR⟩ := hr
  obtain ⟨t, lexes, mark⟩ := exists_mark index
  refine ⟨_, _, ?_, readsL.binary mark same readsR, fun z => ?_⟩
  · simpa using lexesL.spaced (lexes.spaced lexesR)
  · exact ((sameR (f z)).trans (.binary op (sameL z) (.refl y))).trans (.regroup regroups z x y)

theorem Reads.not (h : Reads n t x) (le : signLevel .not ≤ n) :
    Reads (signLevel .not) ("NOT " ++ t) (.unary .not x) := by
  obtain ⟨ts, y, lexes, reads, same⟩ := h
  have not : Lexes "NOT".toList [keyword "NOT"] :=
    .word (by decide) (CharClass.forall_of_all (by decide))
  refine ⟨_, _, ?_, reads.unary (t := keyword "NOT") (by decide) le, .unary .not same⟩
  simpa using not.spaced lexes

theorem lexes_keyword (k : String) (ne : k.toList ≠ [])
    (letters : k.toList.all (fun c => CharClass.of c = .letter) = true) :
    Lexes k.toList [keyword k] :=
  .word ne (CharClass.forall_of_all letters)

theorem lexes_between (negated : Bool) :
    Lexes (if negated then "NOT BETWEEN" else "BETWEEN").toList (betweenTokens negated) := by
  have between := lexes_keyword "BETWEEN" (by decide) (by decide)
  cases negated with
  | false => exact between
  | true => exact (lexes_keyword "NOT" (by decide) (by decide)).spaced between

theorem Reads.between (negated : Bool) (hx : Reads sumLevel t x) (hl : Reads sumLevel l y)
    (hh : Reads sumLevel h z) :
    Reads testLevel (t ++ " " ++ (if negated then "NOT BETWEEN" else "BETWEEN") ++ " " ++ l ++
      " AND " ++ h) (.between negated x y z) := by
  obtain ⟨ts, x', lexesX, readsX, sameX⟩ := hx
  obtain ⟨us, y', lexesL, readsL, sameL⟩ := hl
  obtain ⟨vs, z', lexesH, readsH, sameH⟩ := hh
  have and := lexes_keyword "AND" (by decide) (by decide)
  refine ⟨_, _, ?_, readsX.between negated readsL readsH, .between negated sameX sameL sameH⟩
  simpa using lexesX.spaced ((lexes_between negated).spaced (lexesL.spaced (and.spaced lexesH)))

theorem Reads.isNull (negated : Bool) (h : Reads testLevel t x) :
    Reads testLevel (t ++ if negated then " IS NOT NULL" else " IS NULL") (.isNull negated x) := by
  obtain ⟨ts, y, lexes, reads, same⟩ := h
  have is := lexes_keyword "IS" (by decide) (by decide)
  have not := lexes_keyword "NOT" (by decide) (by decide)
  have null := lexes_keyword "NULL" (by decide) (by decide)
  refine ⟨_, _, ?_, reads.isNull negated, .isNull negated same⟩
  cases negated with
  | false => simpa [nullTokens] using lexes.spaced (is.spaced null)
  | true => simpa [nullTokens] using lexes.spaced (is.spaced (not.spaced null))

theorem Reads.like (hx : Reads sumLevel t x) {p : String} (free : '\x27' ∉ p.toList) :
    Reads testLevel (t ++ " LIKE " ++ quoted p) (.like x (.atom [.text p.toList])) := by
  obtain ⟨ts, y, lexes, reads, same⟩ := hx
  have like := lexes_keyword "LIKE" (by decide) (by decide)
  have pattern : ReadsAlone sumLevel [.text p.toList] (.atom [.text p.toList]) :=
    (ReadsAlone.atom rfl).mono (by decide)
  refine ⟨_, _, ?_, reads.like pattern, .like _ same⟩
  simpa [quoted] using lexes.spaced (like.spaced (.text free))

def ReadsList (t : String) (xs : List Formula) : Prop :=
  ∃ ts, Lexes t.toList ts ∧ ReadsItems ts xs

theorem Reads.isIn {xs : List Formula} (hx : Reads sumLevel t x) (items : ReadsList l xs) :
    Reads testLevel (t ++ " IN " ++ parens l) (.isIn x xs) := by
  obtain ⟨ts, y, lexes, reads, same⟩ := hx
  obtain ⟨us, lexesL, readsL⟩ := items
  have isIn := lexes_keyword "IN" (by decide) (by decide)
  refine ⟨_, _, ?_, reads.isIn readsL, .isIn xs same⟩
  simpa [parens] using lexes.spaced (isIn.spaced lexesL.parenthesized)

end Formula
end Reading
end StreamSql
