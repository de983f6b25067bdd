import StreamSql.Expr.Compile
import StreamSql.Proofs.Reading.Term

/-!
How texts that are put together are read. `Reads n t x f` says what the text `t` is wherever it
stands with operators around it that bind no tighter than level `n`: it is `x`, and behind a left
operand and an operator of that very level the two together are what `f` says, since operators of
one level go from left to right.
-/

namespace StreamSql.Reading

structure ReadsTokens (n : Nat) (ts : List Token) (x : Term) (f : Term → BinaryOp → Term) :
    Prop where
  alone : ∀ st rest, Loose n st → Resumes n rest → operand st (ts ++ rest) = operator x st rest
  behind : ∀ y op st rest, level op = n → Loose n st → Resumes n rest →
    operand (.left y op :: st) (ts ++ rest) = operator (f y op) st rest

def Term.closed (x y : Term) (op : BinaryOp) : Term := .binary op y x

namespace ReadsTokens

variable {n : Nat} {ts us : List Token} {x y : Term} {f g : Term → BinaryOp → Term}

theorem mono {m : Nat} (h : ReadsTokens n ts x f) (hm : m < n) : ReadsTokens m ts x x.closed where
  alone st rest hst hrest :=
    h.alone st rest (hst.mono (Nat.le_of_lt hm)) (hrest.mono (Nat.le_of_lt hm))
  behind y op st rest hop hst hrest := by
    have hy : Loose n (.left y op :: st) := by simpa [Loose, hop] using hm
    subst hop
    rw [h.alone _ _ hy (hrest.mono (Nat.le_of_lt hm)), operator_left hrest]
    rfl

theorem of_alone (hn : ∀ op, level op ≠ n)
    (h : ∀ st rest, Loose n st → Resumes n rest → operand st (ts ++ rest) = operator x st rest) :
    ReadsTokens n ts x x.closed where
  alone := h
  behind _ op _ _ hop _ _ := absurd hop (hn op)

theorem leaf {t : Token} (ht : isLeaf t = true) :
    ReadsTokens closedLevel [t] (.leaf t) (Term.leaf t).closed := by
  apply of_alone (fun op => Nat.ne_of_lt (level_lt_closedLevel op))
  intro st rest _ _
  have sign : signOf? t = none := by cases t <;> grind [isLeaf, isReserved, signOf?]
  have paren : t ≠ .sign ['('] := by rintro rfl; simp [isLeaf] at ht
  simp [operand, sign, paren, ht]

theorem binary {op : BinaryOp} {t : Token} (ht : Follow.of t = .operator op)
    (hl : ReadsTokens (level op) ts x f) (hr : ReadsTokens (level op) us y g) :
    ReadsTokens (level op) (ts ++ t :: us) (g x op) (fun z o => g (f z o) op) where
  alone st rest hst hrest := by
    have ht' : Resumes (level op) (t :: (us ++ rest)) := by simp [Resumes, ht]
    rw [List.append_assoc, List.cons_append, hl.alone _ _ hst ht']
    simp only [operator, ht, hst.reduce_eq]
    exact hr.behind _ _ _ _ rfl hst hrest
  behind z o st rest ho hst hrest := by
    have ht' : Resumes (level op) (t :: (us ++ rest)) := by simp [Resumes, ht]
    rw [List.append_assoc, List.cons_append, hl.behind _ _ _ _ ho hst ht']
    simp only [operator, ht, hst.reduce_eq]
    exact hr.behind _ _ _ _ rfl hst hrest

theorem unary {u : UnaryOp} {t : Token} (ht : signOf? t = some u) (hn : signLevel u ≤ n)
    (h : ReadsTokens n ts x f) :
    ReadsTokens (signLevel u) (t :: ts) (.unary u x) (Term.unary u x).closed := by
  apply of_alone (fun op => (signLevel_ne_level u op).symm)
  intro st rest hst hrest
  have hu : Loose n (.sign u :: st) := hn
  simp only [List.cons_append, operand, ht, hst.tightness_le, if_true]
  rw [h.alone _ _ hu (hrest.mono hn), operator_sign hrest]

theorem parenthesized (h : ReadsTokens n ts x f) :
    ReadsTokens closedLevel (.sign ['('] :: (ts ++ [.sign [')']])) x x.closed := by
  apply of_alone (fun op => Nat.ne_of_lt (level_lt_closedLevel op))
  intro st rest _ _
  have group : Loose n (.group :: st) := trivial
  have close : Resumes n (.sign [')'] :: rest) := trivial
  simp only [List.cons_append, List.append_assoc, List.nil_append]
  rw [show operand st (.sign ['('] :: (ts ++ .sign [')'] :: rest)) =
    operand (.group :: st) (ts ++ .sign [')'] :: rest) from rfl, h.alone _ _ group close]
  rfl

theorem call {m : Nat} {h : List Char} (free : isReserved h = false) (hx : ReadsTokens n ts x f)
    (hy : ReadsTokens m us y g) :
    ReadsTokens closedLevel
      (.word h :: .sign ['('] :: (ts ++ .sign [','] :: (us ++ [.sign [')']])))
      (.call h [x, y]) (Term.call h [x, y]).closed := by
  apply of_alone (fun op => Nat.ne_of_lt (level_lt_closedLevel op))
  intro st rest _ _
  have sign : signOf? (.word h) = none := by grind [isReserved, signOf?]
  have start (more : List Token) :
      operand st (.word h :: .sign ['('] :: more) = operand (.call h [] :: st) more := by
    simp only [operand, sign, isLeaf, free]
    rfl
  have comma (more : List Token) :
      operator x (.call h [] :: st) (.sign [','] :: more) = operand (.call h [x] :: st) more := rfl
  have waits (k : Nat) (args : List Term) : Loose k (.call h args :: st) := trivial
  have endX : Resumes n (.sign [','] :: (us ++ .sign [')'] :: rest)) := trivial
  have endY : Resumes m (.sign [')'] :: rest) := trivial
  simp only [List.cons_append, List.append_assoc, List.nil_append, start]
  rw [hx.alone _ _ (waits n []) endX, comma, hy.alone _ _ (waits m [x]) endY]
  rfl

end ReadsTokens

def Reads (n : Nat) (t : String) (x : Term) (f : Term → BinaryOp → Term) : Prop :=
  ∃ ts, Lexes t.toList ts ∧ ReadsTokens n ts x f

namespace Reads

variable {n : Nat} {t l r : String} {x y : Term} {f g : Term → BinaryOp → Term}

theorem read_eq (h : Reads n t x f) : read t = some x := by
  obtain ⟨ts, lexes, reads⟩ := h
  have := reads.alone [] [] trivial trivial
  simp only [List.append_nil] at this
  simp [read, lexes.tokens, this, operator, reduce]

theorem mono {m : Nat} (h : Reads n t x f) (hm : m < n) : Reads m t x x.closed := by
  obtain ⟨ts, lexes, reads⟩ := h
  exact ⟨ts, lexes, reads.mono hm⟩

theorem of_word {cs : List Char} (lexes : Lexes t.toList [.word cs])
    (free : isReserved cs = false) :
    Reads closedLevel t (.leaf (.word cs)) (Term.leaf (.word cs)).closed :=
  ⟨_, lexes, .leaf (by simpa [isLeaf] using free)⟩

theorem word (ne : t ≠ "") (letters : ∀ c ∈ t.toList, CharClass.of c = .letter)
    (free : isReserved t.toList = false) :
    Reads closedLevel t (.leaf (.word t.toList)) (Term.leaf (.word t.toList)).closed :=
  of_word (.word (by simpa using ne) letters) free

theorem parenthesized (h : Reads n t x f) : Reads closedLevel (parens t) x x.closed := by
  obtain ⟨ts, lexes, reads⟩ := h
  refine ⟨_, ?_, reads.parenthesized⟩
  simpa [parens] using lexes.parenthesized

theorem lexes_operator {op : BinaryOp} (h : op ≠ .index) :
    ∃ t, Lexes op.text.toList [t] ∧ Follow.of t = .operator op := by
  cases op with
  | and =>
    exact ⟨.word "AND".toList, .word (by decide) (CharClass.forall_of_all (by decide)), by decide⟩
  | or =>
    exact ⟨.word "OR".toList, .word (by decide) (CharClass.forall_of_all (by decide)), by decide⟩
  | index => exact absurd rfl h
  | _ => exact ⟨_, .sign (by decide) (CharClass.forall_of_all (by decide)), rfl⟩

theorem binary {op : BinaryOp} (hop : op ≠ .index) (hl : Reads (level op) l x f)
    (hr : Reads (level op) r y g) :
    Reads (level op) (l ++ " " ++ op.text ++ " " ++ r) (g x op) (fun z o => g (f z o) op) := by
  obtain ⟨ts, lexesL, readsL⟩ := hl
  obtain ⟨us, lexesR, readsR⟩ := hr
  obtain ⟨t, lexes, ht⟩ := lexes_operator hop
  refine ⟨_, ?_, readsL.binary ht readsR⟩
  simpa using lexesL.spaced (lexes.spaced lexesR)

theorem not (h : Reads n t x f) (hn : signLevel .not ≤ n) :
    Reads (signLevel .not) ("NOT " ++ t) (.unary .not x) (Term.unary .not x).closed := by
  obtain ⟨ts, lexes, reads⟩ := h
  have keyword : Lexes "NOT".toList [.word "NOT".toList] :=
    .word (by decide) (CharClass.forall_of_all (by decide))
  have sign : signOf? (.word "NOT".toList) = some .not := by decide
  refine ⟨_, ?_, reads.unary sign hn⟩
  simpa using keyword.spaced lexes

end Reads
end StreamSql.Reading
