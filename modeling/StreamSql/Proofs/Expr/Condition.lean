import StreamSql.Expr.Fold
import StreamSql.Proofs.Reading.Literal
import StreamSql.Proofs.Reading.Operand

namespace StreamSql

open Reading

def BinaryOp.isComparison : BinaryOp → Bool
  | .eq | .ne | .lt | .le | .gt | .ge => true
  | _ => false

def BinaryOp.connect : BinaryOp → Bool → Bool → Bool
  | .and, a, b => a && b
  | _, a, b => a || b

/-- A chain of members on a parameter. -/
inductive Expr.IsAccess : Expr → Prop
  | parameter {p name : String} {rename : Option String} :
    IsAccess (.member (.parameter p) name rename)
  | member {e : Expr} {name : String} {rename : Option String} :
    IsAccess e → IsAccess (.member e name rename)

structure Expr.IsColumn (key : KeyText) (s : Scope) (e : Expr) : Prop where
  access : e.IsAccess
  name : ∃ c, e.compile key s = .ok c ∧ IsName c

inductive Expr.IsCondition (key : KeyText) (s : Scope) : Expr → Prop
  | column {e : Expr} : e.IsColumn key s → IsCondition key s e
  | compareRight {op : BinaryOp} {e : Expr} {v : Value} : op.isComparison = true →
    e.IsColumn key s → v.IsScalar s.separator → (op = .eq ∨ op = .ne → v ≠ .null) →
    IsCondition key s (.binary op e (.constant v))
  | compareLeft {op : BinaryOp} {e : Expr} {v : Value} : op.isComparison = true →
    e.IsColumn key s → v.IsScalar s.separator → (op = .eq ∨ op = .ne → v ≠ .null) →
    IsCondition key s (.binary op (.constant v) e)
  | and {l r : Expr} : IsCondition key s l → IsCondition key s r →
    IsCondition key s (.binary .and l r)
  | or {l r : Expr} : IsCondition key s l → IsCondition key s r →
    IsCondition key s (.binary .or l r)
  | not {e : Expr} : IsCondition key s e → IsCondition key s (.unary .not e)

def Reading.Term.truth (ν : Term → Bool) : Term → Bool
  | .binary .and l r => l.truth ν && r.truth ν
  | .binary .or l r => l.truth ν || r.truth ν
  | .unary .not x => !x.truth ν
  | x => ν x

namespace Expr

def term? (key : KeyText) (s : Scope) (e : Expr) : Option Term :=
  (e.compile key s).toOption.bind read

/-- The truth of a condition, from that of its atoms as they are written. -/
def truth (key : KeyText) (s : Scope) (ν : Term → Bool) : Expr → Bool
  | .binary .and l r => l.truth key s ν && r.truth key s ν
  | .binary .or l r => l.truth key s ν || r.truth key s ν
  | .unary .not e => !e.truth key s ν
  | e => (e.term? key s).any ν

variable {key : KeyText} {s : Scope} {e l r : Expr}

theorem IsAccess.value?_eq_none (h : e.IsAccess) : e.value? = none := by
  induction h with
  | parameter => rfl
  | member _ ih => simp [value?, ih]

theorem IsAccess.fold_eq (h : e.IsAccess) : e.fold = e := by
  induction h with
  | parameter => rfl
  | member h ih => simp [fold, ih, constantOr, value?, h.value?_eq_none]

theorem IsCondition.fold_eq (h : e.IsCondition key s) : e.fold = e := by
  induction h with
  | column h => exact h.access.fold_eq
  | @compareRight op e v hop h _ _ =>
    cases op <;> simp [BinaryOp.isComparison] at hop <;>
      simp [fold, h.access.fold_eq, constantOr, value?]
  | @compareLeft op e v hop h _ _ =>
    cases op <;> simp [BinaryOp.isComparison] at hop <;>
      simp [fold, h.access.fold_eq, constantOr, value?]
  | and _ _ ihl ihr => simp [fold, ihl, ihr, constantOr, value?]
  | or _ _ ihl ihr => simp [fold, ihl, ihr, constantOr, value?]
  | not _ ih => simp [fold, ih]

end Expr

structure Reading.ReadsTrue (p : (Term → Bool) → Bool) (n : Nat) (x : Term)
    (f : Term → BinaryOp → Term) : Prop where
  alone : ∀ ν, x.truth ν = p ν
  behind : ∀ op ν y, n = Reading.level op → op = .and ∨ op = .or →
    (f y op).truth ν = op.connect (y.truth ν) (p ν)

namespace Reading.ReadsTrue

variable {p q : (Term → Bool) → Bool} {x y : Term} {f g : Term → BinaryOp → Term}

theorem closed {n : Nat} (alone : ∀ ν, x.truth ν = p ν) : ReadsTrue p n x x.closed where
  alone := alone
  behind op ν y _ hop := by
    rcases hop with rfl | rfl <;> simp [Term.closed, Term.truth, alone, BinaryOp.connect]

theorem binary {op : BinaryOp} (hop : op = .and ∨ op = .or) (hp : ReadsTrue p (level op) x f)
    (hq : ReadsTrue q (level op) y g) :
    ReadsTrue (fun ν => op.connect (p ν) (q ν)) (level op) (g x op) (fun z o => g (f z o) op) where
  alone ν := by rw [hq.behind op ν x rfl hop, hp.alone]
  behind o ν z ho hop' := by
    obtain rfl : o = op := by
      rcases hop with rfl | rfl <;> rcases hop' with rfl | rfl <;>
        first | rfl | exact absurd ho (by decide)
    rw [hq.behind o ν (f z o) rfl hop, hp.behind o ν z rfl hop]
    rcases hop with rfl | rfl
    · exact Bool.and_assoc ..
    · exact Bool.or_assoc ..

end Reading.ReadsTrue

namespace Expr

variable {key : KeyText} {s : Scope} {e l r : Expr}

theorem signsInside_of_connective {op : BinaryOp} (hop : op = .and ∨ op = .or) (e : Expr) :
    e.SignsInside op := by
  rintro u d rfl
  rcases hop with rfl | rfl <;> cases u <;> decide

theorem operandText_readsTrue {op : BinaryOp} {t : String} {x : Term} {f : Term → BinaryOp → Term}
    (right : Bool) (hop : op = .and ∨ op = .or) (reads : Reads e.level t x f)
    (h : ReadsTrue (e.truth key s) e.level x f) :
    ∃ g, Reads (Reading.level op) (op.operandText right e t) x g ∧
      ReadsTrue (e.truth key s) (Reading.level op) x g := by
  rcases operandText_reads op right (signsInside_of_connective hop e) reads with
    ⟨-, reads⟩ | ⟨hl, -, reads⟩
  · exact ⟨_, reads, .closed h.alone⟩
  · exact ⟨f, reads, hl ▸ h⟩

theorem IsColumn.reads (h : e.IsColumn key s) :
    ∃ t cs, e.compile key s = .ok t ∧
      Reads closedLevel t (.leaf (.word cs)) (Term.leaf (.word cs)).closed := by
  obtain ⟨-, c, text, name⟩ := h
  exact ⟨c, c.toList, text, .word name.ne name.letters name.free⟩

theorem IsAccess.level_eq (h : e.IsAccess) : e.level = closedLevel := by cases h <;> rfl

theorem IsAccess.isNull_eq (h : e.IsAccess) : e.isNull = false := by cases h <;> rfl

theorem isNull_constant {v : Value} (h : v ≠ .null) : (Expr.constant v).isNull = false := by
  cases v with
  | null => exact absurd rfl h
  | _ => rfl

theorem nullTest?_eq_none {op : BinaryOp}
    (h : op = .eq ∨ op = .ne → l.isNull = false ∧ r.isNull = false) : op.nullTest? l r = none := by
  by_cases test : op = .eq ∨ op = .ne
  · obtain ⟨hl, hr⟩ := h test
    simp [BinaryOp.nullTest?, hl, hr]
  · simp_all [BinaryOp.nullTest?]

theorem compare_reads {op : BinaryOp} {tl tr : String} {x y : Term} {f g : Term → BinaryOp → Term}
    (hop : op.isComparison = true)
    (test : op.nullTest? l r = none) (textL : l.compile key s = .ok tl)
    (textR : r.compile key s = .ok tr) (openL : op.needsParens false l = false)
    (openR : op.needsParens true r = false) (hl : Reads (signLevel .negate) tl x f)
    (hr : Reads (signLevel .negate) tr y g) :
    ∃ t, (Expr.binary op l r).compile key s = .ok t ∧
      Reads (Reading.level op) t (.binary op x y) (fun z o => .binary op (.binary o z x) y) := by
  have index : op ≠ .index := by rintro rfl; simp [BinaryOp.isComparison] at hop
  have inside : Reading.level op < signLevel .negate := by
    cases op <;> simp [BinaryOp.isComparison] at hop <;> decide
  have text := compile_binary test index textL textR
  simp only [BinaryOp.operandText, openL, openR, Bool.false_eq_true, if_false] at text
  exact ⟨_, text, (hl.mono inside).binary index (hr.mono inside)⟩

theorem compare_readsTrue {op : BinaryOp} {t : String} {x y : Term} {f : Term → BinaryOp → Term}
    (hop : op.isComparison = true) (text : (Expr.binary op l r).compile key s = .ok t)
    (reads : Reads (Reading.level op) t (.binary op x y) f) :
    ReadsTrue ((Expr.binary op l r).truth key s) (Reading.level op) (.binary op x y) f where
  alone ν := by
    have term : (Expr.binary op l r).term? key s = some (.binary op x y) := by
      simp [term?, text, Except.toOption, reads.read_eq]
    cases op <;> simp [BinaryOp.isComparison] at hop <;> simp [Term.truth, truth, term]
  behind o _ _ ho hop' := by
    rcases hop' with rfl | rfl <;> cases op <;> simp [BinaryOp.isComparison] at hop <;>
      exact absurd ho (by decide)

theorem connect_reads {op : BinaryOp} (hop : op = .and ∨ op = .or)
    (hl : ∃ t x f, l.compile key s = .ok t ∧ Reads l.level t x f ∧
      ReadsTrue (l.truth key s) l.level x f)
    (hr : ∃ t x f, r.compile key s = .ok t ∧ Reads r.level t x f ∧
      ReadsTrue (r.truth key s) r.level x f) :
    ∃ t x f, (Expr.binary op l r).compile key s = .ok t ∧ Reads (Reading.level op) t x f ∧
      ReadsTrue ((Expr.binary op l r).truth key s) (Reading.level op) x f := by
  obtain ⟨tl, x, f, textL, readsL, trueL⟩ := hl
  obtain ⟨tr, y, g, textR, readsR, trueR⟩ := hr
  obtain ⟨f', readsL', trueL'⟩ := operandText_readsTrue false hop readsL trueL
  obtain ⟨g', readsR', trueR'⟩ := operandText_readsTrue true hop readsR trueR
  have index : op ≠ .index := by rcases hop with rfl | rfl <;> decide
  have test : op.nullTest? l r = none := by rcases hop with rfl | rfl <;> rfl
  have truth : (Expr.binary op l r).truth key s =
      fun ν => op.connect (l.truth key s ν) (r.truth key s ν) := by
    rcases hop with rfl | rfl <;> rfl
  exact ⟨_, _, _, compile_binary test index textL textR, readsL'.binary index readsR',
    truth ▸ .binary hop trueL' trueR'⟩

theorem not_reads {t : String} {x : Term} {f : Term → BinaryOp → Term} (h : e.IsCondition key s)
    (reads : Reads e.level t x f) :
    ∃ g, Reads (signLevel .not) (UnaryOp.not.text e t) (.unary .not x) g := by
  have wrapped (op : BinaryOp) (l r : Expr) (index : op ≠ .index) (he : e = .binary op l r) :
      ∃ g, Reads (signLevel .not) (UnaryOp.not.text e t) (.unary .not x) g := by
    have parens : UnaryOp.not.needsParens e t = true := by simp [he, UnaryOp.needsParens, index]
    simp only [UnaryOp.text, parens, if_true]
    exact ⟨_, reads.parenthesized.not (by decide)⟩
  have compared {op : BinaryOp} (hop : op.isComparison = true) : op ≠ .index := by
    rintro rfl
    simp [BinaryOp.isComparison] at hop
  cases h with
  | column h =>
    have open' : UnaryOp.not.needsParens e t = false := by cases h.access <;> rfl
    simp only [UnaryOp.text, open', Bool.false_eq_true, if_false]
    rw [h.access.level_eq] at reads
    exact ⟨_, reads.not (by decide)⟩
  | compareRight hop => exact wrapped _ _ _ (compared hop) rfl
  | compareLeft hop => exact wrapped _ _ _ (compared hop) rfl
  | and => exact wrapped _ _ _ (by decide) rfl
  | or => exact wrapped _ _ _ (by decide) rfl
  | not => exact ⟨_, reads.not (Nat.le_refl _)⟩

theorem IsCondition.reads (h : e.IsCondition key s) :
    ∃ t x f, e.compile key s = .ok t ∧ Reads e.level t x f ∧
      ReadsTrue (e.truth key s) e.level x f := by
  induction h with
  | @column e h =>
    obtain ⟨t, cs, text, reads⟩ := h.reads
    have term : e.term? key s = some (.leaf (.word cs)) := by
      simp [term?, text, Except.toOption, reads.read_eq]
    rw [h.access.level_eq]
    refine ⟨t, _, _, text, reads, .closed fun ν => ?_⟩
    cases h.access <;> simp [Term.truth, truth, term]
  | @compareRight op e v hop h scalar nonnull =>
    obtain ⟨t, cs, text, reads⟩ := h.reads
    obtain ⟨y, readsV⟩ := scalar.reads (s := s.style)
    have test : op.nullTest? e (.constant v) = none :=
      nullTest?_eq_none fun eq => ⟨h.access.isNull_eq, isNull_constant (nonnull eq)⟩
    obtain ⟨u, text', reads'⟩ := compare_reads hop test text rfl (by cases h.access <;> rfl) rfl
      (reads.mono (by decide)) readsV
    exact ⟨u, _, _, text', reads', compare_readsTrue hop text' reads'⟩
  | @compareLeft op e v hop h scalar nonnull =>
    obtain ⟨t, cs, text, reads⟩ := h.reads
    obtain ⟨y, readsV⟩ := scalar.reads (s := s.style)
    have test : op.nullTest? (.constant v) e = none :=
      nullTest?_eq_none fun eq => ⟨isNull_constant (nonnull eq), h.access.isNull_eq⟩
    obtain ⟨u, text', reads'⟩ := compare_reads hop test rfl text rfl (by cases h.access <;> rfl)
      readsV (reads.mono (by decide))
    exact ⟨u, _, _, text', reads', compare_readsTrue hop text' reads'⟩
  | and _ _ ihl ihr => exact connect_reads (.inl rfl) ihl ihr
  | or _ _ ihl ihr => exact connect_reads (.inr rfl) ihl ihr
  | @not e h ih =>
    obtain ⟨t, x, f, text, reads, means⟩ := ih
    obtain ⟨g, reads'⟩ := not_reads h reads
    refine ⟨UnaryOp.not.text e t, _, g, ?_, reads', ?_⟩
    · simp [compile, text]
      rfl
    · exact {
        alone := fun ν => by simp [Term.truth, truth, means.alone]
        behind := fun op _ _ ho _ => absurd ho (signLevel_ne_level .not op) }

end Expr
end StreamSql
