import StreamSql.Proofs.Reading.Operand

namespace StreamSql

open Reading

def BinaryOp.isArithmetic : BinaryOp → Bool
  | .add | .sub | .mul | .div | .rem => true
  | _ => false

def BinaryOp.compute : BinaryOp → Int → Int → Option Int
  | .add, a, b => some (a + b)
  | .sub, a, b => some (a - b)
  | .mul, a, b => some (a * b)
  | .div, a, b => if b = 0 then none else some (a.tdiv b)
  | .rem, a, b => if b = 0 then none else some (a.tmod b)
  | _, _, _ => none

def BinaryOp.apply (op : BinaryOp) (x y : Option Int) : Option Int :=
  x.bind fun a => y.bind fun b => op.compute a b

inductive Expr.IsArithmetic (s : Scope) : Expr → Prop
  | column {e : Expr} {c : String} : e.column? s = some c → IsName c → IsArithmetic s e
  | number {n : Int64} : 0 ≤ n.toInt → IsArithmetic s (.constant (.int n))
  | binary {op : BinaryOp} {l r : Expr} : op.isArithmetic = true →
    IsArithmetic s l → IsArithmetic s r → IsArithmetic s (.binary op l r)

def Expr.eval (s : Scope) (ρ : String → Int) : Expr → Option Int
  | .constant (.int n) => some n.toInt
  | .binary op l r => op.apply (l.eval s ρ) (r.eval s ρ)
  | e => (e.column? s).map ρ

def Reading.Term.eval (ρ : String → Int) : Term → Option Int
  | .leaf (.word cs) => some (((numeral? cs).map Int.ofNat).getD (ρ (.ofList cs)))
  | .binary op l r => op.apply (l.eval ρ) (r.eval ρ)
  | _ => none

/-- The result of `a * e` where the factors of `e` are written without parentheses. -/
def Expr.evalBehind (s : Scope) (ρ : String → Int) (a : Option Int) : Expr → Option Int
  | .binary .mul l r => r.evalBehind s ρ (l.evalBehind s ρ a)
  | .binary .div l r => BinaryOp.div.apply (l.evalBehind s ρ a) (r.evalBehind s ρ (some 1))
  | .binary .rem l r => BinaryOp.rem.apply (l.evalBehind s ρ a) (r.evalBehind s ρ (some 1))
  | .binary op l r =>
    BinaryOp.mul.apply a (op.apply (l.evalBehind s ρ (some 1)) (r.evalBehind s ρ (some 1)))
  | e => BinaryOp.mul.apply a (e.eval s ρ)

abbrev Expr.evalText (s : Scope) (ρ : String → Int) (e : Expr) : Option Int :=
  e.evalBehind s ρ (some 1)

namespace BinaryOp

theorem apply_some (op : BinaryOp) (a b : Int) :
    op.apply (some a) (some b) = op.compute a b := rfl

@[simp] theorem one_apply (x : Option Int) : mul.apply (some 1) x = x := by
  cases x <;> simp [apply, compute]

@[simp] theorem apply_none (op : BinaryOp) (x : Option Int) : op.apply x none = none := by
  cases x <;> rfl

@[simp] theorem none_apply (op : BinaryOp) (x : Option Int) : op.apply none x = none := rfl

theorem add_apply_assoc (x y z : Option Int) :
    add.apply (add.apply x y) z = add.apply x (add.apply y z) := by
  cases x <;> cases y <;> cases z <;> simp [apply, compute, Int.add_assoc]

theorem mul_apply_assoc (x y z : Option Int) :
    mul.apply (mul.apply x y) z = mul.apply x (mul.apply y z) := by
  cases x <;> cases y <;> cases z <;> simp [apply, compute, Int.mul_assoc]

theorem sub_apply_assoc (x y z : Option Int) :
    sub.apply (add.apply x y) z = add.apply x (sub.apply y z) := by
  cases x <;> cases y <;> cases z <;> simp [apply, compute, Int.add_sub_assoc]

end BinaryOp

namespace Expr

/-- What a reading of the text of `e` comes to, by itself, behind a sum and behind a product. -/
structure ReadsAs (s : Scope) (e : Expr) (n : Nat) (x : Term) (f : Term → BinaryOp → Term) :
    Prop where
  alone : ∀ ρ, x.eval ρ = e.evalText s ρ
  sum : n = Reading.level .add → ∀ ρ y,
    (f y .add).eval ρ = BinaryOp.add.apply (y.eval ρ) (e.evalText s ρ)
  product : n = Reading.level .mul → ∀ ρ y, (f y .mul).eval ρ = e.evalBehind s ρ (y.eval ρ)

variable {s : Scope} {e l r : Expr}

theorem ReadsAs.closed {n : Nat} {x : Term} (alone : ∀ ρ, x.eval ρ = e.evalText s ρ)
    (behind : n = Reading.level .mul → ∀ ρ a,
      e.evalBehind s ρ a = BinaryOp.mul.apply a (e.evalText s ρ)) :
    ReadsAs s e n x x.closed where
  alone := alone
  sum _ ρ y := by simp [Term.closed, Term.eval, alone]
  product hn ρ y := by rw [behind hn, ← alone]; rfl

theorem IsArithmetic.signsInside (h : e.IsArithmetic s) (op : BinaryOp) : e.SignsInside op := by
  rintro u d rfl
  cases h with
  | column hc => simp [column?] at hc

theorem IsArithmetic.evalBehind_eq (h : e.IsArithmetic s)
    (hl : e.level ≠ Reading.level .mul) (ρ : String → Int) (a : Option Int) :
    e.evalBehind s ρ a = BinaryOp.mul.apply a (e.evalText s ρ) := by
  cases h with
  | column hc _ =>
    obtain ⟨p, name, rename, i, rfl, -, -⟩ := column?_eq_some hc
    simp [evalBehind]
  | number => simp [evalBehind]
  | @binary op l r hop _ _ => cases op <;> simp_all [evalBehind, level, Reading.level]

section Operands

variable {t : String} {x : Term} {f : Term → BinaryOp → Term} {op : BinaryOp}

theorem ReadsAs.operand (right : Bool) (he : e.IsArithmetic s) (reads : Reads e.level t x f)
    (h : e.ReadsAs s e.level x f) (assoc : right = true → op = .add ∨ op = .mul) :
    ∃ g, Reads (Reading.level op) (op.operandText right e t) x g ∧
      e.ReadsAs s (Reading.level op) x g := by
  rcases operandText_reads op right (he.signsInside op) reads with ⟨parens, reads⟩ | ⟨hl, -, reads⟩
  · refine ⟨_, reads, .closed h.alone fun hop ρ a => he.evalBehind_eq ?_ ρ a⟩
    intro hl
    have := (needsParens_iff (he.signsInside op)).1 (parens (hl.trans hop.symm))
    rcases this with lt | ⟨hr, -, bad⟩
    · omega
    · rcases assoc hr with rfl | rfl <;> simp at bad
  · exact ⟨f, reads, hl ▸ h⟩

theorem rightOperand_reads (he : e.IsArithmetic s) (reads : Reads e.level t x f)
    (hop : op = .sub ∨ op = .div ∨ op = .rem) :
    Reads (Reading.level op) (op.operandText true e t) x x.closed := by
  rcases operandText_reads op true (he.signsInside op) reads with ⟨-, reads⟩ | ⟨hl, open', -⟩
  · exact reads
  · have := (needsParens_iff (he.signsInside op)).2 (.inr ⟨rfl, hl, hop⟩)
    simp [this] at open'

end Operands

theorem ReadsAs.binary {op : BinaryOp} {x y : Term} {f g : Term → BinaryOp → Term}
    (hop : op = .add ∨ op = .mul) (hl : l.ReadsAs s (Reading.level op) x f)
    (hr : r.ReadsAs s (Reading.level op) y g) :
    (Expr.binary op l r).ReadsAs s (Reading.level op) (g x op) (fun z o => g (f z o) op) := by
  rcases hop with rfl | rfl
  · exact {
      alone := fun ρ => by simp [hr.sum rfl, hl.alone, evalBehind]
      sum := fun _ ρ z => by simp [hr.sum rfl, hl.sum rfl, evalBehind, BinaryOp.add_apply_assoc]
      product := fun h => absurd h (by decide) }
  · exact {
      alone := fun ρ => by simp [hr.product rfl, hl.alone, evalBehind]
      sum := fun h => absurd h (by decide)
      product := fun _ ρ z => by simp [hr.product rfl, hl.product rfl, evalBehind] }

theorem ReadsAs.binary_closed {op : BinaryOp} {x y : Term} {f : Term → BinaryOp → Term}
    (hop : op = .sub ∨ op = .div ∨ op = .rem) (hl : l.ReadsAs s (Reading.level op) x f)
    (hr : ∀ ρ, y.eval ρ = r.evalText s ρ) :
    (Expr.binary op l r).ReadsAs s (Reading.level op) (y.closed x op)
      (fun z o => y.closed (f z o) op) := by
  rcases hop with rfl | rfl | rfl
  · exact {
      alone := fun ρ => by simp [Term.closed, Term.eval, hr, hl.alone, evalBehind]
      sum := fun _ ρ z => by
        simp [Term.closed, Term.eval, hr, hl.sum rfl, evalBehind, BinaryOp.sub_apply_assoc]
      product := fun h => absurd h (by decide) }
  all_goals exact {
    alone := fun ρ => by simp [Term.closed, Term.eval, hr, hl.alone, evalBehind]
    sum := fun h => absurd h (by decide)
    product := fun _ ρ z => by simp [Term.closed, Term.eval, hr, hl.product rfl, evalBehind] }

theorem IsArithmetic.reads (key : KeyText) (h : e.IsArithmetic s) :
    ∃ t x f, e.compile key s = .ok t ∧ Reads e.level t x f ∧ e.ReadsAs s e.level x f := by
  induction h with
  | @column e c hc name =>
    obtain ⟨p, m, rename, i, rfl, hp, rfl⟩ := column?_eq_some hc
    refine ⟨_, _, _, compile_column key hc, .word name.ne name.letters name.free, .closed ?_ ?_⟩
    · intro ρ
      simp [Term.eval, numeral?_name name, evalBehind, eval, hc]
    · intro _ ρ a
      simp [evalBehind]
  | @number n hn =>
    obtain ⟨cs, reads, value⟩ := reads_number hn
    refine ⟨_, _, _, rfl, reads, .closed ?_ ?_⟩
    · intro ρ
      simp [Term.eval, value, evalBehind, eval]
    · intro _ ρ a
      simp [evalBehind]
  | @binary op l r hop hl hr ihl ihr =>
    obtain ⟨tl, x, f, textL, readsL, meansL⟩ := ihl
    obtain ⟨tr, y, g, textR, readsR, meansR⟩ := ihr
    have test : op.nullTest? l r = none := by
      cases op <;> simp [BinaryOp.isArithmetic, BinaryOp.nullTest?] at hop ⊢
    have index : op ≠ .index := by rintro rfl; simp [BinaryOp.isArithmetic] at hop
    have text := compile_binary test index textL textR
    obtain ⟨f', readsL', meansL'⟩ := meansL.operand false hl readsL (by simp)
    -- a right side of the same level goes on with the chain, and is taken apart by the reader
    by_cases assoc : op = .add ∨ op = .mul
    · obtain ⟨g', readsR', meansR'⟩ := meansR.operand true hr readsR fun _ => assoc
      exact ⟨_, _, _, text, readsL'.binary index readsR', .binary assoc meansL' meansR'⟩
    · have hop' : op = .sub ∨ op = .div ∨ op = .rem := by
        cases op <;> simp_all [BinaryOp.isArithmetic]
      have readsR' := rightOperand_reads hr readsR hop'
      exact ⟨_, _, _, text, readsL'.binary index readsR', .binary_closed hop' meansL' meansR.alone⟩

end Expr
end StreamSql
