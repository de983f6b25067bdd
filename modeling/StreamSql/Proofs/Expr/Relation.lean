import StreamSql.Proofs.Expr.Induction
import StreamSql.Proofs.Reading.Chain

namespace StreamSql

open Reading

namespace Expr

inductive IsRelation (s : Scope) : Expr → Prop
  | column {e : Expr} {c : String} : e.column? s = some c → IsName c → IsRelation s e
  | number {n : Int64} : 0 ≤ n.toInt → IsRelation s (.constant (.int n))
  | unary {op : UnaryOp} {e : Expr} : IsRelation s e → IsRelation s (.unary op e)
  | index {b i : Expr} : IsRelation s b → IsRelation s i → IsRelation s (.binary .index b i)
  | compare {op : BinaryOp} {l r : Expr} : op.isComparison = true → IsRelation s l →
    IsRelation s r → IsRelation s (.binary op l r)

def tree (s : Scope) : Expr → Term
  | .constant (.int n) => .leaf (.word (toString n.toInt).toList)
  | .unary op e => .unary op (e.tree s)
  | .binary op l r => .binary op (l.tree s) (r.tree s)
  | e => .leaf (.word ((e.column? s).getD "").toList)

def isSigned : Expr → Bool
  | .unary _ _ => true
  | _ => false

def isNegation : Expr → Bool
  | .unary .not _ => true
  | _ => false

def isInfix : Expr → Bool
  | .binary op _ _ => op ≠ .index
  | _ => false

/-- No operand lacks parentheses: a subscript has no sign before its base, a comparison has no `NOT` on
either side, and no comparison on its right one. -/
def isWellBracketed : Expr → Bool
  | .unary _ e => e.isWellBracketed
  | .binary op l r => l.isWellBracketed && r.isWellBracketed &&
    if op = .index then !l.isSigned else !l.isNegation && !r.isNegation && !r.isInfix
  | _ => true

def chain? (s : Scope) : Expr → Option Chain
  | .unary .not e => (e.chain? s).map fun c => (c.encloseIf e.isInfix).not
  | .unary .negate e => (e.chain? s).bind fun c => (c.encloseIf (e.isInfix || e.isSigned)).negate?
  | .binary .index b i =>
    (b.chain? s).bind fun c => (i.chain? s).map fun d => (c.encloseIf b.isInfix).index d.term
  | .binary op l r => (l.chain? s).bind fun c => (r.chain? s).bind (c.compare? op)
  | e => some (.single (e.tree s))

variable {s : Scope} {e l r : Expr} {key : KeyText}

theorem chain?_binary {op : BinaryOp} (index : op ≠ .index) (l r : Expr) :
    (Expr.binary op l r).chain? s = (l.chain? s).bind fun c => (r.chain? s).bind (c.compare? op) := by
  cases op <;> first | rfl | exact absurd rfl index

theorem chain?_column {c : String} (h : e.column? s = some c) :
    e.tree s = .leaf (.word c.toList) ∧ e.chain? s = some (.single (.leaf (.word c.toList))) := by
  obtain ⟨p, name, rename, i, rfl, hp, rfl⟩ := column?_eq_some h
  simp [tree, chain?, h]

theorem rest_encloseIf {c : Chain} {wrap : Bool} (h : wrap = false → c.rest = []) :
    (c.encloseIf wrap).rest = [] := by
  cases wrap with
  | true => rfl
  | false => exact h rfl

theorem rest_chain? {c : Chain} (found : e.chain? s = some c) : c.rest = [] ↔ e.isInfix = false := by
  induction e using ind generalizing c with
  | unary op e ih =>
    refine iff_of_true ?_ rfl
    cases op with
    | not =>
      obtain ⟨d, below, rfl⟩ := Option.map_eq_some_iff.1 found
      exact rest_encloseIf (ih below).2
    | negate =>
      obtain ⟨d, below, done⟩ := Option.bind_eq_some_iff.1 found
      obtain ⟨-, rfl⟩ := Chain.negate?_eq_some_iff.1 done
      exact rest_encloseIf fun bare => (ih below).2 (Bool.or_eq_false_iff.1 bare).1
  | binary op l r ihl ihr =>
    by_cases index : op = .index
    · subst index
      obtain ⟨d, base, below⟩ := Option.bind_eq_some_iff.1 found
      obtain ⟨i, -, rfl⟩ := Option.map_eq_some_iff.1 below
      exact iff_of_true (rest_encloseIf (ihl base).2) rfl
    · rw [chain?_binary index] at found
      obtain ⟨d, -, below⟩ := Option.bind_eq_some_iff.1 found
      obtain ⟨d', -, done⟩ := Option.bind_eq_some_iff.1 below
      obtain ⟨-, rfl⟩ := Chain.compare?_eq_some_iff.1 done
      exact iff_of_false (by simp) (by simp [isInfix, index])
  | _ =>
    obtain rfl := Option.some.inj found
    exact iff_of_true rfl rfl

theorem rest_enclosed {c : Chain} (found : e.chain? s = some c) :
    (c.encloseIf e.isInfix).rest = [] :=
  rest_encloseIf (rest_chain? found).2

theorem rest_negated {c : Chain} (found : e.chain? s = some c) :
    (c.encloseIf (e.isInfix || e.isSigned)).rest = [] :=
  rest_encloseIf fun bare => (rest_chain? found).2 (Bool.or_eq_false_iff.1 bare).1

theorem IsRelation.isNull_eq (h : e.IsRelation s) : e.isNull = false := by
  cases h with
  | column hc =>
    obtain ⟨p, name, rename, i, rfl, -, -⟩ := column?_eq_some hc
    rfl
  | _ => rfl

theorem IsRelation.operandText_compare {op : BinaryOp} (h : e.IsRelation s)
    (hop : op.isComparison = true) (right : Bool) (t : String) : op.operandText right e t = t := by
  have same : op.precedence = 3 := by cases op <;> first | rfl | cases hop
  have other : (op = .sub || op = .div || op = .rem) = false := by
    cases op <;> first | rfl | cases hop
  have bare : op.needsParens right e = false := by
    cases h with
    | column hc =>
      obtain ⟨p, name, rename, i, rfl, -, -⟩ := column?_eq_some hc
      rfl
    | @compare inner l r hin =>
      have tight : inner.precedence = 3 := by cases inner <;> first | rfl | cases hin
      simp only [BinaryOp.needsParens, same, tight, other]
      simp
    | index =>
      simp only [BinaryOp.needsParens, same, other]
      simp [BinaryOp.precedence]
    | _ => rfl
  simp [BinaryOp.operandText, bare]

theorem IsRelation.operandText_index (h : e.IsRelation s) (t : String) :
    BinaryOp.index.operandText false e t = if e.isInfix then parens t else t := by
  have wrap : BinaryOp.index.needsParens false e = e.isInfix := by
    cases h with
    | column hc =>
      obtain ⟨p, name, rename, i, rfl, -, -⟩ := column?_eq_some hc
      rfl
    | @compare op => cases op <;> rfl
    | _ => rfl
  rw [BinaryOp.operandText, wrap]

theorem IsRelation.needsParens_not (h : e.IsRelation s) (t : String) :
    UnaryOp.not.needsParens e t = e.isInfix := by
  cases h with
  | column hc =>
    obtain ⟨p, name, rename, i, rfl, -, -⟩ := column?_eq_some hc
    rfl
  | _ => rfl

theorem not_minus_of_letters {t : String} (letters : ∀ c ∈ t.toList, CharClass.of c = .letter) :
    t.toList.head? ≠ some '-' := by
  intro minus
  have operator : CharClass.of '-' = .operator := by decide
  cases (letters '-' (List.mem_of_mem_head? minus)).symm.trans operator

theorem IsRelation.needsParens_negate (h : e.IsRelation s) {t : String}
    (text : e.compile key s = .ok t) :
    UnaryOp.negate.needsParens e t = (e.isInfix || e.isSigned) := by
  cases h with
  | @column e c hc name =>
    obtain rfl : c = t := Except.ok.inj ((compile_column key hc).symm.trans text)
    obtain ⟨p, name', rename, i, rfl, -, -⟩ := column?_eq_some hc
    simp [UnaryOp.needsParens, isInfix, isSigned, not_minus_of_letters name.letters]
  | @number n nonneg =>
    obtain rfl : toString n.toInt = t := Except.ok.inj text
    obtain ⟨-, letters, -⟩ := letters_number nonneg
    have bare := not_minus_of_letters letters
    simp only [UnaryOp.needsParens, isInfix, isSigned, bare]
    rfl
  | unary => rfl
  | index => rfl
  | @compare op => cases op <;> rfl

theorem IsRelation.shows (key : KeyText) (h : e.IsRelation s) :
    ∃ t, e.compile key s = .ok t ∧ Shows t (e.chain? s) := by
  induction h with
  | @column e c hc name =>
    refine ⟨c, compile_column key hc, ?_⟩
    rw [(chain?_column hc).2]
    exact .word name.ne name.letters name.free
  | @number n nonneg =>
    obtain ⟨ne, letters, free⟩ := letters_number nonneg
    exact ⟨toString n.toInt, rfl, .word ne letters free⟩
  | @unary op e he ih =>
    obtain ⟨t, text, shows⟩ := ih
    refine ⟨op.text e t, by rw [compile, text]; rfl, ?_⟩
    cases op with
    | not =>
      have wrapped := (shows.encloseIf e.isInfix).not
      rw [Option.map_map] at wrapped
      simp only [UnaryOp.text, he.needsParens_not]
      exact wrapped
    | negate =>
      have wrapped := (shows.encloseIf (e.isInfix || e.isSigned)).negate
      rw [Option.bind_map] at wrapped
      simp only [UnaryOp.text, he.needsParens_negate text]
      exact wrapped
  | @index b i hb hi ihb ihi =>
    obtain ⟨tb, textB, showsB⟩ := ihb
    obtain ⟨ti, textI, showsI⟩ := ihi
    have base := showsB.encloseIf b.isInfix
    refine ⟨_, by rw [compile, BinaryOp.nullTest?, textB, textI]; rfl, ?_⟩
    have alone : ∀ c, (b.chain? s).map (·.encloseIf b.isInfix) = some c → c.rest = [] := by
      intro c found
      obtain ⟨d, below, rfl⟩ := Option.map_eq_some_iff.1 found
      exact rest_enclosed below
    have reads := base.index showsI alone
    rw [Option.bind_map] at reads
    simp only [BinaryOp.joinText, hb.operandText_index, if_true]
    exact reads
  | @compare op l r hop hl hr ihl ihr =>
    obtain ⟨tl, textL, showsL⟩ := ihl
    obtain ⟨tr, textR, showsR⟩ := ihr
    have index : op ≠ .index := by
      rintro rfl
      cases hop
    have test : op.nullTest? l r = none := nullTest?_eq_none fun _ => ⟨hl.isNull_eq, hr.isNull_eq⟩
    have text := compile_binary test index textL textR
    rw [hl.operandText_compare hop, hr.operandText_compare hop] at text
    refine ⟨_, text, ?_⟩
    rw [chain?_binary index]
    exact showsL.compare hop showsR

theorem IsRelation.read_eq (key : KeyText) (h : e.IsRelation s) :
    ∃ t, e.compile key s = .ok t ∧ read t = (e.chain? s).map Chain.term := by
  obtain ⟨t, text, shows⟩ := h.shows key
  exact ⟨t, text, shows.read_eq⟩

end Expr

namespace Reading

def Term.size : Term → Nat
  | .unary _ x => x.size + 1
  | .binary _ x y => x.size + y.size + 1
  | _ => 1

theorem Term.size_negated (x : Term) (n : Nat) : (x.negated n).size = x.size + n := by
  induction n with
  | zero => rfl
  | succ n ih =>
    simp only [negated, size, ih]
    omega

theorem Term.compared_append (x : Term) (ds es : List (BinaryOp × Term)) :
    x.compared (ds ++ es) = (x.compared ds).compared es := List.foldl_append

theorem Term.size_compared (x y : Term) (ds : List (BinaryOp × Term)) :
    (x.compared ds).size + y.size = (y.compared ds).size + x.size := by
  induction ds generalizing x y with
  | nil => exact Nat.add_comm _ _
  | cons d ds ih =>
    have := ih (.binary d.1 x d.2) (.binary d.1 y d.2)
    simp only [size] at this
    simp only [compared, List.foldl_cons] at this ⊢
    omega

namespace Chain

variable {c d e : Chain} {op : BinaryOp}

theorem term_encloseIf (c : Chain) (wrap : Bool) : (c.encloseIf wrap).term = c.term := by
  cases wrap <;> rfl

theorem term_not (c : Chain) : c.not.term = .unary .not c.term := rfl

theorem term_of_bare (nots : c.nots = 0) (rest : c.rest = []) : c.term = c.head := by
  rw [term, nots, rest]
  rfl

theorem term_negate? (done : c.negate? = some d) (rest : c.rest = []) :
    d.term = .unary .negate c.term := by
  obtain ⟨bare, rfl⟩ := negate?_eq_some_iff.1 done
  have whole : c.term = c.first := by
    rw [term_of_bare bare.1 rest, head, bare.2]
    rfl
  rw [whole]
  exact term_of_bare bare.1 rest

theorem size_index (c : Chain) (i : Term) : (c.index i).term.size = c.term.size + i.size + 1 := by
  have head : (c.index i).head.size = c.head.size + i.size + 1 := by
    obtain ⟨n, minus, x, ds⟩ := c
    cases minus with
    | false => rfl
    | true =>
      simp only [Chain.head, index, if_true, Term.size]
      omega
  have := Term.size_compared (c.index i).head c.head c.rest
  simp only [term, Term.size_negated]
  have same : (c.index i).rest = c.rest := rfl
  have same' : (c.index i).nots = c.nots := rfl
  rw [same, same']
  omega

theorem size_compare? (done : c.compare? op d = some e) : e.term.size = c.term.size + d.term.size + 1 := by
  obtain ⟨nots, rfl⟩ := compare?_eq_some_iff.1 done
  have head : Chain.head { c with rest := c.rest ++ (op, d.head) :: d.rest } = c.head := rfl
  have split := Term.size_compared (.binary op (c.head.compared c.rest) d.head) d.head d.rest
  simp only [term, Term.size_negated, nots, head, Term.compared_append]
  simp only [Term.compared, List.foldl_cons, Term.size] at split ⊢
  omega

theorem term_index (rest : c.rest = []) {b i j : Term} :
    (c.index i).term = .binary .index b j ↔
      c.nots = 0 ∧ c.minus = false ∧ c.term = b ∧ i = j := by
  obtain ⟨n, minus, x, ds⟩ := c
  obtain rfl : ds = [] := rest
  cases n with
  | zero =>
    cases minus with
    | false =>
      constructor
      · intro same
        cases same
        exact ⟨rfl, rfl, rfl, rfl⟩
      · rintro ⟨-, -, hb, hi⟩
        rw [← hb, ← hi]
        rfl
    | true => exact iff_of_false (fun same => by cases same) fun h => by cases h.2.1
  | succ n => exact iff_of_false (fun same => by cases same) fun h => by cases h.1

theorem term_compare? (done : c.compare? op d = some e) {x y : Term} (size : d.term.size = y.size) :
    e.term = .binary op x y ↔ c.nots = 0 ∧ d.rest = [] ∧ c.term = x ∧ d.term = y := by
  obtain ⟨bare, rfl⟩ := compare?_eq_some_iff.1 done
  obtain ⟨n, minus, z, ds⟩ := c
  cases n with
  | succ n => exact iff_of_false (fun same => by cases same) fun h => by cases h.1
  | zero =>
    have whole : term ⟨0, minus, z, ds ++ (op, d.head) :: d.rest⟩ =
        (Term.binary op (term ⟨0, minus, z, ds⟩) d.head).compared d.rest :=
      Term.compared_append _ _ _
    simp only [whole]
    rcases List.eq_nil_or_concat d.rest with rest | ⟨es, ⟨o, last⟩, rest⟩
    · rw [term_of_bare bare rest, rest]
      simp [Term.compared]
    · refine iff_of_false (fun same => ?_) fun h => by simp [h.2.1] at rest
      have right : d.term = .binary o (d.head.compared es) last := by
        rw [term, bare, rest, List.concat_eq_append, Term.compared_append]
        rfl
      rw [rest, List.concat_eq_append, Term.compared_append] at same
      obtain ⟨-, -, lastly⟩ := Term.binary.inj same
      rw [right, Term.size, ← lastly] at size
      simp only at size
      omega

end Chain
end Reading

namespace Expr

variable {s : Scope} {e l r : Expr}

theorem size_chain? {c : Chain} (found : e.chain? s = some c) : c.term.size = (e.tree s).size := by
  induction e using ind generalizing c with
  | unary op e ih =>
    cases op with
    | not =>
      obtain ⟨d, below, rfl⟩ := Option.map_eq_some_iff.1 found
      rw [Chain.term_not, Chain.term_encloseIf, Term.size, ih below]
      rfl
    | negate =>
      obtain ⟨d, below, done⟩ := Option.bind_eq_some_iff.1 found
      rw [Chain.term_negate? done (rest_negated below), Chain.term_encloseIf, Term.size, ih below]
      rfl
  | binary op l r ihl ihr =>
    by_cases index : op = .index
    · subst index
      obtain ⟨d, base, below⟩ := Option.bind_eq_some_iff.1 found
      obtain ⟨i, subscript, rfl⟩ := Option.map_eq_some_iff.1 below
      rw [Chain.size_index, Chain.term_encloseIf, ihl base, ihr subscript]
      rfl
    · rw [chain?_binary index] at found
      obtain ⟨d, left, below⟩ := Option.bind_eq_some_iff.1 found
      obtain ⟨d', right, done⟩ := Option.bind_eq_some_iff.1 below
      rw [Chain.size_compare? done, ihl left, ihr right]
      rfl
  | _ =>
    obtain rfl := Option.some.inj found
    rfl

theorem bare_chain? {c : Chain} (found : e.chain? s = some c) :
    (c.nots = 0 → e.isNegation = false) ∧ (c.nots = 0 → c.minus = false → e.isSigned = false) := by
  cases e with
  | unary op e =>
    cases op with
    | not =>
      obtain ⟨d, -, rfl⟩ := Option.map_eq_some_iff.1 found
      have nots : (d.encloseIf e.isInfix).not.nots ≠ 0 := Nat.succ_ne_zero _
      exact ⟨fun none => absurd none nots, fun none => absurd none nots⟩
    | negate =>
      obtain ⟨d, -, done⟩ := Option.bind_eq_some_iff.1 found
      obtain ⟨-, rfl⟩ := Chain.negate?_eq_some_iff.1 done
      exact ⟨fun _ => rfl, fun _ minus => by cases minus⟩
  | _ => exact ⟨fun _ => rfl, fun _ _ => rfl⟩

theorem IsRelation.isWellBracketed (h : e.IsRelation s) {c : Chain} (found : e.chain? s = some c)
    (same : c.term = e.tree s) : e.isWellBracketed = true := by
  induction h generalizing c with
  | column hc =>
    obtain ⟨p, name, rename, i, rfl, -, -⟩ := column?_eq_some hc
    rfl
  | number => rfl
  | @unary op e he ih =>
    cases op with
    | not =>
      obtain ⟨d, below, rfl⟩ := Option.map_eq_some_iff.1 found
      rw [Chain.term_not, Chain.term_encloseIf] at same
      exact ih below (Term.unary.inj same).2
    | negate =>
      obtain ⟨d, below, done⟩ := Option.bind_eq_some_iff.1 found
      rw [Chain.term_negate? done (rest_negated below), Chain.term_encloseIf] at same
      exact ih below (Term.unary.inj same).2
  | @index b i hb hi ihb ihi =>
    obtain ⟨d, base, below⟩ := Option.bind_eq_some_iff.1 found
    obtain ⟨j, subscript, rfl⟩ := Option.map_eq_some_iff.1 below
    obtain ⟨nots, minus, left, right⟩ := (Chain.term_index (rest_enclosed base)).1 same
    rw [Chain.term_encloseIf] at left
    have unsigned : b.isSigned = false := by
      cases infix? : b.isInfix with
      | false =>
        rw [infix?] at nots minus
        exact (bare_chain? base).2 nots minus
      | true =>
        cases b with
        | binary => rfl
        | _ => cases infix?
    simp [Expr.isWellBracketed, ihb base left, ihi subscript right, unsigned]
  | @compare op l r hop hl hr ihl ihr =>
    have index : op ≠ .index := by
      rintro rfl
      cases hop
    rw [chain?_binary index] at found
    obtain ⟨d, left, below⟩ := Option.bind_eq_some_iff.1 found
    obtain ⟨d', right, done⟩ := Option.bind_eq_some_iff.1 below
    obtain ⟨nots, rest, termL, termR⟩ := (Chain.term_compare? done (size_chain? right)).1 same
    have nots' : d'.nots = 0 := (Chain.compare?_eq_some_iff.1 done).1
    have notL := (bare_chain? left).1 nots
    have notR := (bare_chain? right).1 nots'
    have one := (rest_chain? right).1 rest
    simp [Expr.isWellBracketed, ihl left termL, ihr right termR, index, notL, notR, one]

theorem bare_encloseIf {c : Chain} {wrap : Bool} (h : wrap = false → c.nots = 0 ∧ c.minus = false) :
    (c.encloseIf wrap).nots = 0 ∧ (c.encloseIf wrap).minus = false := by
  cases wrap with
  | true => exact ⟨rfl, rfl⟩
  | false => exact h rfl

theorem isNegation_of_not_isSigned (h : e.isSigned = false) : e.isNegation = false := by
  cases e with
  | unary => cases h
  | _ => rfl

theorem IsRelation.exists_chain? (h : e.IsRelation s) (bracketed : e.isWellBracketed = true) :
    ∃ c, e.chain? s = some c ∧ c.term = e.tree s ∧ (e.isNegation = false → c.nots = 0) ∧
      (e.isSigned = false → e.isInfix = false → c.minus = false) := by
  induction h with
  | @column e c hc name =>
    obtain ⟨tree, chain⟩ := chain?_column hc
    exact ⟨_, chain, tree.symm, fun _ => rfl, fun _ _ => rfl⟩
  | number => exact ⟨_, rfl, rfl, fun _ => rfl, fun _ _ => rfl⟩
  | @unary op e he ih =>
    obtain ⟨d, below, same, nots, minus⟩ := ih bracketed
    cases op with
    | not =>
      refine ⟨_, congrArg (Option.map _) below, ?_, by simp [isNegation], by simp [isSigned]⟩
      rw [Chain.term_not, Chain.term_encloseIf, same]
      rfl
    | negate =>
      have bare : (d.encloseIf (e.isInfix || e.isSigned)).nots = 0 ∧
          (d.encloseIf (e.isInfix || e.isSigned)).minus = false := by
        refine bare_encloseIf fun open' => ?_
        obtain ⟨between, unsigned⟩ := Bool.or_eq_false_iff.1 open'
        exact ⟨nots (isNegation_of_not_isSigned unsigned), minus unsigned between⟩
      obtain ⟨c, done, nots'⟩ : ∃ c, (d.encloseIf (e.isInfix || e.isSigned)).negate? = some c ∧
          c.nots = 0 := ⟨_, Chain.negate?_eq_some_iff.2 ⟨bare, rfl⟩, bare.1⟩
      refine ⟨c, by rw [chain?, below]; exact done, ?_, fun _ => nots', fun h => by cases h⟩
      rw [Chain.term_negate? done (rest_negated below), Chain.term_encloseIf, same]
      rfl
  | @index b i hb hi ihb ihi =>
    simp only [Expr.isWellBracketed, if_true, Bool.and_eq_true, Bool.not_eq_true'] at bracketed
    obtain ⟨⟨bracketedB, bracketedI⟩, unsigned⟩ := bracketed
    obtain ⟨d, base, sameB, nots, minus⟩ := ihb bracketedB
    obtain ⟨j, subscript, sameI, -, -⟩ := ihi bracketedI
    have bare : (d.encloseIf b.isInfix).nots = 0 ∧ (d.encloseIf b.isInfix).minus = false :=
      bare_encloseIf fun open' => ⟨nots (isNegation_of_not_isSigned unsigned), minus unsigned open'⟩
    refine ⟨(d.encloseIf b.isInfix).index j.term, by rw [chain?, base, subscript]; rfl, ?_,
      fun _ => bare.1, fun _ _ => bare.2⟩
    exact (Chain.term_index (rest_enclosed base)).2
      ⟨bare.1, bare.2, (Chain.term_encloseIf d _).trans sameB, sameI⟩
  | @compare op l r hop hl hr ihl ihr =>
    have index : op ≠ .index := by
      rintro rfl
      cases hop
    simp only [Expr.isWellBracketed, index, if_false, Bool.and_eq_true, Bool.not_eq_true'] at bracketed
    obtain ⟨⟨bracketedL, bracketedR⟩, ⟨notL, notR⟩, one⟩ := bracketed
    obtain ⟨c, left, sameL, nots, -⟩ := ihl bracketedL
    obtain ⟨d, right, sameR, nots', -⟩ := ihr bracketedR
    obtain ⟨c', done, nots'⟩ : ∃ c', c.compare? op d = some c' ∧ c'.nots = 0 :=
      ⟨_, Chain.compare?_eq_some_iff.2 ⟨nots' notR, rfl⟩, nots notL⟩
    refine ⟨c', by rw [chain?_binary index, left, right]; exact done, ?_, fun _ => nots',
      fun _ between => ?_⟩
    · exact (Chain.term_compare? done (size_chain? right)).2
        ⟨nots notL, (rest_chain? right).2 one, sameL, sameR⟩
    · simp [isInfix, index] at between

/-- The text of an expression is read as the expression exactly if no operand lacks parentheses. -/
theorem IsRelation.read_iff (key : KeyText) (h : e.IsRelation s) :
    ∃ t, e.compile key s = .ok t ∧ (read t = some (e.tree s) ↔ e.isWellBracketed = true) := by
  obtain ⟨t, text, reads⟩ := h.read_eq key
  refine ⟨t, text, ?_⟩
  rw [reads, Option.map_eq_some_iff]
  constructor
  · rintro ⟨c, found, same⟩
    exact h.isWellBracketed found same
  · intro bracketed
    obtain ⟨c, found, same, -⟩ := h.exists_chain? bracketed
    exact ⟨c, found, same⟩

private abbrev flags : Scope := ⟨[⟨"FLAGS", none, none⟩], [("f", .source 0)], [], false, '.'⟩

private abbrev flag (name : String) : Expr := .member (.parameter "f") name none

private theorem isRelation_flag {name : String} (h : IsName name) : (flag name).IsRelation flags :=
  .column rfl h

private abbrev lesser : Expr :=
  .binary .eq (.binary .lt (.unary .negate (.binary .index (flag "A") (.constant (.int 0)))) (flag "B"))
    (flag "C")

theorem IsRelation.read_iff_lesser : lesser.IsRelation flags ∧
    ∃ t, lesser.compile noKey flags = .ok t ∧ read t = some (lesser.tree flags) := by
  have relation : lesser.IsRelation flags :=
    .compare rfl (.compare rfl (.unary (.index (isRelation_flag (by decide)) (.number (by decide))))
      (isRelation_flag (by decide))) (isRelation_flag (by decide))
  obtain ⟨t, text, reads⟩ := relation.read_iff noKey
  exact ⟨relation, t, text, reads.2 rfl⟩

theorem not_read_eq_tree :
    ¬ ∀ (s : Scope) (e : Expr), e.IsRelation s →
      ∃ t, e.compile noKey s = .ok t ∧ read t = some (e.tree s) := by
  intro claim
  have relation : (Expr.binary .eq (.unary .not (flag "A")) (flag "B")).IsRelation flags :=
    .compare rfl (.unary (isRelation_flag (by decide))) (isRelation_flag (by decide))
  obtain ⟨t, text, same⟩ := claim flags _ relation
  obtain ⟨t', text', reads⟩ := relation.read_eq noKey
  obtain rfl := Except.ok.inj (text.symm.trans text')
  cases Option.some.inj (same.symm.trans reads)

end Expr
end StreamSql
