import StreamSql.Proofs.Expr.Fold
import StreamSql.Proofs.Expr.Widen
import StreamSql.Proofs.Query.Clauses

namespace StreamSql

inductive KeyExpr
  | key
  | constant (v : Value)
  | aggregate (f : AggregateFn) (args : List Expr)
  | binary (op : BinaryOp) (left right : KeyExpr)
  | unary (op : UnaryOp) (operand : KeyExpr)

namespace KeyExpr

/-- The expression over the key of the group `g`, where `k` stands for the key. -/
def fill (g : String) (k : Expr) : KeyExpr → Expr
  | key => k
  | constant v => .constant v
  | aggregate f args => .call (some (.parameter g)) (.aggregate f) args
  | binary op l r => .binary op (l.fill g k) (r.fill g k)
  | unary op e => .unary op (e.fill g k)

def value? (c : Option Value) : KeyExpr → Option Value
  | key => c
  | constant v => some v
  | binary .index l r => (l.value? c).bind fun b => (r.value? c).bind fun i => b.at? i
  | _ => none

/-- The arguments of the aggregates are about the rows of the group and nothing else. -/
def OverRows (s : Scope) : KeyExpr → Prop
  | aggregate _ args =>
    ∃ ts, Part.boundTexts [.source 0] s ((args.map Expr.fold).map (Expr.part noKey)) = .ok ts
  | binary _ l r => l.OverRows s ∧ r.OverRows s
  | unary _ e => e.OverRows s
  | _ => True

theorem value?_fill (g : String) (k : Expr) (T : KeyExpr) :
    (T.fill g k).value? = T.value? k.value? := by
  induction T with
  | binary op l r ihl ihr => cases op <;> simp [fill, Expr.value?, value?, ihl, ihr]
  | _ => rfl

end KeyExpr

namespace Expr

def isOperator : Expr → Bool
  | binary _ _ _ => true
  | unary _ _ => true
  | _ => false

structure SameHead (e e' : Expr) : Prop where
  operand (op : BinaryOp) (right : Bool) : op.needsParens right e = op.needsParens right e'
  unary (op : UnaryOp) (a b : String) : (e.isOperator = false → a = b) →
    op.needsParens e a = op.needsParens e' b
  or : e.isOr = e'.isOr

theorem SameHead.of_not_isOperator {e e' : Expr} (h : e.isOperator = false)
    (h' : e'.isOperator = false) : e.SameHead e' := by
  cases e <;> cases h <;> cases e' <;> cases h' <;>
    exact ⟨fun op right => rfl, fun op a b same => by rw [same rfl]; rfl, rfl⟩

theorem SameHead.binary (op : BinaryOp) (l r l' r' : Expr) :
    (Expr.binary op l r).SameHead (.binary op l' r') where
  operand _ _ := rfl
  unary _ _ _ _ := rfl
  or := by cases op <;> rfl

theorem SameHead.negation (op : UnaryOp) (e e' : Expr) :
    (Expr.unary op e).SameHead (.unary op e') :=
  ⟨fun _ _ => rfl, fun _ _ _ _ => rfl, rfl⟩

theorem isNull_fold (e : Expr) : e.fold.isNull = true ↔ e.value? = some .null := by
  constructor
  · intro null
    rw [← value?_fold]
    cases h : e.fold with
    | constant v =>
      cases v with
      | null => rfl
      | _ => simp [h, isNull] at null
    | _ => simp [h, isNull] at null
  · intro h
    simp [fold_of_value? h, isNull]

variable {key : KeyText} {s : Scope} {op : BinaryOp} {l r : Expr}

theorem compile_join (h : op.nullTest? l r = none) :
    (binary op l r).compile key s = (do
      let a ← l.compile key s
      let b ← r.compile key s
      .ok (op.joinText l r a b)) := by
  simp only [compile, h]

theorem compile_null_right (hop : op = .eq ∨ op = .ne) (l : Expr) :
    (binary op l null).compile key s = (do
      let a ← l.compile key s
      .ok (op.nullText (op.operandText false l a))) := by
  rcases hop with rfl | rfl <;> rfl

theorem compile_null_left (hop : op = .eq ∨ op = .ne) (r : Expr) :
    (binary op null r).compile key s = (do
      let b ← r.compile key s
      .ok (op.nullText (op.operandText false r b))) := by
  cases hr : r.isNull with
  | true =>
    have : r = null := by
      cases r with
      | constant v =>
        cases v with
        | null => rfl
        | _ => cases hr
      | _ => cases hr
    rw [this, compile_null_right hop]
  | false =>
    have left : null.isNull = true := rfl
    have test : op.nullTest? null r = some true := by
      rcases hop with rfl | rfl <;> simp [BinaryOp.nullTest?, hr, left]
    simp [compile, test]

end Expr

namespace KeyExpr

def member (g : String) (rename : Option String) : Expr := .member (.parameter g) "Key" rename

@[simp] theorem value?_member (g : String) (rename : Option String) :
    (member g rename).value? = none := rfl

@[simp] theorem fold_member (g : String) (rename : Option String) :
    (member g rename).fold = member g rename := rfl

@[simp] theorem isOr_member (g : String) (rename : Option String) :
    (member g rename).isOr = false := rfl

variable {T : KeyExpr} {k k' : Expr} {c c' : Option Value}

theorem isNull_fill (g : String) (hk : k.value? = c) (T : KeyExpr) :
    (T.fill g k).fold.isNull = true ↔ T.value? c = some .null := by
  rw [Expr.isNull_fold, value?_fill, hk]

theorem not_isNull_fill (g : String) (hk : k.value? = c) (h : T.value? c ≠ some .null) :
    (T.fill g k).fold.isNull = false := by
  rwa [← Bool.not_eq_true, isNull_fill g hk T]

theorem fold_fill_of_value? (g : String) (hk : k.value? = c) {v : Value}
    (h : T.value? c = some v) : (T.fill g k).fold = .constant v :=
  Expr.fold_of_value? (by rw [value?_fill, hk, h])

theorem fold_fill_binary (g : String) (hk : k.value? = c) {op : BinaryOp} {l r : KeyExpr}
    (h : (binary op l r).value? c = none) :
    ((binary op l r).fill g k).fold = .binary op (l.fill g k).fold (r.fill g k).fold := by
  rw [← hk, ← value?_fill g] at h
  exact Expr.constantOr_of_value?_eq_none h

theorem sameHead_fill (g g' : String) (hk : k.value? = c) (hk' : k'.value? = c') (h : T ≠ key)
    (same : T.value? c = T.value? c') : (T.fill g k).fold.SameHead (T.fill g' k').fold := by
  cases T with
  | key => exact absurd rfl h
  | constant v => exact .of_not_isOperator rfl rfl
  | aggregate f args => exact .of_not_isOperator rfl rfl
  | unary op e => exact .negation op _ _
  | binary op l r =>
    cases value : (binary op l r).value? c with
    | some v =>
      rw [fold_fill_of_value? g hk value, fold_fill_of_value? g' hk' (same ▸ value)]
      exact .of_not_isOperator rfl rfl
    | none =>
      rw [fold_fill_binary g hk value, fold_fill_binary g' hk' (same ▸ value)]
      exact .binary op _ _ _ _

theorem compile_aggregate_congr {g g' : String} {key key' : KeyText} {base s s' : Scope}
    {f : AggregateFn} {args : List Expr} (within : base.Within s) (within' : base.Within s')
    (group : s.lookup? g = some (.grouping 0)) (group' : s'.lookup? g' = some (.grouping 0))
    (rows : (aggregate f args).OverRows base) :
    ((aggregate f args).fill g k).fold.compile key s =
      ((aggregate f args).fill g' k').fold.compile key' s' := by
  obtain ⟨ts, hts⟩ := rows
  have args_le (key : KeyText) : ∀ e ∈ args.map Expr.fold, Part.Le (e.part noKey) (e.part key) :=
    fun e _ => e.part_le (noKey_le key)
  have shown : ∀ b ∈ [Binding.source 0], b.Shown fun _ => True := fun b _ => b.shown_all
  have texts := Part.boundTexts_le (args_le key) within.on shown ts hts
  have texts' := Part.boundTexts_le (args_le key') within'.on shown ts hts
  simp only [fill, Expr.fold, Expr.foldTarget, Expr.foldItems_eq_map, Expr.compile, Expr.targetPart,
    Expr.parts_eq_map, Method.text, AggregateFn.text, AggregateFn.element, group, group']
  simp only [texts, texts', Compiled.ok_bind]

end KeyExpr

/-- The second text has more characters of some kind, but where `same` holds there is one text. -/
structure Grows (p : Char → Bool) (same : Prop) (t u : String) : Prop where
  eq : same → t = u
  lt : ¬ same → t.toList.countP p < u.toList.countP p

namespace Grows

variable {p : Char → Bool} {same same' : Prop} {t t' u u' : String}

theorem refl (h : same) (t : String) : Grows p same t t where
  eq _ := rfl
  lt bad := absurd h bad

theorem eq_iff (h : Grows p same t u) : t = u ↔ same := by
  constructor
  · intro eq
    apply Classical.byContradiction
    intro bad
    exact Nat.lt_irrefl _ (eq ▸ h.lt bad)
  · exact h.eq

theorem le (h : Grows p same t u) : t.toList.countP p ≤ u.toList.countP p := by
  by_cases hs : same
  · exact h.eq hs ▸ Nat.le_refl _
  · exact Nat.le_of_lt (h.lt hs)

theorem congr (h : Grows p same t u) (iff : same ↔ same') : Grows p same' t u where
  eq hs := h.eq (iff.2 hs)
  lt bad := h.lt (mt iff.1 bad)

theorem append (h : Grows p same t u) (h' : Grows p same' t' u') :
    Grows p (same ∧ same') (t ++ t') (u ++ u') where
  eq both := by rw [h.eq both.1, h'.eq both.2]
  lt bad := by
    have := h.le
    have := h'.le
    simp only [String.toList_append, List.countP_append]
    by_cases hs : same
    · have := h'.lt fun hs' => bad ⟨hs, hs'⟩
      omega
    · have := h.lt hs
      omega

theorem appendRight (h : Grows p same t u) (v : String) : Grows p same (t ++ v) (u ++ v) :=
  (h.append (refl trivial v)).congr (by simp)

theorem appendLeft (h : Grows p same t u) (v : String) : Grows p same (v ++ t) (v ++ u) :=
  ((refl trivial v).append h).congr (by simp)

theorem parens (h : Grows p same t u) : Grows p same (parens t) (parens u) :=
  (h.appendLeft "(").appendRight ")"

theorem wrap (h : Grows p same t u) (hp : p '(' = true) {a b : Bool} (le : a = true → b = true) :
    Grows p (same ∧ a = b) (if a then StreamSql.parens t else t)
      (if b then StreamSql.parens u else u) := by
  cases a with
  | true =>
    rw [le rfl]
    exact h.parens.congr (by simp)
  | false =>
    cases b with
    | false => exact h.congr (by simp)
    | true =>
      refine ⟨by simp, fun _ => ?_⟩
      have := h.le
      simp [StreamSql.parens, List.countP_append, List.countP_cons, hp]
      omega

theorem wrapSame (h : Grows p same t u) (left : p '(' = false) (right : p ')' = false) {a b : Bool}
    (eq : same → a = b) :
    Grows p same (if a then StreamSql.parens t else t) (if b then StreamSql.parens u else u) where
  eq hs := by rw [h.eq hs, eq hs]
  lt bad := by
    have := h.lt bad
    cases a <;> cases b <;>
      simpa [StreamSql.parens, List.countP_append, List.countP_cons, left, right] using this

end Grows

inductive Compiled.Both (R : String → String → Prop) : Compiled → Compiled → Prop
  | ok {t u : String} : R t u → Both R (.ok t) (.ok u)
  | error (e : Error) : Both R (.error e) (.error e)

theorem Compiled.Both.exists_of_ok {R : String → String → Prop} {x : Compiled} {u : String}
    (h : Both R x (.ok u)) : ∃ t, x = .ok t ∧ R t u := by
  cases h with
  | ok related => exact ⟨_, rfl, related⟩

theorem Compiled.Both.imp {R S : String → String → Prop} {x y : Compiled} (h : Both R x y)
    (k : ∀ t u, R t u → S t u) : Both S x y := by
  cases h with
  | ok related => exact .ok (k _ _ related)
  | error e => exact .error e

theorem Compiled.Both.swap {R : String → String → Prop} {x y : Compiled} (h : Both R x y) :
    Both (fun t u => R u t) y x := by
  cases h with
  | ok related => exact .ok related
  | error e => exact .error e

theorem Compiled.Both.bind {R S : String → String → Prop} {x y : Compiled} {f g : String → Compiled}
    (h : Both R x y) (k : ∀ t u, R t u → Both S (f t) (g u)) : Both S (x >>= f) (y >>= g) := by
  cases h with
  | ok related => exact k _ _ related
  | error e => exact .error e

end StreamSql
