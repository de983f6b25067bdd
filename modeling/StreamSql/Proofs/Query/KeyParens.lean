import StreamSql.Proofs.Query.KeyExpr

namespace StreamSql

/-- The second has parentheses wherever the first has, `t` being the text of both. -/
structure Expr.Tighter (e : Expr) (t : String) (e' : Expr) : Prop where
  operand (op : BinaryOp) (right : Bool) :
    op.needsParens right e = true → op.needsParens right e' = true
  unary (op : UnaryOp) : op.needsParens e t = true → op.needsParens e' t = true
  or : e.isOr = true → e'.isOr = true

namespace KeyExpr

def WrapsAlike (t : String) (e e' : Expr) : KeyExpr → Prop
  | binary op l r =>
    (l.WrapsAlike t e e' ∧ (l = key → op.needsParens false e = op.needsParens false e')) ∧
      r.WrapsAlike t e e' ∧
        (r = key → op ≠ .index → op.needsParens true e = op.needsParens true e')
  | unary op e₁ => e₁.WrapsAlike t e e' ∧ (e₁ = key → op.needsParens e t = op.needsParens e' t)
  | _ => True

variable {T l r : KeyExpr} {t : String}

theorem WrapsAlike.swap {e e' : Expr} (h : T.WrapsAlike t e e') : T.WrapsAlike t e' e := by
  induction T with
  | binary op l r ihl ihr =>
    obtain ⟨⟨hl, left⟩, hr, right⟩ := h
    exact ⟨⟨ihl hl, fun hk => (left hk).symm⟩, ihr hr, fun hk hop => (right hk hop).symm⟩
  | unary op e ih => exact ⟨ih h.1, fun hk => (h.2 hk).symm⟩
  | _ => trivial

theorem wrapsAlike_comm {e e' : Expr} : T.WrapsAlike t e e' ↔ T.WrapsAlike t e' e :=
  ⟨.swap, .swap⟩

theorem wrapsAlike_of_value? (t : String) (e e' : Expr) {v : Value} (h : T.value? none = some v) :
    T ≠ key ∧ T.WrapsAlike t e e' := by
  induction T generalizing v with
  | key => cases h
  | constant v => exact ⟨by simp, trivial⟩
  | binary op l r ihl ihr =>
    cases op with
    | index =>
      obtain ⟨b, hb, h⟩ := Option.bind_eq_some_iff.1 h
      obtain ⟨i, hi, _⟩ := Option.bind_eq_some_iff.1 h
      obtain ⟨nl, wl⟩ := ihl hb
      obtain ⟨nr, wr⟩ := ihr hi
      exact ⟨by simp, ⟨wl, fun h => absurd h nl⟩, wr, fun h => absurd h nr⟩
    | _ => cases h
  | _ => cases h

structure Setting (g : String) (k : Expr) (t : String) (key : KeyText) (s : Scope) : Prop where
  group : s.lookup? g = some (.grouping 0)
  text : k.fold.compile key s = .ok t
  value : k.value? = none

section

variable {g g' : String} {k k' : Expr} {key key' : KeyText} {base s s' : Scope}
  (h : Setting g k t key s) (h' : Setting g' k' t key' s') (tighter : k.fold.Tighter t k'.fold)

include h h'

theorem Setting.sameHead (isKey : T ≠ .key) : (T.fill g k).fold.SameHead (T.fill g' k').fold :=
  sameHead_fill g g' h.value h'.value isKey rfl

include tighter

theorem grows_operand {a b : String} (grows : Grows (· = '(') (T.WrapsAlike t k.fold k'.fold) a b)
    (op : BinaryOp) (right : Bool) :
    Grows (· = '(') (T.WrapsAlike t k.fold k'.fold ∧
        (T = .key → op.needsParens right k.fold = op.needsParens right k'.fold))
      (op.operandText right (T.fill g k).fold a) (op.operandText right (T.fill g' k').fold b) := by
  by_cases isKey : T = .key
  · subst isKey
    exact (grows.wrap rfl (tighter.operand op right)).congr (by simp)
  · have same := (h.sameHead h' isKey).operand op right
    refine (grows.wrap rfl fun hp => same ▸ hp).congr ?_
    simp [same, isKey]

theorem grows_unary {a b : String} (grows : Grows (· = '(') (T.WrapsAlike t k.fold k'.fold) a b)
    (text : T = .key → a = t ∧ b = t) (op : UnaryOp) :
    Grows (· = '(') ((unary op T).WrapsAlike t k.fold k'.fold) (op.text (T.fill g k).fold a)
      (op.text (T.fill g' k').fold b) := by
  have wrapped : Grows (· = '(') ((unary op T).WrapsAlike t k.fold k'.fold)
      (if op.needsParens (T.fill g k).fold a then parens a else a)
      (if op.needsParens (T.fill g' k').fold b then parens b else b) := by
    by_cases isKey : T = .key
    · obtain ⟨rfl, rfl⟩ := text isKey
      subst isKey
      exact (grows.wrap rfl (tighter.unary op)).congr (by simp [WrapsAlike])
    · have same := (h.sameHead h' isKey).unary op a b fun leaf => by
        apply grows.eq
        cases T with
        | binary op l r =>
          cases value : (binary op l r).value? none with
          | some v => exact (wrapsAlike_of_value? t _ _ value).2
          | none => simp [fold_fill_binary g h.value value, Expr.isOperator] at leaf
        | unary op e => cases leaf
        | _ => trivial
      refine (grows.wrap rfl fun hp => same ▸ hp).congr ?_
      simp [same, isKey, WrapsAlike]
  cases op with
  | not => exact wrapped.appendLeft "NOT "
  | negate => exact wrapped.appendLeft "-"

theorem grows_whole {a b : String} (grows : Grows (· = '(') (T.WrapsAlike t k.fold k'.fold) a b) :
    Grows (· = '(') (T.WrapsAlike t k.fold k'.fold ∧ (T = .key → k.fold.isOr = k'.fold.isOr))
      (if (T.fill g k).fold.isOr then parens a else a)
      (if (T.fill g' k').fold.isOr then parens b else b) := by
  by_cases isKey : T = .key
  · subst isKey
    exact (grows.wrap rfl tighter.or).congr (by simp)
  · have same := (h.sameHead h' isKey).or
    refine (grows.wrap rfl fun hp => same ▸ hp).congr ?_
    simp [same, isKey]

theorem grows_nullText {a b : String} {op : BinaryOp} {left : Bool}
    (null : op.nullTest? (l.fill g k).fold (r.fill g k).fold = some left)
    (grows : Grows (· = '(') ((if left then r else l).WrapsAlike t k.fold k'.fold) a b) :
    Grows (· = '(') ((binary op l r).WrapsAlike t k.fold k'.fold)
      (op.nullText (op.operandText false ((if left then r else l).fill g k).fold a))
      (op.nullText (op.operandText false ((if left then r else l).fill g' k').fold b)) := by
  have wrapped := (grows_operand h h' tighter grows op false).appendRight
    (if op = .eq then " IS NULL" else " IS NOT NULL")
  apply wrapped.congr
  obtain ⟨hop, isNull⟩ := BinaryOp.of_nullTest? null
  cases left with
  | false =>
    have other := wrapsAlike_of_value? t k.fold k'.fold ((isNull_fill g h.value r).1 isNull)
    simp [WrapsAlike, other]
  | true =>
    have other := wrapsAlike_of_value? t k.fold k'.fold ((isNull_fill g h.value l).1 isNull)
    have sides (e : Expr) : op.needsParens true e = op.needsParens false e := by
      rcases hop with rfl | rfl <;> cases e <;> simp [BinaryOp.needsParens]
    have : op ≠ .index := by rcases hop with rfl | rfl <;> decide
    simp [WrapsAlike, other, sides, this]

theorem grows_joinText {al ar bl br : String} (op : BinaryOp)
    (hl : Grows (· = '(') (l.WrapsAlike t k.fold k'.fold) al bl)
    (hr : Grows (· = '(') (r.WrapsAlike t k.fold k'.fold) ar br) :
    Grows (· = '(') ((binary op l r).WrapsAlike t k.fold k'.fold)
      (op.joinText (l.fill g k).fold (r.fill g k).fold al ar)
      (op.joinText (l.fill g' k').fold (r.fill g' k').fold bl br) := by
  have left := grows_operand h h' tighter hl op false
  unfold BinaryOp.joinText
  by_cases index : op = .index
  · rw [if_pos index, if_pos index]
    apply (((left.appendRight "[").append hr).appendRight "]").congr
    simp [WrapsAlike, index]
  · have right := grows_operand h h' tighter hr op true
    rw [if_neg index, if_neg index]
    apply ((((left.appendRight " ").appendRight op.text).appendRight " ").append right).congr
    simp [WrapsAlike, index]

theorem both_binary (style : s.style = s'.style) {op : BinaryOp}
    (hl : (Compiled.Both (Grows (· = '(') (l.WrapsAlike t k.fold k'.fold)))
      ((l.fill g k).fold.compile key s) ((l.fill g' k').fold.compile key' s'))
    (hr : (Compiled.Both (Grows (· = '(') (r.WrapsAlike t k.fold k'.fold)))
      ((r.fill g k).fold.compile key s) ((r.fill g' k').fold.compile key' s')) :
    Compiled.Both (Grows (· = '(') ((binary op l r).WrapsAlike t k.fold k'.fold))
      (((binary op l r).fill g k).fold.compile key s)
      (((binary op l r).fill g' k').fold.compile key' s') := by
  cases value : (binary op l r).value? none with
  | some v =>
    have wraps := (wrapsAlike_of_value? t k.fold k'.fold value).2
    rw [fold_fill_of_value? g h.value value, fold_fill_of_value? g' h'.value value]
    simp only [Expr.compile, style]
    exact .ok (.refl wraps _)
  | none =>
    have null (T : KeyExpr) : (T.fill g k).fold.isNull = (T.fill g' k').fold.isNull := by
      rw [Bool.eq_iff_iff, isNull_fill g h.value, isNull_fill g' h'.value]
    have nullTest : op.nullTest? (l.fill g' k').fold (r.fill g' k').fold =
        op.nullTest? (l.fill g k).fold (r.fill g k).fold := by
      simp only [BinaryOp.nullTest?, null]
    rw [fold_fill_binary g h.value value, fold_fill_binary g' h'.value value]
    simp only [Expr.compile, nullTest]
    split
    · next null => exact hl.bind fun a b grows => .ok (grows_nullText h h' tighter null grows)
    · next null => exact hr.bind fun a b grows => .ok (grows_nullText h h' tighter null grows)
    · exact hl.bind fun al bl growsL => hr.bind fun ar br growsR =>
        .ok (grows_joinText h h' tighter op growsL growsR)

theorem both_grows (within : base.Within s) (within' : base.Within s') (rows : T.OverRows base) :
    Compiled.Both (Grows (· = '(') (T.WrapsAlike t k.fold k'.fold))
      ((T.fill g k).fold.compile key s) ((T.fill g' k').fold.compile key' s') := by
  have style : s.style = s'.style := within.style.symm.trans within'.style
  induction T with
  | key =>
    simp only [fill, h.text, h'.text]
    exact .ok (.refl trivial t)
  | constant v =>
    simp only [fill, Expr.fold, Expr.compile, style]
    exact .ok (.refl trivial _)
  | aggregate f args =>
    rw [compile_aggregate_congr within within' h.group h'.group rows]
    cases ((aggregate f args).fill g' k').fold.compile key' s' with
    | ok u => exact .ok (.refl trivial u)
    | error e => exact .error e
  | binary op l r ihl ihr => exact both_binary h h' tighter style (ihl rows.1) (ihr rows.2)
  | unary op e ih =>
    simp only [fill, Expr.fold, Expr.compile]
    -- the parentheses behind a minus sign depend on the key's own text
    by_cases isKey : e = .key
    · subst isKey
      have alone : Grows (· = '(') (KeyExpr.key.WrapsAlike t k.fold k'.fold) t t := .refl trivial t
      simp only [fill, h.text, h'.text]
      exact .ok (grows_unary h h' tighter alone (fun _ => ⟨rfl, rfl⟩) op)
    · exact (ih rows).bind fun a b grows =>
        .ok (grows_unary h h' tighter grows (fun he => absurd he isKey) op)

end

end KeyExpr
end StreamSql
