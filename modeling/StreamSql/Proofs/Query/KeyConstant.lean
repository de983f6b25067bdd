import StreamSql.Proofs.Query.KeyExpr

namespace StreamSql

theorem Text.sublist_join (sep : String) {t : String} {ts : List String} (h : t ∈ ts) :
    t.toList.Sublist (Text.join sep ts).toList := by
  obtain ⟨before, behind, eq⟩ := exists_join_eq sep h
  rw [eq, String.toList_append, String.toList_append]
  exact (List.sublist_append_right _ _).trans (List.sublist_append_left _ _)

namespace Value

variable {s : LiteralStyle}

theorem exists_mem_entryLiterals {key u : Value} {es : List (Value × Value)}
    (h : findValue? key es = some u) :
    ∃ k : Value, k.literal s ++ " := " ++ u.literal s ∈ entryLiterals s es := by
  induction es with
  | nil => cases h
  | cons e es ih =>
    obtain ⟨k, v⟩ := e
    simp only [findValue?] at h
    split at h
    · cases h
      exact ⟨k, by simp [entryLiterals]⟩
    · obtain ⟨k', hk'⟩ := ih h
      exact ⟨k', by simp [entryLiterals, hk']⟩

theorem sublist_literal_of_at? {x i u : Value} (h : x.at? i = some u) (nested : s.nested = s) :
    (u.literal s).toList.Sublist (x.literal s).toList := by
  cases x with
  | array items =>
    have mem : u ∈ items := by
      cases i with
      | int n =>
        simp only [at?] at h
        split at h
        · cases h
        · exact List.mem_of_getElem? h
      | _ => cases h
    have within := Text.sublist_join ", " (List.mem_map_of_mem (f := literal s) mem)
    have membership : s.membership = false := by rw [← nested]; rfl
    have some : (items.map (literal s)).isEmpty = false := by
      cases items with
      | nil => cases mem
      | cons => rfl
    simp only [literal, nested, membership, literals_eq_map, some, Bool.false_eq_true, if_false,
      String.toList_append]
    exact (within.trans (List.sublist_append_right _ _)).trans (List.sublist_append_left _ _)
  | map entries =>
    have found : findValue? i entries = some u := by cases i <;> exact h
    obtain ⟨k, mem⟩ := exists_mem_entryLiterals (s := s) found
    have within := Text.sublist_join ", " mem
    simp only [String.toList_append] at within
    simp only [literal, nested, String.toList_append]
    refine .trans ?_ (within.trans ?_)
    · exact List.sublist_append_right _ _
    · exact (List.sublist_append_right _ _).trans (List.sublist_append_left _ _)
  | _ => cases i <;> cases h

end Value

def isMark (c : Char) : Bool := c = '=' || c = '['

theorem marks_operandText (op : BinaryOp) (right : Bool) (e : Expr) (t : String) :
    (op.operandText right e t).toList.countP isMark = t.toList.countP isMark := by
  unfold BinaryOp.operandText
  split
  · simp [parens, isMark, List.countP_append]
  · rfl

theorem marks_nullText (op : BinaryOp) (t : String) :
    (op.nullText t).toList.countP isMark = t.toList.countP isMark := by
  unfold BinaryOp.nullText
  split <;> simp [isMark, List.countP_append]

theorem lt_marks_joinText {op : BinaryOp} (h : op = .index ∨ op = .eq ∨ op = .ne) (l r : Expr)
    (a b : String) : a.toList.countP isMark + b.toList.countP isMark <
      (op.joinText l r a b).toList.countP isMark := by
  rcases h with rfl | rfl | rfl <;>
    simp [BinaryOp.joinText, BinaryOp.text, marks_operandText, isMark, List.countP_append]

namespace KeyExpr

/-- Where the key is a constant, no larger expression becomes one by it, nor a test for null. -/
def Settled (v : Value) : KeyExpr → Prop
  | binary op l r =>
    (l.Settled v ∧ r.Settled v) ∧
      (binary op l r).value? (some v) = (binary op l r).value? none ∧
        ((op = .eq ∨ op = .ne) →
          l.value? (some v) = some .null ∨ r.value? (some v) = some .null →
            l.value? none = some .null ∨ r.value? none = some .null)
  | unary _ e => e.Settled v
  | _ => True

variable {T l r : KeyExpr} {v : Value}

theorem settled_of_value? {u : Value} (h : T.value? none = some u) :
    T.Settled v ∧ T.value? (some v) = some u := by
  induction T generalizing u with
  | key => cases h
  | constant w => exact ⟨trivial, h⟩
  | binary op l r ihl ihr =>
    cases op with
    | index =>
      obtain ⟨b, hb, hi⟩ := Option.bind_eq_some_iff.1 h
      obtain ⟨i, hi, item⟩ := Option.bind_eq_some_iff.1 hi
      obtain ⟨settledL, valueL⟩ := ihl hb
      obtain ⟨settledR, valueR⟩ := ihr hi
      have value : (binary .index l r).value? (some v) = some u := by
        simp [value?, valueL, valueR, item]
      refine ⟨⟨⟨settledL, settledR⟩, value.trans h.symm, ?_⟩, value⟩
      rintro (hop | hop) <;> cases hop
    | _ => cases h
  | _ => cases h

theorem Settled.value?_eq (h : T.Settled v) (notKey : T ≠ key) :
    T.value? (some v) = T.value? none := by
  cases T with
  | key => exact absurd rfl notKey
  | binary op l r => exact h.2.1
  | _ => rfl

section

variable (g g' : String) (rename : Option String) {K : Expr} (hK : K.value? = some v)

include hK

theorem Settled.sameHead (h : T.Settled v) :
    (T.fill g' K).fold.SameHead (T.fill g (member g rename)).fold := by
  by_cases isKey : T = .key
  · subst isKey
    rw [show (KeyExpr.key.fill g' K).fold = .constant v from Expr.fold_of_value? hK]
    exact .of_not_isOperator rfl rfl
  · exact sameHead_fill g' g hK (value?_member g rename) isKey (h.value?_eq isKey)

theorem settled_operand {a b : String} (grows : Grows isMark (T.Settled v) b a) (op : BinaryOp)
    (right : Bool) :
    Grows isMark (T.Settled v) (op.operandText right (T.fill g' K).fold b)
      (op.operandText right (T.fill g (member g rename)).fold a) :=
  grows.wrapSame rfl rfl fun settled => (settled.sameHead g g' rename hK).operand op right

theorem settled_unary {a b : String} (grows : Grows isMark (T.Settled v) b a) (op : UnaryOp) :
    Grows isMark (T.Settled v) (op.text (T.fill g' K).fold b)
      (op.text (T.fill g (member g rename)).fold a) := by
  have same (settled : T.Settled v) :=
    (settled.sameHead g g' rename hK).unary op b a fun _ => grows.eq settled
  have wrapped := grows.wrapSame rfl rfl same
  cases op with
  | not => exact wrapped.appendLeft "NOT "
  | negate => exact wrapped.appendLeft "-"

theorem settled_joinText {al ar bl br : String} (op : BinaryOp)
    (hl : Grows isMark (l.Settled v) bl al) (hr : Grows isMark (r.Settled v) br ar) :
    Grows isMark (l.Settled v ∧ r.Settled v)
      (op.joinText (l.fill g' K).fold (r.fill g' K).fold bl br)
      (op.joinText (l.fill g (member g rename)).fold (r.fill g (member g rename)).fold al ar) := by
  have left := settled_operand g g' rename hK hl op false
  unfold BinaryOp.joinText
  by_cases index : op = .index
  · rw [if_pos index, if_pos index]
    exact ((left.appendRight "[").append hr).appendRight "]"
  · have right := settled_operand g g' rename hK hr op true
    rw [if_neg index, if_neg index]
    exact (((left.appendRight " ").appendRight op.text).appendRight " ").append right

end

theorem nullTest?_of_neither (op : BinaryOp) {left right : Expr} (hl : left.isNull = false)
    (hr : right.isNull = false) : op.nullTest? left right = none := by
  simp [BinaryOp.nullTest?, hl, hr]

theorem nullTest?_of_other {op : BinaryOp} (hop : ¬ (op = .eq ∨ op = .ne)) (left right : Expr) :
    op.nullTest? left right = none := by
  cases op <;> simp_all [BinaryOp.nullTest?]

section

variable {g g' : String} {rename : Option String} {K : Expr} {key key' : KeyText} {s s' : Scope}
  (hK : K.value? = some v) {op : BinaryOp}
  (hl : Compiled.Both (fun a b => Grows isMark (l.Settled v) b a)
    ((l.fill g (member g rename)).fold.compile key s) ((l.fill g' K).fold.compile key' s'))
  (hr : Compiled.Both (fun a b => Grows isMark (r.Settled v) b a)
    ((r.fill g (member g rename)).fold.compile key s) ((r.fill g' K).fold.compile key' s'))

include hK hl hr

theorem settled_item {u : Value} (style : s'.style.nested = s'.style)
    (noValue : (binary .index l r).value? none = none)
    (value : (binary .index l r).value? (some v) = some u) :
    Compiled.Both (fun a b => Grows isMark ((binary .index l r).Settled v) b a)
      (((binary .index l r).fill g (member g rename)).fold.compile key s)
      (((binary .index l r).fill g' K).fold.compile key' s') := by
  obtain ⟨x, hx, hi⟩ := Option.bind_eq_some_iff.1 value
  obtain ⟨i, hi, item⟩ := Option.bind_eq_some_iff.1 hi
  rw [fold_fill_of_value? g' hK hx] at hl
  rw [fold_fill_of_value? g' hK hi] at hr
  obtain ⟨a, ha, growsL⟩ := Compiled.Both.exists_of_ok hl
  obtain ⟨b, hb, growsR⟩ := Compiled.Both.exists_of_ok hr
  rw [fold_fill_of_value? g' hK value, fold_fill_binary g (value?_member g rename) noValue,
    Expr.compile_join (nullTest?_of_other (by simp) _ _), ha, hb]
  refine .ok ⟨fun settled => ?_, fun _ => ?_⟩
  · rw [settled.2.1, noValue] at value
    cases value
  · have part := (Value.sublist_literal_of_at? item style).countP_le (p := isMark)
    have := growsL.le
    have := lt_marks_joinText (.inl rfl : BinaryOp.index = .index ∨ _)
      (l.fill g (member g rename)).fold (r.fill g (member g rename)).fold a b
    omega

theorem settled_newNullTest (hop : op = .eq ∨ op = .ne) (nullL : l.value? none ≠ some .null)
    (nullR : r.value? none ≠ some .null)
    (null : l.value? (some v) = some .null ∨ r.value? (some v) = some .null) :
    Compiled.Both (fun a b => Grows isMark ((binary op l r).Settled v) b a)
      ((Expr.binary op (l.fill g (member g rename)).fold (r.fill g (member g rename)).fold).compile
        key s)
      ((Expr.binary op (l.fill g' K).fold (r.fill g' K).fold).compile key' s') := by
  have notSettled : ¬ (binary op l r).Settled v := by
    intro settled
    rcases settled.2.2 hop null with h | h
    · exact nullL h
    · exact nullR h
  have notNullL := not_isNull_fill g (value?_member g rename) nullL
  have notNullR := not_isNull_fill g (value?_member g rename) nullR
  have joined (a b : String) := lt_marks_joinText (.inr hop)
    (l.fill g (member g rename)).fold (r.fill g (member g rename)).fold a b
  rw [Expr.compile_join (nullTest?_of_neither op notNullL notNullR)]
  rcases null with nullL' | nullR'
  · rw [fold_fill_of_value? g' hK nullL'] at hl ⊢
    obtain ⟨a, ha, -⟩ := Compiled.Both.exists_of_ok hl
    rw [ha, show Expr.constant .null = Expr.null from rfl, Expr.compile_null_left hop]
    refine hr.bind fun b b' grows => .ok ⟨fun settled => absurd settled notSettled, fun _ => ?_⟩
    have := grows.le
    have := joined a b
    rw [marks_nullText, marks_operandText]
    omega
  · rw [fold_fill_of_value? g' hK nullR'] at hr ⊢
    obtain ⟨b, hb, -⟩ := Compiled.Both.exists_of_ok hr
    rw [hb, show Expr.constant .null = Expr.null from rfl, Expr.compile_null_right hop]
    refine hl.bind fun a a' grows => .ok ⟨fun settled => absurd settled notSettled, fun _ => ?_⟩
    have := grows.le
    have := joined a b
    rw [marks_nullText, marks_operandText]
    omega

theorem settled_join (noValue : (binary op l r).value? none = none)
    (noValue' : (binary op l r).value? (some v) = none)
    (test : op.nullTest? (l.fill g (member g rename)).fold (r.fill g (member g rename)).fold = none)
    (test' : op.nullTest? (l.fill g' K).fold (r.fill g' K).fold = none)
    (null : (op = .eq ∨ op = .ne) →
      l.value? (some v) = some .null ∨ r.value? (some v) = some .null →
        l.value? none = some .null ∨ r.value? none = some .null) :
    Compiled.Both (fun a b => Grows isMark ((binary op l r).Settled v) b a)
      ((Expr.binary op (l.fill g (member g rename)).fold (r.fill g (member g rename)).fold).compile
        key s)
      ((Expr.binary op (l.fill g' K).fold (r.fill g' K).fold).compile key' s') := by
  rw [Expr.compile_join test, Expr.compile_join test']
  refine hl.bind fun al bl growsL => hr.bind fun ar br growsR => .ok ?_
  refine (settled_joinText g g' rename hK op growsL growsR).congr ?_
  simp only [Settled, noValue, noValue', true_and]
  exact (and_iff_left null).symm

theorem settled_binary (noValue : (binary op l r).value? none = none)
    (noValue' : (binary op l r).value? (some v) = none) :
    Compiled.Both (fun a b => Grows isMark ((binary op l r).Settled v) b a)
      (((binary op l r).fill g (member g rename)).fold.compile key s)
      (((binary op l r).fill g' K).fold.compile key' s') := by
  have memberValue := value?_member g rename
  rw [fold_fill_binary g memberValue noValue, fold_fill_binary g' hK noValue']
  by_cases hop : op = .eq ∨ op = .ne
  · by_cases nullR : r.value? none = some .null
    · obtain ⟨settledR, nullR'⟩ := settled_of_value? (v := v) nullR
      rw [fold_fill_of_value? g memberValue nullR, fold_fill_of_value? g' hK nullR',
        show Expr.constant .null = Expr.null from rfl, Expr.compile_null_right hop,
        Expr.compile_null_right hop]
      refine hl.bind fun a b grows => .ok ?_
      refine ((settled_operand g g' rename hK grows op false).appendRight _).congr ?_
      simp [Settled, settledR, noValue, noValue', nullR]
    by_cases nullL : l.value? none = some .null
    · obtain ⟨settledL, nullL'⟩ := settled_of_value? (v := v) nullL
      rw [fold_fill_of_value? g memberValue nullL, fold_fill_of_value? g' hK nullL',
        show Expr.constant .null = Expr.null from rfl, Expr.compile_null_left hop,
        Expr.compile_null_left hop]
      refine hr.bind fun a b grows => .ok ?_
      refine ((settled_operand g g' rename hK grows op false).appendRight _).congr ?_
      simp [Settled, settledL, noValue, noValue', nullL]
    by_cases null : l.value? (some v) = some .null ∨ r.value? (some v) = some .null
    · exact settled_newNullTest hK hl hr hop nullL nullR null
    · rw [not_or] at null
      apply settled_join hK hl hr noValue noValue'
      · exact nullTest?_of_neither op (not_isNull_fill g memberValue nullL)
          (not_isNull_fill g memberValue nullR)
      · exact nullTest?_of_neither op (not_isNull_fill g' hK null.1) (not_isNull_fill g' hK null.2)
      · simp [null]
  · apply settled_join hK hl hr noValue noValue'
    · exact nullTest?_of_other hop _ _
    · exact nullTest?_of_other hop _ _
    · exact fun h => absurd h hop

end

theorem both_settled {g g' : String} {rename : Option String} {K : Expr} {key key' : KeyText}
    {base s s' : Scope} (hK : K.value? = some v) (group : s.lookup? g = some (.grouping 0))
    (group' : s'.lookup? g' = some (.grouping 0))
    (text : (member g rename).compile key s = .ok (v.literal s'.style)) (within : base.Within s)
    (within' : base.Within s') (rows : T.OverRows base) :
    Compiled.Both (fun a b => Grows isMark (T.Settled v) b a)
      ((T.fill g (member g rename)).fold.compile key s) ((T.fill g' K).fold.compile key' s') := by
  have style : s.style = s'.style := within.style.symm.trans within'.style
  induction T with
  | key =>
    simp only [fill, fold_member, text, Expr.fold_of_value? hK, Expr.compile]
    exact .ok (.refl trivial _)
  | constant w =>
    simp only [fill, Expr.fold, Expr.compile, style]
    exact .ok (.refl trivial _)
  | aggregate f args =>
    rw [compile_aggregate_congr within within' group group' rows]
    cases ((aggregate f args).fill g' K).fold.compile key' s' with
    | ok u => exact .ok (.refl trivial u)
    | error e => exact .error e
  | binary op l r ihl ihr =>
    have hl := ihl rows.1
    have hr := ihr rows.2
    cases value : (binary op l r).value? none with
    | some u =>
      obtain ⟨settled, value'⟩ := settled_of_value? (v := v) value
      rw [fold_fill_of_value? g (value?_member g rename) value, fold_fill_of_value? g' hK value']
      simp only [Expr.compile, style]
      exact .ok (.refl settled _)
    | none =>
      cases value' : (binary op l r).value? (some v) with
      | none => exact settled_binary hK hl hr value value'
      | some u =>
        cases op with
        | index => exact settled_item hK hl hr rfl value value'
        | _ => cases value'
  | unary op e ih =>
    simp only [fill, Expr.fold, Expr.compile]
    exact (ih rows).bind fun a b grows => .ok (settled_unary g g' rename hK grows op)

end KeyExpr
end StreamSql
