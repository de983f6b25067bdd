import StreamSql.Proofs.Query.Conditions
import StreamSql.Proofs.Query.KeyConstant
import StreamSql.Proofs.Query.KeyParens

namespace StreamSql

namespace Scope

variable {s : Scope}

theorem within_bind (h : s.bindings = []) (bs : List (String × Binding)) :
    s.Within (s.bind bs) where
  sources := rfl
  itemKinds := rfl
  lowerBools := rfl
  separator := rfl
  lookup p b hb := by simp [lookup?, h] at hb

theorem bind_cons (p : String) (b : Binding) (bs : List (String × Binding)) :
    s.bind ((p, b) :: bs) = (s.bind [(p, b)]).bind bs := by
  simp [bind]

theorem lookup?_bind {p : String} {bs : List (String × Binding)} (h : p ∉ bs.map Prod.fst) :
    (s.bind bs).lookup? p = s.lookup? p := by
  have none : bs.reverse.lookup p = none := by
    rw [List.lookup_eq_none_iff]
    intro b hb
    have : p ≠ b.1 := by
      rintro rfl
      exact h (List.mem_map_of_mem (List.mem_reverse.1 hb))
    simpa using this
  simp [lookup?, bind, List.lookup_append, none]

end Scope

namespace KeyExpr

/-- The operators and the clause around the key give `K`, its text being `t`, the parentheses that
they give a member. Where `K` is a constant, no subscript becomes a constant by it and no comparison
a test for null. -/
structure Keeps (T : KeyExpr) (K : Expr) (t g : String) (rename : Option String) : Prop where
  operands : T.WrapsAlike t (member g rename) K.fold
  whole : T = .key → K.fold.isOr = false
  constant (v : Value) : K.value? = some v → T.Settled v

end KeyExpr

theorem keyListText_of_ne_new {K : Expr} {s : Scope} (h : ∀ name ms, K ≠ .new name ms) :
    keyListText K s = K.compile noKey s := by
  cases K with
  | new name ms => exact absurd rfl (h name ms)
  | _ => rfl

namespace KeyExpr

variable {T : KeyExpr} {K : Expr} {t g g' : String} {rename : Option String}

theorem compile_member {key : KeyText} {s : Scope} {i : Nat}
    (group : s.lookup? g = some (.grouping i)) :
    (member g rename).compile key s = key .whole s := by
  simp [member, Expr.compile, access, group, groupingAccess]

theorem tighter_or (K : Expr) (t g : String) (rename : Option String) :
    (member g rename).Tighter t K ∨ K.Tighter t (member g rename) := by
  have alone : (member g rename).Tighter t K ↔ ∀ op : UnaryOp,
      op.needsParens (member g rename) t = true → op.needsParens K t = true := by
    constructor
    · exact fun tighter => tighter.unary
    · intro unary
      refine ⟨?_, unary, ?_⟩
      · intro op right h
        cases h
      · intro h
        cases h
  rw [alone]
  cases K with
  | binary op l r =>
    cases op with
    | index =>
      right
      refine ⟨fun op right h => ?_, fun op h => ?_, fun h => by cases h⟩
      · cases op <;> cases right <;> cases h
      · cases h
    | _ => exact .inl fun op h => rfl
  | unary inner e =>
    left
    intro op h
    cases op with
    | not => cases h
    | negate => rfl
  | _ => exact .inl fun op h => h

theorem wrapsAlike_of_not_isOperator {e e' : Expr} (h : e.isOperator = false)
    (h' : e'.isOperator = false) : T.WrapsAlike t e e' := by
  have same := Expr.SameHead.of_not_isOperator h h'
  induction T with
  | binary op l r ihl ihr =>
    exact ⟨⟨ihl, fun _ => same.operand op false⟩, ihr, fun _ _ => same.operand op true⟩
  | unary op e ih => exact ⟨ih, fun _ => same.unary op t t fun _ => rfl⟩
  | _ => trivial

section

variable {key : KeyText} {base s s' : Scope} (group : s.lookup? g = some (.grouping 0))
  (group' : s'.lookup? g' = some (.grouping 0)) (within : base.Within s)
  (within' : base.Within s') (rows : T.OverRows base)
  (text : (member g rename).compile key s = .ok t) (text' : K.fold.compile key s' = .ok t)

include group group' within within' rows text text'

theorem both_keeps_of_value? {v : Value} (value : K.value? = some v) :
    Compiled.Both
      (fun a b => (if (T.fill g (member g rename)).fold.isOr then parens a else a) =
        (if (T.fill g' K).fold.isOr then parens b else b) ↔ T.Keeps K t g rename)
      ((T.fill g (member g rename)).fold.compile key s) ((T.fill g' K).fold.compile key s') := by
  have constant := Expr.fold_of_value? value
  rw [constant] at text'
  cases text'
  have keeps : T.Keeps K (v.literal s'.style) g rename ↔ T.Settled v := by
    constructor
    · exact fun keeps => keeps.constant v value
    · intro settled
      refine ⟨?_, fun _ => by rw [constant]; rfl, ?_⟩
      · rw [constant]
        exact wrapsAlike_of_not_isOperator rfl rfl
      · intro u hu
        cases value.symm.trans hu
        exact settled
  refine (both_settled value group group' text within within' rows).imp fun a b grows => ?_
  rw [keeps, eq_comm]
  exact (grows.wrapSame rfl rfl fun settled => (settled.sameHead g g' rename value).or).eq_iff

theorem both_keeps_of_none (value : K.value? = none) :
    Compiled.Both
      (fun a b => (if (T.fill g (member g rename)).fold.isOr then parens a else a) =
        (if (T.fill g' K).fold.isOr then parens b else b) ↔ T.Keeps K t g rename)
      ((T.fill g (member g rename)).fold.compile key s) ((T.fill g' K).fold.compile key s') := by
  have h : Setting g (member g rename) t key s := ⟨group, text, rfl⟩
  have h' : Setting g' K t key s' := ⟨group', text', value⟩
  have keeps : T.Keeps K t g rename ↔
      T.WrapsAlike t (member g rename) K.fold ∧ (T = .key → K.fold.isOr = false) := by
    constructor
    · exact fun keeps => ⟨keeps.operands, keeps.whole⟩
    · exact fun same => ⟨same.1, same.2, fun v hv => by cases value.symm.trans hv⟩
  rcases tighter_or K.fold t g rename with tighter | tighter
  · refine (both_grows h h' tighter within within' rows).imp fun a b grows => ?_
    have whole : false = K.fold.isOr ↔ K.fold.isOr = false := eq_comm
    rw [keeps, (grows_whole h h' tighter grows).eq_iff, fold_member, isOr_member, whole]
  · refine (both_grows h' h tighter within' within rows).swap.imp fun a b grows => ?_
    rw [keeps, eq_comm, (grows_whole h' h tighter grows).eq_iff, wrapsAlike_comm, fold_member,
      isOr_member]

theorem both_keeps :
    Compiled.Both
      (fun a b => (if (T.fill g (member g rename)).fold.isOr then parens a else a) =
        (if (T.fill g' K).fold.isOr then parens b else b) ↔ T.Keeps K t g rename)
      ((T.fill g (member g rename)).fold.compile key s) ((T.fill g' K).fold.compile key s') := by
  cases value : K.value? with
  | some v => exact both_keeps_of_value? group group' within within' rows text text' value
  | none => exact both_keeps_of_none group group' within within' rows text text' value

end

end KeyExpr

namespace Query

variable (o : CompileOptions) (q : Query)

def keyRows (params : List String) : List (String × Binding) :=
  params.zip (rowBindings (q.scopeSources o))

def keyCondition (g : String) (rename : Option String) (T : KeyExpr) : Compiled :=
  predicateText (q.conditionKey o .groups) (q.conditionBindings o .groups) (q.scope o)
    (.lambda [g] (T.fill g (KeyExpr.member g rename)))

/-- The condition with `K` in the place of the key, the parameters of which are rows. -/
def inlinedCondition (g : String) (params : List String) (K : Expr) (T : KeyExpr) : Compiled :=
  predicateText (q.conditionKey o .groups) (.grouping 0 :: (q.keyRows o params).map Prod.snd)
    (q.scope o) (.lambda (g :: (q.keyRows o params).map Prod.fst) (T.fill g K))

variable {o q} {params : List String} {K : Expr} {t : String}

section

variable (grouped : q.nodes.findSome? QueryNode.groupBy? = some (.lambda params K))
  (single : ∀ name ms, K ≠ .new name ms)
  (text : q.outline.groupedText (q.scopeSources o) (q.scope o) = .ok (" GROUP BY " ++ t))

include grouped

theorem conditionKey_of_groupBy :
    q.conditionKey o .groups = (GroupKey.mk (q.keyRows o params) K.fold).text := by
  simp only [conditionKey, ConditionClause.key, Clauses.key, Clauses.groupKey, outline, grouped]
  rfl

theorem conditionBindings_of_groupBy : q.conditionBindings o .groups = [.grouping 0] := by
  simp [conditionBindings, ConditionClause.bindings, Clauses.groupRows, outline, grouped]

include single text

theorem compile_key : K.fold.compile noKey ((q.scope o).bind (q.keyRows o params)) = .ok t := by
  simp only [Clauses.groupedText, Clauses.groupKey, outline, grouped] at text
  change (keyListText K.fold ((q.scope o).bind (q.keyRows o params)) >>=
    fun u => Except.ok (" GROUP BY " ++ u)) = _ at text
  rw [keyListText_of_ne_new (Expr.fold_ne_new single)] at text
  cases h : K.fold.compile noKey ((q.scope o).bind (q.keyRows o params)) with
  | error e => simp [h, bind, Except.bind] at text
  | ok u =>
    rw [h] at text
    rw [(String.append_right_inj " GROUP BY ").1 (Except.ok.inj text)]

theorem compile_key_beside (key : KeyText) (bs : List (String × Binding)) :
    K.fold.compile key (((q.scope o).bind bs).bind (q.keyRows o params)) = .ok t := by
  have within : (q.scope o).Within ((q.scope o).bind bs) := Scope.within_bind rfl bs
  have text := compile_key grouped single text
  exact K.fold.compile_le (noKey_le key) (within.on.bind fun b _ => b.2.shown_all) t text

theorem compile_keyMember (g : String) (rename : Option String) :
    (KeyExpr.member g rename).compile (q.conditionKey o .groups)
      ((q.scope o).bind [(g, .grouping 0)]) = .ok t := by
  have group : ((q.scope o).bind [(g, .grouping 0)]).lookup? g = some (.grouping 0) := by
    simp [Scope.lookup?, Scope.bind]
  rw [KeyExpr.compile_member group, conditionKey_of_groupBy grouped]
  simp only [GroupKey.text]
  rw [keyListText_of_ne_new (Expr.fold_ne_new single)]
  exact compile_key_beside grouped single text noKey _

end

/-- A condition over the key of a group has the text of the condition over `K`, the expression that
the key is, exactly if `K` in its place would be written as a member is. -/
theorem keyCondition_eq_iff
    (grouped : q.nodes.findSome? QueryNode.groupBy? = some (.lambda params K))
    (single : ∀ name ms, K ≠ .new name ms)
    (text : q.outline.groupedText (q.scopeSources o) (q.scope o) = .ok (" GROUP BY " ++ t))
    (g : String) {g' : String} (fresh : g' ∉ (q.keyRows o params).map Prod.fst)
    (rename : Option String) {T : KeyExpr} (rows : T.OverRows (q.scope o)) :
    Compiled.Both (fun written inlined => written = inlined ↔ T.Keeps K t g rename)
      (q.keyCondition o g rename T) (q.inlinedCondition o g' params K T) := by
  let s := (q.scope o).bind [(g, .grouping 0)]
  let s' := ((q.scope o).bind [(g', .grouping 0)]).bind (q.keyRows o params)
  have within : (q.scope o).Within s := Scope.within_bind rfl _
  have within' : (q.scope o).Within s' := by
    simp only [s', ← Scope.bind_cons]
    exact Scope.within_bind rfl _
  have group : s.lookup? g = some (.grouping 0) := by
    simp [s, Scope.lookup?, Scope.bind]
  have group' : s'.lookup? g' = some (.grouping 0) := by
    rw [Scope.lookup?_bind fresh]
    simp [Scope.lookup?, Scope.bind]
  have both := KeyExpr.both_keeps group group' within within' rows
    (compile_keyMember grouped single text g rename) (compile_key_beside grouped single text _ _)
  have zipped : (g' :: (q.keyRows o params).map Prod.fst).zip
      (.grouping 0 :: (q.keyRows o params).map Prod.snd) =
        (g', .grouping 0) :: q.keyRows o params := by
    rw [List.zip_cons_cons, ← List.unzip_fst, ← List.unzip_snd, List.zip_unzip]
  have one : [g].length ≤ [Binding.grouping 0].length := Nat.le_refl 1
  unfold keyCondition inlinedCondition
  rw [conditionBindings_of_groupBy grouped, predicateText_lambda _ one,
    predicateText_lambda _ (by simp), zipped, Scope.bind_cons]
  exact both.bind fun a b keeps => .ok keeps

private abbrev amount (name : String) : Expr := .member (.parameter "l") name none

private abbrev total : Expr := .binary .add (amount "A") (amount "B")

private abbrev grouped : Query :=
  ⟨[.source (.named "Location"), .groupBy (.lambda ["l"] total)], false⟩

private abbrev double : KeyExpr :=
  .binary .gt (.binary .mul .key (.constant (.int 2))) (.constant (.int 10))

theorem keyCondition_eq_iff_double :
    Compiled.Both (fun written inlined => written = inlined ↔ double.Keeps total "A + B" "g" none)
      (grouped.keyCondition .standard "g" none double)
      (grouped.inlinedCondition .standard "g" ["l"] total double) :=
  keyCondition_eq_iff rfl (by simp) rfl "g" (by decide) none (by simp [KeyExpr.OverRows])

theorem not_keyCondition_eq :
    ¬ ∀ (o : CompileOptions) (q : Query) (params : List String) (K : Expr) (g : String)
      (T : KeyExpr) (w i : String), q.nodes.findSome? QueryNode.groupBy? = some (.lambda params K) →
        (∀ name ms, K ≠ .new name ms) → g ∉ params → T.OverRows (q.scope o) →
          q.keyCondition o g none T = .ok w → q.inlinedCondition o g params K T = .ok i →
            w = i := by
  intro claim
  have written : grouped.keyCondition .standard "g" none double = .ok "A + B * 2 > 10" := rfl
  have inlined : grouped.inlinedCondition .standard "g" ["l"] total double =
      .ok "(A + B) * 2 > 10" := rfl
  have same := claim .standard grouped ["l"] total "g" double _ _ rfl (by simp) (by simp)
    (by simp [KeyExpr.OverRows]) written inlined
  exact absurd same (by decide)

end Query
end StreamSql
