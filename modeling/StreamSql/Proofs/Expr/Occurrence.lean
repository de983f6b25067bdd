import StreamSql.Proofs.Expr.Fold
import StreamSql.Proofs.Expr.Reach

/-!
What stands in an expression as it is given, whether or not its text shows it. Of an expression that is
accepted only what is constant, or part of a key, is not compiled itself; what stands behind the value
of a conversion is not looked at here.
-/

namespace StreamSql

def Method.parts (method : Method) (key : Option GroupKey) (s : Scope) (target : Option Expr)
    (args : List Expr) : List Visit :=
  let positional := target.toList ++ args
  match method with
  | .aggregate _ =>
    match s.group? target with
    | some i => args.map (Visit.bound key [.source i] s)
    | none => positional.map (⟨·, s, key⟩)
  | .higherOrder _ =>
    match positional with
    | collection :: rest => ⟨collection, s, key⟩ :: rest.map (Visit.ofItem key none s)
    | [] => []
  | .cast _ => (positional.take 1).map (⟨·, s, key⟩)
  | _ => positional.map (⟨·, s, key⟩)

namespace Visit

/-- What an expression is made of. A parameter and a member of it are one, as are a group and an
aggregate over it. -/
def parts (v : Visit) : List Visit :=
  match v.expr with
  | .member (.parameter _) _ _ => []
  | .call target method args => method.parts v.key v.scope target args
  | e => e.children.map (⟨·, v.scope, v.key⟩)

def Holds : Visit → Visit → Prop := Relation.ReflTransGen fun v w => w ∈ v.parts

/-- What stands in an expression, but not in an aggregate or the key. -/
def Encloses : Visit → Visit → Prop :=
  Relation.ReflTransGen fun v w => ¬ (v.IsAggregate ∨ v.IsKey) ∧ w ∈ v.parts

structure FoldsTo (v w : Visit) : Prop where
  expr : w.expr = v.expr.fold
  bindings : w.scope.bindings = v.scope.bindings

variable {v w u : Visit} {s s' : Scope} {key key' : Option GroupKey}

theorem bound_of_ne_lambda {e : Expr} (h : ∀ params body, e ≠ .lambda params body)
    (bindings : List Binding) : bound key bindings s e = ⟨e, s, key⟩ := by
  cases e with
  | lambda params body => exact (h params body rfl).elim
  | _ => rfl

theorem ofItem_of_ne_lambda {e : Expr} (h : ∀ params body, e ≠ .lambda params body)
    (kind : Option TypeKind) : ofItem key kind s e = ⟨e, s, key⟩ := by
  cases e with
  | lambda params body => exact (h params body rfl).elim
  | _ => rfl

theorem group?_eq_some_iff {target : Option Expr} {i : Nat} :
    s.group? target = some i ↔
      ∃ p, target = some (.parameter p) ∧ s.lookup? p = some (.grouping i) := by
  constructor
  · intro group
    unfold Scope.group? at group
    split at group
    · split at group
      · next found =>
        cases group
        exact ⟨_, rfl, found⟩
      · cases group
    · cases group
  · rintro ⟨p, rfl, found⟩
    simp [Scope.group?, found]

namespace FoldsTo

section

variable (same : s'.bindings = s.bindings)

include same

theorem here (e : Expr) : FoldsTo ⟨e, s, key⟩ ⟨e.fold, s', key'⟩ := ⟨rfl, same⟩

theorem bind (bs : List (String × Binding)) (e : Expr) :
    FoldsTo ⟨e, s.bind bs, key⟩ ⟨e.fold, s'.bind bs, key'⟩ :=
  ⟨rfl, by simp [Scope.bind, same]⟩

theorem bound (bindings : List Binding) (e : Expr) :
    FoldsTo (bound key bindings s e) (bound key' bindings s' e.fold) := by
  obtain ⟨params, body, rfl⟩ | ne := e.eq_lambda_or
  · simp only [Expr.fold, Visit.bound]
    split
    · exact here same (.lambda params body)
    · exact bind same _ body
  · rw [bound_of_ne_lambda ne, bound_of_ne_lambda (Expr.fold_ne_lambda ne)]
    exact here same e

theorem ofItem (kind : Option TypeKind) (e : Expr) :
    FoldsTo (ofItem key none s e) (ofItem key' kind s' e.fold) := by
  obtain ⟨params, body, rfl⟩ | ne := e.eq_lambda_or
  · simp only [Expr.fold, Visit.ofItem]
    cases params.getLast? with
    | none => exact bind same _ body
    | some last =>
      have items : (s'.withItemKind last kind).bindings = (s.withItemKind last none).bindings := by
        cases kind <;> exact same
      exact bind items _ body
  · rw [ofItem_of_ne_lambda ne, ofItem_of_ne_lambda (Expr.fold_ne_lambda ne)]
    exact here same e

theorem exists_of_mem_map {es : List Expr} (mem : u ∈ es.map (⟨·, s, key⟩)) :
    ∃ w ∈ (es.map Expr.fold).map (⟨·, s', key'⟩), u.FoldsTo w := by
  obtain ⟨e, inside, rfl⟩ := List.mem_map.1 mem
  exact ⟨_, List.mem_map_of_mem (List.mem_map_of_mem inside), here same e⟩

theorem group?_eq (target : Option Expr) : s'.group? (target.map Expr.fold) = s.group? target := by
  refine Option.ext fun i => ?_
  simp only [group?_eq_some_iff, Scope.lookup?, same]
  cases target with
  | none => simp
  | some e =>
    have parameter (p : String) : e.fold = .parameter p ↔ e = .parameter p :=
      ⟨Expr.eq_parameter_of_fold, by rintro rfl; rfl⟩
    simp only [Option.map_some, Option.some.injEq, parameter]

theorem call_part {method : Method} {target : Option Expr} {args : List Expr}
    (fits : method.Fits s' (target.map Expr.fold) (args.map Expr.fold))
    (mem : u ∈ method.parts key s target args) :
    ∃ w ∈ method.next key' s' (target.map Expr.fold) (args.map Expr.fold), u.FoldsTo w := by
  have positional : (target.map Expr.fold).toList ++ args.map Expr.fold =
      (target.toList ++ args).map Expr.fold := by
    cases target <;> simp
  cases method with
  | other name => cases fits
  | aggregate f =>
    obtain ⟨i, group⟩ := Option.isSome_iff_exists.1 fits.1
    simp only [Method.parts, ← group?_eq same target, group] at mem
    obtain ⟨e, inside, rfl⟩ := List.mem_map.1 mem
    refine ⟨Visit.bound key' _ _ e.fold, ?_, bound same _ e⟩
    simp only [Method.next, group]
    exact List.mem_map_of_mem (List.mem_map_of_mem inside)
  | higherOrder f =>
    simp only [Method.parts, Method.next, positional] at mem ⊢
    generalize target.toList ++ args = es at mem
    cases es with
    | nil => cases mem
    | cons collection rest =>
      rcases List.mem_cons.1 mem with rfl | mem
      · exact ⟨_, List.mem_cons_self, here same collection⟩
      · obtain ⟨e, inside, rfl⟩ := List.mem_map.1 mem
        exact ⟨_, List.mem_cons_of_mem _ (List.mem_map_of_mem (List.mem_map_of_mem inside)),
          ofItem same _ e⟩
  | cast type =>
    simp only [Method.parts, Method.next, positional, ← List.map_take] at mem ⊢
    exact exists_of_mem_map same mem
  | _ =>
    simp only [Method.parts, Method.next, positional] at mem ⊢
    exact exists_of_mem_map same mem

end

end FoldsTo

theorem isSourceIndependent_of_isNull {e : Expr} (h : e.isNull = true) :
    e.isSourceIndependent = true := by
  cases e with
  | constant => rfl
  | _ => cases h

theorem next_of_mem_children (accepted : w.Accepted) (other : ∀ t m es, w.expr ≠ .call t m es)
    {e : Expr} (mem : e ∈ w.expr.children) :
    ⟨e, w.scope, w.key⟩ ∈ w.next ∨ e.isSourceIndependent = true ∨ w.IsKey ∨
      ∃ p name rename, w.expr = .member (.parameter p) name rename := by
  obtain ⟨e', s, key⟩ := w
  have fits := ((accepted_iff _).1 accepted).1
  cases e' with
  | constant | captured | parameter => cases mem
  | lambda => exact fits.elim
  | call target method args => exact (other target method args rfl).elim
  | member target name rename =>
    obtain rfl := List.mem_singleton.1 mem
    simp only [Fits] at fits
    cases found : access s e name rename with
    | text t =>
      obtain ⟨p, -, rfl, -⟩ := text_of_access found
      exact .inr (.inr (.inr ⟨p, name, rename, rfl⟩))
    | key use => exact .inr (.inr (.inl ⟨e, name, rename, use, rfl, found⟩))
    | fault u => simp [found] at fits
    | member => exact .inl (by simp [next, found])
  | binary op left right =>
    have both : e = left ∨ e = right := by simpa [Expr.children] using mem
    simp only [next]
    cases test : op.nullTest? left right with
    | none => exact .inl (by simpa using both)
    | some first =>
      -- The side that is null is not written.
      have null := isSourceIndependent_of_isNull (BinaryOp.of_nullTest? test).2
      rcases both with rfl | rfl <;> cases first
      · exact .inl List.mem_cons_self
      · exact .inr (.inl null)
      · exact .inr (.inl null)
      · exact .inl List.mem_cons_self
  | unary op operand =>
    obtain rfl := List.mem_singleton.1 mem
    exact .inl List.mem_cons_self
  | array items => exact .inl (List.mem_map_of_mem mem)
  | new typeName members =>
    obtain ⟨m, inside, rfl⟩ := List.mem_map.1 mem
    exact .inl (List.mem_map_of_mem inside)
  | map entries =>
    obtain ⟨m, inside, mem⟩ := List.mem_flatMap.1 mem
    exact .inl (List.mem_flatMap.2 ⟨m, inside, by simpa using mem⟩)

theorem mem_children_of_parts (other : ∀ t m es, v.expr ≠ .call t m es) (part : u ∈ v.parts) :
    u.expr ∈ v.expr.children ∧ u.scope = v.scope ∧ u.key = v.key ∧
      ∀ p name rename, v.expr ≠ .member (.parameter p) name rename := by
  obtain ⟨e, s, key⟩ := v
  unfold parts at part
  split at part
  · cases part
  · next call => exact (other _ _ _ call).elim
  · next bare _ =>
    obtain ⟨e, mem, rfl⟩ := List.mem_map.1 part
    exact ⟨mem, rfl, rfl, bare⟩

theorem ne_of_isSourceIndependent (h : v.expr.isSourceIndependent = true) {e : Expr}
    (row : e.isSourceIndependent = false) : v.expr ≠ e := by
  rintro rfl
  cases h.symm.trans row

theorem isSourceIndependent_parts (h : v.expr.isSourceIndependent = true) (part : u ∈ v.parts) :
    u.expr.isSourceIndependent = true :=
  Expr.isSourceIndependent_of_mem_children h
    (mem_children_of_parts (fun _ _ _ => ne_of_isSourceIndependent h rfl) part).1

theorem not_asks_of_isSourceIndependent (h : v.expr.isSourceIndependent = true) :
    ¬ (v.IsAggregate ∨ v.IsGroupMember) := by
  rw [IsGroupMember, isKey_iff]
  rintro (⟨target, f, args, expr⟩ | ⟨p, i, -, ⟨rename, expr⟩ | ⟨rename, name, rename', expr⟩⟩ |
    ⟨target, name, rename, expr, group⟩)
  · exact ne_of_isSourceIndependent h rfl expr
  · exact ne_of_isSourceIndependent h rfl expr
  · exact ne_of_isSourceIndependent h rfl expr
  · obtain ⟨p, i, rfl, -⟩ := exists_of_isGrouping group
    exact ne_of_isSourceIndependent h rfl expr

theorem ofGroup_of_isSourceIndependent (h : v.expr.isSourceIndependent = true) :
    ¬ v.IsRow ∧ v.OfGroup := by
  have member (x name rename) : v.expr ≠ .member (.parameter x) name rename :=
    ne_of_isSourceIndependent h rfl
  refine ⟨?_, fun x => ⟨fun expr => (ne_of_isSourceIndependent h rfl expr).elim, ?_⟩⟩
  · rintro ⟨x, i, -, expr | ⟨name, rename, expr⟩⟩
    · exact ne_of_isSourceIndependent h rfl expr
    · exact member x name rename expr
  · exact fun name rename expr => (member x name rename expr).elim

namespace FoldsTo

variable (h : v.FoldsTo w)

include h

theorem isAggregate_iff : w.IsAggregate ↔ v.IsAggregate := by
  constructor
  · rintro ⟨target, f, args, call⟩
    obtain ⟨target', args', call'⟩ := Expr.eq_call_of_fold (h.expr.symm.trans call)
    exact ⟨target', f, args', call'⟩
  · rintro ⟨target, f, args, call⟩
    exact ⟨_, f, _, by rw [h.expr, call, Expr.fold]⟩

theorem isKey_iff : w.IsKey ↔ v.IsKey := by
  rw [Visit.isKey_iff, Visit.isKey_iff]
  simp only [Scope.lookup?, h.bindings, h.expr, Expr.fold_eq_member_iff,
    Expr.fold_eq_member_member_iff]

theorem isGroupMember (member : v.IsGroupMember) : w.IsGroupMember := by
  rcases member with key | ⟨target, name, rename, expr, group⟩
  · exact .inl (h.isKey_iff.2 key)
  · obtain ⟨p, i, rfl, found⟩ := exists_of_isGrouping group
    refine .inr ⟨.parameter p, name, rename, ?_, ?_⟩
    · rw [h.expr, Expr.fold_eq_member_iff, expr]
    · simpa only [Scope.isGrouping, Scope.lookup?, h.bindings] using group

theorem isRow (row : v.IsRow) : w.IsRow := by
  obtain ⟨x, i, found, expr⟩ := row
  refine ⟨x, i, by rwa [Scope.lookup?, h.bindings], ?_⟩
  rw [h.expr]
  rcases expr with expr | ⟨name, rename, expr⟩
  · exact .inl (by rw [expr, Expr.fold])
  · exact .inr ⟨name, rename, Expr.fold_eq_member_iff.2 expr⟩

theorem ofGroup (group : w.OfGroup) : v.OfGroup := by
  intro x
  obtain ⟨parameter, member⟩ := group x
  simp only [Scope.lookup?, h.bindings, h.expr, Expr.fold_eq_member_iff] at parameter member
  exact ⟨fun expr => parameter (by rw [expr, Expr.fold]), member⟩

variable (accepted : w.Accepted)

include accepted

/-- A part of what is accepted is compiled as well, unless it is constant or the key of a part of it. -/
theorem part (part : u ∈ v.parts) :
    (∃ w' ∈ w.next, u.FoldsTo w') ∨ u.expr.isSourceIndependent = true ∨ w.IsKey := by
  cases value : v.expr.value? with
  | some _ =>
    exact .inr (.inl (isSourceIndependent_parts (Expr.isSourceIndependent_of_value? value) part))
  | none =>
    obtain ⟨target, method, args, call⟩ | other := v.expr.eq_call_or
    · obtain ⟨e, s, key⟩ := v
      obtain ⟨e', s', key'⟩ := w
      obtain rfl : e = .call target method args := call
      obtain ⟨rfl, same⟩ := h
      have fits := ((accepted_iff _).1 accepted).1
      simp only [Fits, next, Expr.fold, Expr.foldTarget_eq_map, Expr.foldItems_eq_map] at fits ⊢
      exact .inl (call_part same fits part)
    · obtain ⟨mem, scope, -, bare⟩ := mem_children_of_parts other part
      have below : u.expr.fold ∈ w.expr.children := by
        rw [h.expr, Expr.children_fold value]
        exact List.mem_map_of_mem mem
      have otherFold (target method args) (same : w.expr = .call target method args) : False := by
        obtain ⟨_, _, same⟩ := Expr.eq_call_of_fold (h.expr.symm.trans same)
        exact other _ _ _ same
      rcases next_of_mem_children accepted otherFold below with
        step | constant | key | ⟨p, name, rename, member⟩
      · exact .inl ⟨_, step, rfl, h.bindings.trans (congrArg _ scope.symm)⟩
      · exact .inr (.inl (Expr.isSourceIndependent_fold _ ▸ constant))
      · exact .inr (.inr key)
      · obtain ⟨target, same, parameter⟩ := Expr.eq_member_of_fold (h.expr.symm.trans member)
        exact (bare p name rename (Expr.eq_parameter_of_fold parameter ▸ same)).elim

theorem holds (holds : v.Holds u) :
    (∃ w', w.Reaches w' ∧ u.FoldsTo w') ∨ u.expr.isSourceIndependent = true ∨
      ∃ w', w.Reaches w' ∧ w'.IsKey := by
  induction holds with
  | refl => exact .inl ⟨w, .refl, h⟩
  | tail _ step ih =>
    rcases ih with ⟨w', reaches, folds⟩ | constant | key
    · rcases folds.part (accepted.of_reaches reaches) step with ⟨w'', next, folds⟩ | constant | key
      · exact .inl ⟨w'', reaches.tail next, folds⟩
      · exact .inr (.inl constant)
      · exact .inr (.inr ⟨w', reaches, key⟩)
    · exact .inr (.inl (isSourceIndependent_parts constant step))
    · exact .inr (.inr key)

theorem encloses (encloses : v.Encloses u) :
    (∃ w', w.Surrounds w' ∧ u.FoldsTo w') ∨ u.expr.isSourceIndependent = true := by
  induction encloses with
  | refl => exact .inl ⟨w, .refl, h⟩
  | tail _ step ih =>
    obtain ⟨outside, step⟩ := step
    rcases ih with ⟨w', surrounds, folds⟩ | constant
    · have outside' : ¬ (w'.IsAggregate ∨ w'.IsKey) := by
        rwa [folds.isAggregate_iff, folds.isKey_iff]
      rcases folds.part (accepted.of_reaches surrounds.reaches) step with
        ⟨w'', next, folds⟩ | constant | key
      · exact .inl ⟨w'', surrounds.tail ⟨outside', next⟩, folds⟩
      · exact .inr constant
      · exact (outside' (.inr key)).elim
    · exact .inr (isSourceIndependent_parts constant step)

theorem exists_of_holds (holds : v.Holds u) (asks : u.IsAggregate ∨ u.IsGroupMember) :
    ∃ w', w.Reaches w' ∧ (w'.IsAggregate ∨ w'.IsGroupMember) := by
  rcases h.holds accepted holds with ⟨w', reaches, folds⟩ | constant | ⟨w', reaches, key⟩
  · exact ⟨w', reaches, asks.imp folds.isAggregate_iff.2 folds.isGroupMember⟩
  · exact (not_asks_of_isSourceIndependent constant asks).elim
  · exact ⟨w', reaches, .inr (.inl key)⟩

theorem of_encloses (within : ∀ w', w.Surrounds w' → ¬ w'.IsRow ∧ w'.OfGroup)
    (encloses : v.Encloses u) : ¬ u.IsRow ∧ u.OfGroup := by
  rcases h.encloses accepted encloses with ⟨w', surrounds, folds⟩ | constant
  · exact (within w' surrounds).imp (mt folds.isRow) folds.ofGroup
  · exact ofGroup_of_isSourceIndependent constant

end FoldsTo
end Visit
end StreamSql
