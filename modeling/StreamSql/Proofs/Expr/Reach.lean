import Mathlib.Logic.Relation
import StreamSql.Proofs.Expr.Visit
import StreamSql.Proofs.Expr.Widen

namespace StreamSql

def Scope.Binds (p : Binding → Prop) (s : Scope) : Prop := ∀ x b, s.lookup? x = some b → p b

def Binding.IsSource (b : Binding) : Prop := ∃ i, b = .source i

def Binding.IsGroup (b : Binding) : Prop := ∃ i, b = .grouping i

theorem Scope.Binds.bind {p : Binding → Prop} {s : Scope} (h : s.Binds p) {bs : List (String × Binding)}
    (hbs : ∀ b ∈ bs, p b.2) : (s.bind bs).Binds p := by
  intro x b found
  rcases lookup?_bind_eq_some found with mem | found
  · exact hbs _ mem
  · exact h x b found

namespace Visit

def Reaches : Visit → Visit → Prop := Relation.ReflTransGen fun v w => w ∈ v.next

def IsAggregate (v : Visit) : Prop := ∃ target f args, v.expr = .call target (.aggregate f) args

/-- An occurrence of the grouping key: all of it, or one part. -/
def IsKey (v : Visit) : Prop :=
  ∃ target name rename use, v.expr = .member target name rename ∧
    access v.scope target name rename = .key use

def IsGroupMember (v : Visit) : Prop :=
  v.IsKey ∨ ∃ target name rename, v.expr = .member target name rename ∧ v.scope.isGrouping target

/-- A row of a source, or a column of it. -/
def IsRow (v : Visit) : Prop :=
  ∃ x i, v.scope.lookup? x = some (.source i) ∧
    (v.expr = .parameter x ∨ ∃ name rename, v.expr = .member (.parameter x) name rename)

/-- Whether a parameter by itself is an item, and a member one of an item or of a group. -/
def OfGroup (v : Visit) : Prop :=
  ∀ x, (v.expr = .parameter x → v.scope.lookup? x = some .item) ∧
    ∀ name rename, v.expr = .member (.parameter x) name rename →
      v.scope.lookup? x = some .item ∨
        (∃ i, v.scope.lookup? x = some (.grouping i)) ∧ name ∈ ["Key", "WindowStart", "WindowEnd"]

/-- What is reached without entering an aggregate or the key. -/
def Surrounds : Visit → Visit → Prop :=
  Relation.ReflTransGen fun v w => ¬ (v.IsAggregate ∨ v.IsKey) ∧ w ∈ v.next

variable {v w : Visit} {key : Option GroupKey} {s : Scope} {p : Binding → Prop}

theorem Accepted.of_reaches (h : v.Accepted) (reaches : v.Reaches w) : w.Accepted := by
  induction reaches with
  | refl => exact h
  | tail _ step ih => exact ((accepted_iff _).1 ih).2 _ step

theorem Surrounds.reaches (h : v.Surrounds w) : v.Reaches w := by
  induction h with
  | refl => exact .refl
  | tail _ step ih => exact ih.tail step.2

theorem groupingAccess_eq_key {name : String} {use : KeyUse} (h : groupingAccess name = .key use) :
    name = "Key" := by
  unfold groupingAccess at h
  split at h
  · cases h
  · cases h
  · rfl
  · cases h

theorem exists_of_isGrouping {e : Expr} (h : s.isGrouping e = true) :
    ∃ p i, e = .parameter p ∧ s.lookup? p = some (.grouping i) := by
  unfold Scope.isGrouping at h
  split at h
  · split at h
    · next found => exact ⟨_, _, rfl, found⟩
    · cases h
  · cases h

theorem isKey_iff : v.IsKey ↔ ∃ p i, v.scope.lookup? p = some (.grouping i) ∧
    ((∃ rename, v.expr = .member (.parameter p) "Key" rename) ∨
      ∃ rename name rename', v.expr = .member (.member (.parameter p) "Key" rename) name rename') := by
  constructor
  · rintro ⟨target, name, rename, use, expr, key⟩
    unfold access at key
    split at key
    · split at key
      · cases key
      · next found =>
        obtain rfl := groupingAccess_eq_key key
        exact ⟨_, _, found, .inl ⟨rename, expr⟩⟩
      · split at key <;> cases key
      · cases key
    · split at key
      · next group =>
        obtain ⟨p, i, rfl, found⟩ := exists_of_isGrouping group
        exact ⟨p, i, found, .inr ⟨_, name, rename, expr⟩⟩
      · cases key
    · cases key
  · rintro ⟨p, i, found, ⟨rename, expr⟩ | ⟨rename, name, rename', expr⟩⟩
    · exact ⟨_, _, _, .whole, expr, by simp [access, found, groupingAccess]⟩
    · exact ⟨_, _, _, .part name, expr, by simp [access, Scope.isGrouping, found]⟩

theorem binds_bound (h : s.Binds p) {bindings : List Binding} (hb : ∀ b ∈ bindings, p b) (e : Expr) :
    (bound key bindings s e).scope.Binds p := by
  cases e with
  | lambda params body =>
    simp only [bound]
    split
    · exact h
    · exact h.bind fun b mem => hb _ (List.of_mem_zip mem).2
  | _ => exact h

theorem binds_ofItem (h : s.Binds p) (item : p .item) (kind : Option TypeKind) (e : Expr) :
    (ofItem key kind s e).scope.Binds p := by
  cases e with
  | lambda params body =>
    refine Scope.Binds.bind ?_ fun b mem => ?_
    · cases params.getLast? with
      | none => exact h
      | some last => cases kind <;> exact h
    · obtain ⟨x, -, rfl⟩ := List.mem_map.1 mem
      exact item
  | _ => exact h

theorem binds_call (h : s.Binds p) (item : p .item) {method : Method} {target : Option Expr}
    {args : List Expr} (other : ∀ f, method ≠ .aggregate f)
    (step : w ∈ method.next key s target args) : w.scope.Binds p := by
  cases method with
  | aggregate f => exact (other f rfl).elim
  | other name => cases step
  | higherOrder f =>
    simp only [Method.next] at step
    generalize target.toList ++ args = es at step
    cases es with
    | nil => cases step
    | cons collection rest =>
      rcases List.mem_cons.1 step with rfl | mem
      · exact h
      · obtain ⟨e, -, rfl⟩ := List.mem_map.1 mem
        exact binds_ofItem h item _ e
  | _ =>
    obtain ⟨e, -, rfl⟩ := List.mem_map.1 step
    exact h

theorem binds_next (h : v.scope.Binds p) (item : p .item) (outside : ¬ (v.IsAggregate ∨ v.IsKey))
    (step : w ∈ v.next) : w.scope.Binds p := by
  obtain ⟨e, s, key⟩ := v
  have here {e : Expr} (h' : w = ⟨e, s, key⟩) : w.scope.Binds p := by
    subst h'
    exact h
  cases e with
  | constant | captured | parameter | lambda => cases step
  | member target name rename =>
    simp only [next] at step
    cases target_access : access s target name rename with
    | key use => exact (outside (.inr ⟨target, name, rename, use, rfl, target_access⟩)).elim
    | member => exact here (List.mem_singleton.1 (by simpa [target_access] using step))
    | _ => simp [target_access] at step
  | binary op left right =>
    simp only [next] at step
    cases test : op.nullTest? left right with
    | some right =>
      cases right
      · exact here (List.mem_singleton.1 (by simpa [test] using step))
      · exact here (List.mem_singleton.1 (by simpa [test] using step))
    | none =>
      simp only [test] at step
      rcases List.mem_cons.1 step with same | mem
      · exact here same
      · exact here (List.mem_singleton.1 mem)
  | unary op operand => exact here (List.mem_singleton.1 step)
  | call target method args =>
    refine binds_call h item (fun f same => outside (.inl ⟨target, f, args, ?_⟩)) step
    rw [same]
  | new typeName members =>
    obtain ⟨m, -, same⟩ := List.mem_map.1 step
    exact here same.symm
  | array items =>
    obtain ⟨e, -, same⟩ := List.mem_map.1 step
    exact here same.symm
  | map entries =>
    obtain ⟨e, -, mem⟩ := List.mem_flatMap.1 step
    rcases List.mem_cons.1 mem with same | mem
    · exact here same
    · exact here (List.mem_singleton.1 mem)

theorem binds_of_surrounds (h : v.scope.Binds p) (item : p .item) (surrounds : v.Surrounds w) :
    w.scope.Binds p := by
  induction surrounds with
  | refl => exact h
  | tail _ step ih => exact binds_next ih item step.1 step.2

theorem isGrouping_eq_false (h : s.Binds (¬ ·.IsGroup)) (e : Expr) : s.isGrouping e = false := by
  refine Bool.eq_false_iff.2 fun group => ?_
  obtain ⟨p, i, -, found⟩ := exists_of_isGrouping group
  exact h p _ found ⟨i, rfl⟩

theorem isSome_group? (s : Scope) (e : Expr) : (s.group? (some e)).isSome = s.isGrouping e := by
  cases e with
  | parameter x =>
    simp only [Scope.group?, Scope.isGrouping]
    rcases s.lookup? x with _ | (_ | _ | _) <;> rfl
  | _ => rfl

theorem group?_eq_none (h : s.Binds (¬ ·.IsGroup)) (target : Option Expr) :
    s.group? target = none := by
  cases target with
  | none => rfl
  | some e => rw [← Option.not_isSome_iff_eq_none, isSome_group?, isGrouping_eq_false h]; decide

theorem not_isKey (h : v.scope.Binds (¬ ·.IsGroup)) : ¬ v.IsKey := by
  rw [isKey_iff]
  rintro ⟨p, i, found, -⟩
  exact h p _ found ⟨i, rfl⟩

theorem not_isGroupMember (h : v.scope.Binds (¬ ·.IsGroup)) : ¬ v.IsGroupMember := by
  rintro (key | ⟨target, name, rename, -, group⟩)
  · exact not_isKey h key
  · rw [isGrouping_eq_false h] at group
    cases group

theorem not_isAggregate (h : v.scope.Binds (¬ ·.IsGroup)) (accepted : v.Accepted) :
    ¬ v.IsAggregate := by
  rintro ⟨target, f, args, call⟩
  have fits := ((accepted_iff v).1 accepted).1
  simp only [Fits, call, Method.Fits, group?_eq_none h] at fits
  cases fits.1

theorem binds_of_reaches (h : v.scope.Binds (¬ ·.IsGroup)) (reaches : v.Reaches w) :
    w.scope.Binds (¬ ·.IsGroup) := by
  induction reaches with
  | refl => exact h
  | @tail v w _ step ih =>
    by_cases aggregate : v.IsAggregate
    · -- Without a group it goes on to nothing.
      obtain ⟨target, f, args, call⟩ := aggregate
      simp only [next, call, Method.next, group?_eq_none ih] at step
      cases step
    · refine binds_next ih ?_ ?_ step
      · rintro ⟨i, same⟩
        cases same
      · rintro (inside | inside)
        · exact aggregate inside
        · exact not_isKey ih inside

theorem not_isRow (h : v.scope.Binds (¬ ·.IsSource)) : ¬ v.IsRow := by
  rintro ⟨x, i, found, -⟩
  exact h x _ found ⟨i, rfl⟩

theorem fits_parameter {x : String} (h : s.Binds (¬ ·.IsSource))
    (accepted : (Visit.mk (.parameter x) s key).Accepted) : s.lookup? x = some .item := by
  rcases ((accepted_iff _).1 accepted).1 with item | ⟨i, source⟩
  · exact item
  · exact (h x _ source ⟨i, rfl⟩).elim

theorem groupingAccess_eq_fault_or (name : String) :
    (∃ u, groupingAccess name = .fault u) ∨ name ∈ ["Key", "WindowStart", "WindowEnd"] := by
  unfold groupingAccess
  split
  · exact .inr (by simp)
  · exact .inr (by simp)
  · exact .inr (by simp)
  · exact .inl ⟨_, rfl⟩

theorem ofGroup (h : v.scope.Binds (¬ ·.IsSource)) (accepted : v.Accepted) : v.OfGroup := by
  obtain ⟨e, s, key⟩ := v
  refine fun x => ⟨?_, ?_⟩
  · rintro rfl
    exact fits_parameter h accepted
  · rintro name rename rfl
    obtain ⟨fits, next⟩ := (accepted_iff _).1 accepted
    simp only [Fits, Visit.next, access] at fits next
    cases found : s.lookup? x with
    | none =>
      simp only [found, List.forall_mem_singleton] at next
      exact .inl (found ▸ fits_parameter h next)
    | some b =>
      cases b with
      | source i => exact (h x _ found ⟨i, rfl⟩).elim
      | item => exact .inl rfl
      | grouping i =>
        rcases groupingAccess_eq_fault_or name with ⟨u, fault⟩ | known
        · simp [found, fault] at fits
        · exact .inr ⟨⟨i, rfl⟩, known⟩

end Visit
end StreamSql
