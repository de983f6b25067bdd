import StreamSql.Proofs.Expr.Induction
import StreamSql.Proofs.Expr.Segment

namespace StreamSql

open Segment (separated enclosed called)

theorem mem_of_findMember? {name : String} {members : List (String × Expr)} {e : Expr}
    (h : findMember? name members = some e) : (name, e) ∈ members := by
  induction members with
  | nil => cases h
  | cons m ms ih =>
    rw [findMember?] at h
    split at h
    · next same =>
      obtain rfl := Option.some.inj h
      exact same ▸ List.mem_cons_self
    · exact List.mem_cons_of_mem m (ih h)

theorem GroupKey.mem_keyParts {k : GroupKey} {use : KeyUse} {es : List Expr} {e : Expr}
    (found : k.exprs? use = some es) (mem : e ∈ es) : e ∈ k.body.keyParts := by
  obtain ⟨bindings, body⟩ := k
  cases use with
  | whole => exact Option.some.inj found ▸ mem
  | part name =>
    cases body with
    | new typeName members =>
      obtain ⟨d, member, rfl⟩ := Option.map_eq_some_iff.1 found
      obtain rfl := List.mem_singleton.1 mem
      exact List.mem_map.2 ⟨_, mem_of_findMember? member, rfl⟩
    | _ => cases found

namespace Visit

variable {v w : Visit} {key : Option GroupKey} {s : Scope}

/-- What a visit can go on to: an expression below it as it is, over the rows of a group, or over the
items of another one; or a part of the key. -/
inductive Step (v : Visit) : Visit → Prop
  | child {e : Expr} (below : e ∈ v.expr.children) : Step v ⟨e, v.scope, v.key⟩
  | bound {e : Expr} (below : e ∈ v.expr.children) (i : Nat) :
    Step v (bound v.key [.source i] v.scope e)
  | ofItem {e collection : Expr} (below : e ∈ v.expr.children) :
    Step v (ofItem v.key ((collection.kind? v.scope).bind TypeKind.element?) v.scope e)
  | key {k : GroupKey} {e : Expr} (found : v.key = some k) (part : e ∈ k.body.keyParts) :
    Step v ⟨e, v.scope.bind k.bindings, none⟩

theorem Step.of_call {method : Method} {target : Option Expr} {args : List Expr}
    (step : w ∈ method.next key s target args) :
    Step ⟨.call target method args, s, key⟩ w := by
  have positional {e : Expr} (mem : e ∈ target.toList ++ args) :
      Step ⟨.call target method args, s, key⟩ ⟨e, s, key⟩ := .child mem
  cases method with
  | other name => cases step
  | aggregate f =>
    simp only [Method.next] at step
    cases group : s.group? target with
    | none => simp [group] at step
    | some i =>
      simp only [group, List.mem_map] at step
      obtain ⟨e, mem, rfl⟩ := step
      exact .bound (v := ⟨.call target _ args, s, key⟩) (List.mem_append_right _ mem) i
  | higherOrder f =>
    simp only [Method.next] at step
    cases split : target.toList ++ args with
    | nil => simp [split] at step
    | cons collection rest =>
      simp only [split] at step positional
      rcases List.mem_cons.1 step with rfl | step
      · exact positional List.mem_cons_self
      · obtain ⟨e, mem, rfl⟩ := List.mem_map.1 step
        have below : e ∈ target.toList ++ args := split ▸ List.mem_cons_of_mem _ mem
        exact .ofItem (v := ⟨.call target _ args, s, key⟩) below
  | cast type =>
    obtain ⟨e, mem, rfl⟩ := List.mem_map.1 step
    exact positional (List.mem_of_mem_take mem)
  | _ =>
    obtain ⟨e, mem, rfl⟩ := List.mem_map.1 step
    exact positional mem

theorem Step.of_next (step : w ∈ v.next) : Step v w := by
  obtain ⟨e, s, key⟩ := v
  cases e with
  | constant | captured | parameter | lambda => cases step
  | member target name rename =>
    simp only [next] at step
    cases found : access s target name rename with
    | key use =>
      simp only [found, ofKey] at step
      cases key with
      | none => cases step
      | some k =>
        obtain ⟨e, mem, rfl⟩ := List.mem_map.1 step
        cases exprs : k.exprs? use with
        | none => simp [exprs] at mem
        | some es =>
          rw [exprs] at mem
          exact .key rfl (GroupKey.mem_keyParts exprs mem)
    | member =>
      obtain rfl := List.mem_singleton.1 (by simpa [found] using step)
      exact .child List.mem_cons_self
    | _ => simp [found] at step
  | binary op left right =>
    have lhs : Step ⟨.binary op left right, s, key⟩ ⟨left, s, key⟩ := .child (by simp [Expr.children])
    have rhs : Step ⟨.binary op left right, s, key⟩ ⟨right, s, key⟩ := .child (by simp [Expr.children])
    simp only [next] at step
    cases test : op.nullTest? left right with
    | some onRight =>
      cases onRight with
      | false => exact List.mem_singleton.1 (by simpa [test] using step) ▸ lhs
      | true => exact List.mem_singleton.1 (by simpa [test] using step) ▸ rhs
    | none =>
      simp only [test] at step
      rcases List.mem_cons.1 step with rfl | mem
      · exact lhs
      · exact List.mem_singleton.1 mem ▸ rhs
  | unary op operand => exact List.mem_singleton.1 step ▸ .child List.mem_cons_self
  | call target method args => exact .of_call step
  | new typeName members =>
    obtain ⟨m, mem, rfl⟩ := List.mem_map.1 step
    exact .child (List.mem_map_of_mem mem)
  | array items =>
    obtain ⟨e, mem, rfl⟩ := List.mem_map.1 step
    exact .child mem
  | map entries =>
    obtain ⟨e, mem, step⟩ := List.mem_flatMap.1 step
    obtain rfl | rfl : w = ⟨e.1, s, key⟩ ∨ w = ⟨e.2, s, key⟩ := by simpa using step
    all_goals exact .child (List.mem_flatMap.2 ⟨e, mem, by simp⟩)

def Smaller (w v : Visit) : Prop :=
  (w.key = none ∧ v.key.isSome) ∨ (w.key = v.key ∧ sizeOf w.expr < sizeOf v.expr)

theorem smaller_wf : WellFounded Smaller := by
  refine Subrelation.wf (r := InvImage (Prod.Lex (· < ·) (· < ·))
    fun v : Visit => (if v.key.isSome then 1 else 0, sizeOf v.expr)) ?_
    (InvImage.wf _ (Prod.lex _ _).wf)
  rintro w v (⟨none, some⟩ | ⟨same, less⟩)
  · exact .left _ _ (by simp [none, some])
  · simp only [InvImage, same]
    exact .right _ less

theorem bound_key (key : Option GroupKey) (bindings : List Binding) (s : Scope) (e : Expr) :
    (bound key bindings s e).key = key ∧ sizeOf (bound key bindings s e).expr ≤ sizeOf e := by
  cases e with
  | lambda params body =>
    simp only [bound]
    split <;> simp [Expr.lambda.sizeOf_spec]
  | _ => exact ⟨rfl, Nat.le_refl _⟩

theorem ofItem_key (key : Option GroupKey) (kind : Option TypeKind) (s : Scope) (e : Expr) :
    (ofItem key kind s e).key = key ∧ sizeOf (ofItem key kind s e).expr ≤ sizeOf e := by
  cases e with
  | lambda params body => exact ⟨rfl, by simp [ofItem, Expr.lambda.sizeOf_spec]⟩
  | _ => exact ⟨rfl, Nat.le_refl _⟩

theorem Step.smaller (step : Step v w) : w.Smaller v := by
  cases step with
  | child below => exact .inr ⟨rfl, Expr.sizeOf_children below⟩
  | bound below i =>
    obtain ⟨same, le⟩ := bound_key v.key [.source i] v.scope _
    exact .inr ⟨same, Nat.lt_of_le_of_lt le (Expr.sizeOf_children below)⟩
  | ofItem below =>
    obtain ⟨same, le⟩ := ofItem_key v.key _ v.scope _
    exact .inr ⟨same, Nat.lt_of_le_of_lt le (Expr.sizeOf_children below)⟩
  | key found part => exact .inl ⟨rfl, by simp [found]⟩

def Enters : Visit → Visit → Prop := Relation.TransGen fun v w => w ∈ v.next

theorem enters_wf : WellFounded (flip Enters) := by
  have steps : WellFounded (flip fun v w : Visit => w ∈ v.next) :=
    Subrelation.wf (fun step => (Step.of_next step).smaller) smaller_wf
  refine Subrelation.wf (fun {w v} h => ?_) steps.transGen
  exact Relation.transGen_swap.2 h

theorem visit_mem_joined {sep : String} {parts : List (List Segment)} :
    .visit w ∈ Segment.joined sep parts ↔ ∃ gs ∈ parts, .visit w ∈ gs := by
  induction parts with
  | nil => simp [Segment.joined]
  | cons gs parts ih =>
    cases parts with
    | nil => simp [Segment.joined]
    | cons hs parts => simp [Segment.joined_cons_cons, ih]

theorem visit_mem_separated {parts : List (List Segment)} :
    .visit w ∈ separated parts ↔ ∃ gs ∈ parts, .visit w ∈ gs := visit_mem_joined

theorem visit_mem_enclosed {wrap : Bool} {gs : List Segment} :
    .visit w ∈ enclosed wrap gs ↔ .visit w ∈ gs := by
  cases wrap <;> simp [enclosed]

theorem visit_mem_called {name : String} {parts : List (List Segment)} :
    .visit w ∈ called name parts ↔ ∃ gs ∈ parts, .visit w ∈ gs := by
  simp [called, visit_mem_separated]

theorem visit_mem_separated_map {α : Type} {f : α → List Segment} {xs : List α} :
    .visit w ∈ separated (xs.map f) ↔ ∃ x ∈ xs, .visit w ∈ f x := by
  rw [visit_mem_separated]
  constructor
  · rintro ⟨gs, part, h⟩
    obtain ⟨x, mem, rfl⟩ := List.mem_map.1 part
    exact ⟨x, mem, h⟩
  · rintro ⟨x, mem, h⟩
    exact ⟨f x, List.mem_map_of_mem mem, h⟩

theorem visit_mem_called_map {name : String} {α : Type} {f : α → List Segment} {xs : List α} :
    .visit w ∈ called name (xs.map f) ↔ ∃ x ∈ xs, .visit w ∈ f x :=
  visit_mem_called.trans (visit_mem_separated.symm.trans visit_mem_separated_map)

theorem visit_mem_itemSegments {kind : Option TypeKind} {e : Expr} :
    .visit w ∈ itemSegments key kind s e ↔ w = ofItem key kind s e := by
  cases e <;> simp [itemSegments, visit_mem_separated]

theorem visit_mem_listSegments (h : .visit w ∈ v.listSegments) : w = v ∨ w ∈ v.next := by
  obtain ⟨e, s, key⟩ := v
  cases e with
  | array items =>
    obtain ⟨e, item, h⟩ := visit_mem_separated_map.1 h
    obtain rfl : w = _ := by simpa using h
    exact .inr (List.mem_map.2 ⟨e, item, rfl⟩)
  | constant | captured => simp [listSegments] at h
  | _ => exact .inl (by simpa [listSegments] using h)

theorem visit_mem_containsSegments {receiver item : Visit}
    (h : .visit w ∈ receiver.containsSegments item) :
    w = receiver ∨ w = item ∨ w ∈ receiver.next := by
  unfold containsSegments at h
  split at h
  · have list : w = item ∨ .visit w ∈ receiver.listSegments := by simpa using h
    rcases list with rfl | mem
    · exact .inr (.inl rfl)
    · rcases visit_mem_listSegments mem with rfl | step
      · exact .inl rfl
      · exact .inr (.inr step)
  · split at h
    · exact .inl (by simpa [likeSegments] using h)
    · obtain rfl | rfl : w = receiver ∨ w = item := by simpa [visit_mem_called] using h
      · exact .inl rfl
      · exact .inr (.inl rfl)

theorem visit_mem_callSegments {method : Method} {target : Option Expr} {args : List Expr}
    (h : .visit w ∈ method.segments key s target args) :
    w ∈ method.next key s target args ∨ ∃ u ∈ method.next key s target args, w ∈ u.next := by
  cases method with
  | other name => cases h
  | scalar f | udf =>
    obtain ⟨e, mem, h⟩ := visit_mem_called_map.1 h
    obtain rfl : w = _ := by simpa using h
    exact .inl (List.mem_map.2 ⟨e, mem, rfl⟩)
  | aggregate f =>
    simp only [Method.segments, Method.next] at h ⊢
    cases group : s.group? target with
    | none => simp [group] at h
    | some i =>
      simp only [group] at h ⊢
      split at h
      · simp at h
      · obtain ⟨gs, mem, h⟩ := visit_mem_called.1 h
        rcases List.mem_append.1 mem with mem | mem
        · obtain ⟨e, arg, rfl⟩ := List.mem_map.1 mem
          obtain rfl : w = _ := by simpa using h
          exact .inl (List.mem_map.2 ⟨e, arg, rfl⟩)
        · obtain ⟨b, -, rfl⟩ := List.mem_map.1 mem
          simp at h
  | higherOrder f =>
    simp only [Method.segments, Method.next] at h ⊢
    generalize target.toList ++ args = es at h
    cases es with
    | nil => cases h
    | cons collection rest =>
      obtain ⟨gs, mem, h⟩ := visit_mem_called.1 h
      rcases List.mem_cons.1 mem with rfl | mem
      · obtain rfl : w = _ := by simpa using h
        exact .inl List.mem_cons_self
      · obtain ⟨e, arg, rfl⟩ := List.mem_map.1 mem
        obtain rfl := visit_mem_itemSegments.1 h
        exact .inl (List.mem_cons_of_mem _ (List.mem_map.2 ⟨e, arg, rfl⟩))
  | cast type =>
    simp only [Method.segments, Method.next] at h ⊢
    generalize target.toList ++ args = es at h
    cases es with
    | nil => cases h
    | cons e rest => exact .inl (by simpa using h)
  | contains =>
    simp only [Method.segments, Method.next] at h ⊢
    generalize target.toList ++ args = es at h
    rcases es with _ | ⟨receiver, _ | ⟨item, _ | ⟨_, _⟩⟩⟩
    · cases h
    · cases h
    · rcases visit_mem_containsSegments h with rfl | rfl | step
      · exact .inl (by simp)
      · exact .inl (by simp)
      · exact .inr ⟨_, by simp, step⟩
    · cases h
  | startsWith | endsWith =>
    simp only [Method.segments, Method.next] at h ⊢
    generalize target.toList ++ args = es at h
    rcases es with _ | ⟨receiver, _ | ⟨needle, _ | ⟨_, _⟩⟩⟩
    · cases h
    · cases h
    · exact .inl (by simp_all [likeSegments])
    · cases h
  | between | notBetween =>
    simp only [Method.segments, Method.next] at h ⊢
    generalize target.toList ++ args = es at h
    rcases es with _ | ⟨receiver, _ | ⟨low, _ | ⟨high, _ | ⟨_, _⟩⟩⟩⟩
    · cases h
    · cases h
    · cases h
    · exact .inl (by simpa [betweenSegments] using h)
    · cases h

theorem Enters.of_segment (h : .visit w ∈ v.segments) : v.Enters w := by
  have one (step : w ∈ v.next) : v.Enters w := .single step
  obtain ⟨e, s, key⟩ := v
  cases e with
  | constant | captured | lambda => simp [segments] at h
  | parameter p =>
    simp only [segments] at h
    split at h <;> simp at h
  | member target name rename =>
    simp only [segments] at h
    cases found : access s target name rename with
    | text t =>
      simp only [found, accessSegments] at h
      split at h
      · split at h <;> simp at h
      · simp at h
    | key use =>
      simp only [found, visit_mem_separated_map] at h
      exact one (by simpa [next, found] using h)
    | fault u => simp [found] at h
    | member =>
      refine one ?_
      simp only [found, memberSegments] at h
      split at h
      · simpa [next, found, visit_mem_called] using h
      · simpa [next, found] using h
  | binary op left right =>
    refine one ?_
    simp only [segments] at h
    cases found : op.nullTest? left right with
    | some onRight =>
      cases onRight <;> simpa [found, next, operandSegments, visit_mem_enclosed] using h
    | none =>
      simp only [found, operandSegments] at h
      split at h
      · simpa [found, next, visit_mem_enclosed] using h
      · simpa [found, next, visit_mem_enclosed] using h
  | unary op operand => exact one (by simpa [segments, next, visit_mem_enclosed] using h)
  | call target method args =>
    rcases visit_mem_callSegments h with step | ⟨u, first, step⟩
    · exact one step
    · exact .tail (.single first) step
  | new typeName members =>
    refine one ?_
    simpa [segments, next, visit_mem_called_map, eq_comm] using h
  | array items =>
    refine one ?_
    simp only [segments] at h
    split at h
    · simp at h
    · simpa [next, visit_mem_separated_map, eq_comm] using h
  | map entries => exact one (by simpa [segments, next, visit_mem_called_map] using h)

/-- A constant, or a list of items. Either may stand in a text without its own. -/
def IsWrittenOut (v : Visit) : Prop :=
  match v.expr with
  | .constant _ | .captured _ _ | .array _ => True
  | _ => False

theorem IsWrittenOut.next_of_segment (h : v.IsWrittenOut) (segment : .visit w ∈ v.segments) :
    w ∈ v.next := by
  obtain ⟨e, s, key⟩ := v
  cases e with
  | constant | captured => simp [segments] at segment
  | array items =>
    simp only [segments] at segment
    split at segment
    · simp at segment
    · simpa [next, visit_mem_separated_map, eq_comm] using segment
  | _ => exact h.elim

theorem isWrittenOut_of_string? (h : (v.expr.part noKey).string?.isSome) :
    v.IsWrittenOut ∧ v.next = [] := by
  obtain ⟨e, s, key⟩ := v
  cases e with
  | constant x => exact ⟨trivial, rfl⟩
  | _ => cases h

theorem segments_of_listLength? {n : Nat} (h : (v.expr.part noKey).listLength? = some n) :
    v.IsWrittenOut ∧ ∀ u ∈ v.next, .visit u ∈ v.listSegments := by
  obtain ⟨e, s, key⟩ := v
  cases e with
  | constant | captured => exact ⟨trivial, fun u step => nomatch step⟩
  | array items =>
    refine ⟨trivial, fun u step => ?_⟩
    obtain ⟨e, item, rfl⟩ := List.mem_map.1 step
    exact visit_mem_separated_map.2 ⟨e, item, List.mem_singleton.2 rfl⟩
  | _ => cases h

theorem segment_of_contains {receiver item u : Visit}
    (holds : receiver.expr.Holds receiver.scope item.expr) (h : u = receiver ∨ u = item) :
    .visit u ∈ receiver.containsSegments item ∨
      u.IsWrittenOut ∧ ∀ w ∈ u.next, .visit w ∈ receiver.containsSegments item := by
  unfold containsSegments
  cases length : (receiver.expr.part noKey).listLength? with
  | some n =>
    rcases h with rfl | rfl
    · obtain ⟨listed, items⟩ := segments_of_listLength? length
      exact .inr ⟨listed, fun w step => by simp [items w step]⟩
    · exact .inl (by simp)
  | none =>
    simp only
    split
    · next test =>
      rcases h with rfl | rfl
      · exact .inl (by simp [likeSegments])
      · obtain ⟨written, none⟩ := isWrittenOut_of_string? (v := u) (holds.2 length test)
        exact .inr ⟨written, by simp [none]⟩
    · rcases h with rfl | rfl <;> exact .inl (by simp [visit_mem_called])

theorem segment_of_callNext {method : Method} {target : Option Expr} {args : List Expr}
    (fits : method.Fits s target args) (step : w ∈ method.next key s target args) :
    .visit w ∈ method.segments key s target args ∨
      w.IsWrittenOut ∧ ∀ u ∈ w.next, .visit u ∈ method.segments key s target args := by
  cases method with
  | other name => cases step
  | scalar f | udf =>
    obtain ⟨e, mem, rfl⟩ := List.mem_map.1 step
    exact .inl (visit_mem_called_map.2 ⟨e, mem, List.mem_singleton.2 rfl⟩)
  | aggregate f =>
    simp only [Method.segments, Method.next] at step ⊢
    cases group : s.group? target with
    | none => simp [group] at step
    | some i =>
      simp only [group, List.mem_map] at step ⊢
      obtain ⟨e, mem, rfl⟩ := step
      have some : args.isEmpty = false := by
        cases args with
        | nil => cases mem
        | cons => rfl
      simp only [some, Bool.false_eq_true, if_false]
      refine .inl (visit_mem_called.2 ⟨_, List.mem_append_left _ (List.mem_map.2 ⟨e, mem, rfl⟩), ?_⟩)
      exact List.mem_singleton.2 rfl
  | higherOrder f =>
    simp only [Method.segments, Method.next] at step ⊢
    generalize target.toList ++ args = es at step
    cases es with
    | nil => cases step
    | cons collection rest =>
      refine .inl (visit_mem_called.2 ?_)
      rcases List.mem_cons.1 step with rfl | step
      · exact ⟨_, List.mem_cons_self, List.mem_singleton.2 rfl⟩
      · obtain ⟨e, mem, rfl⟩ := List.mem_map.1 step
        exact ⟨_, List.mem_cons_of_mem _ (List.mem_map.2 ⟨e, mem, rfl⟩),
          visit_mem_itemSegments.2 rfl⟩
  | cast type =>
    obtain ⟨e, rest, split, -⟩ := fits
    simp only [Method.segments, Method.next, split] at step ⊢
    exact .inl (by simpa using step)
  | contains =>
    obtain ⟨receiver, item, split, holds⟩ := fits
    simp only [Method.segments, Method.next, split] at step ⊢
    have visits : w = ⟨receiver, s, key⟩ ∨ w = ⟨item, s, key⟩ := by simpa using step
    exact segment_of_contains (by exact holds) visits
  | startsWith | endsWith =>
    obtain ⟨receiver, needle, split, string⟩ := fits
    simp only [Method.segments, Method.next, split] at step ⊢
    obtain rfl | rfl : w = ⟨receiver, s, key⟩ ∨ w = ⟨needle, s, key⟩ := by simpa using step
    · exact .inl (by simp [likeSegments])
    · obtain ⟨written, none⟩ := isWrittenOut_of_string? (v := ⟨needle, s, key⟩) string
      exact .inr ⟨written, by simp [none]⟩
  | between | notBetween =>
    obtain ⟨receiver, low, high, split⟩ := fits
    simp only [Method.segments, Method.next, split] at step ⊢
    exact .inl (by simpa [betweenSegments] using step)

theorem segment_of_next (fits : v.Fits) (step : w ∈ v.next) :
    .visit w ∈ v.segments ∨ w.IsWrittenOut ∧ ∀ u ∈ w.next, .visit u ∈ v.segments := by
  obtain ⟨e, s, key⟩ := v
  cases e with
  | constant | captured | parameter | lambda => cases step
  | member target name rename =>
    simp only [next] at step
    simp only [segments]
    cases found : access s target name rename with
    | key use =>
      simp only [found] at step ⊢
      exact .inl (visit_mem_separated_map.2 ⟨w, step, List.mem_singleton.2 rfl⟩)
    | member =>
      obtain rfl := List.mem_singleton.1 (by simpa [found] using step)
      refine .inl ?_
      simp only [memberSegments]
      split <;> simp [visit_mem_called]
    | _ => simp [found] at step
  | binary op left right =>
    simp only [next] at step
    simp only [segments]
    cases found : op.nullTest? left right with
    | some onRight =>
      cases onRight <;>
        exact .inl (by simpa [found, operandSegments, visit_mem_enclosed] using step)
    | none =>
      refine .inl ?_
      simp only [operandSegments]
      split <;> simpa [found, visit_mem_enclosed] using step
  | unary op operand => exact .inl (by simpa [segments, next, visit_mem_enclosed] using step)
  | call target method args => exact segment_of_callNext fits step
  | new typeName members =>
    refine .inl ?_
    simpa [segments, next, visit_mem_called_map, eq_comm] using step
  | array items =>
    refine .inl ?_
    simp only [segments]
    split
    · next none => simp [next, List.isEmpty_iff.1 none] at step
    · simpa [next, visit_mem_separated_map, eq_comm] using step
  | map entries => exact .inl (by simpa [segments, next, visit_mem_called_map] using step)

end Visit
end StreamSql
