import StreamSql.Proofs.Expr.Invariant

namespace StreamSql

open Segment (concat separated enclosed called)
open Text (Renaming Uniform)
open Visit

variable {names : List String} {s : Scope} {key : Option GroupKey} {S : Renaming names → Scope}
  {K : Renaming names → Option GroupKey} {site : Site}

def Site.positional (site : Site) (target : Option Expr) (method : Method) (args : List Expr) :
    List (Expr × Site) :=
  target.toList.map (·, site.child 0) ++ (site.child 1).placed (.argument method) args

namespace Site

variable {target : Option Expr} {method : Method} {args : List Expr}

theorem map_fst_positional :
    (site.positional target method args).map Prod.fst = target.toList ++ args := by
  rw [positional, List.map_append, List.map_map, map_fst_placed]
  congr 1
  cases target <;> rfl

theorem rename_positional (ρ : String → String) :
    (Expr.renameTarget ρ (site.child 0) target).toList ++
        Expr.renameItems ρ (.argument method) (site.child 1) args =
      (site.positional target method args).map fun d => d.1.rename ρ d.2 := by
  rw [positional, List.map_append, Expr.renameItems_eq_map]
  congr 1
  cases target <;> rfl

theorem name_positional {d : Expr × Site} (mem : d ∈ site.positional target method args)
    (ρ : String → String) (p : String) : d.2.name ρ p = site.name ρ p := by
  rcases List.mem_append.1 mem with mem | mem
  · obtain ⟨e, -, rfl⟩ := List.mem_map.1 mem
    exact name_child ρ p site 0
  · rw [name_placed ρ p (fun site => name_argument ρ p site method) mem, name_child]

theorem fst_mem_of_positional {d : Expr × Site} (mem : d ∈ site.positional target method args) :
    d.1 ∈ target.toList ++ args := by
  have inside := List.mem_map_of_mem (f := Prod.fst) mem
  rwa [map_fst_positional] at inside

end Site

namespace Ready

variable {target : Option Expr} {method : Method} {args : List Expr}

def IsPlain (method : Method) : Prop :=
  ∀ s key target args, Method.next method key s target args =
    (target.toList ++ args).map (Visit.mk · s key)

theorem positional (h : Ready s key S K (.call target method args) site) (plain : IsPlain method)
    (ih : ∀ e ∈ target.toList ++ args, e.Hereditary names) {d : Expr × Site}
    (mem : d ∈ site.positional target method args) :
    Ready s key S K d.1 d.2 ∧ d.1.InvariantIn s S K d.2 := by
  have inside := Site.fst_mem_of_positional mem
  have next (s : Scope) (key : Option GroupKey) :
      ⟨d.1, s, key⟩ ∈ (Visit.mk (.call target method args) s key).next := by
    simp only [Visit.next, plain s key]
    exact List.mem_map_of_mem inside
  have ready : Ready s key S K d.1 d.2 := h.step (Site.name_positional mem) inside (next s key) (next _ _)
  exact ⟨ready, (ih d.1 inside).1 ready⟩

theorem plainCall (h : Ready s key S K (.call target method args) site) (plain : IsPlain method)
    (ih : ∀ e ∈ target.toList ++ args, e.Hereditary names)
    (fits : ∀ ρ, method.Fits (S ρ) (Expr.renameTarget ρ.map (site.child 0) target)
      (Expr.renameItems ρ.map (.argument method) (site.child 1) args))
    (text : Uniform s.NoItems fun ρ => concat (method.segments (K ρ) (S ρ)
      (Expr.renameTarget ρ.map (site.child 0) target)
      (Expr.renameItems ρ.map (.argument method) (site.child 1) args))) :
    (Expr.call target method args).InvariantIn s S K site := by
  refine .of_segments fits (fun ρ w step => ?_) text
  simp only [Expr.rename, Visit.next, plain (S ρ), Site.rename_positional, List.map_map,
    List.mem_map] at step
  obtain ⟨d, mem, rfl⟩ := step
  exact (h.positional plain ih mem).2.accepted ρ

theorem calledText (h : Ready s key S K (.call target method args) site) (plain : IsPlain method)
    (ih : ∀ e ∈ target.toList ++ args, e.Hereditary names) (name : String) :
    Uniform s.NoItems fun ρ => concat (called name
      (((Expr.renameTarget ρ.map (site.child 0) target).toList ++
        Expr.renameItems ρ.map (.argument method) (site.child 1) args).map fun e =>
          [.visit ⟨e, S ρ, K ρ⟩])) := by
  simp only [Site.rename_positional, List.map_map, Segment.concat_called, Function.comp_def,
    Segment.concat_visit]
  exact Uniform.call name fun d mem => (h.positional plain ih mem).2.written

theorem scalar {f : ScalarFn} (h : Ready s key S K (.call target (.scalar f) args) site)
    (ih : ∀ e ∈ target.toList ++ args, e.Hereditary names) :
    (Expr.call target (.scalar f) args).InvariantIn s S K site := by
  have accepts : f.accepts (target.toList ++ args).length = true := ((accepted_iff _).1 h.accepted).1
  refine h.plainCall (fun _ _ _ _ => rfl) ih (fun ρ => ?_)
    (h.calledText (fun _ _ _ _ => rfl) ih f.name)
  have fst : (site.positional target (.scalar f) args).map Prod.fst = target.toList ++ args :=
    Site.map_fst_positional
  rw [← fst, List.length_map] at accepts
  simp only [Method.Fits, Site.rename_positional, List.length_map]
  exact accepts

theorem udf {name : String} {externalName : Option String}
    (h : Ready s key S K (.call target (.udf name externalName) args) site)
    (ih : ∀ e ∈ target.toList ++ args, e.Hereditary names) :
    (Expr.call target (.udf name externalName) args).InvariantIn s S K site :=
  h.plainCall (fun _ _ _ _ => rfl) ih (fun _ => trivial) (h.calledText (fun _ _ _ _ => rfl) ih _)

section

variable {receiver item : Expr}

theorem listText (h : Ready s key S K receiver site) (ih : receiver.Hereditary names) :
    Uniform s.NoItems fun ρ =>
      concat (Visit.mk (receiver.rename ρ.map site) (S ρ) (K ρ)).listSegments := by
  cases receiver with
  | array items =>
    simp only [Expr.rename, listSegments, Segment.concat_separated, Expr.renameItems_eq_map,
      List.map_map, Function.comp_def, Segment.concat_visit]
    exact Uniform.join ", " fun d mem => (h.arrayItem ih.2 mem).written
  | constant x | captured name x =>
    refine .of_eq fun ρ => ?_
    simp only [Expr.rename, listSegments, h.scope.style ρ]
  | _ => exact (ih.1 h).written.congr fun ρ => Segment.concat_visit _

theorem likeText (hr : receiver.InvariantIn s S K site)
    (site' : Site) (pattern : String → String) :
    Uniform s.NoItems fun ρ =>
      concat ((Visit.mk (receiver.rename ρ.map site) (S ρ) (K ρ)).likeSegments
        (item.rename ρ.map site') pattern) := by
  simp only [likeSegments, Expr.string?_rename, concat, Segment.text]
  exact hr.written.append (.const _)

theorem isSubstringTest_eq (h : Ready s key S K receiver site) (ρ : Renaming names) (site' : Site) :
    isSubstringTest (S ρ) ((receiver.rename ρ.map site).part noKey) ((item.rename ρ.map site').part noKey) =
      isSubstringTest s (receiver.part noKey) (item.part noKey) := by
  have kind : ((receiver.rename ρ.map site).part noKey).expr.kind? (S ρ) =
      (receiver.part noKey).expr.kind? s := h.kind?_eq ρ
  simp only [isSubstringTest, kind, Expr.string?_rename]

end

theorem pair {e d : Expr} (h : Ready s key S K (.call target method args) site)
    (plain : IsPlain method) (ih : ∀ e ∈ target.toList ++ args, e.Hereditary names)
    (split : target.toList ++ args = [e, d]) :
    ∃ a b,
      (Ready s key S K e a ∧ e.InvariantIn s S K a) ∧
      (d.InvariantIn s S K b) ∧
      ∀ ρ : Renaming names, (Expr.renameTarget ρ.map (site.child 0) target).toList ++
        Expr.renameItems ρ.map (.argument method) (site.child 1) args =
          [e.rename ρ.map a, d.rename ρ.map b] := by
  have fst : (site.positional target method args).map Prod.fst = [e, d] :=
    Site.map_fst_positional.trans split
  match ds : site.positional target method args, fst with
  | [(e, a), (d, b)], rfl =>
    refine ⟨a, b, h.positional plain ih (d := (e, a)) (by simp [ds]),
      (h.positional plain ih (d := (d, b)) (by simp [ds])).2, fun ρ => ?_⟩
    rw [Site.rename_positional, ds]
    rfl

theorem contains (h : Ready s key S K (.call target .contains args) site)
    (ih : ∀ e ∈ target.toList ++ args, e.Hereditary names) :
    (Expr.call target .contains args).InvariantIn s S K site := by
  have plain : IsPlain .contains := fun _ _ _ _ => rfl
  obtain ⟨receiver, item, split, nonempty, string⟩ := ((accepted_iff _).1 h.accepted).1
  obtain ⟨a, b, hr, hi, positional⟩ := h.pair plain ih split
  have test (ρ : Renaming names) : isSubstringTest (S ρ) ((receiver.rename ρ.map a).part noKey)
      ((item.rename ρ.map b).part noKey) = _ := isSubstringTest_eq hr.1 ρ b
  refine h.plainCall plain ih (fun ρ => ?_) ?_
  · simp only [Method.Fits, positional, Expr.Holds]
    refine ⟨_, _, rfl, ?_⟩
    rw [Expr.listLength?_rename, test, Expr.string?_rename]
    exact ⟨nonempty, string⟩
  · simp only [Method.segments, positional, containsSegments, Expr.listLength?_rename, test]
    split
    · simp only [List.cons_append, concat, Segment.concat_append, Segment.text]
      refine hi.written.append ((Uniform.const _).append ?_)
      exact (listText hr.1 (ih receiver (by simp [split]))).append (.const _)
    · split
      · exact likeText hr.2 b _
      · have called := h.calledText plain ih "ARRAY_CONTAINS"
        simpa only [positional, List.map_cons, List.map_nil] using called

theorem like (h : Ready s key S K (.call target method args) site) (plain : IsPlain method)
    (ih : ∀ e ∈ target.toList ++ args, e.Hereditary names) (pattern : String → String)
    (fits : ∀ s target args, method.Fits s target args ↔ ∃ receiver needle,
      target.toList ++ args = [receiver, needle] ∧ (needle.part noKey).string?.isSome)
    (segments : ∀ key s target args receiver needle, target.toList ++ args = [receiver, needle] →
      method.segments key s target args =
        (Visit.mk receiver s key).likeSegments needle pattern) :
    (Expr.call target method args).InvariantIn s S K site := by
  obtain ⟨receiver, needle, split, string⟩ := (fits _ _ _).1 ((accepted_iff _).1 h.accepted).1
  obtain ⟨a, b, hr, -, positional⟩ := h.pair plain ih split
  refine h.plainCall plain ih (fun ρ => ?_) ?_
  · exact (fits _ _ _).2 ⟨_, _, positional ρ, by rwa [Expr.string?_rename]⟩
  · simp only [segments _ _ _ _ _ _ (positional _)]
    exact likeText hr.2 b pattern

theorem between (h : Ready s key S K (.call target method args) site) (plain : IsPlain method)
    (ih : ∀ e ∈ target.toList ++ args, e.Hereditary names) (keyword : String)
    (fits : ∀ s target args, method.Fits s target args ↔
      ∃ receiver low high, target.toList ++ args = [receiver, low, high])
    (segments : ∀ key s target args receiver low high,
      target.toList ++ args = [receiver, low, high] → method.segments key s target args =
        betweenSegments keyword ⟨receiver, s, key⟩ ⟨low, s, key⟩ ⟨high, s, key⟩) :
    (Expr.call target method args).InvariantIn s S K site := by
  obtain ⟨receiver, low, high, split⟩ := (fits _ _ _).1 ((accepted_iff _).1 h.accepted).1
  have fst : (site.positional target method args).map Prod.fst = [receiver, low, high] :=
    Site.map_fst_positional.trans split
  match ds : site.positional target method args, fst with
  | [(receiver, a), (low, b), (high, c)], rfl =>
    have positional (ρ : Renaming names) :
        (Expr.renameTarget ρ.map (site.child 0) target).toList ++
          Expr.renameItems ρ.map (.argument method) (site.child 1) args =
            [receiver.rename ρ.map a, low.rename ρ.map b, high.rename ρ.map c] := by
      rw [Site.rename_positional, ds]
      rfl
    have hr := (h.positional plain ih (d := (receiver, a)) (by simp [ds])).2
    have hl := (h.positional plain ih (d := (low, b)) (by simp [ds])).2
    have hh := (h.positional plain ih (d := (high, c)) (by simp [ds])).2
    refine h.plainCall plain ih (fun ρ => (fits _ _ _).2 ⟨_, _, _, positional ρ⟩) ?_
    simp only [segments _ _ _ _ _ _ _ (positional _), betweenSegments, concat, Segment.text,
      String.append_empty]
    exact hr.written.append ((Uniform.const _).append (hl.written.append
      ((Uniform.const _).append hh.written)))

theorem group?_eq (h : Ready s key S K (.call target method args) site) {i : Nat}
    (group : s.group? target = some i) (ρ : Renaming names) :
    (S ρ).group? (Expr.renameTarget ρ.map (site.child 0) target) = some i := by
  unfold Scope.group? at group
  split at group
  · next p =>
    split at group
    · next found =>
      have found' := h.lookup_renamed (p := p) List.mem_cons_self found ρ
      simp only [Expr.renameTarget, Expr.rename, Site.name_child, Scope.group?, found']
      exact group
    · cases group
  · cases group

theorem aggregate {f : AggregateFn} (h : Ready s key S K (.call target (.aggregate f) args) site)
    (ih : ∀ e ∈ target.toList ++ args, e.Hereditary names) :
    (Expr.call target (.aggregate f) args).InvariantIn s S K site := by
  obtain ⟨fits, next⟩ := (accepted_iff _).1 h.accepted
  obtain ⟨some, count⟩ := fits
  obtain ⟨i, group⟩ := Option.isSome_iff_exists.1 some
  have group' := h.group?_eq group
  have visits : (Visit.mk (.call target (.aggregate f) args) s key).next =
      args.map (bound key [.source i] s) := by
    simp only [Visit.next, Method.next, group]
  have visits' (ρ : Renaming names) :
      Method.next (.aggregate f) (K ρ) (S ρ) (Expr.renameTarget ρ.map (site.child 0) target)
          (Expr.renameItems ρ.map (.argument (.aggregate f)) (site.child 1) args) =
        ((site.child 1).placed (.argument (.aggregate f)) args).map fun d =>
          bound (K ρ) [.source i] (S ρ) (d.1.rename ρ.map d.2) := by
    simp [Method.next, group', Expr.renameItems_eq_map, Function.comp_def]
  have invariant {d : Expr × Site} (mem : d ∈ (site.child 1).placed (.argument (.aggregate f)) args) :
      Visit.Invariant s.NoItems fun ρ => bound (K ρ) [.source i] (S ρ) (d.1.rename ρ.map d.2) := by
    have inside : d.1 ∈ target.toList ++ args := List.mem_append_right _ (Site.mem_of_placed mem)
    have visit : bound key [.source i] s d.1 ∈
        (Visit.mk (.call target (.aggregate f) args) s key).next := by
      rw [visits]
      exact List.mem_map_of_mem (Site.mem_of_placed mem)
    have visit' : bound (K (.refl names)) [.source i] (S (.refl names)) d.1 ∈
        (Visit.mk (.call target (.aggregate f) args) (S (.refl names)) (K (.refl names))).next := by
      have found := group' (.refl names)
      rw [Renaming.refl_map, Expr.renameTarget_id] at found
      simp only [Visit.next, Method.next, found]
      exact List.mem_map_of_mem (Site.mem_of_placed mem)
    exact bound_invariant (h.scope.of_name fun ρ p => by
        rw [Site.name_placed ρ p (fun site => Site.name_argument ρ p site _) mem, Site.name_child])
      (Site.placed_ne_here (fun _ => Method.noConfusion) mem) h.keyed
      (List.Subset.trans (Expr.names_children inside) h.known)
      (by simp) (next _ visit) (h.apart.next visit) (h.apart'.next visit') (ih d.1 inside)
  have isEmpty (ρ : Renaming names) :
      (Expr.renameItems ρ.map (.argument (.aggregate f)) (site.child 1) args).isEmpty =
        args.isEmpty := by
    cases args <;> rfl
  refine .of_segments (fun ρ => ⟨by rw [group']; rfl, fun none => count ?_⟩) (fun ρ w step => ?_) ?_
  · rw [← List.isEmpty_iff, isEmpty, List.isEmpty_iff] at none
    exact none
  · simp only [Expr.rename, Visit.next, visits', List.mem_map] at step
    obtain ⟨d, mem, rfl⟩ := step
    exact (invariant mem).accepted ρ
  · simp only [Expr.rename, Visit.segments, Method.segments, group', isEmpty]
    split
    · exact .const _
    · simp only [Expr.renameItems_eq_map, Segment.concat_called, List.map_append, List.map_map,
        Function.comp_def, Segment.concat_visit]
      exact Uniform.callWith _ _ fun d mem => (invariant mem).written

theorem higherOrder {f : HigherOrderFn} (h : Ready s key S K (.call target (.higherOrder f) args) site)
    (ih : ∀ e ∈ target.toList ++ args, e.Hereditary names) :
    (Expr.call target (.higherOrder f) args).InvariantIn s S K site := by
  obtain ⟨⟨collection, rest, split, lambda⟩, next⟩ := (accepted_iff _).1 h.accepted
  have fst : (site.positional target (.higherOrder f) args).map Prod.fst = collection :: rest :=
    Site.map_fst_positional.trans split
  match all : site.positional target (.higherOrder f) args, fst with
  | (collection, a) :: ds, rfl =>
    -- The kind of the items is the same under all renamings.
    have visits (s : Scope) (key : Option GroupKey) :
        (Visit.mk (.call target (.higherOrder f) args) s key).next = ⟨collection, s, key⟩ ::
          (ds.map Prod.fst).map (ofItem key ((collection.kind? s).bind TypeKind.element?) s) := by
      simp only [Visit.next, Method.next, split]
    have ready : Ready s key S K collection a :=
      have mem : (collection, a) ∈ site.positional target (.higherOrder f) args := by simp [all]
      h.step (Site.name_positional mem) (Site.fst_mem_of_positional mem) (by simp [visits])
        (by simp [visits])
    have first := (ih collection (by simp [split])).1 ready
    have kind := ready.kind?_eq
    have kind' : collection.kind? (S (.refl names)) = collection.kind? s := by
      simpa using kind (.refl names)
    have positional (ρ : Renaming names) :
        (Expr.renameTarget ρ.map (site.child 0) target).toList ++
          Expr.renameItems ρ.map (.argument (.higherOrder f)) (site.child 1) args =
            collection.rename ρ.map a :: ds.map fun d => d.1.rename ρ.map d.2 := by
      rw [Site.rename_positional, all]
      rfl
    have invariant {d : Expr × Site} (mem : d ∈ ds) := by
      have mem' : d ∈ site.positional target (.higherOrder f) args := by simp [all, mem]
      have inside := Site.fst_mem_of_positional mem'
      have item : d.1 ∈ ds.map Prod.fst := List.mem_map_of_mem mem
      have visit (s : Scope) (key : Option GroupKey) :
          ofItem key ((collection.kind? s).bind TypeKind.element?) s d.1 ∈
            (Visit.mk (.call target (.higherOrder f) args) s key).next := by
        rw [visits]
        exact List.mem_cons_of_mem _ (List.mem_map_of_mem item)
      have visit' := visit (S (.refl names)) (K (.refl names))
      rw [kind'] at visit'
      refine ofItem_invariant (h.scope.of_name (Site.name_positional mem')) h.keyed
        (List.Subset.trans (Expr.names_children inside) h.known) (next _ (visit s key)) (h.apart.next (visit s key))
        (h.apart'.next visit') (fun ps body same => ?_) (ih d.1 inside)
      rw [same] at item
      have own := h.apart' _ target f args collection _ ps body .refl rfl split item
      rw [kind'] at own
      exact ⟨h.apart _ target f args collection _ ps body .refl rfl split item, own⟩
    refine .of_segments (fun ρ => ⟨_, _, positional ρ, ?_⟩) (fun ρ w step => ?_) ?_
    · rw [List.map_map, List.any_map] at lambda ⊢
      simpa [Function.comp_def] using lambda
    · simp only [Expr.rename, Visit.next, Method.next, positional, kind, List.mem_cons, List.map_map,
        List.mem_map] at step
      rcases step with rfl | ⟨d, mem, rfl⟩
      · exact first.accepted ρ
      · exact (invariant mem).1 ρ
    · have parts : ∀ y ∈ none :: ds.map some, Uniform s.NoItems
          (y.elim (fun ρ => (Visit.mk (collection.rename ρ.map a) (S ρ) (K ρ)).written) fun d ρ =>
            concat (itemSegments (K ρ) ((collection.kind? s).bind TypeKind.element?) (S ρ)
              (d.1.rename ρ.map d.2))) := by
        rintro (_ | d) mem
        · exact first.written
        · exact (invariant (by simpa using mem)).2
      refine (Uniform.call f.name parts).congr fun ρ => ?_
      simp [Expr.rename, Visit.segments, Method.segments, positional, kind, Segment.concat_called,
        Segment.concat_visit, Function.comp_def]

theorem castText_eq (type : CastType) (ρ : String → String) (ds : List (Expr × Site)) :
    type.text ((ds.map fun d => d.1.rename ρ d.2).map (Expr.part noKey)) =
      type.text ((ds.map Prod.fst).map (Expr.part noKey)) := by
  cases type with
  | decimal =>
    match ds with
    | [a, b] => simp [CastType.text]
    | [] | [_] | _ :: _ :: _ :: _ => rfl
  | _ => rfl

theorem cast {type : CastType} (h : Ready s key S K (.call target (.cast type) args) site)
    (ih : ∀ e ∈ target.toList ++ args, e.Hereditary names) :
    (Expr.call target (.cast type) args).InvariantIn s S K site := by
  obtain ⟨e, rest, split, named⟩ := ((accepted_iff _).1 h.accepted).1
  have fst : (site.positional target (.cast type) args).map Prod.fst = e :: rest :=
    Site.map_fst_positional.trans split
  match all : site.positional target (.cast type) args, fst with
  | (e, a) :: ds, rfl =>
    have visits (s : Scope) (key : Option GroupKey) :
        (Visit.mk (.call target (.cast type) args) s key).next = [⟨e, s, key⟩] := by
      simp only [Visit.next, Method.next, split, List.take_succ_cons, List.take_zero, List.map_cons,
        List.map_nil]
    have mem : (e, a) ∈ site.positional target (.cast type) args := by simp [all]
    have invariant := (ih e (by simp [split])).1 (h.step (Site.name_positional mem)
      (Site.fst_mem_of_positional mem) (by simp [visits]) (by simp [visits]))
    have positional (ρ : Renaming names) :
        (Expr.renameTarget ρ.map (site.child 0) target).toList ++
          Expr.renameItems ρ.map (.argument (.cast type)) (site.child 1) args =
            e.rename ρ.map a :: ds.map fun d => d.1.rename ρ.map d.2 := by
      rw [Site.rename_positional, all]
      rfl
    refine .of_segments (fun ρ => ⟨_, _, positional ρ, ?_⟩) (fun ρ w step => ?_) ?_
    · rw [castText_eq]
      exact named
    · simp only [Expr.rename, Visit.next, Method.next, positional, List.take_succ_cons,
        List.take_zero, List.map_cons, List.map_nil, List.mem_singleton] at step
      exact step ▸ invariant.accepted ρ
    · simp only [Expr.rename, Visit.segments, Method.segments, positional, CastType.written, castText_eq,
        concat, Segment.text, String.append_empty]
      exact (Uniform.const _).append (invariant.written.append (.const _))

theorem call (h : Ready s key S K (.call target method args) site)
    (ih : ∀ e ∈ target.toList ++ args, e.Hereditary names) :
    (Expr.call target method args).InvariantIn s S K site := by
  cases method with
  | scalar f => exact h.scalar ih
  | udf name externalName => exact h.udf ih
  | aggregate f => exact h.aggregate ih
  | contains => exact h.contains ih
  | startsWith =>
    refine h.like (fun _ _ _ _ => rfl) ih (fun t => t ++ "%") (fun _ _ _ => .rfl) ?_
    intro key s target args receiver needle split
    simp only [Method.segments, split]
  | endsWith =>
    refine h.like (fun _ _ _ _ => rfl) ih (fun t => "%" ++ t) (fun _ _ _ => .rfl) ?_
    intro key s target args receiver needle split
    simp only [Method.segments, split]
  | between =>
    refine h.between (fun _ _ _ _ => rfl) ih "BETWEEN" (fun _ _ _ => .rfl) ?_
    intro key s target args receiver low high split
    simp only [Method.segments, split]
  | notBetween =>
    refine h.between (fun _ _ _ _ => rfl) ih "NOT BETWEEN" (fun _ _ _ => .rfl) ?_
    intro key s target args receiver low high split
    simp only [Method.segments, split]
  | higherOrder f => exact h.higherOrder ih
  | cast type => exact h.cast ih
  | other name => exact ((accepted_iff _).1 h.accepted).1.elim

end Ready

theorem Expr.hereditary (e : Expr) : e.Hereditary names := by
  induction e using Expr.ind with
  | constant x => exact ⟨fun _ _ _ _ _ h => h.literal (.inl rfl), nofun⟩
  | captured name x => exact ⟨fun _ _ _ _ _ h => h.literal (.inr ⟨name, rfl⟩), nofun⟩
  | parameter p => exact ⟨fun _ _ _ _ _ h => h.parameter, nofun⟩
  | member target name rename ih =>
    exact ⟨fun _ _ _ _ _ h => h.member ih.1, fun d below => List.mem_singleton.1 below ▸ ih.1⟩
  | binary op left right ihl ihr =>
    refine ⟨fun _ _ _ _ _ h => h.binary ihl.1 ihr.1, fun d below => ?_⟩
    obtain rfl | rfl : d = left ∨ d = right := by simpa [children] using below
    · exact ihl.1
    · exact ihr.1
  | unary op operand ih =>
    exact ⟨fun _ _ _ _ _ h => h.unary ih.1, fun d below => List.mem_singleton.1 below ▸ ih.1⟩
  | call target method args iht iha =>
    have ih : ∀ e ∈ target.toList ++ args, e.Hereditary names := by
      intro e mem
      rcases List.mem_append.1 mem with mem | mem
      · exact iht e (Option.mem_toList.1 mem)
      · exact iha e mem
    exact ⟨fun _ _ _ _ _ h => h.call ih, fun d below => (ih d below).1⟩
  | new typeName members ih =>
    refine ⟨fun _ _ _ _ _ h => h.new fun m mem => (ih m mem).1, fun d below => ?_⟩
    obtain ⟨m, mem, rfl⟩ := List.mem_map.1 below
    exact (ih m mem).1
  | array items ih =>
    exact ⟨fun _ _ _ _ _ h => h.array fun e mem => (ih e mem).1, fun d below => (ih d below).1⟩
  | map entries ih =>
    refine ⟨fun _ _ _ _ _ h => h.map fun m mem => ⟨(ih m mem).1.1, (ih m mem).2.1⟩, fun d below => ?_⟩
    obtain ⟨m, mem, below⟩ := List.mem_flatMap.1 below
    obtain rfl | rfl : d = m.1 ∨ d = m.2 := by simpa using below
    · exact (ih m mem).1.1
    · exact (ih m mem).2.1
  | lambda params body ih =>
    exact ⟨fun _ _ _ _ _ h => absurd h.accepted (not_accepted_lambda _ _),
      fun d below => List.mem_singleton.1 below ▸ ih.1⟩

end StreamSql
