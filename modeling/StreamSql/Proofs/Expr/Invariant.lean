import StreamSql.Proofs.Expr.Renamed

namespace StreamSql

open Segment (concat separated enclosed called)
open Text (Renaming Uniform)

variable {names : List String}

def Scope.NoItems (s : Scope) : Prop := ∀ p, s.lookup? p ≠ some .item

namespace Visit

/-- No parameter of a lambda over items that is reached is mistaken for an outer one of its name: it has
a kind of its own, or no kind is known of the name. -/
def KindsApart (v : Visit) : Prop :=
  ∀ w target f args collection rest params body, v.Reaches w →
    w.expr = .call target (.higherOrder f) args → target.toList ++ args = collection :: rest →
    .lambda params body ∈ rest →
    w.scope.Apart params ((collection.kind? w.scope).bind TypeKind.element?)

theorem KindsApart.next {v w : Visit} (h : v.KindsApart) (step : w ∈ v.next) : w.KindsApart :=
  fun u target f args collection rest params body reaches =>
    h u target f args collection rest params body (.head step reaches)

theorem kindsApart_of_next {v : Visit} (next : ∀ w ∈ v.next, w.KindsApart)
    (own : ∀ target f args collection rest params body, v.expr = .call target (.higherOrder f) args →
      target.toList ++ args = collection :: rest → .lambda params body ∈ rest →
      v.scope.Apart params ((collection.kind? v.scope).bind TypeKind.element?)) : v.KindsApart := by
  intro w target f args collection rest params body reaches
  rcases reaches.cases_head with rfl | ⟨u, step, reaches⟩
  · exact own target f args collection rest params body
  · exact next u step w target f args collection rest params body reaches

structure Invariant (outside : Prop) (X : Renaming names → Visit) : Prop where
  accepted : ∀ ρ, (X ρ).Accepted
  written : Uniform outside fun ρ => (X ρ).written

end Visit

open Visit

def KeyRenamed (sources : List ScopeSource) (key : Option GroupKey)
    (K : Renaming names → Option GroupKey) : Prop :=
  ∀ k use es, key = some k → k.exprs? use = some es → ∃ ds : List (Expr × Site),
    (∀ ρ, ∃ k', K ρ = some k' ∧ k'.bindings = k.bindings ∧
      k'.exprs? use = some (ds.map fun d => d.1.rename ρ.map d.2)) ∧
    ∀ d ∈ ds, ∀ S, Scope.Steady sources S →
      (Visit.mk d.1 ((S (.refl names)).bind k.bindings) none).KindsApart →
      Visit.Invariant True fun ρ => ⟨d.1.rename ρ.map d.2, (S ρ).bind k.bindings, none⟩

structure Ready (s : Scope) (key : Option GroupKey) (S : Renaming names → Scope)
    (K : Renaming names → Option GroupKey) (e : Expr) (site : Site) : Prop where
  scope : s.Renamed S site
  keyed : KeyRenamed s.sources key K
  known : e.names ⊆ names
  accepted : (Visit.mk e s key).Accepted
  apart : (Visit.mk e s key).KindsApart
  apart' : (Visit.mk e (S (.refl names)) (K (.refl names))).KindsApart

abbrev Expr.InvariantIn (e : Expr) (s : Scope) (S : Renaming names → Scope)
    (K : Renaming names → Option GroupKey) (site : Site) : Prop :=
  Visit.Invariant s.NoItems fun ρ => ⟨e.rename ρ.map site, S ρ, K ρ⟩

def Expr.Invariant (names : List String) (e : Expr) : Prop :=
  ∀ ⦃s key⦄ ⦃S : Renaming names → Scope⦄ ⦃K site⦄, Ready s key S K e site →
    e.InvariantIn s S K site

variable {s : Scope} {key : Option GroupKey} {S : Renaming names → Scope}
  {K : Renaming names → Option GroupKey} {site : Site}

theorem Visit.not_accepted_unbound {p : String} (unbound : s.lookup? p = none) (name : String)
    (rename : Option String) :
    ¬ (Visit.mk (.member (.parameter p) name rename) s key).Accepted := by
  intro accepted
  have parameter := ((accepted_iff _).1 accepted).2 ⟨.parameter p, s, key⟩ (by
    simp [Visit.next, access, unbound])
  rcases ((accepted_iff _).1 parameter).1 with found | ⟨i, found⟩ <;>
    cases unbound.symm.trans found

theorem Expr.kind?_grouping {e : Expr} (grouping : s.isGrouping e = true) {name : String}
    {rename : Option String} : (Expr.member e name rename).kind? s = none := by
  cases e with
  | parameter p =>
    simp only [Scope.isGrouping] at grouping
    split at grouping
    · next found => simp [kind?, found]
    · cases grouping
  | _ => cases grouping

namespace Ready

variable {e d : Expr}

theorem step (h : Ready s key S K e site) {site' : Site}
    (name : ∀ ρ p, site'.name ρ p = site.name ρ p) (below : d ∈ e.children)
    (next : ⟨d, s, key⟩ ∈ (Visit.mk e s key).next)
    (next' : ⟨d, S (.refl names), K (.refl names)⟩ ∈
      (Visit.mk e (S (.refl names)) (K (.refl names))).next) : Ready s key S K d site' where
  scope := h.scope.of_name name
  keyed := h.keyed
  known := List.Subset.trans (Expr.names_children below) h.known
  accepted := ((accepted_iff _).1 h.accepted).2 _ next
  apart := h.apart.next next
  apart' := h.apart'.next next'

theorem lookup_renamed {p : String} (h : Ready s key S K e site) (mem : p ∈ e.names) {b : Binding}
    (found : s.lookup? p = some b) (ρ : Renaming names) :
    (S ρ).lookup? (site.name ρ.map p) = some b :=
  h.scope.lookup ρ p (h.known mem) b found

variable {target : Expr} {name : String} {rename : Option String}

theorem columnText_eq (h : s.Renamed S site) (ρ : Renaming names) (i : Nat) (name : String)
    (rename : Option String) : (S ρ).columnText i name rename = s.columnText i name rename := by
  simp [Scope.columnText, Scope.column?, h.sources ρ]

theorem isGrouping_eq {inner : Expr} {rename' : Option String}
    (h : Ready s key S K (.member (.member inner "Key" rename') name rename) site)
    (ρ : Renaming names) (site' : Site) (same : ∀ ρ p, site'.name ρ p = site.name ρ p) :
    (S ρ).isGrouping (inner.rename ρ.map site') = s.isGrouping inner := by
  cases inner with
  | parameter p =>
    cases found : s.lookup? p with
    | some b =>
      have found' := h.lookup_renamed (p := p) List.mem_cons_self found ρ
      simp only [Expr.rename, Scope.isGrouping, same, found, found']
    | none =>
      -- Without a group the key would be a member of a parameter that is not bound.
      have target := ((accepted_iff _).1 h.accepted).2 ⟨.member (.parameter p) "Key" rename', s, key⟩ (by
        simp [Visit.next, access, Scope.isGrouping, found])
      exact absurd target (not_accepted_unbound found _ _)
  | _ => rfl

theorem access_eq_or (h : Ready s key S K (.member target name rename) site) (ρ : Renaming names) :
    (∃ p, target = .parameter p ∧ s.lookup? p = some .item) ∨
      access (S ρ) (target.rename ρ.map (site.child 0)) name rename = access s target name rename := by
  cases target with
  | parameter p =>
    cases found : s.lookup? p with
    | none => exact absurd h.accepted (not_accepted_unbound found _ _)
    | some b =>
      have found' := h.lookup_renamed (p := p) List.mem_cons_self found ρ
      cases b with
      | item => exact .inl ⟨p, rfl, found⟩
      | source i =>
        right
        simp only [Expr.rename, access, Site.name_child, found, found', columnText_eq h.scope ρ]
      | grouping i =>
        right
        simp only [Expr.rename, access, Site.name_child, found, found']
  | member inner name' rename' =>
    right
    simp only [Expr.rename]
    by_cases key : name' = "Key"
    · subst key
      simp only [access, h.isGrouping_eq ρ ((site.child 0).child 0) fun ρ p => by simp]
    · simp [access, key]
  | _ => exact .inr rfl

theorem access_item {p : String} (h : Ready s key S K (.member (.parameter p) name rename) site)
    (found : s.lookup? p = some .item) (ρ : Renaming names) :
    access (S ρ) ((Expr.parameter p).rename ρ.map (site.child 0)) name rename =
      if name ≠ "Length" then .text (site.name ρ.map p ++ "->" ++ rename.getD name) else .member := by
  have found' := h.lookup_renamed (p := p) List.mem_cons_self found ρ
  simp only [Expr.rename, access, Site.name_child, found']

theorem access_member (h : Ready s key S K (.member target name rename) site)
    (found : access s target name rename = .member) (ρ : Renaming names) :
    access (S ρ) (target.rename ρ.map (site.child 0)) name rename = .member := by
  rcases h.access_eq_or ρ with ⟨p, rfl, item⟩ | same
  · rw [h.access_item item]
    simp only [access, item] at found
    split at found
    · cases found
    · next length => rw [if_neg length]
  · rw [same, found]

theorem memberTarget (h : Ready s key S K (.member target name rename) site)
    (found : access s target name rename = .member) : Ready s key S K target (site.child 0) := by
  have found' := h.access_member found (.refl names)
  rw [Renaming.refl_map, Expr.rename_id] at found'
  exact h.step (fun ρ p => Site.name_child ρ p site 0) List.mem_cons_self (by simp [Visit.next, found])
    (by simp [Visit.next, found'])

theorem kind?_eq (h : Ready s key S K e site) (ρ : Renaming names) :
    (e.rename ρ.map site).kind? (S ρ) = e.kind? s := by
  induction e using Expr.ind generalizing site with
  | constant | captured => rfl
  | parameter p =>
    have mem : p ∈ (Expr.parameter p).names := List.mem_cons_self
    simp only [Expr.rename, Expr.kind?]
    rcases ((accepted_iff _).1 h.accepted).1 with found | ⟨i, found⟩
    · have found : s.lookup? p = some .item := found
      rw [h.lookup_renamed mem found, found, if_pos rfl, if_pos rfl]
      exact h.scope.kind ρ p (h.known mem) found
    · have found : s.lookup? p = some (.source i) := found
      rw [h.lookup_renamed mem found, found]
      simp
  | member target name rename ih =>
    have target_eq (found : access s target name rename = .member) :=
      ih (h.memberTarget found)
    cases target with
    | parameter p =>
      simp only [Expr.rename, Expr.kind?, Site.name_child]
      cases found : s.lookup? p with
      | none => exact absurd h.accepted (not_accepted_unbound found _ _)
      | some b =>
        rw [h.lookup_renamed (p := p) List.mem_cons_self found]
        cases b with
        | source i => simp [Scope.column?, h.scope.sources ρ]
        | _ => rfl
    | member inner name' rename' =>
      have target_kind : ((Expr.member inner name' rename').rename ρ.map (site.child 0)).kind? (S ρ) =
          (Expr.member inner name' rename').kind? s := by
        -- The target is a key, of which no kind is known, or it is visited itself.
        by_cases group : name' = "Key" ∧ s.isGrouping inner
        · obtain ⟨rfl, grouping⟩ := group
          have grouping' := h.isGrouping_eq ρ ((site.child 0).child 0) fun ρ p => by simp
          rw [Expr.kind?_grouping grouping, Expr.rename, Expr.kind?_grouping (grouping'.trans grouping)]
        · refine target_eq ?_
          simp only [access]
          split <;> simp_all
      simp only [Expr.rename] at target_kind ⊢
      simp only [Expr.kind?, target_kind]
    | _ =>
      have target_kind := target_eq rfl
      simp only [Expr.rename] at target_kind ⊢
      simp only [Expr.kind?, target_kind]
  | array items ih =>
    cases items with
    | nil => rfl
    | cons d ds =>
      have first : Ready s key S K d (site.child 0) := h.step (fun ρ p => Site.name_child ρ p site 0)
        List.mem_cons_self (List.mem_map_of_mem List.mem_cons_self)
        (List.mem_map_of_mem List.mem_cons_self)
      simp only [Expr.rename, Expr.renameItems, Expr.kind?, id, ih d List.mem_cons_self first]
  | _ => rfl

end Ready

theorem Visit.Invariant.of_segments {outside : Prop} {X : Renaming names → Visit}
    (fits : ∀ ρ, (X ρ).Fits) (next : ∀ ρ, ∀ w ∈ (X ρ).next, w.Accepted)
    (text : Uniform outside fun ρ => concat (X ρ).segments) : Visit.Invariant outside X := by
  have accepted (ρ : Renaming names) : (X ρ).Accepted := (accepted_iff _).2 ⟨fits ρ, next ρ⟩
  exact ⟨accepted, text.congr fun ρ => written_eq _ (accepted ρ)⟩

theorem Site.uniform_name {outside : Prop} {p : String} (mem : p ∈ names) (inside : ¬ outside)
    (site : Site) : Uniform outside fun ρ : Renaming names => site.name ρ.map p := by
  have const : Uniform outside fun _ : Renaming names => p := .const p
  cases site with
  | within ds =>
    simp only [name]
    split
    · exact .name mem inside
    · exact const
  | _ => exact const

theorem BinaryOp.uniform_operandText {outside : Prop} (op : BinaryOp) (right : Bool) (e : Expr)
    {t : Renaming names → String} (h : Uniform outside t) :
    Uniform outside fun ρ => op.operandText right (e.rename ρ.map site) (t ρ) := by
  simp only [operandText, Expr.needsParens_rename]
  split
  · exact h.parens
  · exact h

namespace Ready

variable {e d : Expr}

theorem literal {x : Value} (form : e = .constant x ∨ ∃ name, e = .captured name x)
    (h : Ready s key S K e site) : e.InvariantIn s S K site := by
  have fits (ρ : Renaming names) : (Visit.mk (e.rename ρ.map site) (S ρ) (K ρ)).Fits := by
    rcases form with rfl | ⟨name, rfl⟩ <;> trivial
  have next (ρ : Renaming names) : (Visit.mk (e.rename ρ.map site) (S ρ) (K ρ)).next = [] := by
    rcases form with rfl | ⟨name, rfl⟩ <;> rfl
  have text (ρ : Renaming names) : concat (Visit.mk (e.rename ρ.map site) (S ρ) (K ρ)).segments =
      x.literal (S (.refl names)).style := by
    rcases form with rfl | ⟨name, rfl⟩ <;>
      simp [Expr.rename, Visit.segments, concat, Segment.text, h.scope.style ρ]
  exact .of_segments fits (fun ρ => by simp [next ρ]) ((Uniform.const _).congr text)

theorem parameter {p : String} (h : Ready s key S K (.parameter p) site) :
    (Expr.parameter p).InvariantIn s S K site := by
  have mem : p ∈ (Expr.parameter p).names := List.mem_cons_self
  rcases ((accepted_iff _).1 h.accepted).1 with found | ⟨i, found⟩
  · have found : s.lookup? p = some .item := found
    have item (ρ : Renaming names) := h.lookup_renamed mem found ρ
    refine .of_segments (fun ρ => .inl (item ρ)) (fun ρ => nofun) ?_
    refine (Site.uniform_name (h.known mem) (fun none => none p found) site).congr fun ρ => ?_
    simp [Expr.rename, Visit.segments, item, concat, Segment.text]
  · have found : s.lookup? p = some (.source i) := found
    have source (ρ : Renaming names) := h.lookup_renamed mem found ρ
    refine .of_segments (fun ρ => .inr ⟨i, source ρ⟩) (fun ρ => nofun) ?_
    refine (Uniform.const "").congr fun ρ => ?_
    simp [Expr.rename, Visit.segments, source, concat]

variable {target : Expr} {name : String} {rename : Option String}

theorem memberField (h : Ready s key S K (.member target name rename) site)
    (found : access s target name rename = .member)
    (ih : target.InvariantIn s S K (site.child 0)) :
    (Expr.member target name rename).InvariantIn s S K site := by
  have found' := h.access_member found
  have kind := (h.memberTarget found).kind?_eq
  refine .of_segments (fun ρ => ?_) (fun ρ w step => ?_) ?_
  · simp only [Expr.rename, Visit.Fits, found']
  · simp only [Expr.rename, Visit.next, found', List.mem_singleton] at step
    exact step ▸ ih.accepted ρ
  · simp only [Expr.rename, Visit.segments, found', memberSegments, Scope.lengthName, Scope.fieldWire, kind]
    split
    · simp only [Segment.concat_called, List.map_cons, List.map_nil, Segment.concat_visit]
      exact ((Uniform.const _).append ih.written).append (.const ")")
    · simp only [concat, Segment.text, String.append_empty]
      refine ih.written.append (.of_eq fun ρ => ?_)
      have empty := (ih.written.startsAlike ρ).empty
      simp only [← String.isEmpty_iff, ← Bool.eq_iff_iff] at empty
      rw [← empty]

theorem memberText (h : Ready s key S K (.member target name rename) site) {t : String}
    (found : access s target name rename = .text t) :
    (Expr.member target name rename).InvariantIn s S K site := by
  have of_text {u : Renaming names → String} (uniform : Uniform s.NoItems u) (text : ∀ ρ,
      access (S ρ) (target.rename ρ.map (site.child 0)) name rename = .text (u ρ)) :
      (Expr.member target name rename).InvariantIn s S K site := by
    refine .of_segments (fun ρ => ?_) (fun ρ w step => ?_) (uniform.congr fun ρ => ?_)
    · simp only [Expr.rename, Visit.Fits, text]
    · simp [Expr.rename, Visit.next, text] at step
    · simp only [Expr.rename, Visit.segments, text]
      exact concat_accessSegments (text ρ)
  by_cases item : ∃ p, target = .parameter p ∧ s.lookup? p = some .item
  · obtain ⟨p, rfl, item⟩ := item
    have field : name ≠ "Length" := by
      rintro rfl
      simp [access, item] at found
    have known : p ∈ names := h.known (a := p) List.mem_cons_self
    refine of_text (((Site.uniform_name known (fun none => none p item) site).append (.const "->")).append
      (.const (rename.getD name))) fun ρ => ?_
    rw [h.access_item item ρ, if_pos field]
  · refine of_text (.const t) fun ρ => ?_
    rw [(h.access_eq_or ρ).resolve_left item, found]

theorem memberKey (h : Ready s key S K (.member target name rename) site) {use : KeyUse}
    (found : access s target name rename = .key use) :
    (Expr.member target name rename).InvariantIn s S K site := by
  have item : ¬ ∃ p, target = .parameter p ∧ s.lookup? p = some .item := by
    rintro ⟨p, rfl, item⟩
    simp only [access, item] at found
    split at found <;> cases found
  have found' (ρ : Renaming names) := ((h.access_eq_or ρ).resolve_left item).trans found
  have fits := ((accepted_iff _).1 h.accepted).1
  simp only [Visit.Fits, found] at fits
  obtain ⟨k, es, some, exprs⟩ := fits
  obtain ⟨ds, renamed, parts⟩ := h.keyed k use es some exprs
  have visits (ρ : Renaming names) : ofKey (K ρ) use (S ρ) =
      ds.map fun d => ⟨d.1.rename ρ.map d.2, (S ρ).bind k.bindings, none⟩ := by
    obtain ⟨k', some', bindings, exprs'⟩ := renamed ρ
    simp [ofKey, some', exprs', bindings, Function.comp_def]
  have part {d : Expr × Site} (mem : d ∈ ds) := by
    refine parts d mem S h.scope.toSteady (h.apart'.next ?_)
    have found'' := found' (.refl names)
    rw [Renaming.refl_map, Expr.rename_id] at found''
    simp only [Visit.next, found'', visits (.refl names), List.mem_map]
    exact ⟨d, mem, by simp⟩
  refine .of_segments (fun ρ => ?_) (fun ρ w step => ?_) ?_
  · obtain ⟨k', some', -, exprs'⟩ := renamed ρ
    simp only [Expr.rename, Visit.Fits, found']
    exact ⟨k', _, some', exprs'⟩
  · simp only [Expr.rename, Visit.next, found', visits] at step
    obtain ⟨d, mem, rfl⟩ := List.mem_map.1 step
    exact (part mem).accepted ρ
  · simp only [Expr.rename, Visit.segments, found', visits, Segment.concat_separated, List.map_map,
      Function.comp_def, Segment.concat_visit]
    exact Uniform.join ", " fun d mem => (part mem).written.mono fun _ => trivial

theorem member (h : Ready s key S K (.member target name rename) site)
    (ih : target.Invariant names) :
    (Expr.member target name rename).InvariantIn s S K site := by
  cases found : access s target name rename with
  | text t => exact h.memberText found
  | key use => exact h.memberKey found
  | fault u =>
    have fits := ((accepted_iff _).1 h.accepted).1
    simp [Visit.Fits, found] at fits
  | member => exact h.memberField found (ih (h.memberTarget found))

theorem binary {op : BinaryOp} {left right : Expr} (h : Ready s key S K (.binary op left right) site)
    (ihl : left.Invariant names) (ihr : right.Invariant names) :
    (Expr.binary op left right).InvariantIn s S K site := by
  have side {d : Expr} (i : Nat) (below : d ∈ (Expr.binary op left right).children)
      (next : ∀ s key, ⟨d, s, key⟩ ∈ (Visit.mk (.binary op left right) s key).next) :
      Ready s key S K d (site.child i) :=
    h.step (fun ρ p => Site.name_child ρ p site i) below (next s key) (next _ _)
  have operand {d : Expr} {i : Nat} (parent : BinaryOp) (right : Bool)
      (ih : d.InvariantIn s S K (site.child i)) :
      Uniform s.NoItems fun ρ =>
        concat ((Visit.mk (d.rename ρ.map (site.child i)) (S ρ) (K ρ)).operandSegments parent right) :=
    (BinaryOp.uniform_operandText parent right d ih.written).congr fun ρ => concat_operandSegments _ _ _
  match test : op.nullTest? left right with
  | some false =>
    have invariant := ihl (side 0 (by simp [Expr.children]) (by simp [Visit.next, test]))
    refine .of_segments (fun ρ => trivial) (fun ρ w step => ?_) ?_
    · simp only [Expr.rename, Visit.next, Expr.nullTest?_rename, test, List.mem_singleton] at step
      exact step ▸ invariant.accepted ρ
    · simp only [Expr.rename, Visit.segments, Expr.nullTest?_rename, test, Segment.concat_append]
      exact (operand op false invariant).append (.const _)
  | some true =>
    have invariant := ihr (side 1 (by simp [Expr.children]) (by simp [Visit.next, test]))
    refine .of_segments (fun ρ => trivial) (fun ρ w step => ?_) ?_
    · simp only [Expr.rename, Visit.next, Expr.nullTest?_rename, test, List.mem_singleton] at step
      exact step ▸ invariant.accepted ρ
    · simp only [Expr.rename, Visit.segments, Expr.nullTest?_rename, test, Segment.concat_append]
      exact (operand op false invariant).append (.const _)
  | none =>
    have lhs := ihl (side 0 (by simp [Expr.children]) (by simp [Visit.next, test]))
    have rhs := ihr (side 1 (by simp [Expr.children]) (by simp [Visit.next, test]))
    refine .of_segments (fun ρ => trivial) (fun ρ w step => ?_) ?_
    · simp only [Expr.rename, Visit.next, Expr.nullTest?_rename, test, List.mem_cons,
        List.not_mem_nil, or_false] at step
      rcases step with rfl | rfl
      · exact lhs.accepted ρ
      · exact rhs.accepted ρ
    · simp only [Expr.rename, Visit.segments, Expr.nullTest?_rename, test]
      split
      · simp only [Segment.concat_append, concat, Segment.text]
        exact (operand op false lhs).append
          ((Uniform.const "[").append (rhs.written.append (.const _)))
      · simp only [Segment.concat_append, concat, Segment.text]
        exact (operand op false lhs).append ((Uniform.const _).append (operand op true rhs))

theorem unary {op : UnaryOp} {operand : Expr} (h : Ready s key S K (.unary op operand) site)
    (ih : operand.Invariant names) :
    (Expr.unary op operand).InvariantIn s S K site := by
  have ready : Ready s key S K operand (site.child 0) := h.step (fun ρ p => Site.name_child ρ p site 0)
    List.mem_cons_self List.mem_cons_self List.mem_cons_self
  have invariant := ih ready
  refine .of_segments (fun ρ => trivial) (fun ρ w step => ?_) ?_
  · exact List.mem_singleton.1 step ▸ invariant.accepted ρ
  · have wrap (ρ : Renaming names) := Expr.needsParens_rename_unary ρ.map operand (site.child 0) op
      (invariant.written.startsAlike ρ).sign.symm
    simp only [Expr.rename, Visit.segments, wrap, concat, Segment.text, Segment.concat_enclosed,
      String.append_empty]
    refine (Uniform.const _).append ?_
    split
    · exact invariant.written.parens
    · exact invariant.written

theorem new {typeName : Option String} {members : List (String × Expr)}
    (h : Ready s key S K (.new typeName members) site) (ih : ∀ m ∈ members, m.2.Invariant names) :
    (Expr.new typeName members).InvariantIn s S K site := by
  have invariant {d : (String × Expr) × Site} (mem : d ∈ site.placed id members) :=
    have inside := Site.mem_of_placed mem
    ih d.1 inside (h.step (fun ρ p => Site.name_placed ρ p (fun _ => rfl) mem)
      (List.mem_map_of_mem inside) (List.mem_map_of_mem inside) (List.mem_map_of_mem inside))
  refine .of_segments (fun ρ => trivial) (fun ρ w step => ?_) ?_
  · simp only [Expr.rename, Visit.next, Expr.renameMembers_eq_map, List.map_map, List.mem_map] at step
    obtain ⟨d, mem, rfl⟩ := step
    exact (invariant mem).accepted ρ
  · simp only [Expr.rename, Visit.segments, Expr.renameMembers_eq_map, List.map_map,
      Segment.concat_called, Function.comp_def, concat, Segment.text, String.append_empty]
    exact Uniform.call _ fun d mem => (Uniform.const _).append (invariant mem).written

theorem arrayItem {items : List Expr} (h : Ready s key S K (.array items) site)
    (ih : ∀ e ∈ items, e.Invariant names) {d : Expr × Site} (mem : d ∈ site.placed id items) :
    d.1.InvariantIn s S K d.2 :=
  have inside := Site.mem_of_placed mem
  ih d.1 inside (h.step (fun ρ p => Site.name_placed ρ p (fun _ => rfl) mem) inside
    (List.mem_map_of_mem inside) (List.mem_map_of_mem inside))

theorem array {items : List Expr} (h : Ready s key S K (.array items) site)
    (ih : ∀ e ∈ items, e.Invariant names) :
    (Expr.array items).InvariantIn s S K site := by
  have invariant {d : Expr × Site} (mem : d ∈ site.placed id items) := h.arrayItem ih mem
  refine .of_segments (fun ρ => trivial) (fun ρ w step => ?_) ?_
  · simp only [Expr.rename, Visit.next, Expr.renameItems_eq_map, List.map_map, List.mem_map] at step
    obtain ⟨d, mem, rfl⟩ := step
    exact (invariant mem).accepted ρ
  · have isEmpty : (site.placed id items).isEmpty = items.isEmpty := by cases items <;> rfl
    simp only [Expr.rename, Visit.segments, Expr.renameItems_eq_map, List.isEmpty_map, isEmpty]
    split
    · exact .const _
    · simp only [List.map_map, Function.comp_def, List.cons_append, concat, Segment.concat_append,
        Segment.concat_separated, Segment.text, String.append_empty]
      exact (Uniform.const _).append ((Uniform.join ", " fun d mem =>
        (invariant mem).written).append (.const "]"))

theorem map {entries : List (Expr × Expr)} (h : Ready s key S K (.map entries) site)
    (ih : ∀ m ∈ entries, m.1.Invariant names ∧ m.2.Invariant names) :
    (Expr.map entries).InvariantIn s S K site := by
  have below {d : (Expr × Expr) × Site} (mem : d ∈ site.placed id entries) (i : Nat) {e : Expr}
      (part : e ∈ [d.1.1, d.1.2]) : Ready s key S K e (d.2.child i) := by
    have inside := Site.mem_of_placed mem
    have visit (s : Scope) (key : Option GroupKey) :
        ⟨e, s, key⟩ ∈ (Visit.mk (.map entries) s key).next :=
      List.mem_flatMap.2 ⟨d.1, inside, by simpa using part⟩
    exact h.step (fun ρ p => by rw [Site.name_child, Site.name_placed ρ p (fun _ => rfl) mem])
      (List.mem_flatMap.2 ⟨d.1, inside, part⟩) (visit _ _) (visit _ _)
  have invariant {d : (Expr × Expr) × Site} (mem : d ∈ site.placed id entries) :=
    have entry := ih d.1 (Site.mem_of_placed mem)
    And.intro (entry.1 (below mem 0 (by simp))) (entry.2 (below mem 1 (by simp)))
  refine .of_segments (fun ρ => trivial) (fun ρ w step => ?_) ?_
  · simp only [Expr.rename, Visit.next, Expr.renameEntries_eq_map, List.flatMap_map, List.mem_flatMap,
      List.mem_cons, List.not_mem_nil, or_false] at step
    obtain ⟨d, mem, rfl | rfl⟩ := step
    · exact (invariant mem).1.accepted ρ
    · exact (invariant mem).2.accepted ρ
  · simp only [Expr.rename, Visit.segments, Expr.renameEntries_eq_map, List.map_map,
      Segment.concat_called, Function.comp_def, concat, Segment.text, String.append_empty]
    exact Uniform.call _ fun d mem => (invariant mem).1.written.append
      ((Uniform.const _).append (invariant mem).2.written)

end Ready

def Expr.Hereditary (names : List String) (e : Expr) : Prop :=
  e.Invariant names ∧ ∀ d ∈ e.children, d.Invariant names

section

variable {e : Expr}

theorem Scope.NoItems.bind (h : s.NoItems) {bs : List (String × Binding)}
    (rows : ∀ b ∈ bs, b.2 ≠ .item) : (s.bind bs).NoItems := by
  intro p found
  rcases Scope.lookup?_bind_eq_some found with mem | found
  · exact rows _ mem rfl
  · exact h p found

theorem bound_invariant (scope : s.Renamed S site) (ne : site ≠ .here)
    (keyed : KeyRenamed s.sources key K) (known : e.names ⊆ names) {bs : List Binding}
    (rows : ∀ b ∈ bs, b ≠ .item) (accepted : (bound key bs s e).Accepted)
    (apart : (bound key bs s e).KindsApart)
    (apart' : (bound (K (.refl names)) bs (S (.refl names)) e).KindsApart)
    (ih : e.Hereditary names) :
    Visit.Invariant s.NoItems fun ρ => bound (K ρ) bs (S ρ) (e.rename ρ.map site) := by
  cases e with
  | lambda ps body =>
    by_cases few : bs.length < ps.length
    · rw [bound, if_pos few] at accepted
      exact absurd accepted (not_accepted_lambda _ _)
    · have below : body ∈ (Expr.lambda ps body).children := List.mem_cons_self
      simp only [bound, few, if_false] at accepted apart apart'
      have ready : Ready (s.bind (ps.zip bs)) key (fun ρ => (S ρ).bind (ps.zip bs)) K body
          (site.body ps) := {
        scope := scope.bind ne (List.Subset.trans (List.subset_append_left _ _) known)
          (.inl (Nat.le_of_not_lt few)) rows
        keyed := keyed
        known := List.Subset.trans (Expr.names_children below) known
        accepted := accepted
        apart := apart
        apart' := apart' }
      have invariant := ih.2 body below ready
      simp only [Expr.rename, Site.params_eq ne, bound, few, if_false]
      exact ⟨invariant.accepted, invariant.written.mono fun none =>
        none.bind fun b mem => rows _ (List.of_mem_zip mem).2⟩
  | _ => exact ih.1 ⟨scope, keyed, known, accepted, apart, apart'⟩

theorem ofItem_invariant (scope : s.Renamed S site) (keyed : KeyRenamed s.sources key K)
    (known : e.names ⊆ names) {kind : Option TypeKind} (accepted : (ofItem key kind s e).Accepted)
    (apart : (ofItem key kind s e).KindsApart)
    (apart' : (ofItem (K (.refl names)) kind (S (.refl names)) e).KindsApart)
    (own : ∀ ps body, e = .lambda ps body →
      s.Apart ps kind ∧ (S (.refl names)).Apart ps kind)
    (ih : e.Hereditary names) :
    (∀ ρ, (ofItem (K ρ) kind (S ρ) (e.rename ρ.map site)).Accepted) ∧
      Uniform s.NoItems fun ρ => concat (itemSegments (K ρ) kind (S ρ) (e.rename ρ.map site)) := by
  cases e with
  | lambda ps body =>
    have below : body ∈ (Expr.lambda ps body).children := List.mem_cons_self
    have bound : ps ⊆ names := List.Subset.trans (List.subset_append_left _ _) known
    obtain ⟨own, own'⟩ := own ps body rfl
    have ready : Ready (s.items ps kind) key (fun ρ => (S ρ).items (site.params ρ.map ps) kind) K body
        (site.body ps) := {
      scope := scope.items bound own own'
      keyed := by
        rw [Scope.sources_items]
        exact keyed
      known := List.Subset.trans (Expr.names_children below) known
      accepted := accepted
      apart := apart
      apart' := by
        rw [Renaming.refl_map, Site.params_id]
        exact apart' }
    have invariant := ih.2 body below ready
    refine ⟨invariant.accepted, ?_⟩
    simp only [Expr.rename, concat_itemSegments_lambda]
    refine .lambda ((Uniform.const "(").append ?_) (invariant.written.mono False.elim)
    simp only [Site.params_eq_map]
    exact Uniform.join ", " fun p mem => Site.uniform_name (bound mem) id _
  | _ =>
    have invariant := ih.1 ⟨scope, keyed, known, accepted, apart, apart'⟩
    refine ⟨invariant.accepted, invariant.written.congr fun ρ => ?_⟩
    exact Segment.concat_visit _

end

end StreamSql
