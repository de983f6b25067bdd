import StreamSql.Proofs.Expr.InvariantCall
import StreamSql.Proofs.Query.Rename
import StreamSql.Proofs.Query.Segment

namespace StreamSql

open Segment (concat separated)
open Text (Renaming Template Uniform)
open Visit

variable {names : List String}

structure Scope.Bare (s : Scope) : Prop where
  bindings : s.bindings = []
  itemKinds : s.itemKinds = []

namespace Scope.Bare

variable {s : Scope} {S : Renaming names → Scope}

theorem lookup? (h : s.Bare) (p : String) : s.lookup? p = none := by
  rw [Scope.lookup?, h.bindings]
  rfl

theorem itemKind? (h : s.Bare) (p : String) : s.itemKind? p = none := by
  rw [Scope.itemKind?, h.itemKinds]
  rfl

theorem noItems (h : s.Bare) : s.NoItems := fun p found => absurd ((h.lookup? p).symm.trans found) nofun

theorem renamed (h : s.Bare) (steady : Scope.Steady s.sources S) (site : Site) : s.Renamed S site where
  toSteady := steady
  lookup _ p _ _ found := absurd ((h.lookup? p).symm.trans found) nofun
  kind _ p _ found := absurd ((h.lookup? p).symm.trans found) nofun

theorem steady (h : s.Bare) : Scope.Steady s.sources fun _ : Renaming names => s where
  sources _ := rfl
  style _ := rfl
  quiet ρ p _ _ := ⟨h.itemKind? p, h.itemKind? (ρ.map p)⟩

end Scope.Bare

namespace GroupKey

variable {k : GroupKey} {s : Scope} {site : Site}

theorem findMember?_rename {name : String} {members : List (String × Expr)} {e : Expr}
    (found : findMember? name members = some e) (site : Site) :
    ∃ site' : Site, (∀ ρ p, site'.name ρ p = site.name ρ p) ∧
      ∀ ρ, findMember? name (Expr.renameMembers ρ site members) = some (e.rename ρ site') := by
  induction members generalizing site with
  | nil => cases found
  | cons m ms ih =>
    simp only [findMember?] at found
    split at found
    · next same =>
      obtain rfl := Option.some.inj found
      exact ⟨site.child 0, by simp, fun ρ => by simp [Expr.renameMembers, findMember?, same]⟩
    · next other =>
      obtain ⟨site', name', renamed⟩ := ih found (site.child 1)
      refine ⟨site', fun ρ p => by rw [name', Site.name_child], fun ρ => ?_⟩
      simp [Expr.renameMembers, findMember?, other, renamed]

theorem exprs?_rename {use : KeyUse} {es : List Expr} (exprs : k.exprs? use = some es) (site : Site) :
    ∃ ds : List (Expr × Site), ds.map Prod.fst = es ∧
      (∀ d ∈ ds, ∀ ρ p, d.2.name ρ p = site.name ρ p) ∧
      ∀ ρ, (mk k.bindings (k.body.rename ρ site)).exprs? use =
        some (ds.map fun d => d.1.rename ρ d.2) := by
  obtain ⟨bindings, body⟩ := k
  cases use with
  | whole =>
    obtain rfl := Option.some.inj exprs
    cases body with
    | new typeName members =>
      refine ⟨(site.placed id members).map fun d => (d.1.2, d.2), ?_, fun d mem ρ p => ?_, fun ρ => ?_⟩
      · exact List.map_map.trans (Site.map_placed fun m _ site => rfl)
      · obtain ⟨d, inside, rfl⟩ := List.mem_map.1 mem
        exact Site.name_placed (d := d) ρ p (fun _ => rfl) inside
      · simp [exprs?, Expr.rename, Expr.keyParts, Expr.renameMembers_eq_map, Function.comp_def]
    | _ => exact ⟨[(_, site)], rfl, by simp, fun ρ => rfl⟩
  | part name =>
    cases body with
    | new typeName members =>
      obtain ⟨e, found, rfl⟩ := Option.map_eq_some_iff.1 exprs
      obtain ⟨site', name', renamed⟩ := findMember?_rename found site
      refine ⟨[(e, site')], rfl, by simpa using name', fun ρ => ?_⟩
      simp [exprs?, Expr.rename, renamed]
    | _ => cases exprs

theorem ofExpr_rename {e : Expr} {rows : List Binding} (bare : s.Bare) (ne : site ≠ .here)
    (known : e.names ⊆ names) (sources : ∀ b ∈ rows, b ≠ .item) :
    ∃ site' : Site, (∀ ρ, ofExpr rows (e.rename ρ site) =
        mk (ofExpr rows e).bindings ((ofExpr rows e).body.rename ρ site')) ∧
      ∀ S : Renaming names → Scope, Scope.Steady s.sources S →
        (s.bind (ofExpr rows e).bindings).Renamed (fun ρ => (S ρ).bind (ofExpr rows e).bindings)
          site' := by
  have folded : e.fold.names ⊆ names := List.Subset.trans (Expr.names_fold e) known
  simp only [ofExpr, Expr.fold_rename]
  cases same : e.fold with
  | lambda ps body =>
    rw [same] at folded
    refine ⟨site.body ps, fun ρ => ?_, fun S steady => ?_⟩
    · simp only [Expr.rename, Site.params_eq ne]
    · exact (bare.renamed steady site).bind ne (List.Subset.trans (List.subset_append_left _ _) folded)
        (.inr bare.lookup?) sources
  | _ => exact ⟨site, fun ρ => rfl, fun S steady => bare.renamed steady site⟩

theorem names_ofExpr (rows : List Binding) (e : Expr) : (ofExpr rows e).body.names ⊆ e.names := by
  refine List.Subset.trans ?_ (Expr.names_fold e)
  unfold ofExpr
  split
  · next same =>
    rw [same]
    exact List.subset_append_right _ _
  · exact List.Subset.refl _

end GroupKey

theorem Expr.names_keyParts {e d : Expr} (mem : d ∈ e.keyParts) : d.names ⊆ e.names := by
  cases e with
  | new typeName members => exact names_children mem
  | _ =>
    obtain rfl := List.mem_singleton.1 mem
    exact List.Subset.refl _

theorem keyRenamed_none (sources : List ScopeSource) (K : Renaming names → Option GroupKey) :
    KeyRenamed sources none K := nofun

theorem keyRenamed_ofExpr {s : Scope} {site : Site} {e : Expr} {rows : List Binding} (bare : s.Bare)
    (ne : site ≠ .here) (known : e.names ⊆ names) (sources : ∀ b ∈ rows, b ≠ .item)
    (fine : ∀ v ∈ ofKey (some (.ofExpr rows e)) .whole s, v.Accepted ∧ v.KindsApart) :
    KeyRenamed s.sources (some (.ofExpr rows e)) fun ρ : Renaming names =>
      some (.ofExpr rows (e.rename ρ.map site)) := by
  intro k use es same exprs
  obtain rfl := Option.some.inj same
  obtain ⟨site', renamed, scopes⟩ := GroupKey.ofExpr_rename bare ne known sources
  obtain ⟨ds, fst, name, exprs'⟩ := GroupKey.exprs?_rename exprs site'
  refine ⟨ds, fun ρ => ⟨_, rfl, by rw [renamed], by rw [renamed, exprs']⟩, fun d mem S steady apart' => ?_⟩
  have part : d.1 ∈ (GroupKey.ofExpr rows e).body.keyParts :=
    GroupKey.mem_keyParts exprs (fst ▸ List.mem_map_of_mem mem)
  obtain ⟨accepted, apart⟩ := fine ⟨d.1, s.bind (GroupKey.ofExpr rows e).bindings, none⟩
    (List.mem_map_of_mem part)
  have ready : Ready (s.bind (GroupKey.ofExpr rows e).bindings) none
      (fun ρ => (S ρ).bind (GroupKey.ofExpr rows e).bindings) (fun _ => none) d.1 d.2 := {
    scope := (scopes S steady).of_name fun ρ p => name d mem ρ p
    keyed := keyRenamed_none _ _
    known := List.Subset.trans (Expr.names_keyParts part)
      (List.Subset.trans (GroupKey.names_ofExpr rows e) known)
    accepted := accepted
    apart := apart
    apart' := apart' }
  have invariant := d.1.hereditary.1 ready
  exact ⟨invariant.accepted, invariant.written.mono fun _ => bare.noItems.bind fun b mem =>
    sources _ (Clauses.bindings_ofExpr mem)⟩

def Expr.columns : Expr → List String
  | .lambda _ (.new _ members) => members.map Prod.fst
  | _ => []

structure ClauseInvariant (V : Renaming names → List Visit) (L : Renaming names → List Segment) :
    Prop where
  accepted : ∀ ρ, ∀ v ∈ V ρ, v.Accepted
  written : Uniform True fun ρ => concat (L ρ)

theorem Visit.Invariant.clause {X : Renaming names → Visit} (h : Visit.Invariant True X) :
    ClauseInvariant (fun ρ => [X ρ]) fun ρ => [.visit (X ρ)] where
  accepted ρ _ mem := List.mem_singleton.1 mem ▸ h.accepted ρ
  written := h.written.congr fun _ => Segment.concat_visit _

structure Keyed (s : Scope) (key : Option GroupKey) (K : Renaming names → Option GroupKey) :
    Prop where
  bare : s.Bare
  first : K (.refl names) = key
  renamed : KeyRenamed s.sources key K

namespace Keyed

variable {s : Scope} {key : Option GroupKey} {K : Renaming names → Option GroupKey} {bs : List Binding}

section

variable {e : Expr}

theorem bound (h : Keyed s key K) (site : Site) (i : Nat) (known : e.names ⊆ names)
    (rows : ∀ b ∈ bs, b ≠ .item)
    (fine : (Visit.bound key bs s e.fold).Accepted ∧ (Visit.bound key bs s e.fold).KindsApart) :
    Visit.Invariant True fun ρ => Visit.bound (K ρ) bs s (e.rename ρ.map (site.child i)).fold := by
  have apart := fine.2
  rw [← h.first] at apart
  have invariant := bound_invariant (h.bare.renamed h.bare.steady (site.child i))
    (Site.child_ne_here site i) h.renamed (List.Subset.trans (Expr.names_fold e) known) rows fine.1 fine.2 apart
    e.fold.hereditary
  simp only [Expr.fold_rename]
  exact ⟨invariant.accepted, invariant.written.mono fun _ => h.bare.noItems⟩

end

theorem isOr_rename (e : Expr) (ρ : String → String) (site : Site) :
    (e.rename ρ site).lambdaBody.isOr = e.lambdaBody.isOr := by
  have isOr (e : Expr) (site : Site) : (e.rename ρ site).isOr = e.isOr := by
    cases e with
    | binary op left right => cases op <;> rfl
    | _ => rfl
  cases e with
  | lambda ps body => exact isOr body _
  | _ => exact isOr _ site

theorem conditions (h : Keyed s key K) (head : String) {ds : List (Expr × Site)}
    (known : ∀ d ∈ ds, d.1.names ⊆ names) (rows : ∀ b ∈ bs, b ≠ .item)
    (fine : ∀ v ∈ (ds.map Prod.fst).map fun e => Visit.bound key bs s e.fold,
      v.Accepted ∧ v.KindsApart) :
    ClauseInvariant
      (fun ρ => (ds.map fun d => d.1.rename ρ.map (d.2.child 0)).map fun e =>
        Visit.bound (K ρ) bs s e.fold)
      fun ρ => conditionsSegments head (K ρ) bs s (ds.map fun d => d.1.rename ρ.map (d.2.child 0)) := by
  rw [List.map_map, List.forall_mem_map] at fine
  have invariant {d : Expr × Site} (mem : d ∈ ds) := h.bound d.2 0 (known d mem) rows (fine d mem)
  constructor
  · intro ρ
    rw [List.map_map, List.forall_mem_map]
    exact fun d mem => (invariant mem).accepted ρ
  · have condition : ∀ d ∈ ds, Uniform True fun ρ =>
        concat (conditionSegments (K ρ) bs s (d.1.rename ρ.map (d.2.child 0))) := by
      intro d mem
      simp only [conditionSegments, Segment.concat_enclosed, Segment.concat_visit]
      have same (ρ : Renaming names) : (d.1.rename ρ.map (d.2.child 0)).fold.lambdaBody.isOr =
          d.1.fold.lambdaBody.isOr := by
        rw [Expr.fold_rename, isOr_rename]
      simp only [same]
      split
      · exact (invariant mem).written.parens
      · exact (invariant mem).written
    simp only [conditionsSegments, List.isEmpty_map]
    split
    · exact .const ""
    · simp only [concat, Segment.text, Segment.concat_joined, List.map_map]
      exact (Uniform.const head).append (Uniform.join " AND " condition)

theorem joins (h : Keyed s none fun _ : Renaming names => none) {ds : List (Join × Site)} {index : Nat}
    {sources : List ScopeSource}
    (known : ∀ d ∈ ds, d.1.outerKey.names ⊆ names ∧ d.1.innerKey.names ⊆ names)
    (fine : ∀ v ∈ ofJoins s index sources (ds.map Prod.fst), v.Accepted ∧ v.KindsApart) :
    ClauseInvariant (fun ρ : Renaming names => ofJoins s index sources (ds.map fun d => d.1.rename ρ.map d.2))
      fun ρ => joinSegments s index sources (ds.map fun d => d.1.rename ρ.map d.2) := by
  induction ds generalizing index sources with
  | nil => cases sources <;> exact ⟨fun ρ => List.forall_mem_nil _, .const ""⟩
  | cons d ds ih =>
    cases sources with
    | nil => exact ⟨fun ρ => List.forall_mem_nil _, .const ""⟩
    | cons source sources =>
      simp only [List.map_cons, ofJoins, List.forall_mem_cons] at fine
      obtain ⟨outer, inner⟩ := known d List.mem_cons_self
      have outer := h.bound d.2 0 outer (by simp) fine.1
      have inner := h.bound d.2 1 inner (by simp) fine.2.1
      have rest := ih (fun d mem => known d (List.mem_cons_of_mem _ mem)) fine.2.2
      constructor
      · intro ρ
        simp only [List.map_cons, ofJoins, List.forall_mem_cons]
        exact ⟨outer.accepted ρ, inner.accepted ρ, rest.accepted ρ⟩
      · simp only [List.map_cons, joinSegments, Segment.concat_append, concat, Segment.text,
          String.append_empty]
        have condition := outer.written.append ((Uniform.const " = ").append inner.written)
        exact ((Uniform.const (joinHead source d.1)).append condition).append rest.written

theorem column {name : String} (plain : '>' ∉ name.toList) {e : Expr} {site : Site}
    {S : Renaming names → Scope}
    (h : Visit.Invariant True fun ρ => ⟨e.rename ρ.map site, S ρ, K ρ⟩) :
    Uniform True fun ρ => concat ((Visit.mk (e.rename ρ.map site) (S ρ) (K ρ)).columnSegments name) := by
  have label (ρ : Renaming names) : (e.rename ρ.map site).aliasText name = e.aliasText name := by
    cases e <;> rfl
  simp only [concat_columnSegments, projectedColumn_eq, label, h.written.eq_iff plain]
  split
  · exact h.written
  · exact h.written.append (.const _)

theorem columns {ds : List ((String × Expr) × Site)} {S : Renaming names → Scope}
    (plain : ∀ d ∈ ds, '>' ∉ d.1.1.toList)
    (h : ∀ d ∈ ds, Visit.Invariant True fun ρ => ⟨d.1.2.rename ρ.map d.2, S ρ, K ρ⟩) :
    Uniform True fun ρ => concat (separated
      (((ds.map fun d => (d.1.1, d.1.2.rename ρ.map d.2)).filter fun m =>
        (Visit.mk m.2 (S ρ) (K ρ)).written ≠ "").map fun m =>
          (Visit.mk m.2 (S ρ) (K ρ)).columnSegments m.1)) := by
  -- A column is left out under all renamings or under none.
  have shown (ρ : Renaming names) : (ds.filter fun d =>
        (Visit.mk (d.1.2.rename ρ.map d.2) (S ρ) (K ρ)).written ≠ "") =
      ds.filter fun d => (Visit.mk (d.1.2.rename (Renaming.refl names).map d.2) (S (.refl names))
        (K (.refl names))).written ≠ "" := by
    refine List.filter_congr fun d mem => ?_
    exact decide_eq_decide.2 (not_congr ((h d mem).written.startsAlike ρ).empty.symm)
  simp only [List.filter_map, List.map_map, Segment.concat_separated, Function.comp_def, shown]
  refine Uniform.join ", " fun d mem => ?_
  have inside := List.mem_of_mem_filter mem
  exact column (plain d inside) (h d inside)

theorem projection (h : Keyed s key K) {e : Expr} {site : Site} (ne : site ≠ .here)
    (known : e.names ⊆ names) (rows : ∀ b ∈ bs, b ≠ .item)
    (plain : ∀ name ∈ e.columns, '>' ∉ name.toList)
    (fine : ∀ v ∈ ofProjection key bs s e, v.Accepted ∧ v.KindsApart) :
    ClauseInvariant (fun ρ => ofProjection (K ρ) bs s (e.rename ρ.map site))
      fun ρ => projectionSegments (K ρ) bs s (e.rename ρ.map site) := by
  have written {e : Expr} {site : Site} {s' : Scope} (scope : s'.Renamed (fun _ : Renaming names => s') site)
      (same : s'.sources = s.sources) (none : s'.NoItems) (known : e.names ⊆ names)
      (fine : (Visit.mk e s' key).Accepted ∧ (Visit.mk e s' key).KindsApart) :
      Visit.Invariant True fun ρ => ⟨e.rename ρ.map site, s', K ρ⟩ := by
    have apart := fine.2
    rw [← h.first] at apart
    have invariant := e.hereditary.1 ⟨scope, same ▸ h.renamed, known, fine.1, fine.2, apart⟩
    exact ⟨invariant.accepted, invariant.written.mono fun _ => none⟩
  have base (site : Site) : s.Renamed (fun _ : Renaming names => s) site :=
    h.bare.renamed h.bare.steady site
  cases e with
  | lambda ps body =>
    have scope := (base site).bind ne (List.Subset.trans (List.subset_append_left _ _) known)
      (.inr h.bare.lookup?) rows
    have none : (s.bind (ps.zip bs)).NoItems := h.bare.noItems.bind fun b mem => rows _ (List.of_mem_zip mem).2
    have inside : body.names ⊆ names := List.Subset.trans (List.subset_append_right _ _) known
    cases body with
    | new typeName members =>
      simp only [Expr.rename, Site.params_eq ne, ofProjection, projectionSegments,
        Expr.renameMembers_eq_map]
      have members_at : ∀ d ∈ (site.body ps).placed id members, Visit.Invariant True fun ρ =>
          ofMember (K ρ) (s.bind (ps.zip bs)) (d.1.2.rename ρ.map d.2) := by
        intro d mem
        have member := Site.mem_of_placed mem
        have at_site := scope.of_name fun ρ p => Site.name_placed ρ p (fun _ => rfl) mem
        refine written ⟨?_, at_site.lookup, at_site.kind⟩ rfl none ?_ (fine _ (List.mem_map_of_mem member))
        · exact ⟨fun _ => rfl, fun _ => rfl, at_site.quiet⟩
        · exact List.Subset.trans (Expr.names_children (List.mem_map_of_mem member)) inside
      constructor
      · intro ρ
        simp only [List.map_map, List.forall_mem_map]
        exact fun d mem => (members_at d mem).accepted ρ
      · refine columns (fun d mem => plain _ (List.mem_map_of_mem (Site.mem_of_placed mem))) members_at
    | _ =>
      simp only [Expr.rename, Site.params_eq ne, ofProjection, projectionSegments]
      exact (written scope rfl none inside (fine _ List.mem_cons_self)).clause
  | _ => exact (written (base site) rfl h.bare.noItems known (fine _ List.mem_cons_self)).clause

end Keyed

namespace Clauses

def columns (c : Clauses) : List String :=
  (c.projection [] []).elim [] fun p => p.1.fold.columns

def Fine (c : Clauses) (sources : List ScopeSource) (s : Scope) : Prop :=
  ∀ place, ∀ v ∈ c.visits sources s place, v.Accepted ∧ v.KindsApart

theorem ne_item_of_mem_rowBindings {sources : List ScopeSource} {b : Binding}
    (mem : b ∈ rowBindings sources) : b ≠ .item := by
  obtain ⟨i, -, rfl⟩ := List.mem_map.1 mem
  nofun

theorem ne_item_of_mem_groupRows {c : Clauses} {sources : List ScopeSource} {b : Binding}
    (mem : b ∈ c.groupRows sources) : b ≠ .item := by
  unfold groupRows at mem
  split at mem
  · obtain rfl := List.mem_singleton.1 mem
    nofun
  · exact ne_item_of_mem_rowBindings mem

theorem projection_eq_some {c : Clauses} {rows all : List Binding} {p : Expr × List Binding}
    (chosen : c.projection rows all = some p) :
    p.1 ∈ c.exprs ∧ (p.2 = rows ∨ p.2 = all) ∧ c.projection [] [] = some (p.1, []) := by
  unfold projection at chosen ⊢
  split at chosen
  · next e _ select =>
    obtain rfl := Option.some.inj chosen
    exact ⟨by simp [exprs, select], .inl rfl, rfl⟩
  · next j _ last =>
    obtain rfl := Option.some.inj chosen
    have join : j.result ∈ c.joins.flatMap fun j => [j.outerKey, j.innerKey, j.result] :=
      List.mem_flatMap.2 ⟨j, List.mem_of_getLast? last, by simp⟩
    exact ⟨by simp [exprs, join], .inr rfl, rfl⟩
  · cases chosen

namespace Renamed

variable {c : Clauses} {C : Renaming names → Clauses} {sources : List ScopeSource} {s : Scope}

section

variable (R : c.Renamed C)

include R

theorem projection : ∃ site : Site, site ≠ .here ∧ ∀ ρ rows all, (C ρ).projection rows all =
    (c.projection rows all).map fun p => (p.1.rename ρ.map site, p.2) := by
  obtain ⟨site, select⟩ := R.select
  obtain ⟨ds, joins, renamed⟩ := R.joins
  simp only [Clauses.projection, select, joins, renamed, List.getLast?_map]
  cases c.select with
  | some e => exact ⟨site.child 0, Site.child_ne_here site 0, fun ρ rows all => rfl⟩
  | none =>
    cases ds.getLast? with
    | some d => exact ⟨d.2.child 2, Site.child_ne_here d.2 2, fun ρ rows all => rfl⟩
    | none => exact ⟨.toward [], by simp, fun ρ rows all => rfl⟩

theorem groupRows (ρ : Renaming names) : (C ρ).groupRows sources = c.groupRows sources := by
  obtain ⟨site, groupBy⟩ := R.groupBy
  simp only [Clauses.groupRows, groupBy, Option.isSome_map]

variable (bare : s.Bare) (fine : c.Fine sources s)

include bare fine

theorem keyed : Keyed s (c.groupKey sources) fun ρ => (C ρ).groupKey sources := by
  obtain ⟨site, groupBy⟩ := R.groupBy
  have parts := fine .groupBy
  simp only [Clauses.groupKey, groupBy, Clauses.visits] at parts ⊢
  cases key : c.groupBy with
  | none => exact ⟨bare, rfl, keyRenamed_none _ _⟩
  | some e =>
    rw [key] at parts
    have known := R.known e (by simp [exprs, key])
    exact ⟨bare, by simp, keyRenamed_ofExpr bare (Site.child_ne_here site 0) known
      (fun b => ne_item_of_mem_rowBindings) parts⟩

theorem grouped_invariant : ClauseInvariant (fun ρ => (C ρ).visits sources s .groupBy)
    fun ρ => (C ρ).groupedSegments sources s := by
  have keyed := R.keyed bare fine
  have parts := fine .groupBy
  obtain ⟨site, groupBy⟩ := R.groupBy
  have isSome (ρ : Renaming names) : (C ρ).groupBy.isSome = c.groupBy.isSome := by
    rw [groupBy, Option.isSome_map]
  simp only [groupedSegments, isSome]
  cases key : c.groupKey sources with
  | none =>
    have ungrouped : c.groupBy = none := Option.map_eq_none_iff.1 key
    simp only [Clauses.visits, Clauses.groupKey, groupBy, ungrouped]
    exact ⟨fun ρ => List.forall_mem_nil _, .const ""⟩
  | some k =>
    have visits := keyed.renamed
    simp only [Clauses.visits, key] at parts visits ⊢
    obtain ⟨ds, images, invariant⟩ := visits k .whole _ rfl rfl
    have visits (ρ : Renaming names) : ofKey ((C ρ).groupKey sources) .whole s =
        ds.map fun d => ⟨d.1.rename ρ.map d.2, s.bind k.bindings, none⟩ := by
      obtain ⟨k', some', bindings, exprs'⟩ := images ρ
      simp [ofKey, some', exprs', bindings, Function.comp_def]
    have part {d : Expr × Site} (mem : d ∈ ds) := by
      refine invariant d mem (fun _ => s) bare.steady (parts _ ?_).2
      have first := visits (.refl names)
      rw [keyed.first, key] at first
      rw [first]
      exact List.mem_map.2 ⟨d, mem, by simp⟩
    simp only [visits]
    constructor
    · intro ρ
      rw [List.forall_mem_map]
      exact fun d mem => (part mem).accepted ρ
    · split
      · simp only [concat, Segment.text, Segment.concat_separated, List.map_map, Function.comp_def,
          String.append_empty]
        exact (Uniform.const " GROUP BY ").append (Uniform.join ", " fun d mem => (part mem).written)
      · exact .const ""

theorem filters_invariant : ClauseInvariant (fun ρ => (C ρ).visits sources s .filter)
    fun ρ => conditionsSegments "\nWHERE " none (rowBindings sources) s (C ρ).filters := by
  obtain ⟨ds, filters, renamed⟩ := R.filters
  have parts := fine .filter
  simp only [Clauses.visits, filters, renamed] at parts ⊢
  refine Keyed.conditions ⟨bare, rfl, keyRenamed_none _ _⟩ "\nWHERE " (fun d mem => ?_)
    (fun b => ne_item_of_mem_rowBindings) parts
  exact R.known d.1 (by simp [exprs, filters, List.mem_map_of_mem mem])

theorem having_invariant : ClauseInvariant (fun ρ => (C ρ).visits sources s .having) fun ρ =>
    conditionsSegments " HAVING " ((C ρ).groupKey sources) ((C ρ).groupRows sources) s (C ρ).having := by
  have keyed := R.keyed bare fine
  obtain ⟨ds, having, renamed⟩ := R.having
  have parts := fine .having
  simp only [Clauses.visits, having, renamed, R.groupRows] at parts ⊢
  refine keyed.conditions " HAVING " (fun d mem => ?_) (fun b => ne_item_of_mem_groupRows) parts
  exact R.known d.1 (by simp [exprs, having, List.mem_map_of_mem mem])

theorem joins_invariant : ClauseInvariant (fun ρ => (C ρ).visits sources s .join) fun ρ =>
    joinSegments s 1 (sources.drop 1) (C ρ).joins := by
  obtain ⟨ds, joins, renamed⟩ := R.joins
  have parts := fine .join
  simp only [Clauses.visits, joins, renamed] at parts ⊢
  refine Keyed.joins ⟨bare, rfl, keyRenamed_none _ _⟩ (fun d mem => ?_) parts
  have known {e : Expr} (part : e ∈ [d.1.outerKey, d.1.innerKey, d.1.result]) : e.names ⊆ names := by
    have join : d.1 ∈ c.joins := joins ▸ List.mem_map_of_mem mem
    have found : e ∈ c.joins.flatMap fun j => [j.outerKey, j.innerKey, j.result] :=
      List.mem_flatMap.2 ⟨d.1, join, part⟩
    exact R.known e (by simp [exprs, found])
  exact ⟨known (by simp), known (by simp)⟩

theorem partition_invariant : ClauseInvariant (fun ρ => (C ρ).visits sources s .partitionBy) fun ρ =>
    (C ρ).partitionSegments sources s := by
  obtain ⟨site, renamed⟩ := R.partitionBy
  have parts := fine .partitionBy
  simp only [Clauses.visits, partitionSegments, renamed] at parts ⊢
  cases partition : c.partitionBy with
  | none => exact ⟨fun ρ => List.forall_mem_nil _, .const ""⟩
  | some e =>
    rw [partition] at parts
    have known := R.known e (by simp [exprs, partition])
    have h : Keyed s none fun _ : Renaming names => none := ⟨bare, rfl, keyRenamed_none _ _⟩
    have invariant := h.bound site 0 known (fun b => ne_item_of_mem_rowBindings)
      (parts _ List.mem_cons_self)
    constructor
    · intro ρ v mem
      exact List.mem_singleton.1 mem ▸ invariant.accepted ρ
    · simp only [Option.map_some, concat, Segment.text, String.append_empty]
      exact (Uniform.const " PARTITION BY ").append invariant.written

theorem columns_invariant (plain : ∀ name ∈ c.columns, '>' ∉ name.toList) :
    ClauseInvariant (fun ρ => (C ρ).visits sources s .select)
      fun ρ => (C ρ).columnsSegments sources s := by
  have keyed := R.keyed bare fine
  obtain ⟨site, ne, renamed⟩ := R.projection
  have parts := fine .select
  simp only [Clauses.visits, columnsSegments, R.groupRows, renamed] at parts ⊢
  cases chosen : c.projection (c.groupRows sources) (rowBindings sources) with
  | none => exact ⟨fun ρ => List.forall_mem_nil _, .const ""⟩
  | some p =>
    obtain ⟨mem, rows, alone⟩ := projection_eq_some chosen
    rw [chosen] at parts
    simp only [Clauses.columns, alone] at plain
    simp only [Option.map_some, Expr.fold_rename]
    refine keyed.projection ne (List.Subset.trans (Expr.names_fold p.1) (R.known p.1 mem))
      (fun b inside => ?_) plain parts
    rcases rows with rows | rows
    · exact ne_item_of_mem_groupRows (rows ▸ inside)
    · exact ne_item_of_mem_rowBindings (rows ▸ inside)

theorem accepted_visits (plain : ∀ name ∈ c.columns, '>' ∉ name.toList) (ρ : Renaming names)
    (place : Place) : ∀ v ∈ (C ρ).visits sources s place, v.Accepted := by
  cases place with
  | select => exact (R.columns_invariant bare fine plain).accepted ρ
  | join => exact (R.joins_invariant bare fine).accepted ρ
  | filter => exact (R.filters_invariant bare fine).accepted ρ
  | groupBy => exact (R.grouped_invariant bare fine).accepted ρ
  | partitionBy => exact (R.partition_invariant bare fine).accepted ρ
  | having => exact (R.having_invariant bare fine).accepted ρ

theorem uniform_segments (plain : ∀ name ∈ c.columns, '>' ∉ name.toList) (pull : Bool) :
    Uniform True fun ρ => concat ((C ρ).segments sources s pull) := by
  have columns := (R.columns_invariant bare fine plain).written
  refine Uniform.congr ?_ fun ρ => concat_segments pull
  unfold statement
  simp only [R.window, R.limit]
  have joined := ((Uniform.const "SELECT ").append (columns.ifEmpty "*")).append (.const " FROM ") |>.append
    (.const (sources.head?.elim "" ScopeSource.text)) |>.append (R.joins_invariant bare fine).written
  have filtered := joined.append (R.filters_invariant bare fine).written
  have grouped := (filtered.append (.const (optionalText " WINDOW " Window.text c.window))).append
    (R.grouped_invariant bare fine).written
  have partitioned := grouped.append (R.partition_invariant bare fine).written
  have kept := partitioned.append (R.having_invariant bare fine).written
  exact (kept.append (.const _)).append (.const _)

end

end Renamed
end Clauses

namespace Query

variable {o : CompileOptions} {q : Query} {t : String}

def KindsApart (o : CompileOptions) (q : Query) : Prop := ∀ place, ∀ v ∈ q.visits o place, v.KindsApart

/-- A lambda's parameters can be renamed in the query, and its statement is the same but for them. -/
theorem compile_rename (ok : q.compile o = .ok t) (apart : q.KindsApart o)
    (plain : ∀ name ∈ q.clauses.columns, '>' ∉ name.toList) (path : List Nat) :
    ∃ T : Template String, t = T.fill id ∧
      ∀ ρ : Renaming q.names, (q.rename ρ.map path).compile o = .ok (T.fill ρ.map) := by
  obtain ⟨⟨first, ns, nodes, fit⟩, accepted⟩ := accepted_compile.1 ⟨t, ok⟩
  have bare : (q.scope o).Bare := ⟨rfl, rfl⟩
  have fine : q.clauses.Fine (q.scopeSources o) (q.scope o) :=
    fun place v mem => ⟨accepted place v mem, apart place v mem⟩
  have renamed := renamed_clauses q path
  have uniform := (renamed.uniform_segments bare fine plain q.pull).append (.const ";")
  obtain ⟨T, -, fill⟩ := uniform.template
  have text (ρ : Renaming q.names) : (q.rename ρ.map path).compile o = .ok (T.fill ρ.map) := by
    have accepted' : ((q.rename ρ.map path).compile o).Accepted := by
      refine accepted_compile.2 ⟨⟨first, nodes_rename nodes fit ρ.map⟩, fun place => ?_⟩
      rw [visits, scopeSources_rename, scope_rename]
      exact renamed.accepted_visits bare fine plain ρ place
    obtain ⟨u, ok'⟩ := accepted'
    rw [ok', compile_eq_segments ok', ← fill, segments, scopeSources_rename, scope_rename,
      Segment.concat_append]
    simp [concat, Segment.text, rename]
  refine ⟨T, ?_, text⟩
  have same := text (.refl q.names)
  rw [Renaming.refl_map, rename_id, ok] at same
  exact Except.ok.inj same

private abbrev tags (column : String) : Expr := .member (.parameter "m") column none

private abbrev long (p : String) : Expr :=
  .lambda [p] (.binary .gt (.member (.parameter p) "Length" none) (.constant (.int 0)))

private abbrev filtered (kind : TypeKind) (collection : Expr) (p : String) : Query :=
  ⟨[.source ⟨"Movie", none, some ⟨"Movie", [.ofKind "Tags" (.array kind)]⟩⟩,
    .select (.lambda ["m"] (.call (some (tags "Tags")) (.higherOrder .transform)
      [.lambda ["x"] (.call (some collection) (.higherOrder .filter) [long p])]))], false⟩

private abbrev known : Query := filtered (.array .string) (.parameter "x") "x"

theorem kindsApart_known : known.KindsApart .standard := by
  have parameter (s : Scope) : (Visit.mk (.parameter "x") s none).KindsApart :=
    kindsApart_of_next (by simp [Visit.next]) (by simp)
  have column : (Visit.mk (tags "Tags") ((known.scope .standard).bind [("m", .source 0)])
      none).KindsApart :=
    kindsApart_of_next (List.forall_mem_nil _) (by simp)
  have length {s : Scope} (item : s.lookup? "x" = some .item) :
      (Visit.mk (.member (.parameter "x") "Length" none) s none).KindsApart :=
    kindsApart_of_next (by simp [Visit.next, access, item, parameter]) (by simp)
  have constant (s : Scope) : (Visit.mk (.constant (.int 0)) s none).KindsApart :=
    kindsApart_of_next (by simp [Visit.next]) (by simp)
  have condition {s : Scope} (item : s.lookup? "x" = some .item) :
      (Visit.mk (.binary .gt (.member (.parameter "x") "Length" none) (.constant (.int 0))) s
        none).KindsApart :=
    kindsApart_of_next (List.forall_mem_cons.2 ⟨length item, List.forall_mem_singleton.2 (constant s)⟩)
      (by simp)
  -- A lambda over the items of a list that is known is the only thing that could fail.
  have own {collection : Expr} {f : HigherOrderFn} {body : Expr} {s : Scope}
      (some : ((collection.kind? s).bind TypeKind.element?).isSome)
      (next : ∀ w ∈ (Visit.mk (.call (.some collection) (.higherOrder f) [.lambda ["x"] body]) s none).next,
        w.KindsApart) :
      (Visit.mk (.call (.some collection) (.higherOrder f) [.lambda ["x"] body]) s none).KindsApart := by
    refine kindsApart_of_next next ?_
    rintro target f args collection rest params body ⟨⟩ ⟨⟩ mem p inside
    obtain ⟨rfl, -⟩ := Expr.lambda.inj (List.mem_singleton.1 mem)
    exact .inl ⟨List.mem_singleton.1 inside ▸ rfl, some⟩
  intro place v mem
  cases place with
  | select =>
    obtain rfl := List.mem_singleton.1 mem
    refine own rfl (List.forall_mem_cons.2 ⟨column, List.forall_mem_singleton.2 (own rfl ?_)⟩)
    exact List.forall_mem_cons.2 ⟨parameter _, List.forall_mem_singleton.2 (condition rfl)⟩
  | _ => cases mem

theorem compile_rename_known :
    known.KindsApart .standard ∧ (∀ name ∈ known.clauses.columns, '>' ∉ name.toList) ∧
      ∃ t, known.compile .standard = .ok t ∧ ∃ T : Template String, t = T.fill id ∧
        ∀ ρ : Renaming known.names,
          (known.rename ρ.map [1, 0, 0, 0, 1, 0]).compile .standard = .ok (T.fill ρ.map) := by
  have ok : ∃ t, known.compile .standard = .ok t := ⟨_, rfl⟩
  obtain ⟨t, ok⟩ := ok
  have plain : ∀ name ∈ known.clauses.columns, '>' ∉ name.toList := by
    rintro name mem
    cases mem
  exact ⟨kindsApart_known, plain, t, ok, compile_rename ok kindsApart_known plain _⟩

example : (known.compile .standard).toOption =
    some "SELECT TRANSFORM(Tags, (x) => FILTER(x, (x) => LEN(x) > 0)) FROM Movies EMIT CHANGES;" := by
  decide +kernel

example : ((known.rename (fun p => if p = "x" then "y" else p) [1, 0, 0, 0, 1, 0]).compile .standard).toOption =
    some "SELECT TRANSFORM(Tags, (y) => FILTER(y, (x) => LEN(x) > 0)) FROM Movies EMIT CHANGES;" := by
  decide +kernel

private abbrev unknown : Query := filtered .string (tags "Unknown") "x"

example : (unknown.compile .standard).toOption =
    some "SELECT TRANSFORM(Tags, (x) => FILTER(Unknown, (x) => LEN(x) > 0)) FROM Movies EMIT CHANGES;" := by
  decide +kernel

private abbrev toY : Renaming unknown.names where
  map p := if p = "x" then "y" else p
  inj := by decide +kernel
  apart := by decide +kernel
  alike p mem := by
    by_cases same : p = "x"
    · subst same
      exact ⟨by decide, by simp [Text.StartsSigned]⟩
    · rw [if_neg same]
      exact .refl p

theorem not_compile_rename :
    ¬ ∀ (q : Query) (t : String), q.compile .standard = .ok t →
      (∀ name ∈ q.clauses.columns, '>' ∉ name.toList) → ∀ path, ∃ T : Template String,
        t = T.fill id ∧ ∀ ρ : Renaming q.names, (q.rename ρ.map path).compile .standard =
          .ok (T.fill ρ.map) := by
  intro renamed
  have text {x : Compiled} {t : String} (same : x.toOption = some t) : x = .ok t := by
    cases x with
    | error => cases same
    | ok u => exact congrArg Except.ok (Option.some.inj same)
  have before : (unknown.compile .standard).toOption =
      some "SELECT TRANSFORM(Tags, (x) => FILTER(Unknown, (x) => LEN(x) > 0)) FROM Movies EMIT CHANGES;" := by
    decide +kernel
  have after : ((unknown.rename toY.map [1, 0, 0, 0, 1, 0, 0, 1, 0]).compile .standard).toOption =
      some ("SELECT TRANSFORM(Tags, (x) => FILTER(Unknown, (y) => ARRAY_LENGTH(y) > 0))" ++
        " FROM Movies EMIT CHANGES;") := by
    decide +kernel
  obtain ⟨T, whole, fill⟩ := renamed unknown _ (text before) nofun [1, 0, 0, 0, 1, 0, 0, 1, 0]
  have lengths := Template.length_fill (f := toY.map) (g := id) (fun p => ?_) T
  · rw [← whole, ← Except.ok.inj ((text after).symm.trans (fill toY))] at lengths
    revert lengths
    decide +kernel
  · show (if p = "x" then "y" else p).length = p.length
    split
    · next same => exact same ▸ rfl
    · rfl

end Query

end StreamSql
