import StreamSql.Proofs.Expr.Renamed
import StreamSql.Proofs.Query.Form
import StreamSql.Proofs.Query.Visit

namespace StreamSql

open Text (Renaming)

def Join.rename (ρ : String → String) (site : Site) (j : Join) : Join :=
  { j with
    outerKey := j.outerKey.rename ρ (site.child 0)
    innerKey := j.innerKey.rename ρ (site.child 1)
    result := j.result.rename ρ (site.child 2) }

namespace QueryNode

def rename (ρ : String → String) (site : Site) : QueryNode → QueryNode
  | .source s => .source s
  | .select e => .select (e.rename ρ (site.child 0))
  | .filter e => .filter (e.rename ρ (site.child 0))
  | .join j => .join (j.rename ρ site)
  | .groupBy e => .groupBy (e.rename ρ (site.child 0))
  | .having e => .having (e.rename ρ (site.child 0))
  | .windowedBy w => .windowedBy w
  | .partitionBy e => .partitionBy (e.rename ρ (site.child 0))
  | .take n => .take n

@[simp] theorem rename_id (n : QueryNode) (site : Site) : n.rename id site = n := by
  cases n <;> simp [rename, Join.rename]

def renameAll (ρ : String → String) (ds : List (QueryNode × Site)) : List QueryNode :=
  ds.map fun d => d.1.rename ρ d.2

def sited {α : Type} (f : QueryNode → Option α) (ds : List (QueryNode × Site)) : List (α × Site) :=
  ds.filterMap fun d => (f d.1).map (·, d.2)

section

variable {α : Type} {f : QueryNode → Option α} {g : Site → α → α} {ds : List (QueryNode × Site)}
  (ρ : String → String)

theorem map_fst_sited : (sited f ds).map Prod.fst = (ds.map Prod.fst).filterMap f := by
  rw [sited, List.map_filterMap, List.filterMap_map]
  congr 1
  funext d
  simp [Function.comp_def]

theorem filterMap_renameAll (hf : ∀ n site, f (n.rename ρ site) = (f n).map (g site)) :
    (renameAll ρ ds).filterMap f = (sited f ds).map fun d => g d.2 d.1 := by
  rw [renameAll, sited, List.map_filterMap, List.filterMap_map]
  congr 1
  funext d
  simp [hf, Function.comp_def]

theorem filterMap_renameAll_of_eq (hf : ∀ n site, f (n.rename ρ site) = f n) :
    (renameAll ρ ds).filterMap f = (ds.map Prod.fst).filterMap f := by
  rw [renameAll, List.filterMap_map, List.filterMap_map]
  congr 1
  funext d
  exact hf d.1 d.2

theorem length_filterMap_renameAll (hf : ∀ n site, f (n.rename ρ site) = (f n).map (g site)) :
    ((renameAll ρ ds).filterMap f).length = ((ds.map Prod.fst).filterMap f).length := by
  rw [filterMap_renameAll ρ hf, List.length_map, ← map_fst_sited, List.length_map]

end

section

variable (ρ : String → String) (n : QueryNode) (site : Site)

theorem source?_rename : (n.rename ρ site).source? = n.source? := by cases n <;> rfl

theorem windowedBy?_rename : (n.rename ρ site).windowedBy? = n.windowedBy? := by cases n <;> rfl

theorem take?_rename : (n.rename ρ site).take? = n.take? := by cases n <;> rfl

theorem join?_rename : (n.rename ρ site).join? = n.join?.map (Join.rename ρ site) := by
  cases n <;> rfl

theorem select?_rename :
    (n.rename ρ site).select? = n.select?.map (Expr.rename ρ (site.child 0)) := by
  cases n <;> rfl

theorem groupBy?_rename :
    (n.rename ρ site).groupBy? = n.groupBy?.map (Expr.rename ρ (site.child 0)) := by
  cases n <;> rfl

theorem partitionBy?_rename :
    (n.rename ρ site).partitionBy? = n.partitionBy?.map (Expr.rename ρ (site.child 0)) := by
  cases n <;> rfl

theorem condition?_rename (k : ConditionClause) :
    k.condition? (n.rename ρ site) = (k.condition? n).map (Expr.rename ρ (site.child 0)) := by
  cases k <;> cases n <;> rfl

end

theorem Fit.renameAll {ds : List (QueryNode × Site)} (fit : Fit (ds.map Prod.fst))
    (ρ : String → String) : Fit (QueryNode.renameAll ρ ds) where
  source := (filterMap_renameAll_of_eq ρ (source?_rename ρ)).trans fit.source
  select := (length_filterMap_renameAll ρ (select?_rename ρ)).trans_le fit.select
  groupBy := (length_filterMap_renameAll ρ (groupBy?_rename ρ)).trans_le fit.groupBy
  windowedBy := by
    rw [filterMap_renameAll_of_eq ρ (windowedBy?_rename ρ)]
    exact fit.windowedBy
  partitionBy := (length_filterMap_renameAll ρ (partitionBy?_rename ρ)).trans_le fit.partitionBy

end QueryNode

namespace Clauses

open QueryNode

def exprs (c : Clauses) : List Expr :=
  c.select.toList ++ c.filters ++ c.joins.flatMap (fun j => [j.outerKey, j.innerKey, j.result]) ++
    c.groupBy.toList ++ c.having ++ c.partitionBy.toList

theorem exprs_ofChain {ns : List QueryNode} {e : Expr} (mem : e ∈ (ofChain ns).exprs) :
    ∃ n ∈ ns, e ∈ n.exprs := by
  have node {f : QueryNode → Option Expr} (found : e ∈ ns.filterMap f)
      (inside : ∀ n, f n = some e → e ∈ n.exprs) : ∃ n ∈ ns, e ∈ n.exprs := by
    obtain ⟨n, mem, found⟩ := List.mem_filterMap.1 found
    exact ⟨n, mem, inside n found⟩
  have first {f : QueryNode → Option Expr} (found : e ∈ ((ns.filterMap f).head?).toList) :
      e ∈ ns.filterMap f :=
    List.mem_of_head? (Option.mem_toList.1 found)
  simp only [exprs, ofChain, List.mem_append] at mem
  rcases mem with ((((mem | mem) | mem) | mem) | mem) | mem
  · exact node (first mem) fun n found => by
      cases n <;> cases found
      exact List.mem_cons_self
  · exact node mem fun n found => by
      cases n <;> cases found
      exact List.mem_cons_self
  · obtain ⟨j, found, part⟩ := List.mem_flatMap.1 mem
    exact ⟨.join j, (mem_filterMap_iff join?_eq_some).1 found, part⟩
  · exact node (first mem) fun n found => by
      cases n <;> cases found
      exact List.mem_cons_self
  · exact node mem fun n found => by
      cases n <;> cases found
      exact List.mem_cons_self
  · exact node (first mem) fun n found => by
      cases n <;> cases found
      exact List.mem_cons_self

section

variable {names : List String}

structure Renamed (c : Clauses) (C : Renaming names → Clauses) : Prop where
  select : ∃ site : Site, ∀ ρ, (C ρ).select = c.select.map (Expr.rename ρ.map (site.child 0))
  filters : ∃ ds : List (Expr × Site), c.filters = ds.map Prod.fst ∧
    ∀ ρ, (C ρ).filters = ds.map fun d => d.1.rename ρ.map (d.2.child 0)
  joins : ∃ ds : List (Join × Site), c.joins = ds.map Prod.fst ∧
    ∀ ρ, (C ρ).joins = ds.map fun d => d.1.rename ρ.map d.2
  groupBy : ∃ site : Site, ∀ ρ, (C ρ).groupBy = c.groupBy.map (Expr.rename ρ.map (site.child 0))
  having : ∃ ds : List (Expr × Site), c.having = ds.map Prod.fst ∧
    ∀ ρ, (C ρ).having = ds.map fun d => d.1.rename ρ.map (d.2.child 0)
  window : ∀ ρ, (C ρ).window = c.window
  partitionBy : ∃ site : Site, ∀ ρ,
    (C ρ).partitionBy = c.partitionBy.map (Expr.rename ρ.map (site.child 0))
  limit : ∀ ρ, (C ρ).limit = c.limit
  known : ∀ e ∈ c.exprs, e.names ⊆ names

theorem head?_renameAll {f : QueryNode → Option Expr} {ds : List (QueryNode × Site)}
    (hf : ∀ (ρ : String → String) n site,
      f (n.rename ρ site) = (f n).map (Expr.rename ρ (site.child 0))) :
    ∃ site : Site, ∀ ρ : Renaming names, ((renameAll ρ.map ds).filterMap f).head? =
      ((ds.map Prod.fst).filterMap f).head?.map (Expr.rename ρ.map (site.child 0)) := by
  simp only [filterMap_renameAll _ (hf _), ← map_fst_sited]
  cases sited f ds with
  | nil => exact ⟨.toward [], fun ρ => rfl⟩
  | cons d ds => exact ⟨d.2, fun ρ => rfl⟩

theorem renamed_ofChain {ds : List (QueryNode × Site)}
    (known : ∀ n ∈ ds.map Prod.fst, ∀ e ∈ n.exprs, e.names ⊆ names) :
    (ofChain (ds.map Prod.fst)).Renamed fun ρ : Renaming names => ofChain (renameAll ρ.map ds) where
  select := head?_renameAll select?_rename
  filters := ⟨_, map_fst_sited.symm, fun ρ => filterMap_renameAll _ fun n site =>
    condition?_rename ρ.map n site .rows⟩
  joins := ⟨_, map_fst_sited.symm, fun ρ => filterMap_renameAll _ (join?_rename ρ.map)⟩
  groupBy := head?_renameAll groupBy?_rename
  having := ⟨_, map_fst_sited.symm, fun ρ => filterMap_renameAll _ fun n site =>
    condition?_rename ρ.map n site .groups⟩
  window ρ := congrArg List.head? (filterMap_renameAll_of_eq ρ.map (windowedBy?_rename ρ.map))
  partitionBy := head?_renameAll partitionBy?_rename
  limit ρ := congrArg List.min? (filterMap_renameAll_of_eq ρ.map (take?_rename ρ.map))
  known e mem := by
    obtain ⟨n, inside, part⟩ := exprs_ofChain mem
    exact known n inside e part

end

end Clauses

namespace Query

def rename (ρ : String → String) (path : List Nat) (q : Query) : Query :=
  { q with nodes := QueryNode.renameAll ρ ((Site.toward path).placed id q.nodes) }

def names (q : Query) : List String := q.nodes.flatMap fun n => n.exprs.flatMap Expr.names

variable {o : CompileOptions} {q : Query} {path : List Nat}

@[simp] theorem rename_id : q.rename id path = q := by
  simp only [rename, QueryNode.renameAll]
  rw [Site.map_placed (h := id) fun n _ site => n.rename_id site, List.map_id]

theorem placed_drop {site : Site} (ns : List QueryNode) :
    ((site.placed id ns).drop 1).map Prod.fst = ns.drop 1 := by
  rw [List.map_drop, Site.map_fst_placed]

theorem clauses_rename (ρ : String → String) : (q.rename ρ path).clauses =
    .ofChain (QueryNode.renameAll ρ (((Site.toward path).placed id q.nodes).drop 1)) := by
  simp only [clauses, rename, QueryNode.renameAll, List.map_drop]

theorem renamed_clauses (q : Query) (path : List Nat) :
    q.clauses.Renamed fun ρ : Renaming q.names => (q.rename ρ.map path).clauses := by
  simp only [clauses_rename]
  have nodes : (((Site.toward path).placed id q.nodes).drop 1).map Prod.fst = q.nodes.drop 1 :=
    placed_drop q.nodes
  rw [clauses, ← nodes]
  refine Clauses.renamed_ofChain fun n mem e part => ?_
  rw [placed_drop] at mem
  intro p inside
  exact List.mem_flatMap.2 ⟨n, List.mem_of_mem_drop mem, List.mem_flatMap.2 ⟨e, part, inside⟩⟩

theorem nodes_rename {first : Source} {ns : List QueryNode} (nodes : q.nodes = .source first :: ns)
    (fit : QueryNode.Fit ns) (ρ : String → String) :
    ∃ ns', (q.rename ρ path).nodes = .source first :: ns' ∧ QueryNode.Fit ns' := by
  refine ⟨_, by rw [rename, nodes]; rfl, QueryNode.Fit.renameAll ?_ ρ⟩
  rw [Site.map_fst_placed]
  exact fit

theorem source?_rename (ρ : String → String) : (q.rename ρ path).source? = q.source? := by
  obtain ⟨_ | ⟨n, ns⟩, pull⟩ := q
  · rfl
  · cases n <;> rfl

theorem others_rename (ρ : String → String) :
    (q.rename ρ path).outline.joins.map Join.other = q.outline.joins.map Join.other := by
  simp only [outline, rename]
  rw [QueryNode.filterMap_renameAll ρ (QueryNode.join?_rename ρ), List.map_map]
  have nodes : ((Site.toward path).placed id q.nodes).map Prod.fst = q.nodes := Site.map_fst_placed _
  conv_rhs => rw [← nodes, ← QueryNode.map_fst_sited, List.map_map]
  rfl

theorem scopeSources_congr {first : Source} {js ks : List Join}
    (same : js.map Join.other = ks.map Join.other) :
    StreamSql.scopeSources o first js = StreamSql.scopeSources o first ks := by
  have none : js.isEmpty = ks.isEmpty := by
    rw [← List.isEmpty_map (f := Join.other), same, List.isEmpty_map]
  simp only [StreamSql.scopeSources, same, none]

theorem scopeSources_rename (ρ : String → String) :
    (q.rename ρ path).scopeSources o = q.scopeSources o := by
  unfold scopeSources
  rw [source?_rename]
  cases q.source? with
  | none => rfl
  | some first => exact scopeSources_congr (others_rename ρ)

theorem scope_rename (ρ : String → String) : (q.rename ρ path).scope o = q.scope o := by
  rw [scope, scopeSources_rename, scope]

end Query
end StreamSql
