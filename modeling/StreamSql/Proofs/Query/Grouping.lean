import StreamSql.Proofs.Expr.Occurrence
import StreamSql.Proofs.Query.Visit
import StreamSql.Proofs.Query.Joins

namespace StreamSql

namespace Clauses

open Visit

variable (c : Clauses) (sources : List ScopeSource) {s : Scope} {key : Option GroupKey}
  {bindings : List Binding} {p : Binding → Prop}

theorem not_isGroup_sources (is : List Nat) : ∀ b ∈ is.map Binding.source, ¬ b.IsGroup := by
  rintro b mem ⟨j, rfl⟩
  simp at mem

theorem binds_rowBindings (sources : List ScopeSource) {b : Binding} (h : b ∈ rowBindings sources) :
    ¬ b.IsGroup :=
  not_isGroup_sources _ b h

theorem binds_ofProjection {v : Visit} (h : s.Binds p) (hb : ∀ b ∈ bindings, p b) (e : Expr)
    (mem : v ∈ ofProjection key bindings s e) : v.scope.Binds p := by
  have bind (params : List String) : (s.bind (params.zip bindings)).Binds p :=
    h.bind fun b mem => hb _ (List.of_mem_zip mem).2
  cases e with
  | lambda params body =>
    cases body with
    | new typeName members =>
      obtain ⟨m, -, rfl⟩ := List.mem_map.1 mem
      exact bind params
    | _ =>
      rw [List.mem_singleton.1 mem]
      exact bind params
  | _ =>
    rw [List.mem_singleton.1 mem]
    exact h

theorem binds_ofJoins {v : Visit} (h : s.Binds (¬ ·.IsGroup)) {index : Nat}
    {sources : List ScopeSource} {js : List Join} (mem : v ∈ ofJoins s index sources js) :
    v.scope.Binds (¬ ·.IsGroup) := by
  obtain ⟨is, e, rfl⟩ := exists_bound_of_mem_ofJoins mem
  exact binds_bound h (not_isGroup_sources is) e

theorem bindings_groupKey {k : GroupKey} (h : c.groupKey sources = some k) {b : String × Binding}
    (mem : b ∈ k.bindings) : b.2 ∈ rowBindings sources := by
  obtain ⟨e, -, rfl⟩ := Option.map_eq_some_iff.1 h
  exact bindings_ofExpr mem

theorem bindings_projection {rows : List Binding} {e : Expr × List Binding}
    (h : c.projection rows rows = some e) : e.2 = rows := by
  unfold projection at h
  split at h <;> cases h <;> rfl

theorem binds_visits {place : Place} {v : Visit} (h : s.Binds (¬ ·.IsGroup))
    (outside : ¬ (place = .select ∨ place = .having) ∨ c.groupBy = none)
    (mem : v ∈ c.visits sources s place) : v.scope.Binds (¬ ·.IsGroup) := by
  have rows : ∀ b ∈ rowBindings sources, ¬ b.IsGroup := fun b => binds_rowBindings sources
  have groupRows (place : Place) (inside : place = .select ∨ place = .having)
      (outside : ¬ (place = .select ∨ place = .having) ∨ c.groupBy = none) :
      c.groupRows sources = rowBindings sources := by
    simp [Clauses.groupRows, outside.resolve_left (not_not_intro inside)]
  cases place with
  | select =>
    simp only [visits, groupRows .select (.inl rfl) outside] at mem
    cases chosen : c.projection (rowBindings sources) (rowBindings sources) with
    | none => simp [chosen] at mem
    | some p =>
      simp only [chosen] at mem
      exact binds_ofProjection h (bindings_projection c chosen ▸ rows) _ mem
  | join => exact binds_ofJoins h mem
  | filter | partitionBy =>
    obtain ⟨e, -, rfl⟩ := List.mem_map.1 mem
    exact binds_bound h rows _
  | groupBy =>
    simp only [visits, ofKey] at mem
    cases key : c.groupKey sources with
    | none => simp [key] at mem
    | some k =>
      simp only [key] at mem
      obtain ⟨e, -, rfl⟩ := List.mem_map.1 mem
      exact h.bind fun b mem => rows _ (c.bindings_groupKey sources key mem)
  | having =>
    obtain ⟨e, -, rfl⟩ := List.mem_map.1 mem
    rw [groupRows .having (.inr rfl) outside]
    exact binds_bound h rows _

theorem binds_visits_grouped {place : Place} {v : Visit} (h : s.Binds (¬ ·.IsSource))
    (grouped : c.groupBy.isSome) (selected : c.select.isSome)
    (inside : place = .select ∨ place = .having) (mem : v ∈ c.visits sources s place) :
    v.scope.Binds (¬ ·.IsSource) := by
  have group : ∀ b ∈ c.groupRows sources, ¬ b.IsSource := by
    simp only [groupRows, grouped, if_true, List.forall_mem_singleton]
    rintro ⟨i, same⟩
    cases same
  rcases inside with rfl | rfl
  · obtain ⟨e, select⟩ := Option.isSome_iff_exists.1 selected
    simp only [visits, projection, select] at mem
    exact binds_ofProjection h group _ mem
  · obtain ⟨e, -, rfl⟩ := List.mem_map.1 mem
    exact binds_bound h group _

end Clauses

theorem GroupKey.ofExpr_of_ne_lambda {e : Expr} (h : ∀ params body, e ≠ .lambda params body)
    (bindings : List Binding) : ofExpr bindings e = ⟨[], e.fold⟩ := by
  unfold ofExpr
  split
  · next same => exact (Expr.fold_ne_lambda h _ _ same).elim
  · rfl

theorem Expr.keyParts_of_ne_new {e : Expr} (h : ∀ typeName members, e ≠ .new typeName members) :
    e.keyParts = [e] := by
  cases e with
  | new typeName members => exact (h typeName members rfl).elim
  | _ => rfl

theorem Expr.keyParts_fold (e : Expr) : e.fold.keyParts = e.keyParts.map fold := by
  obtain ⟨typeName, members, rfl⟩ | ne := e.eq_new_or
  · simp [fold, foldMembers_eq_map, keyParts]
  · rw [keyParts_of_ne_new ne, keyParts_of_ne_new (fold_ne_new ne)]
    rfl

namespace Visit

def ofGrouping (bindings : List Binding) (s : Scope) : Expr → List Visit
  | .lambda params body => body.keyParts.map (⟨·, s.bind (params.zip bindings), none⟩)
  | e => e.keyParts.map (⟨·, s, none⟩)

variable {v : Visit} {s : Scope} {key : Option GroupKey} {bindings : List Binding}

theorem ofGrouping_of_ne_lambda {e : Expr} (h : ∀ params body, e ≠ .lambda params body) :
    ofGrouping bindings s e = e.keyParts.map (⟨·, s, none⟩) := by
  cases e with
  | lambda params body => exact (h params body rfl).elim
  | _ => rfl

theorem ofProjection_of_ne_lambda {e : Expr} (h : ∀ params body, e ≠ .lambda params body) :
    ofProjection key bindings s e = [⟨e, s, key⟩] := by
  cases e with
  | lambda params body => exact (h params body rfl).elim
  | _ => rfl

theorem ofProjection_of_ne_new {body : Expr} (h : ∀ typeName members, body ≠ .new typeName members)
    (params : List String) :
    ofProjection key bindings s (.lambda params body) =
      [⟨body, s.bind (params.zip bindings), key⟩] := by
  cases body with
  | new typeName members => exact (h typeName members rfl).elim
  | _ => rfl

namespace FoldsTo

theorem exists_ofProjection {e : Expr} (mem : v ∈ ofProjection none bindings s e) :
    ∃ w ∈ ofProjection key bindings s e.fold, v.FoldsTo w := by
  obtain ⟨params, body, rfl⟩ | ne := e.eq_lambda_or
  · rw [Expr.fold]
    obtain ⟨typeName, members, rfl⟩ | ne := body.eq_new_or
    · obtain ⟨m, inside, rfl⟩ := List.mem_map.1 mem
      refine ⟨⟨m.2.fold, _, key⟩, ?_, here rfl m.2⟩
      rw [Expr.fold, Expr.foldMembers_eq_map, ofProjection, List.map_map]
      exact List.mem_map_of_mem inside
    · rw [ofProjection_of_ne_new ne] at mem
      obtain rfl := List.mem_singleton.1 mem
      rw [ofProjection_of_ne_new (Expr.fold_ne_new ne)]
      exact ⟨_, List.mem_singleton_self _, here rfl body⟩
  · rw [ofProjection_of_ne_lambda ne] at mem
    obtain rfl := List.mem_singleton.1 mem
    rw [ofProjection_of_ne_lambda (Expr.fold_ne_lambda ne)]
    exact ⟨_, List.mem_singleton_self _, here rfl e⟩

theorem exists_ofGrouping {e : Expr} (mem : v ∈ ofGrouping bindings s e) :
    ∃ w ∈ ofKey (some (GroupKey.ofExpr bindings e)) .whole s, v.FoldsTo w := by
  obtain ⟨params, body, rfl⟩ | ne := e.eq_lambda_or
  · have parts : ofKey (some (GroupKey.ofExpr bindings (.lambda params body))) .whole s =
        (body.keyParts.map Expr.fold).map (⟨·, s.bind (params.zip bindings), none⟩) := by
      rw [← Expr.keyParts_fold]
      rfl
    rw [parts]
    exact exists_of_mem_map rfl mem
  · have parts : ofKey (some (GroupKey.ofExpr bindings e)) .whole s =
        (e.keyParts.map Expr.fold).map (⟨·, s, none⟩) := by
      rw [← Expr.keyParts_fold, GroupKey.ofExpr_of_ne_lambda ne]
      rfl
    rw [ofGrouping_of_ne_lambda ne] at mem
    rw [parts]
    exact exists_of_mem_map rfl mem

end FoldsTo

theorem mem_ofJoins {i n : Nat} {j : Join} {js : List Join} {sources : List ScopeSource}
    (join : js[i]? = some j) (enough : js.length ≤ sources.length) :
    bound none ((List.range (n + i)).map .source) s j.outerKey.fold ∈ ofJoins s n sources js ∧
      bound none [.source (n + i)] s j.innerKey.fold ∈ ofJoins s n sources js := by
  induction js generalizing i n sources with
  | nil => cases join
  | cons j' js ih =>
    obtain _ | ⟨source, sources⟩ := sources
    · cases enough
    · rw [ofJoins]
      cases i with
      | zero =>
        cases join
        exact ⟨by simp, by simp⟩
      | succ i =>
        have rest := ih (i := i) (n := n + 1) join (Nat.le_of_succ_le_succ enough)
        rw [Nat.add_right_comm, Nat.add_assoc] at rest
        exact rest.imp (fun mem => by simp [mem]) fun mem => by simp [mem]

end Visit

namespace Query

open Visit

def HasGroups (q : Query) (place : Place) : Prop :=
  (place = .select ∨ place = .having) ∧ ∃ e, .groupBy e ∈ q.nodes

/-- What stands in the nodes of a query. The result of a join counts where it is the projection. -/
inductive Occurs (o : CompileOptions) (q : Query) : Place → Visit → Prop
  | select {e v} (node : .select e ∈ q.nodes)
    (mem : v ∈ ofProjection none (q.clauses.groupRows (q.scopeSources o)) (q.scope o) e) :
    Occurs o q .select v
  | result {j v} (unselected : ∀ e, .select e ∉ q.nodes) (last : q.clauses.joins.getLast? = some j)
    (mem : v ∈ ofProjection none (rowBindings (q.scopeSources o)) (q.scope o) j.result) :
    Occurs o q .select v
  | outerKey {i j} (join : q.clauses.joins[i]? = some j) :
    Occurs o q .join (bound none ((List.range (i + 1)).map .source) (q.scope o) j.outerKey)
  | innerKey {i j} (join : q.clauses.joins[i]? = some j) :
    Occurs o q .join (bound none [.source (i + 1)] (q.scope o) j.innerKey)
  | filter {e} (node : .filter e ∈ q.nodes) :
    Occurs o q .filter (bound none (rowBindings (q.scopeSources o)) (q.scope o) e)
  | groupBy {e v} (node : .groupBy e ∈ q.nodes)
    (mem : v ∈ ofGrouping (rowBindings (q.scopeSources o)) (q.scope o) e) : Occurs o q .groupBy v
  | partitionBy {e} (node : .partitionBy e ∈ q.nodes) :
    Occurs o q .partitionBy (bound none (rowBindings (q.scopeSources o)) (q.scope o) e)
  | having {e} (node : .having e ∈ q.nodes) :
    Occurs o q .having
      (bound none (q.clauses.groupRows (q.scopeSources o)) (q.scope o) e)

variable {o : CompileOptions} {q : Query}

theorem binds_scope (o : CompileOptions) (q : Query) {p : Binding → Prop} : (q.scope o).Binds p := by
  intro x b found
  cases found

section

variable {first : Source} {ns : List QueryNode} (nodes : q.nodes = .source first :: ns)

include nodes

theorem clauses_eq : q.clauses = Clauses.ofChain ns := by
  rw [clauses, nodes, List.drop_one, List.tail_cons]

theorem isSome_groupBy : q.clauses.groupBy.isSome ↔ ∃ e, .groupBy e ∈ q.nodes := by
  rw [clauses_eq nodes, Clauses.ofChain, nodes]
  simp [-List.head?_filterMap, QueryNode.isSome_head?_iff QueryNode.groupBy?_eq_some]

theorem isSome_select : q.clauses.select.isSome ↔ ∃ e, .select e ∈ q.nodes := by
  rw [clauses_eq nodes, Clauses.ofChain, nodes]
  simp [-List.head?_filterMap, QueryNode.isSome_head?_iff QueryNode.select?_eq_some]

theorem length_joins : ((q.scopeSources o).drop 1).length = q.clauses.joins.length := by
  have joins : q.outline.joins = q.clauses.joins := by
    rw [clauses_eq nodes, outline, nodes]
    rfl
  rw [List.length_drop, scopeSources, source?, nodes]
  simp only [StreamSql.length_scopeSources, joins, Nat.add_sub_cancel]

theorem exists_visit_of_occurs (fit : QueryNode.Fit ns) {place : Place} {v : Visit}
    (occurs : q.Occurs o place v) : ∃ w ∈ q.visits o place, v.FoldsTo w := by
  have clauses := clauses_eq nodes
  have rest {n : QueryNode} (other : ∀ s, n ≠ .source s) (mem : n ∈ q.nodes) : n ∈ ns := by
    rw [nodes] at mem
    exact (List.mem_cons.1 mem).resolve_left (other first)
  -- Every join has a source of its own, so that none is cut off.
  have enough := Nat.le_of_eq (length_joins (o := o) nodes).symm
  simp only [visits]
  cases occurs with
  | @select e v node mem =>
    have select : q.clauses.select = some e := by
      rw [clauses]
      exact QueryNode.head?_of_mem QueryNode.select?_eq_some fit.select (rest (by simp) node)
    simp only [Clauses.visits, Clauses.projection, select]
    exact FoldsTo.exists_ofProjection mem
  | @result j v unselected last mem =>
    have select : q.clauses.select = none := by
      rw [← Option.not_isSome_iff_eq_none, isSome_select nodes]
      rintro ⟨e, node⟩
      exact unselected e node
    simp only [Clauses.visits, Clauses.projection, select, last]
    exact FoldsTo.exists_ofProjection mem
  | outerKey join =>
    have mem := (mem_ofJoins (n := 1) (s := q.scope o) join enough).1
    rw [Nat.add_comm] at mem
    exact ⟨_, mem, .bound rfl _ _⟩
  | innerKey join =>
    have mem := (mem_ofJoins (n := 1) (s := q.scope o) join enough).2
    rw [Nat.add_comm] at mem
    exact ⟨_, mem, .bound rfl _ _⟩
  | @filter e node =>
    have mem : e ∈ q.clauses.filters := by
      rw [clauses]
      exact (QueryNode.mem_filterMap_iff QueryNode.rows_eq_some).2 (rest (by simp) node)
    simp only [Clauses.visits]
    exact ⟨_, List.mem_map_of_mem mem, .bound rfl _ _⟩
  | @groupBy e v node mem =>
    have groupBy : q.clauses.groupBy = some e := by
      rw [clauses]
      exact QueryNode.head?_of_mem QueryNode.groupBy?_eq_some fit.groupBy (rest (by simp) node)
    simp only [Clauses.visits, Clauses.groupKey, groupBy]
    exact FoldsTo.exists_ofGrouping mem
  | @partitionBy e node =>
    have partitionBy : q.clauses.partitionBy = some e := by
      rw [clauses]
      exact QueryNode.head?_of_mem QueryNode.partitionBy?_eq_some fit.partitionBy
        (rest (by simp) node)
    simp only [Clauses.visits, partitionBy]
    exact ⟨_, List.mem_singleton_self _, .bound rfl _ _⟩
  | @having e node =>
    have mem : e ∈ q.clauses.having := by
      rw [clauses]
      exact (QueryNode.mem_filterMap_iff QueryNode.groups_eq_some).2 (rest (by simp) node)
    simp only [Clauses.visits]
    exact ⟨_, List.mem_map_of_mem mem, .bound rfl _ _⟩

theorem groups_of_reaches {place : Place} {v w : Visit} (mem : v ∈ q.visits o place)
    (accepted : v.Accepted) (reaches : v.Reaches w) (asks : w.IsAggregate ∨ w.IsGroupMember) :
    q.HasGroups place := by
  -- Elsewhere no group is in scope at first, and what is reached binds none.
  by_contra elsewhere
  have outside : ¬ (place = .select ∨ place = .having) ∨ q.clauses.groupBy = none := by
    rw [HasGroups, ← isSome_groupBy nodes] at elsewhere
    rwa [not_and_or, Bool.not_eq_true, Option.isSome_eq_false_iff, Option.isNone_iff_eq_none]
      at elsewhere
  have binds := Visit.binds_of_reaches (Clauses.binds_visits _ _ (binds_scope o q) outside mem) reaches
  rcases asks with aggregate | member
  · exact Visit.not_isAggregate binds (accepted.of_reaches reaches) aggregate
  · exact Visit.not_isGroupMember binds member

theorem ofGroup_of_surrounds {place : Place} {v w : Visit} (selected : ∃ e, .select e ∈ q.nodes)
    (groups : q.HasGroups place) (mem : v ∈ q.visits o place) (accepted : v.Accepted)
    (surrounds : v.Surrounds w) : ¬ w.IsRow ∧ w.OfGroup := by
  obtain ⟨inside, grouped⟩ := groups
  -- The group is all that is in scope at first, and items are all that gets bound.
  have binds := Clauses.binds_visits_grouped _ _ (binds_scope o q) ((isSome_groupBy nodes).2 grouped)
    ((isSome_select nodes).2 selected) inside mem
  have item : ¬ Binding.item.IsSource := by
    rintro ⟨i, same⟩
    cases same
  have within := Visit.binds_of_surrounds binds item surrounds
  exact ⟨Visit.not_isRow within, Visit.ofGroup within (accepted.of_reaches surrounds.reaches)⟩

end

/-- Groups are asked for in the projection and the conditions on groups only, and what these say of
rows lies within an aggregate or the key. So it is with what stands in the nodes, and with all that is
compiled, to which the key belongs wherever it is used. -/
structure Confined (o : CompileOptions) (q : Query) : Prop where
  groups : ∀ place v, q.Occurs o place v → ∀ w, v.Holds w → w.IsAggregate ∨ w.IsGroupMember →
    q.HasGroups place
  rows : (∃ e, .select e ∈ q.nodes) → ∀ place, q.HasGroups place → ∀ v, q.Occurs o place v →
    ∀ w, v.Encloses w → ¬ w.IsRow ∧ w.OfGroup
  compiledGroups : ∀ place, ∀ v ∈ q.visits o place, ∀ w, v.Reaches w →
    w.IsAggregate ∨ w.IsGroupMember → q.HasGroups place
  compiledRows : (∃ e, .select e ∈ q.nodes) → ∀ place, q.HasGroups place →
    ∀ v ∈ q.visits o place, ∀ w, v.Surrounds w → ¬ w.IsRow ∧ w.OfGroup

/-- A query that asks for groups, or for rows of them, in another place is refused. -/
theorem compile_confined (o : CompileOptions) (q : Query) :
    (∃ e, q.compile o = .error e) ∨ q.Confined o := by
  cases compiled : q.compile o with
  | error e => exact .inl ⟨e, rfl⟩
  | ok t =>
    right
    obtain ⟨⟨first, ns, nodes, fit⟩, accepted⟩ := accepted_compile.1 ⟨t, compiled⟩
    constructor
    · intro place v occurs u holds asks
      obtain ⟨w, mem, folds⟩ := exists_visit_of_occurs nodes fit occurs
      obtain ⟨w', reaches, asks⟩ := folds.exists_of_holds (accepted place w mem) holds asks
      exact groups_of_reaches nodes mem (accepted place w mem) reaches asks
    · intro selected place groups v occurs u encloses
      obtain ⟨w, mem, folds⟩ := exists_visit_of_occurs nodes fit occurs
      refine folds.of_encloses (accepted place w mem) (fun w' surrounds => ?_) encloses
      exact ofGroup_of_surrounds nodes selected groups mem (accepted place w mem) surrounds
    · intro place v mem w reaches asks
      exact groups_of_reaches nodes mem (accepted place v mem) reaches asks
    · intro selected place groups v mem w surrounds
      exact ofGroup_of_surrounds nodes selected groups mem (accepted place v mem) surrounds

private abbrev totals : Query := ⟨[.source (.named "Order"),
  .groupBy (.lambda ["o"] (.member (.parameter "o") "City" none)),
  .select (.lambda ["g"] (.new none [("Key", .member (.parameter "g") "Key" none),
    ("Total", .call (some (.parameter "g")) (.aggregate .sum)
      [.lambda ["o"] (.member (.parameter "o") "Amount" none)])])),
  .having (.lambda ["g"] (.binary .gt (.call (some (.parameter "g")) (.aggregate .count) [])
    (.constant (.int 1))))], false⟩

example : (totals.compile .standard).toOption =
    some ("SELECT City Key, SUM(Amount) Total FROM Orders GROUP BY City" ++
      " HAVING COUNT(*) > 1 EMIT CHANGES;") := by
  decide +kernel

example : ∃ v, totals.Occurs .standard .select v ∧ v.IsAggregate ∧ ∃ w, v.Holds w ∧ w.IsRow :=
  ⟨_, .select (.tail _ (.tail _ (.head _))) (.tail _ (.head _)), ⟨_, _, _, rfl⟩, _,
    .single (.head _), "o", 0, rfl, .inr ⟨_, _, rfl⟩⟩

private abbrev summed : Expr := .call (some (.parameter "o")) (.aggregate .sum)
  [.lambda ["x"] (.member (.parameter "x") "Amount" none)]

private abbrev summedJoin : Join where
  kind := .inner
  other := .named "Item"
  outerKey := .lambda ["o"] (.member (.parameter "o") "Id" none)
  innerKey := .lambda ["i"] (.member (.parameter "i") "OrderId" none)
  result := .lambda ["o", "i"] (.new none [("Total", summed)])
  within := none

private abbrev summedJoins : Query := ⟨[.source (.named "Order"), .join summedJoin,
  .select (.lambda ["o", "i"] (.member (.parameter "o") "City" none))], false⟩

theorem not_compile_confined :
    (summedJoins.compile .standard).toOption =
        some "SELECT O.City FROM Orders O\nINNER JOIN Items I\nON O.Id = I.OrderId EMIT CHANGES;" ∧
      (∀ e, .groupBy e ∉ summedJoins.nodes) ∧ .join summedJoin ∈ summedJoins.nodes ∧
      summedJoin.result.HasNode summed := by
  refine ⟨by decide +kernel, by simp, by simp, ?_⟩
  have first : summed ∈ (Expr.new none [("Total", summed)]).children := List.mem_cons_self
  exact (Relation.ReflTransGen.single List.mem_cons_self).tail first

end Query
end StreamSql
