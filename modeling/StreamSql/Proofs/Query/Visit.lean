import StreamSql.Proofs.Expr.Reach
import StreamSql.Proofs.Query.Chain

namespace StreamSql

inductive Place
  | select
  | join
  | filter
  | groupBy
  | partitionBy
  | having

namespace Visit

def ofProjection (key : Option GroupKey) (bindings : List Binding) (s : Scope) : Expr → List Visit
  | .lambda params (.new _ members) =>
    members.map fun m => ⟨m.2, { s.bind (params.zip bindings) with lowerBools := true }, key⟩
  | .lambda params body => [⟨body, s.bind (params.zip bindings), key⟩]
  | e => [⟨e, s, key⟩]

def ofJoins (s : Scope) : Nat → List ScopeSource → List Join → List Visit
  | index, _ :: sources, j :: js =>
    bound none ((List.range index).map .source) s j.outerKey.fold ::
      bound none [.source index] s j.innerKey.fold :: ofJoins s (index + 1) sources js
  | _, _, _ => []

end Visit

namespace Clauses

open Visit

variable (c : Clauses) (sources : List ScopeSource) (s : Scope)

def visits : Place → List Visit
  | .select =>
    match c.projection (c.groupRows sources) (rowBindings sources) with
    | some (e, bindings) => ofProjection (c.groupKey sources) bindings s e.fold
    | none => []
  | .join => ofJoins s 1 (sources.drop 1) c.joins
  | .filter => c.filters.map fun e => bound none (rowBindings sources) s e.fold
  | .groupBy => ofKey (c.groupKey sources) .whole s
  | .partitionBy => c.partitionBy.toList.map fun e => bound none (rowBindings sources) s e.fold
  | .having => c.having.map fun e => bound (c.groupKey sources) (c.groupRows sources) s e.fold

variable {key : Option GroupKey} {bindings : List Binding} {s : Scope}

theorem accepted_projectedColumns (members : List (String × Expr)) :
    (projectedColumns (keyText key) s members).Accepted ↔
      ∀ m ∈ members, (Visit.mk m.2 { s with lowerBools := true } key).Accepted := by
  induction members with
  | nil => simp [projectedColumns]
  | cons m members ih =>
    rw [List.forall_mem_cons, ← ih]
    exact Compiled.accepted_bind_bind _

theorem accepted_projectionText (e : Expr) :
    (projectionText (keyText key) bindings s e).Accepted ↔
      ∀ v ∈ ofProjection key bindings s e, v.Accepted := by
  cases e with
  | lambda params body =>
    cases body with
    | new typeName members =>
      simp only [ofProjection, List.forall_mem_map]
      exact (Compiled.accepted_bind_ok _).trans (accepted_projectedColumns members)
    | _ =>
      simp only [ofProjection, List.forall_mem_singleton]
      exact Iff.rfl
  | _ =>
    simp only [ofProjection, List.forall_mem_singleton]
    exact Iff.rfl

theorem accepted_predicateTexts (es : List Expr) :
    (predicateTexts (keyText key) bindings s es).Accepted ↔
      ∀ e ∈ es, (bound key bindings s e.fold).Accepted := by
  induction es with
  | nil => simp [predicateTexts]
  | cons e es ih =>
    rw [List.forall_mem_cons, ← ih, ← accepted_boundText]
    refine (Compiled.accepted_bind_bind _).trans (and_congr_left' ?_)
    exact Compiled.accepted_bind_ok _

theorem accepted_conditionsText (head : String) (es : List Expr) :
    (conditionsText head (keyText key) bindings s es).Accepted ↔
      ∀ e ∈ es, (bound key bindings s e.fold).Accepted := by
  cases es with
  | nil => simp [conditionsText]
  | cons e es => exact (Compiled.accepted_bind_ok _).trans (accepted_predicateTexts (e :: es))

theorem accepted_joinTexts (index : Nat) (sources : List ScopeSource) (js : List Join) :
    (joinTexts s index sources js).Accepted ↔ ∀ v ∈ ofJoins s index sources js, v.Accepted := by
  induction js generalizing index sources with
  | nil => cases sources <;> simp [joinTexts, ofJoins]
  | cons j js ih =>
    cases sources with
    | nil => simp [joinTexts, ofJoins]
    | cons source sources =>
      rw [ofJoins, List.forall_mem_cons, List.forall_mem_cons, ← ih, ← accepted_boundText,
        ← accepted_boundText, ← and_assoc]
      refine (Compiled.accepted_bind_bind _).trans (and_congr_left' ?_)
      refine (Compiled.accepted_bind_ok _).trans ?_
      exact Compiled.accepted_bind_bind _

theorem accepted_partitionText (e : Option Expr) :
    (partitionText bindings s e).Accepted ↔
      ∀ e' ∈ e.toList, (bound none bindings s e'.fold).Accepted := by
  cases e with
  | none => simp [partitionText]
  | some e =>
    simp only [Option.toList_some, List.forall_mem_singleton, ← accepted_boundText]
    exact Compiled.accepted_bind_ok _

theorem key_eq : c.key sources = keyText (c.groupKey sources) := by
  cases h : c.groupKey sources <;> simp [key, keyText, h]

theorem accepted_groupedText :
    (c.groupedText sources s).Accepted ↔ ∀ v ∈ c.visits sources s .groupBy, v.Accepted := by
  simp only [groupedText, visits]
  cases c.groupKey sources with
  | none => simp [ofKey]
  | some k =>
    simp only [ofKey, GroupKey.exprs?, Option.getD_some, List.forall_mem_map]
    exact (Compiled.accepted_bind_ok _).trans (accepted_keyListText k.body)

theorem accepted_columnsText :
    (c.columnsText sources s).Accepted ↔ ∀ v ∈ c.visits sources s .select, v.Accepted := by
  simp only [columnsText, visits, key_eq]
  cases c.projection (c.groupRows sources) (rowBindings sources) with
  | none => simp
  | some p => exact accepted_projectionText p.1.fold

theorem accepted_text (pull : Bool) :
    (c.text pull sources s).Accepted ↔ ∀ place, ∀ v ∈ c.visits sources s place, v.Accepted := by
  have all {p : Place → Prop} : (∀ place, p place) ↔
      p .groupBy ∧ p .select ∧ p .join ∧ p .filter ∧ p .partitionBy ∧ p .having := by
    constructor
    · exact fun h => ⟨h _, h _, h _, h _, h _, h _⟩
    · rintro ⟨groupBy, select, join, filter, partitionBy, having⟩ (_ | _ | _ | _ | _ | _)
      all_goals assumption
  rw [text_eq, all, ← accepted_groupedText, ← accepted_columnsText]
  refine Compiled.accepted_bind fun grouped => ?_
  refine Compiled.accepted_bind fun columns => ?_
  simp only [visits, ← accepted_joinTexts, List.forall_mem_map]
  refine Compiled.accepted_bind fun joins => ?_
  rw [← accepted_conditionsText "\nWHERE ", ← accepted_partitionText, ← accepted_conditionsText " HAVING "]
  refine Compiled.accepted_bind fun filters => ?_
  rw [← key_eq]
  exact Compiled.accepted_bind_bind _

variable {p : Binding → Prop}

theorem exists_bound_of_mem_ofJoins {v : Visit} {index : Nat} {sources : List ScopeSource}
    {js : List Join} (mem : v ∈ ofJoins s index sources js) :
    ∃ (is : List Nat) (e : Expr), v = bound none (is.map .source) s e := by
  induction js generalizing index sources with
  | nil => cases sources <;> cases mem
  | cons j js ih =>
    cases sources with
    | nil => cases mem
    | cons first sources =>
      simp only [ofJoins, List.mem_cons] at mem
      rcases mem with rfl | rfl | mem
      · exact ⟨List.range index, _, rfl⟩
      · exact ⟨[index], _, rfl⟩
      · exact ih mem

theorem bindings_ofExpr {e : Expr} {rows : List Binding} {b : String × Binding}
    (mem : b ∈ (GroupKey.ofExpr rows e).bindings) : b.2 ∈ rows := by
  unfold GroupKey.ofExpr at mem
  split at mem
  · exact (List.of_mem_zip mem).2
  · cases mem

end Clauses

namespace Query

def visits (o : CompileOptions) (q : Query) : Place → List Visit :=
  q.clauses.visits (q.scopeSources o) (q.scope o)

variable {o : CompileOptions} {q : Query}

theorem accepted_compile_source {first : Source} {ns : List QueryNode}
    (nodes : q.nodes = .source first :: ns) :
    (q.compile o).Accepted ↔
      QueryNode.Fit ns ∧ ∀ place, ∀ v ∈ q.visits o place, v.Accepted := by
  obtain ⟨_, pull⟩ := q
  subst nodes
  have joins : (Clauses.ofChain ns).joins =
      (Query.mk (.source first :: ns) pull).outline.joins := by
    simp [Clauses.ofChain, outline, QueryNode.join?, List.filterMap_cons]
  rw [visits, ← Clauses.accepted_text _ _ pull, Compiled.Accepted]
  simp only [compile_source_eq_ok_iff, exists_and_left, joins]
  exact and_congr_right fun _ => Compiled.accepted_map _

/-- A query has a statement if its nodes fit together and all that it is written from has a text. -/
theorem accepted_compile :
    (q.compile o).Accepted ↔
      (∃ first ns, q.nodes = .source first :: ns ∧ QueryNode.Fit ns) ∧
        ∀ place, ∀ v ∈ q.visits o place, v.Accepted := by
  constructor
  · rintro ⟨t, ok⟩
    obtain ⟨first, ns, -, -, nodes, -⟩ := compile_eq_ok ok
    obtain ⟨fit, all⟩ := (accepted_compile_source nodes).1 ⟨t, ok⟩
    exact ⟨⟨first, ns, nodes, fit⟩, all⟩
  · rintro ⟨⟨first, ns, nodes, fit⟩, all⟩
    exact (accepted_compile_source nodes).2 ⟨fit, all⟩

end Query
end StreamSql
