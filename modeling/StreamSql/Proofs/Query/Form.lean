import StreamSql.Proofs.Expr.Form
import StreamSql.Proofs.Schema.Form
import StreamSql.Query.Form

namespace StreamSql

open Json (Fields Origin)

theorem TimeUnit.ofJson?_tag (u : TimeUnit) : TimeUnit.ofJson? (.string u.tag) = some u :=
  Json.choice?_tag (by decide +kernel) (by cases u <;> decide)

theorem JoinKind.ofJson?_tag (k : JoinKind) : JoinKind.ofJson? (.string k.tag) = some k :=
  Json.choice?_tag (by decide +kernel) (by cases k <;> decide)

namespace Duration

theorem readsBack_toJson (d : Duration) : d.toJson.ReadsBack :=
  ⟨Number.readsBack_whole _ _, trivial, trivial⟩

theorem ofJson?_toJson (d : Duration) : Duration.ofJson? d.toJson = some d := by
  simp [-Option.bind_some, Json.some_bind, Duration.ofJson?, toJson, Json.fields?_object,
    Fields.required_cons, Json.uint64?_ofUInt64, TimeUnit.ofJson?_tag]

theorem nullable?_ofOption (d : Option Duration) :
    Json.nullable? Duration.ofJson? (.ofOption toJson d) = some d :=
  Json.nullable?_ofOption fun d _ => ⟨by simp [toJson], d.ofJson?_toJson⟩

end Duration

namespace Source

theorem readsBack_toJson (s : Source) : s.toJson.ReadsBack :=
  ⟨trivial, Json.readsBack_ofOption fun _ _ => trivial,
    Json.readsBack_ofOption fun schema _ => schema.readsBack_toJson, trivial⟩

theorem ofJson?_toJson (o : Origin) (s : Source) : Source.ofJson? o s.toJson = some s := by
  have schema : Json.nullable? (Schema.ofJson? o) (.ofOption Schema.toJson s.schema) =
      some s.schema :=
    Json.nullable?_ofOption fun schema _ => ⟨by simp [Schema.toJson], schema.ofJson?_toJson o⟩
  simp [Source.ofJson?, toJson, Json.fields?_object, Fields.required_cons, Fields.optional_cons,
    Json.string?, Json.nullable?_ofOption, schema]

end Source

namespace JoinBounds

theorem readsBack_toJson (b : JoinBounds) : b.toJson.ReadsBack := by
  cases b with
  | symmetric span => exact ⟨span.readsBack_toJson, trivial⟩
  | asymmetric before after =>
    exact ⟨⟨before.readsBack_toJson, after.readsBack_toJson, trivial⟩, trivial⟩

theorem ofJson?_toJson (o : Origin) (b : JoinBounds) : JoinBounds.ofJson? o b.toJson = some b := by
  cases b <;>
    simp [-Option.bind_some, Json.some_bind, JoinBounds.ofJson?, toJson, Json.tagged, Json.case?,
      Json.caseFields?_object, Fields.required_cons, Duration.ofJson?_toJson]

end JoinBounds

namespace JoinWindow

theorem readsBack_toJson (w : JoinWindow) : w.toJson.ReadsBack :=
  ⟨w.bounds.readsBack_toJson, Json.readsBack_ofOption fun d _ => d.readsBack_toJson, trivial⟩

theorem ofJson?_toJson (o : Origin) (w : JoinWindow) : JoinWindow.ofJson? o w.toJson = some w := by
  simp [JoinWindow.ofJson?, toJson, Json.fields?_object, Fields.required_cons, Fields.optional_cons,
    w.bounds.ofJson?_toJson, Duration.nullable?_ofOption]

end JoinWindow

namespace WindowKind

theorem readsBack_toJson (k : WindowKind) : k.toJson.ReadsBack := by
  cases k with
  | tumbling size => exact ⟨⟨size.readsBack_toJson, trivial⟩, trivial⟩
  | hopping size advanceBy =>
    exact ⟨⟨size.readsBack_toJson, advanceBy.readsBack_toJson, trivial⟩, trivial⟩
  | session gap => exact ⟨⟨gap.readsBack_toJson, trivial⟩, trivial⟩

theorem ofJson?_toJson (o : Origin) (k : WindowKind) : WindowKind.ofJson? o k.toJson = some k := by
  cases k <;>
    simp [-Option.bind_some, Json.some_bind, WindowKind.ofJson?, toJson, Json.tagged, Json.case?,
      Json.caseFields?_object, Fields.required_cons, Duration.ofJson?_toJson]

end WindowKind

namespace Window

theorem readsBack_toJson (w : Window) : w.toJson.ReadsBack :=
  ⟨w.kind.readsBack_toJson, Json.readsBack_ofOption fun d _ => d.readsBack_toJson,
    Json.readsBack_ofOption fun d _ => d.readsBack_toJson, trivial⟩

theorem ofJson?_toJson (o : Origin) (w : Window) : Window.ofJson? o w.toJson = some w := by
  simp [Window.ofJson?, toJson, Json.fields?_object, Fields.required_cons, Fields.optional_cons,
    w.kind.ofJson?_toJson, Duration.nullable?_ofOption]

end Window

def QueryNode.exprs : QueryNode → List Expr
  | .select e | .filter e | .groupBy e | .having e | .partitionBy e => [e]
  | .join j => [j.outerKey, j.innerKey, j.result]
  | .source _ | .windowedBy _ | .take _ => []

def QueryNode.ReadsBack (n : QueryNode) : Prop := ∀ e ∈ n.exprs, e.ReadsBack

theorem QueryNode.readsBack_join {j : Join} : (QueryNode.join j).ReadsBack ↔
    j.outerKey.ReadsBack ∧ j.innerKey.ReadsBack ∧ j.result.ReadsBack := by
  simp [QueryNode.ReadsBack, exprs]

theorem Join.readsBack_toJson {j : Join} (h : (QueryNode.join j).ReadsBack) :
    j.toJson.ReadsBack := by
  obtain ⟨outer, inner, result⟩ := QueryNode.readsBack_join.1 h
  exact ⟨trivial, j.other.readsBack_toJson, j.outerKey.readsBack_toJson outer,
    j.innerKey.readsBack_toJson inner, j.result.readsBack_toJson result,
    Json.readsBack_ofOption fun w _ => w.readsBack_toJson, trivial⟩

theorem Join.ofJson?_toJson (o : Origin) {j : Join} (h : (QueryNode.join j).ReadsBack) :
    Join.ofJson? o j.toJson = some j := by
  obtain ⟨outer, inner, result⟩ := QueryNode.readsBack_join.1 h
  have within : Json.nullable? (JoinWindow.ofJson? o) (.ofOption JoinWindow.toJson j.within) =
      some j.within :=
    Json.nullable?_ofOption fun w _ => ⟨by simp [JoinWindow.toJson], w.ofJson?_toJson o⟩
  simp [Join.ofJson?, toJson, Json.fields?_object, Fields.required_cons, Fields.optional_cons,
    JoinKind.ofJson?_tag, j.other.ofJson?_toJson, Expr.ofJson?_toJson o outer,
    Expr.ofJson?_toJson o inner, Expr.ofJson?_toJson o result, within]

namespace QueryNode

theorem readsBack_toJson {n : QueryNode} (h : n.ReadsBack) : n.toJson.ReadsBack := by
  cases n with
  | source s => exact ⟨s.readsBack_toJson, trivial⟩
  | join j => exact ⟨Join.readsBack_toJson h, trivial⟩
  | windowedBy w => exact ⟨w.readsBack_toJson, trivial⟩
  | take n => exact ⟨Number.readsBack_whole _ _, trivial⟩
  | select e | filter e | groupBy e | having e | partitionBy e =>
    exact ⟨e.readsBack_toJson (h e (by simp [exprs])), trivial⟩

theorem ofJson?_toJson (o : Origin) {n : QueryNode} (h : n.ReadsBack) :
    QueryNode.ofJson? o n.toJson = some n := by
  cases n with
  | source s => simp [QueryNode.ofJson?, toJson, Json.tagged, Json.case?, s.ofJson?_toJson]
  | join j => simp [QueryNode.ofJson?, toJson, Json.tagged, Json.case?, Join.ofJson?_toJson o h]
  | windowedBy w => simp [QueryNode.ofJson?, toJson, Json.tagged, Json.case?, w.ofJson?_toJson]
  | take n =>
    simp [-Option.bind_some, Json.some_bind, QueryNode.ofJson?, toJson, Json.tagged, Json.case?,
      Json.uint64?_ofUInt64]
  | select e | filter e | groupBy e | having e | partitionBy e =>
    simp [QueryNode.ofJson?, toJson, Json.tagged, Json.case?,
      Expr.ofJson?_toJson o (h e (by simp [exprs]))]

end QueryNode

namespace Query

def ReadsBack (q : Query) : Prop := ∀ n ∈ q.nodes, n.ReadsBack

variable {q : Query}

theorem readsBack_toJson (h : q.ReadsBack) : q.toJson.ReadsBack :=
  ⟨Json.itemsReadBack_map fun n mem => QueryNode.readsBack_toJson (h n mem), trivial, trivial⟩

theorem ofJson?_toJson (o : Origin) (h : q.ReadsBack) : Query.ofJson? o q.toJson = some q := by
  have nodes : Json.list? (QueryNode.ofJson? o) (.ofList QueryNode.toJson q.nodes) = some q.nodes :=
    Json.list?_map fun n mem => QueryNode.ofJson?_toJson o (h n mem)
  simp [Query.ofJson?, toJson, Json.fields?_object, Fields.required_cons, Fields.orElse_cons,
    Json.bool?, nodes]

end Query
end StreamSql
