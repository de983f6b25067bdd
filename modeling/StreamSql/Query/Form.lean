import StreamSql.Expr.Form
import StreamSql.Query.Select
import StreamSql.Schema.Form

namespace StreamSql

open Json (Fields Origin)

def Source.toJson (s : Source) : Json :=
  .object [("name", .string s.name), ("override_name", .ofOption .string s.overrideName),
    ("schema", .ofOption Schema.toJson s.schema)]

def Source.ofJson? (o : Origin) (j : Json) : Option Source := do
  let fs ← j.fields? ["name", "override_name", "schema"]
  some {
    name := ← fs.required "name" Json.string?
    overrideName := ← fs.optional "override_name" Json.string?
    schema := ← fs.optional "schema" (Schema.ofJson? o) }

def TimeUnit.ofJson? : Json → Option TimeUnit := Json.choice? all tag

def JoinKind.ofJson? : Json → Option JoinKind := Json.choice? all tag

def Duration.toJson (d : Duration) : Json :=
  .object [("value", .ofUInt64 d.value), ("unit", .string d.unit.tag)]

def Duration.ofJson? (j : Json) : Option Duration := do
  let fs ← j.fields? ["value", "unit"]
  some { value := ← fs.required "value" Json.uint64?, unit := ← fs.required "unit" TimeUnit.ofJson? }

def JoinBounds.toJson : JoinBounds → Json
  | .symmetric span => .tagged "Symmetric" span.toJson
  | .asymmetric before after =>
    .tagged "Asymmetric" (.object [("before", before.toJson), ("after", after.toJson)])

def JoinBounds.ofJson? (o : Origin) (j : Json) : Option JoinBounds := do
  match ← j.case? with
  | ("Symmetric", some j) => (Duration.ofJson? j).map .symmetric
  | ("Asymmetric", some j) => do
    let fs ← j.caseFields? o ["before", "after"]
    some (.asymmetric (← fs.required "before" Duration.ofJson?)
      (← fs.required "after" Duration.ofJson?))
  | _ => none

def JoinWindow.toJson (w : JoinWindow) : Json :=
  .object [("bounds", w.bounds.toJson), ("grace_period", .ofOption Duration.toJson w.grace)]

def JoinWindow.ofJson? (o : Origin) (j : Json) : Option JoinWindow := do
  let fs ← j.fields? ["bounds", "grace_period"]
  some {
    bounds := ← fs.required "bounds" (JoinBounds.ofJson? o)
    grace := ← fs.optional "grace_period" Duration.ofJson? }

def Join.toJson (j : Join) : Json :=
  .object [("kind", .string j.kind.tag), ("other", j.other.toJson),
    ("outer_key", j.outerKey.toJson), ("inner_key", j.innerKey.toJson),
    ("result", j.result.toJson), ("within", .ofOption JoinWindow.toJson j.within)]

def Join.ofJson? (o : Origin) (j : Json) : Option Join := do
  let fs ← j.fields? ["kind", "other", "outer_key", "inner_key", "result", "within"]
  some {
    kind := ← fs.required "kind" JoinKind.ofJson?
    other := ← fs.required "other" (Source.ofJson? o)
    outerKey := ← fs.required "outer_key" (Expr.ofJson? o)
    innerKey := ← fs.required "inner_key" (Expr.ofJson? o)
    result := ← fs.required "result" (Expr.ofJson? o)
    within := ← fs.optional "within" (JoinWindow.ofJson? o) }

def WindowKind.toJson : WindowKind → Json
  | .tumbling size => .tagged "Tumbling" (.object [("size", size.toJson)])
  | .hopping size advanceBy =>
    .tagged "Hopping" (.object [("size", size.toJson), ("advance_by", advanceBy.toJson)])
  | .session gap => .tagged "Session" (.object [("gap", gap.toJson)])

def WindowKind.ofJson? (o : Origin) (j : Json) : Option WindowKind := do
  match ← j.case? with
  | ("Tumbling", some j) => do
    let fs ← j.caseFields? o ["size"]
    some (.tumbling (← fs.required "size" Duration.ofJson?))
  | ("Hopping", some j) => do
    let fs ← j.caseFields? o ["size", "advance_by"]
    some (.hopping (← fs.required "size" Duration.ofJson?)
      (← fs.required "advance_by" Duration.ofJson?))
  | ("Session", some j) => do
    let fs ← j.caseFields? o ["gap"]
    some (.session (← fs.required "gap" Duration.ofJson?))
  | _ => none

def Window.toJson (w : Window) : Json :=
  .object [("kind", w.kind.toJson), ("retention", .ofOption Duration.toJson w.retention),
    ("grace_period", .ofOption Duration.toJson w.grace)]

def Window.ofJson? (o : Origin) (j : Json) : Option Window := do
  let fs ← j.fields? ["kind", "retention", "grace_period"]
  some {
    kind := ← fs.required "kind" (WindowKind.ofJson? o)
    retention := ← fs.optional "retention" Duration.ofJson?
    grace := ← fs.optional "grace_period" Duration.ofJson? }

def QueryNode.toJson : QueryNode → Json
  | .source s => .tagged "Source" s.toJson
  | .select e => .tagged "Select" e.toJson
  | .filter e => .tagged "Where" e.toJson
  | .join j => .tagged "Join" j.toJson
  | .groupBy e => .tagged "GroupBy" e.toJson
  | .having e => .tagged "Having" e.toJson
  | .windowedBy w => .tagged "WindowedBy" w.toJson
  | .partitionBy e => .tagged "PartitionBy" e.toJson
  | .take n => .tagged "Take" (.ofUInt64 n)

def QueryNode.ofJson? (o : Origin) (j : Json) : Option QueryNode := do
  match ← j.case? with
  | ("Source", some j) => (Source.ofJson? o j).map .source
  | ("Select", some j) => (Expr.ofJson? o j).map .select
  | ("Where", some j) => (Expr.ofJson? o j).map .filter
  | ("Join", some j) => (Join.ofJson? o j).map .join
  | ("GroupBy", some j) => (Expr.ofJson? o j).map .groupBy
  | ("Having", some j) => (Expr.ofJson? o j).map .having
  | ("WindowedBy", some j) => (Window.ofJson? o j).map .windowedBy
  | ("PartitionBy", some j) => (Expr.ofJson? o j).map .partitionBy
  | ("Take", some j) => j.uint64?.map .take
  | _ => none

def Query.toJson (q : Query) : Json :=
  .object [("nodes", .ofList QueryNode.toJson q.nodes), ("pull", .bool q.pull)]

def Query.ofJson? (o : Origin) (j : Json) : Option Query := do
  let fs ← j.fields? ["nodes", "pull"]
  some {
    nodes := ← fs.required "nodes" (Json.list? (QueryNode.ofJson? o))
    pull := ← fs.orElse "pull" Json.bool? false }

def CompileOptions.toJson (o : CompileOptions) : Json :=
  .object [("pluralize", .bool o.pluralize), ("decimal_separator", .ofChar o.decimalSeparator)]

def CompileOptions.ofJson? (j : Json) : Option CompileOptions := do
  let fs ← j.fields? ["pluralize", "decimal_separator"]
  some {
    pluralize := ← fs.orElse "pluralize" Json.bool? true
    decimalSeparator := ← fs.orElse "decimal_separator" Json.char? '.' }

end StreamSql
