import StreamSql.Entity.Create
import StreamSql.Proofs.Expr.Fold
import StreamSql.Proofs.Query.Clauses

namespace StreamSql

/-- The way to a node from above: which part to take, again and again. -/
abbrev Path := List Nat

abbrev Names := Path → Option String

def Names.at (names : Names) (i : Nat) : Names := fun p => names (i :: p)

namespace Expr

mutual
def capture (names : Names) : Expr → Expr
  | .constant v =>
    match names [] with
    | some name => .captured name v
    | none => .constant v
  | .parameter p => .parameter p
  | .captured name v => .captured name v
  | .member target name rename => .member (target.capture (names.at 0)) name rename
  | .binary op left right => .binary op (left.capture (names.at 0)) (right.capture (names.at 1))
  | .unary op operand => .unary op (operand.capture (names.at 0))
  | .call target method args =>
    .call (captureTarget (names.at 0) target) method (captureItems (names.at 1) args)
  | .new typeName members => .new typeName (captureMembers names members)
  | .array items => .array (captureItems names items)
  | .map entries => .map (captureEntries names entries)
  | .lambda params body => .lambda params (body.capture (names.at 0))
termination_by structural e => e
def captureTarget (names : Names) : Option Expr → Option Expr
  | none => none
  | some e => some (e.capture names)
termination_by structural e => e
def captureItems (names : Names) : List Expr → List Expr
  | [] => []
  | e :: es => e.capture (names.at 0) :: captureItems (names.at 1) es
termination_by structural es => es
def captureMembers (names : Names) : List (String × Expr) → List (String × Expr)
  | [] => []
  | (n, e) :: ms => (n, e.capture (names.at 0)) :: captureMembers (names.at 1) ms
termination_by structural ms => ms
def captureEntries (names : Names) : List (Expr × Expr) → List (Expr × Expr)
  | [] => []
  | (k, v) :: es =>
    (k.capture (names.at 0), v.capture (names.at 1)) :: captureEntries (names.at 2) es
termination_by structural es => es
end

@[simp] theorem value?_capture (e : Expr) (names : Names) :
    (e.capture names).value? = e.value? := by
  induction e using ind generalizing names with
  | constant v =>
    simp only [capture]
    split <;> rfl
  | member target name rename ih => exact value?_member_congr (ih _) name rename
  | binary op left right ihl ihr => exact value?_binary_congr op (ihl _) (ihr _)
  | _ => rfl

mutual
theorem fold_capture (names : Names) : ∀ e : Expr, (e.capture names).fold = e.fold
  | .constant v => by simp only [capture]; split <;> rfl
  | .parameter _ => rfl
  | .captured _ _ => rfl
  | .member target name rename => by
    simp only [capture, fold, fold_capture _ target]
    exact constantOr_congr (value?_member_congr (value?_capture target _) name rename)
  | .binary op left right => by
    simp only [capture, fold, fold_capture _ left, fold_capture _ right]
    exact constantOr_congr (value?_binary_congr op (value?_capture left _) (value?_capture right _))
  | .unary op operand => by simp only [capture, fold, fold_capture _ operand]
  | .call target method args => by
    simp only [capture, fold, foldTarget_capture _ target, foldItems_capture _ args]
  | .new typeName members => by simp only [capture, fold, foldMembers_capture _ members]
  | .array items => by simp only [capture, fold, foldItems_capture _ items]
  | .map entries => by simp only [capture, fold, foldEntries_capture _ entries]
  | .lambda params body => by simp only [capture, fold, fold_capture _ body]
termination_by structural e => e
theorem foldTarget_capture (names : Names) :
    ∀ e : Option Expr, foldTarget (captureTarget names e) = foldTarget e
  | none => rfl
  | some e => by simp only [captureTarget, foldTarget, fold_capture _ e]
termination_by structural e => e
theorem foldItems_capture (names : Names) :
    ∀ es : List Expr, foldItems (captureItems names es) = foldItems es
  | [] => rfl
  | e :: es => by simp only [captureItems, foldItems, fold_capture _ e, foldItems_capture _ es]
termination_by structural es => es
theorem foldMembers_capture (names : Names) :
    ∀ ms : List (String × Expr), foldMembers (captureMembers names ms) = foldMembers ms
  | [] => rfl
  | (n, e) :: ms => by
    simp only [captureMembers, foldMembers, fold_capture _ e, foldMembers_capture _ ms]
termination_by structural ms => ms
theorem foldEntries_capture (names : Names) :
    ∀ es : List (Expr × Expr), foldEntries (captureEntries names es) = foldEntries es
  | [] => rfl
  | (k, v) :: es => by
    simp only [captureEntries, foldEntries, fold_capture _ k, fold_capture _ v,
      foldEntries_capture _ es]
termination_by structural es => es
end

end Expr

def Join.folded (j : Join) : Join :=
  { j with outerKey := j.outerKey.fold, innerKey := j.innerKey.fold, result := j.result.fold }

def QueryNode.folded : QueryNode → QueryNode
  | .select e => .select e.fold
  | .filter e => .filter e.fold
  | .join j => .join j.folded
  | .groupBy e => .groupBy e.fold
  | .having e => .having e.fold
  | .partitionBy e => .partitionBy e.fold
  | n => n

namespace Clauses

def folded (c : Clauses) : Clauses :=
  { c with
    select := c.select.map Expr.fold
    filters := c.filters.map Expr.fold
    joins := c.joins.map Join.folded
    groupBy := c.groupBy.map Expr.fold
    having := c.having.map Expr.fold
    partitionBy := c.partitionBy.map Expr.fold }

theorem setOnce_map {α β : Type} (f : α → β) (c : Clause) (old : Option α) (new : α) :
    setOnce c (old.map f) (f new) = (setOnce c old new).map (Option.map f) := by
  cases old <;> rfl

theorem add_folded (c : Clauses) (n : QueryNode) :
    c.folded.add n.folded = (c.add n).map folded := by
  cases n with
  | select e =>
    have := setOnce_map Expr.fold .select c.select e
    simp only [add, QueryNode.folded, folded, this]
    cases setOnce .select c.select e <;> rfl
  | groupBy e =>
    have := setOnce_map Expr.fold .groupBy c.groupBy e
    simp only [add, QueryNode.folded, folded, this]
    cases setOnce .groupBy c.groupBy e <;> rfl
  | partitionBy e =>
    have := setOnce_map Expr.fold .partitionBy c.partitionBy e
    simp only [add, QueryNode.folded, folded, this]
    cases setOnce .partitionBy c.partitionBy e <;> rfl
  | windowedBy w =>
    simp only [add, QueryNode.folded, folded]
    cases setOnce .windowedBy c.window w <;> rfl
  | source => rfl
  | filter | join | having => simp [add, QueryNode.folded, folded, Except.map]
  | take => rfl

theorem ofNodes_folded (c : Clauses) (ns : List QueryNode) :
    c.folded.ofNodes (ns.map QueryNode.folded) = (c.ofNodes ns).map folded := by
  induction ns generalizing c with
  | nil => rfl
  | cons n ns ih =>
    simp only [List.map_cons, ofNodes, add_folded]
    cases c.add n with
    | error => rfl
    | ok d => exact ih d

end Clauses

@[simp] theorem predicateText_fold (key : KeyText) (bs : List Binding) (s : Scope) (e : Expr) :
    predicateText key bs s e.fold = predicateText key bs s e := by
  simp [predicateText]

@[simp] theorem predicateTexts_fold (key : KeyText) (bs : List Binding) (s : Scope)
    (es : List Expr) :
    predicateTexts key bs s (es.map Expr.fold) = predicateTexts key bs s es := by
  induction es with
  | nil => rfl
  | cons e es ih => simp [predicateTexts, ih]

@[simp] theorem conditionsText_fold (head : String) (key : KeyText) (bs : List Binding) (s : Scope)
    (es : List Expr) :
    conditionsText head key bs s (es.map Expr.fold) = conditionsText head key bs s es := by
  simp [conditionsText]

@[simp] theorem GroupKey.ofExpr_fold (bs : List Binding) (e : Expr) :
    ofExpr bs e.fold = ofExpr bs e := by
  simp [ofExpr]

@[simp] theorem joinText_folded (index : Nat) (source : ScopeSource) (s : Scope) (j : Join) :
    joinText index source s j.folded = joinText index source s j := by
  simp [joinText, joinCondition, Join.folded]

@[simp] theorem joinTexts_folded (s : Scope) (index : Nat) (sources : List ScopeSource)
    (js : List Join) :
    joinTexts s index sources (js.map Join.folded) = joinTexts s index sources js := by
  induction js generalizing index sources with
  | nil => rfl
  | cons j js ih => cases sources <;> simp [joinTexts, ih]

@[simp] theorem partitionText_fold (bs : List Binding) (s : Scope) (e : Option Expr) :
    partitionText bs s (e.map Expr.fold) = partitionText bs s e := by
  cases e <;> simp [partitionText]

@[simp] theorem scopeSources_folded (o : CompileOptions) (first : Source) (js : List Join) :
    scopeSources o first (js.map Join.folded) = scopeSources o first js := by
  simp [scopeSources, Function.comp_def, Join.folded]

namespace Clauses

variable (c : Clauses) (sources : List ScopeSource) (s : Scope)

@[simp] theorem groupKey_folded : c.folded.groupKey sources = c.groupKey sources := by
  simp [groupKey, folded, Function.comp_def]

@[simp] theorem key_folded : c.folded.key sources = c.key sources := by simp [key]

@[simp] theorem groupRows_folded : c.folded.groupRows sources = c.groupRows sources := by
  simp [groupRows, folded]

@[simp] theorem groupedText_folded : c.folded.groupedText sources s = c.groupedText sources s := by
  simp [groupedText]

theorem projection_folded (rows all : List Binding) :
    c.folded.projection rows all = (c.projection rows all).map fun (e, bs) => (e.fold, bs) := by
  cases he : c.select <;> cases hj : c.joins.getLast? <;>
    simp [projection, folded, he, hj, Join.folded]

@[simp] theorem columnsText_folded : c.folded.columnsText sources s = c.columnsText sources s := by
  simp only [columnsText, projection_folded, groupRows_folded, key_folded]
  cases c.projection (c.groupRows sources) (rowBindings sources) <;> simp

theorem text_folded (pull : Bool) : c.folded.text pull sources s = c.text pull sources s := by
  simp only [text_eq, groupedText_folded, columnsText_folded, key_folded, groupRows_folded]
  simp only [folded, joinTexts_folded, conditionsText_fold, partitionText_fold]
  rfl

end Clauses

namespace Query

def folded (q : Query) : Query := { q with nodes := q.nodes.map QueryNode.folded }

theorem selectText_folded (o : CompileOptions) (q : Query) :
    q.folded.selectText o = q.selectText o := by
  rcases q with ⟨_ | ⟨n, ns⟩, pull⟩
  · rfl
  · cases n with
    | source first =>
      have clauses := Clauses.ofNodes_folded .empty ns
      rw [show Clauses.empty.folded = .empty from rfl] at clauses
      simp only [selectText, folded, List.map_cons, QueryNode.folded, clauses]
      cases Clauses.empty.ofNodes ns with
      | error => rfl
      | ok c =>
        have sources :
            StreamSql.scopeSources o first c.folded.joins = StreamSql.scopeSources o first c.joins :=
          scopeSources_folded o first c.joins
        simp only [Except.map, bind, Except.bind, sources, Clauses.text_folded]
    | _ => rfl

end Query

def Join.capture (names : Names) (j : Join) : Join :=
  { j with
    outerKey := j.outerKey.capture (names.at 0)
    innerKey := j.innerKey.capture (names.at 1)
    result := j.result.capture (names.at 2) }

def QueryNode.capture (names : Names) : QueryNode → QueryNode
  | .source s => .source s
  | .select e => .select (e.capture names)
  | .filter e => .filter (e.capture names)
  | .join j => .join (j.capture names)
  | .groupBy e => .groupBy (e.capture names)
  | .having e => .having (e.capture names)
  | .windowedBy w => .windowedBy w
  | .partitionBy e => .partitionBy (e.capture names)
  | .take n => .take n

def QueryNode.captureAll (names : Names) : List QueryNode → List QueryNode
  | [] => []
  | n :: ns => n.capture (names.at 0) :: captureAll (names.at 1) ns

theorem QueryNode.folded_capture (names : Names) (n : QueryNode) :
    (n.capture names).folded = n.folded := by
  cases n <;> simp [capture, folded, Join.capture, Join.folded, Expr.fold_capture]

theorem QueryNode.folded_captureAll (names : Names) (ns : List QueryNode) :
    (captureAll names ns).map folded = ns.map folded := by
  induction ns generalizing names with
  | nil => rfl
  | cons n ns ih => simp [captureAll, folded_capture, ih]

namespace Query

def capture (names : Names) (q : Query) : Query :=
  { q with nodes := QueryNode.captureAll names q.nodes }

theorem selectText_capture (o : CompileOptions) (names : Names) (q : Query) :
    (q.capture names).selectText o = q.selectText o := by
  have folded : (q.capture names).folded = q.folded := by
    simp [Query.folded, capture, QueryNode.folded_captureAll]
  rw [← selectText_folded, folded, selectText_folded]

theorem source?_capture (names : Names) (q : Query) : (q.capture names).source? = q.source? := by
  rcases q with ⟨_ | ⟨n, ns⟩, pull⟩
  · rfl
  · cases n <;> rfl

/-- Which constants of a query are captured variables, and under which names, makes no difference to
its statements. -/
theorem compile_capture (names : Names) (q : Query) (o : CompileOptions) :
    (q.capture names).compile o = q.compile o ∧
      ∀ m kind ifNotExists,
        createAsSelect (q.capture names) m kind ifNotExists o =
          createAsSelect q m kind ifNotExists o := by
  refine ⟨by simp [compile, selectText_capture], fun m kind ifNotExists => ?_⟩
  have name : m.queryName (q.capture names) = m.queryName q := by
    simp [Metadata.queryName, source?_capture]
  simp [createAsSelect, name, selectText_capture]

end Query
end StreamSql
