import StreamSql.Alias
import StreamSql.Expr.Compile
import StreamSql.Expr.Fold
import StreamSql.Naming
import StreamSql.Query

namespace StreamSql

structure CompileOptions where
  pluralize : Bool
  decimalSeparator : Char
deriving DecidableEq

def CompileOptions.standard : CompileOptions := ⟨true, '.'⟩

def CompileOptions.style (o : CompileOptions) : LiteralStyle := ⟨false, false, o.decimalSeparator⟩

structure Clauses where
  select : Option Expr
  filters : List Expr
  joins : List Join
  groupBy : Option Expr
  having : List Expr
  window : Option Window
  partitionBy : Option Expr
  limit : Option UInt64

namespace Clauses

def empty : Clauses := ⟨none, [], [], none, [], none, none, none⟩

def setOnce {α : Type} (c : Clause) (old : Option α) (new : α) : Compiled (Option α) :=
  match old with
  | some _ => unsupported (.repeatedClause c)
  | none => .ok (some new)

/-- The clauses with one more node. Of several limits the least counts. -/
def add (c : Clauses) : QueryNode → Compiled Clauses
  | .source _ => invalid .lateSource
  | .select e => do .ok { c with select := ← setOnce .select c.select e }
  | .filter e => .ok { c with filters := c.filters ++ [e] }
  | .join j => .ok { c with joins := c.joins ++ [j] }
  | .groupBy e => do .ok { c with groupBy := ← setOnce .groupBy c.groupBy e }
  | .having e => .ok { c with having := c.having ++ [e] }
  | .windowedBy w => do .ok { c with window := ← setOnce .windowedBy c.window w }
  | .partitionBy e => do .ok { c with partitionBy := ← setOnce .partitionBy c.partitionBy e }
  | .take n => .ok { c with limit := some (c.limit.elim n (min · n)) }

def ofNodes (c : Clauses) : List QueryNode → Compiled Clauses
  | [] => .ok c
  | n :: ns => do ofNodes (← c.add n) ns

end Clauses

def Source.displayName (o : CompileOptions) (s : Source) : String :=
  Naming.entityName o.pluralize s.baseName

def scopeSources (o : CompileOptions) (first : Source) (joins : List Join) : List ScopeSource :=
  let all := first :: joins.map (·.other)
  let names := all.map (·.displayName o)
  let aliases := if joins.isEmpty then all.map fun _ => none
    else (Aliases.empty.assignAll names).map some
  List.zipWith (fun (s, n) a => ⟨n, a, s.schema⟩) (all.zip names) aliases

def ScopeSource.text (s : ScopeSource) : String :=
  match s.alias? with
  | some a => s.name ++ " " ++ a
  | none => s.name

def projectedColumn (name : String) (value : Expr) (t : String) : String :=
  if t = name then t
  else match value with
    | .member _ member _ => if member = name then t ++ " " ++ name else t ++ " AS " ++ name
    | _ => t ++ " " ++ name

/-- The columns of a projection to an object. A member that is a whole row adds no column. -/
def projectedColumns (key : KeyText) (s : Scope) : List (String × Expr) → Compiled (List String)
  | [] => .ok []
  | (name, value) :: ms => do
    let t ← value.compile key { s with lowerBools := true }
    let ts ← projectedColumns key s ms
    .ok (if t.isEmpty then ts else projectedColumn name value t :: ts)

def projectionText (key : KeyText) (bindings : List Binding) (s : Scope) : Expr → Compiled
  | .lambda params (.new _ members) => do
    .ok (Text.join ", " (← projectedColumns key (s.bind (params.zip bindings)) members))
  | .lambda params body => body.compile key (s.bind (params.zip bindings))
  | e => e.compile key s

def Expr.lambdaBody : Expr → Expr
  | .lambda _ body => body
  | e => e

def Expr.isOr : Expr → Bool
  | .binary .or _ _ => true
  | _ => false

def predicateText (key : KeyText) (bindings : List Binding) (s : Scope) (e : Expr) : Compiled := do
  let t ← e.fold.compileBound key bindings s
  .ok (if e.fold.lambdaBody.isOr then parens t else t)

def predicateTexts (key : KeyText) (bindings : List Binding) (s : Scope) :
    List Expr → Compiled (List String)
  | [] => .ok []
  | e :: es => do
    let t ← predicateText key bindings s e
    let ts ← predicateTexts key bindings s es
    .ok (t :: ts)

def conditionsText (head : String) (key : KeyText) (bindings : List Binding) (s : Scope)
    (es : List Expr) : Compiled :=
  if es.isEmpty then .ok ""
  else do .ok (head ++ Text.join " AND " (← predicateTexts key bindings s es))

def GroupKey.ofExpr (bindings : List Binding) (e : Expr) : GroupKey :=
  match e.fold with
  | .lambda params body => ⟨params.zip bindings, body⟩
  | body => ⟨[], body⟩

/-- The condition of a join: the key over the sources before it equals the key of its own. -/
def joinCondition (index : Nat) (s : Scope) (j : Join) : Compiled := do
  let outer ← j.outerKey.fold.compileBound noKey ((List.range index).map .source) s
  let inner ← j.innerKey.fold.compileBound noKey [.source index] s
  .ok ("\nON " ++ outer ++ " = " ++ inner)

def joinText (index : Nat) (source : ScopeSource) (s : Scope) (j : Join) : Compiled := do
  let condition ← joinCondition index s j
  let within := match j.within with
    | some w => w.text
    | none => ""
  .ok ("\n" ++ j.kind.text ++ " JOIN " ++ source.text ++ within ++ condition)

def joinTexts (s : Scope) : Nat → List ScopeSource → List Join → Compiled
  | index, source :: sources, j :: joins => do
    let t ← joinText index source s j
    let ts ← joinTexts s (index + 1) sources joins
    .ok (t ++ ts)
  | _, _, _ => .ok ""

def optionalText {α : Type} (head : String) (text : α → String) : Option α → String
  | some a => head ++ text a
  | none => ""

def partitionText (bindings : List Binding) (s : Scope) : Option Expr → Compiled
  | some e => do .ok (" PARTITION BY " ++ (← e.fold.compileBound noKey bindings s))
  | none => .ok ""

def Clauses.projection (c : Clauses) (rows all : List Binding) : Option (Expr × List Binding) :=
  match c.select, c.joins.getLast? with
  | some e, _ => some (e, rows)
  | none, some j => some (j.result, all)
  | none, none => none

def Clauses.text (c : Clauses) (pull : Bool) (sources : List ScopeSource) (s : Scope) : Compiled := do
  let all := (List.range sources.length).map Binding.source
  let groupKey := c.groupBy.map (GroupKey.ofExpr all)
  let grouped ← match groupKey with
    | some k => do .ok (" GROUP BY " ++ (← keyListText k.body (s.bind k.bindings)))
    | none => .ok ""
  let key := match groupKey with
    | some k => k.text
    | none => noKey
  let rows := if groupKey.isSome then [Binding.grouping 0] else all
  let columns ← match c.projection rows all with
    | some (e, bindings) => projectionText key bindings s e.fold
    | none => .ok ""
  let joins ← joinTexts s 1 (sources.drop 1) c.joins
  let filters ← conditionsText "\nWHERE " noKey all s c.filters
  let partition ← partitionText all s c.partitionBy
  let having ← conditionsText " HAVING " key rows s c.having
  .ok ("SELECT " ++ (if columns.isEmpty then "*" else columns) ++
    " FROM " ++ (sources.head?.elim "" ScopeSource.text) ++ joins ++ filters ++
    optionalText " WINDOW " Window.text c.window ++ grouped ++ partition ++ having ++
    (if pull then "" else " EMIT CHANGES") ++
    optionalText " LIMIT " (fun n => toString n.toNat) c.limit)

namespace Query

def selectText (o : CompileOptions) (q : Query) : Compiled :=
  match q.nodes with
  | .source s :: rest => do
    let c ← Clauses.empty.ofNodes rest
    let sources := scopeSources o s c.joins
    c.text q.pull sources ⟨sources, [], [], false, o.decimalSeparator⟩
  | _ => invalid .noSource

def compile (o : CompileOptions) (q : Query) : Compiled := do .ok ((← q.selectText o) ++ ";")

end Query
end StreamSql
