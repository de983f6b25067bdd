import StreamSql.Expr
import StreamSql.Schema

namespace StreamSql

structure Source where
  name : String
  overrideName : Option String
  schema : Option Schema

namespace Source

def named (name : String) : Source := ⟨name, none, none⟩

def baseName (s : Source) : String := s.overrideName.getD s.name

end Source

inductive TimeUnit
  | milliseconds
  | seconds
  | minutes
  | hours
  | days
deriving DecidableEq

namespace TimeUnit

def all : List TimeUnit := [.milliseconds, .seconds, .minutes, .hours, .days]

def tag : TimeUnit → String
  | .milliseconds => "Milliseconds"
  | .seconds => "Seconds"
  | .minutes => "Minutes"
  | .hours => "Hours"
  | .days => "Days"

def text : TimeUnit → String
  | .milliseconds => "MILLISECONDS"
  | .seconds => "SECONDS"
  | .minutes => "MINUTES"
  | .hours => "HOURS"
  | .days => "DAYS"

end TimeUnit

structure Duration where
  value : UInt64
  unit : TimeUnit
deriving DecidableEq

def Duration.text (d : Duration) : String := toString d.value.toNat ++ " " ++ d.unit.text

inductive JoinKind
  | inner
  | left
  | right
  | fullOuter
deriving DecidableEq

namespace JoinKind

def all : List JoinKind := [.inner, .left, .right, .fullOuter]

def tag : JoinKind → String
  | .inner => "Inner"
  | .left => "Left"
  | .right => "Right"
  | .fullOuter => "FullOuter"

def text : JoinKind → String
  | .inner => "INNER"
  | .left => "LEFT"
  | .right => "RIGHT"
  | .fullOuter => "FULL OUTER"

end JoinKind

inductive JoinBounds
  | symmetric (span : Duration)
  | asymmetric (before after : Duration)
deriving DecidableEq

structure JoinWindow where
  bounds : JoinBounds
  grace : Option Duration
deriving DecidableEq

def JoinBounds.text : JoinBounds → String
  | .symmetric span => " WITHIN " ++ span.text
  | .asymmetric before after => " WITHIN (" ++ before.text ++ ", " ++ after.text ++ ")"

def JoinWindow.text (w : JoinWindow) : String :=
  w.bounds.text ++ match w.grace with
    | some g => " GRACE PERIOD " ++ g.text
    | none => ""

/-- A join. Its key and result lambdas take the sources in order: that of the query first, then each
joined one. -/
structure Join where
  kind : JoinKind
  other : Source
  outerKey : Expr
  innerKey : Expr
  result : Expr
  within : Option JoinWindow

inductive WindowKind
  | tumbling (size : Duration)
  | hopping (size advanceBy : Duration)
  | session (gap : Duration)
deriving DecidableEq

structure Window where
  kind : WindowKind
  retention : Option Duration
  grace : Option Duration
deriving DecidableEq

def WindowKind.text : WindowKind → String
  | .tumbling size => "TUMBLING (SIZE " ++ size.text
  | .hopping size advanceBy => "HOPPING (SIZE " ++ size.text ++ ", ADVANCE BY " ++ advanceBy.text
  | .session gap => "SESSION (" ++ gap.text

def Window.text (w : Window) : String :=
  let retention := match w.retention with
    | some d => ", RETENTION " ++ d.text
    | none => ""
  let grace := match w.grace with
    | some d => ", GRACE PERIOD " ++ d.text
    | none => ""
  w.kind.text ++ retention ++ grace ++ ")"

inductive QueryNode
  | source (s : Source)
  | select (e : Expr)
  | filter (e : Expr)
  | join (j : Join)
  | groupBy (e : Expr)
  | having (e : Expr)
  | windowedBy (w : Window)
  | partitionBy (e : Expr)
  | take (n : UInt64)

structure Query where
  nodes : List QueryNode
  /-- A pull query answers once; a push query goes on with every change. -/
  pull : Bool

namespace Query

def ofSource (s : Source) : Query := ⟨[.source s], false⟩

def source? (q : Query) : Option Source :=
  match q.nodes with
  | .source s :: _ => some s
  | _ => none

def push (q : Query) (n : QueryNode) : Query := { q with nodes := q.nodes ++ [n] }

def asPull (q : Query) : Query := { q with pull := true }

def setWithin (w : JoinWindow) : List QueryNode → List QueryNode
  | [] => []
  | .join j :: ns => .join { j with within := some w } :: ns
  | n :: ns => n :: setWithin w ns

/-- Bounds the latest join in time; a query without joins stays as it is. -/
def within (q : Query) (w : JoinWindow) : Query :=
  { q with nodes := (setWithin w q.nodes.reverse).reverse }

end Query
end StreamSql
