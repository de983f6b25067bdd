import StreamSql.Entity
import StreamSql.Query.Select

namespace StreamSql

def StatementKind.head (kind : StatementKind) (ifNotExists : Bool) (name : String) : Compiled :=
  if ifNotExists && kind.isReplace then unsupported .replaceIfNotExists
  else .ok (kind.keyword ++ (if ifNotExists then " IF NOT EXISTS" else "") ++ " " ++ name)

/-- What a key column carries. The rows of a table have a primary key always. -/
def StatementKind.keyText (kind : StatementKind) : KeyRole → String
  | .none => ""
  | .primaryKey => " PRIMARY KEY"
  | .key => if kind.isTable then " PRIMARY KEY" else " KEY"

def Column.definition (kind : StatementKind) (c : Column) : String :=
  c.wireName ++ " " ++ c.kind.text ++ kind.keyText c.key

def createStatement (schema : Schema) (m : Metadata) (kind : StatementKind) (ifNotExists : Bool) :
    Compiled :=
  if schema.columns.isEmpty then invalid (.noColumns schema.name)
  else do
    let head ← kind.head ifNotExists (m.resolveName schema.name)
    .ok (head ++ " (" ++ Text.join ", " (schema.columns.map (·.definition kind)) ++ ")" ++
      m.withClause ++ ";")

/-- The name of an entity that holds the rows of a query: it is taken as it stands. -/
def Metadata.queryName (m : Metadata) (q : Query) : Compiled :=
  match m.entityName, q.source? with
  | some name, _ => .ok name
  | none, some s => .ok s.baseName
  | none, none => invalid .noSource

def createAsSelect (q : Query) (m : Metadata) (kind : StatementKind) (ifNotExists : Bool)
    (o : CompileOptions) : Compiled :=
  if kind.isSource then unsupported .sourceAsSelect
  else do
    let name ← m.queryName q
    let select ← q.selectText o
    let head ← kind.head ifNotExists name
    .ok (head ++ m.withClause ++ " AS " ++ select ++ ";")

end StreamSql
