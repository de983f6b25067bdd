import StreamSql.Expr
import StreamSql.Value.Literal

namespace StreamSql

inductive Binding
  | source (index : Nat)
  | grouping (index : Nat)
  | item
deriving DecidableEq

structure ScopeSource where
  name : String
  alias? : Option String
  schema : Option Schema

/-- The latest bindings and kinds come first. -/
structure Scope where
  sources : List ScopeSource
  bindings : List (String × Binding)
  itemKinds : List (String × TypeKind)
  lowerBools : Bool
  separator : Char

namespace Scope

def lookup? (s : Scope) (name : String) : Option Binding := s.bindings.lookup name

def itemKind? (s : Scope) (name : String) : Option TypeKind := s.itemKinds.lookup name

/-- The scope with the bindings added; of two with one name the later counts. -/
def bind (s : Scope) (bs : List (String × Binding)) : Scope :=
  { s with bindings := bs.reverse ++ s.bindings }

def withItemKind (s : Scope) (name : String) : Option TypeKind → Scope
  | some k => { s with itemKinds := (name, k) :: s.itemKinds }
  | none => s

def style (s : Scope) : LiteralStyle := ⟨s.lowerBools, false, s.separator⟩

def column? (s : Scope) (index : Nat) (name : String) : Option Column := do
  let source ← s.sources[index]?
  let schema ← source.schema
  schema.find? name

/-- A column of a source: its wire name, after the alias of the source if it has one. -/
def columnText (s : Scope) (index : Nat) (name : String) (rename : Option String) : String :=
  let wire := rename.getD (((s.column? index name).map Column.wireName).getD name)
  match s.sources[index]?.bind (·.alias?) with
  | some a => a ++ "." ++ wire
  | none => wire

def isGrouping (s : Scope) : Expr → Bool
  | .parameter p => match s.lookup? p with
    | some (.grouping _) => true
    | _ => false
  | _ => false

end Scope

mutual
/-- The kind of a value, where its form shows one; an array goes by its first item. -/
def Value.kind? : Value → Option TypeKind
  | .bool _ => some .boolean
  | .int _ => some .bigInt
  | .float _ => some .double
  | .string _ | .enum _ => some .string
  | .bytes _ => some .bytes
  | .array items => some (.array (itemKind items))
  | _ => none
termination_by structural v => v
def itemKind : List Value → TypeKind
  | [] => .string
  | v :: _ => v.kind?.getD .string
termination_by structural vs => vs
end

def Expr.kind? (s : Scope) : Expr → Option TypeKind
  | .constant v => v.kind?
  | .captured _ v => v.kind?
  | .parameter p => if s.lookup? p = some .item then s.itemKind? p else none
  | .array [] => some (.array .string)
  | .array (e :: _) => some (.array ((e.kind? s).getD .string))
  | .member (.parameter p) name _ =>
    match s.lookup? p with
    | some (.source i) => (s.column? i name).map Column.kind
    | _ => none
  | .member target name _ => do
    let fields ← (← target.kind? s).fields?
    (Column.find? name fields).map Column.kind
  | _ => none
termination_by structural e => e

end StreamSql
