import StreamSql.Function
import StreamSql.Value

namespace StreamSql

inductive BinaryOp
  | and
  | or
  | eq
  | ne
  | lt
  | le
  | gt
  | ge
  | add
  | sub
  | mul
  | div
  | rem
  | index
deriving DecidableEq

namespace BinaryOp

def all : List BinaryOp :=
  [.and, .or, .eq, .ne, .lt, .le, .gt, .ge, .add, .sub, .mul, .div, .rem, .index]

def tag : BinaryOp → String
  | .and => "And"
  | .or => "Or"
  | .eq => "Eq"
  | .ne => "Ne"
  | .lt => "Lt"
  | .le => "Le"
  | .gt => "Gt"
  | .ge => "Ge"
  | .add => "Add"
  | .sub => "Sub"
  | .mul => "Mul"
  | .div => "Div"
  | .rem => "Rem"
  | .index => "Index"

def precedence : BinaryOp → Nat
  | .or => 1
  | .and => 2
  | .eq | .ne | .lt | .le | .gt | .ge => 3
  | .add | .sub => 4
  | .mul | .div | .rem => 5
  | .index => 6

def text : BinaryOp → String
  | .and => "AND"
  | .or => "OR"
  | .eq => "="
  | .ne => "!="
  | .lt => "<"
  | .le => "<="
  | .gt => ">"
  | .ge => ">="
  | .add => "+"
  | .sub => "-"
  | .mul => "*"
  | .div => "/"
  | .rem => "%"
  | .index => "[]"

end BinaryOp

inductive UnaryOp
  | not
  | negate
deriving DecidableEq

inductive Method
  | scalar (f : ScalarFn)
  | udf (name : String) (externalName : Option String)
  | aggregate (f : AggregateFn)
  /-- Membership in a list, a part of a string, or an item of an array: its receiver tells. -/
  | contains
  | startsWith
  | endsWith
  | between
  | notBetween
  | higherOrder (f : HigherOrderFn)
  | cast (type : CastType)
  /-- A method that statements have no counterpart for. -/
  | other (name : String)
deriving DecidableEq

inductive Expr
  | constant (v : Value)
  /-- A parameter of a lambda: a row, a group of rows, or an item of a collection. -/
  | parameter (name : String)
  /-- A variable of the surrounding program, with the value it has there. -/
  | captured (name : String) (v : Value)
  /-- Member access; `rename` is the member's wire name where the access gives one. -/
  | member (target : Expr) (name : String) (rename : Option String)
  | binary (op : BinaryOp) (left right : Expr)
  | unary (op : UnaryOp) (operand : Expr)
  | call (target : Option Expr) (method : Method) (args : List Expr)
  | new (typeName : Option String) (members : List (String × Expr))
  | array (items : List Expr)
  | map (entries : List (Expr × Expr))
  | lambda (params : List String) (body : Expr)

namespace Expr

instance : Inhabited Expr := ⟨.constant .null⟩

mutual
/-- Whether no lambda parameter occurs, so that the value does not depend on the rows. -/
def isSourceIndependent : Expr → Bool
  | .constant _ | .captured _ _ => true
  | .parameter _ | .lambda _ _ | .call _ _ _ => false
  | .member target _ _ => target.isSourceIndependent
  | .binary _ left right => left.isSourceIndependent && right.isSourceIndependent
  | .unary _ operand => operand.isSourceIndependent
  | .new _ members => areMembersIndependent members
  | .array items => areItemsIndependent items
  | .map entries => areEntriesIndependent entries
termination_by structural e => e
def areItemsIndependent : List Expr → Bool
  | [] => true
  | e :: es => e.isSourceIndependent && areItemsIndependent es
termination_by structural es => es
def areMembersIndependent : List (String × Expr) → Bool
  | [] => true
  | (_, e) :: ms => e.isSourceIndependent && areMembersIndependent ms
termination_by structural ms => ms
def areEntriesIndependent : List (Expr × Expr) → Bool
  | [] => true
  | (k, v) :: es => k.isSourceIndependent && v.isSourceIndependent && areEntriesIndependent es
termination_by structural es => es
end

def lit {α : Type} [ToValue α] (a : α) : Expr := .constant (toValue a)

def null : Expr := .constant .null

def func (f : ScalarFn) (args : List Expr) : Expr := .call none (.scalar f) args

def udf (name : String) (externalName : Option String) (args : List Expr) : Expr :=
  .call none (.udf name externalName) args

def renamed (wireName : String) : Expr → Expr
  | .member target name _ => .member target name (some wireName)
  | e => e

def contains (e item : Expr) : Expr := .call (some e) .contains [item]

end Expr
end StreamSql
