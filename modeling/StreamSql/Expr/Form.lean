import StreamSql.Expr
import StreamSql.Value.Form

namespace StreamSql

namespace UnaryOp

def all : List UnaryOp := [.not, .negate]

def tag : UnaryOp → String
  | .not => "Not"
  | .negate => "Negate"

end UnaryOp

namespace Method

def toJson : Method → Json
  | .scalar f => .tagged "Scalar" (.string f.tag)
  | .udf name externalName =>
    .tagged "Udf" (.object [("name", .string name),
      ("external_name", .ofOption .string externalName)])
  | .aggregate f => .tagged "Aggregate" (.string f.tag)
  | .contains => .string "Contains"
  | .startsWith => .string "StartsWith"
  | .endsWith => .string "EndsWith"
  | .between => .string "Between"
  | .notBetween => .string "NotBetween"
  | .higherOrder f => .tagged "HigherOrder" (.string f.tag)
  | .cast type => .tagged "Cast" (.string type.tag)
  | .other name => .tagged "Other" (.string name)

def plain : List (String × Method) :=
  [("Contains", .contains), ("StartsWith", .startsWith), ("EndsWith", .endsWith),
   ("Between", .between), ("NotBetween", .notBetween)]

def ofJson? (o : Json.Origin) (j : Json) : Option Method := do
  match ← j.case? with
  | ("Scalar", some j) => (j.choice? ScalarFn.all ScalarFn.tag).map .scalar
  | ("Udf", some j) => do
    let fs ← j.caseFields? o ["name", "external_name"]
    some (.udf (← fs.required "name" Json.string?) (← fs.nullable "external_name" Json.string?))
  | ("Aggregate", some j) => (j.choice? AggregateFn.all AggregateFn.tag).map .aggregate
  | ("HigherOrder", some j) => (j.choice? HigherOrderFn.all HigherOrderFn.tag).map .higherOrder
  | ("Cast", some j) => (j.choice? CastType.all CastType.tag).map .cast
  | ("Other", some j) => j.string?.map .other
  | _ => (j.choice? plain Prod.fst).map Prod.snd

end Method

namespace Expr

mutual
def toJson : Expr → Json
  | .constant v => .tagged "Constant" v.toJson
  | .parameter name => .tagged "Parameter" (.string name)
  | .captured name v => .tagged "Captured" (.object [("name", .string name), ("value", v.toJson)])
  | .member target name rename =>
    .tagged "Member" (.object [("target", target.toJson), ("member", .string name),
      ("rename", .ofOption .string rename)])
  | .binary op left right =>
    .tagged "Binary" (.object [("op", .string op.tag), ("left", left.toJson),
      ("right", right.toJson)])
  | .unary op operand =>
    .tagged "Unary" (.object [("op", .string op.tag), ("operand", operand.toJson)])
  | .call target method args =>
    .tagged "Call" (.object [("target", targetToJson target), ("method", method.toJson),
      ("args", .array (itemsToJson args))])
  | .new typeName members =>
    .tagged "New" (.object [("type_name", .ofOption .string typeName),
      ("members", .array (membersToJson members))])
  | .array items => .tagged "NewArray" (.array (itemsToJson items))
  | .map entries => .tagged "NewMap" (.array (entriesToJson entries))
  | .lambda params body =>
    .tagged "Lambda" (.object [("params", .ofList .string params), ("body", body.toJson)])
termination_by structural e => e
def targetToJson : Option Expr → Json
  | none => .null
  | some e => e.toJson
termination_by structural e => e
def itemsToJson : List Expr → List Json
  | [] => []
  | e :: es => e.toJson :: itemsToJson es
termination_by structural es => es
def membersToJson : List (String × Expr) → List Json
  | [] => []
  | (n, e) :: ms => .array [.string n, e.toJson] :: membersToJson ms
termination_by structural ms => ms
def entriesToJson : List (Expr × Expr) → List Json
  | [] => []
  | (k, v) :: es => .array [k.toJson, v.toJson] :: entriesToJson es
termination_by structural es => es
end

def ofJsonWithin? (o : Json.Origin) : Nat → Json → Option Expr
  | 0, _ => none
  | n + 1, j => do
    match ← j.case? with
    | ("Constant", some j) => (Value.ofJson? j).map .constant
    | ("Parameter", some j) => j.string?.map .parameter
    | ("Captured", some j) => do
      let fs ← j.caseFields? o ["name", "value"]
      some (.captured (← fs.required "name" Json.string?) (← fs.required "value" Value.ofJson?))
    | ("Member", some j) => do
      let fs ← j.caseFields? o ["target", "member", "rename"]
      some (.member (← fs.required "target" (ofJsonWithin? o n))
        (← fs.required "member" Json.string?) (← fs.nullable "rename" Json.string?))
    | ("Binary", some j) => do
      let fs ← j.caseFields? o ["op", "left", "right"]
      some (.binary (← fs.required "op" (Json.choice? BinaryOp.all BinaryOp.tag))
        (← fs.required "left" (ofJsonWithin? o n)) (← fs.required "right" (ofJsonWithin? o n)))
    | ("Unary", some j) => do
      let fs ← j.caseFields? o ["op", "operand"]
      some (.unary (← fs.required "op" (Json.choice? UnaryOp.all UnaryOp.tag))
        (← fs.required "operand" (ofJsonWithin? o n)))
    | ("Call", some j) => do
      let fs ← j.caseFields? o ["target", "method", "args"]
      some (.call (← fs.nullable "target" (ofJsonWithin? o n))
        (← fs.required "method" (Method.ofJson? o))
        (← fs.required "args" (Json.list? (ofJsonWithin? o n))))
    | ("New", some j) => do
      let fs ← j.caseFields? o ["type_name", "members"]
      some (.new (← fs.nullable "type_name" Json.string?)
        (← fs.required "members" (Json.list? (Json.pair? Json.string? (ofJsonWithin? o n)))))
    | ("NewArray", some j) => (j.list? (ofJsonWithin? o n)).map .array
    | ("NewMap", some j) =>
      (j.list? (Json.pair? (ofJsonWithin? o n) (ofJsonWithin? o n))).map .map
    | ("Lambda", some j) => do
      let fs ← j.caseFields? o ["params", "body"]
      some (.lambda (← fs.required "params" (Json.list? Json.string?))
        (← fs.required "body" (ofJsonWithin? o n)))
    | _ => none

def ofJson? (o : Json.Origin) (j : Json) : Option Expr := ofJsonWithin? o (j.depth + 1) j

end Expr
end StreamSql
