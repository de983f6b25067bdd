import StreamSql.Json.Token

namespace StreamSql.Json

def maxDepth : Nat := 127

/-- An open array or object: its contents so far, last first, and the name whose value is awaited. A
name may be out of range. -/
inductive Frame
  | array (items : List Json)
  | object (members : List (Option String × Json)) (name : Option (Option String))

inductive Expect
  | value
  | itemOrClose
  | nameOrClose
  | name
  | colon
  | next
deriving DecidableEq

inductive State
  | reading (stack : List Frame) (expect : Expect)
  | finished (j : Json)

def State.put? (stack : List Frame) (j : Json) : Option State :=
  match stack with
  | [] => some (.finished j)
  | .array items :: fs => some (.reading (.array (j :: items) :: fs) .next)
  | .object ms (some k) :: fs => some (.reading (.object ((k, j) :: ms) none :: fs) .next)
  | .object _ none :: _ => none

def State.close? (stack : List Frame) (j : Json) : Option State :=
  put? stack (if stack.length < maxDepth then j else .outOfRange)

def objectOf (members : List (Option String × Json)) : Json :=
  match members.reverse.mapM fun m => m.1.map (·, m.2) with
  | some ms => .object ms
  | none => .outOfRange

def Expect.allowsValue : Expect → Bool
  | .value | .itemOrClose => true
  | _ => false

def Expect.allowsClose : Expect → Bool
  | .itemOrClose | .nameOrClose | .next => true
  | _ => false

def Expect.allowsName : Expect → Bool
  | .nameOrClose | .name => true
  | _ => false

def State.step? : State → Token → Option State
  | .finished _, _ => none
  | .reading fs e, t =>
    match t with
    | .null => if e.allowsValue then put? fs .null else none
    | .bool b => if e.allowsValue then put? fs (.bool b) else none
    | .number n => if e.allowsValue then put? fs (n.elim .outOfRange .number) else none
    | .openArray => if e.allowsValue then some (.reading (.array [] :: fs) .itemOrClose) else none
    | .openObject =>
      if e.allowsValue then some (.reading (.object [] none :: fs) .nameOrClose) else none
    | .string s =>
      if e.allowsValue then put? fs (s.elim .outOfRange .string)
      else if e.allowsName then
        match fs with
        | .object ms none :: fs => some (.reading (.object ms (some s) :: fs) .colon)
        | _ => none
      else none
    | .colon => if e = .colon then some (.reading fs .value) else none
    | .comma =>
      if e = .next then
        match fs with
        | .array _ :: _ => some (.reading fs .value)
        | .object _ _ :: _ => some (.reading fs .name)
        | [] => none
      else none
    | .closeArray =>
      if e.allowsClose then
        match fs with
        | .array items :: fs => close? fs (.array items.reverse)
        | _ => none
      else none
    | .closeObject =>
      if e.allowsClose then
        match fs with
        | .object ms none :: fs => close? fs (objectOf ms)
        | _ => none
      else none

def State.run? : State → List Token → Option State
  | s, [] => some s
  | s, t :: ts => (s.step? t).bind (·.run? ts)

def parse? (s : String) : Option Json := do
  match ← (State.reading [] .value).run? (← tokens? s.toList) with
  | .finished j => some j
  | .reading _ _ => none

def read? (s : String) : Option Json :=
  (parse? s).bind fun j => if j.inRange then some j.normal else none

end StreamSql.Json
