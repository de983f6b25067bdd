import StreamSql.Error
import StreamSql.Json.Parser
import StreamSql.Json.Record

namespace StreamSql

structure Header where
  queryId : Option String
  columnNames : List String
  columnTypes : List String
deriving DecidableEq

namespace Header

def toJson (h : Header) : Json :=
  .object [("queryId", .ofOption .string h.queryId),
    ("columnNames", .ofList .string h.columnNames),
    ("columnTypes", .ofList .string h.columnTypes)]

def ofJson? (j : Json) : Option Header := do
  let fs ← j.fields? ["queryId", "columnNames", "columnTypes"]
  some {
    queryId := ← fs.optional "queryId" Json.string?
    columnNames := ← fs.required "columnNames" (Json.list? Json.string?)
    columnTypes := ← fs.orElse "columnTypes" (Json.list? Json.string?) [] }

def ofData (j : Json) : Except HeaderFault Header :=
  match j with
  | .object _ =>
    match ofJson? j with
    | none => .error .illTyped
    | some h =>
      if h.columnTypes.isEmpty || h.columnTypes.length = h.columnNames.length then .ok h
      else .error (.lengths h.columnNames.length h.columnTypes.length)
  | _ => .error (.notAnObject j)

def parse (line : String) : Except HeaderFault Header :=
  match Json.read? line with
  | some j => ofData j
  | none => .error (.malformed line)

def opens (c : Char) : Bool := c = '<' || c = '('

def closes (c : Char) : Bool := c = '>' || c = ')'

def depthAfter (depth : Nat) (c : Char) : Nat :=
  if opens c then depth + 1 else if closes c then depth - 1 else depth

/-- The parts between the commas outside of brackets; `part` holds the characters of the part that is
being read, last first. -/
def parts (depth : Nat) (part : List Char) : List Char → List (List Char)
  | [] => if part.all Text.isBlank then [] else [part.reverse]
  | c :: cs =>
    if c = ',' && depth = 0 then part.reverse :: parts 0 [] cs
    else parts (depthAfter depth c) (c :: part) cs

def nameMark : Char := '\x60'

def column (text : List Char) : Except HeaderFault (String × String) :=
  let cs := Text.trim text
  match Text.afterFirst? nameMark cs with
  | some rest =>
    match Text.cutAt? nameMark rest with
    | some (name, type) => .ok (.ofList name, .ofList (Text.trim type))
    | none => .error (.unterminatedName (.ofList cs))
  | none =>
    match Text.cutAt? ' ' cs with
    | some (name, type) => .ok (.ofList name, .ofList (Text.trim type))
    | none => .error (.noType (.ofList cs))

def columns : List (List Char) → Except HeaderFault (List (String × String))
  | [] => .ok []
  | text :: texts => do
    let c ← column text
    let cs ← columns texts
    .ok (c :: cs)

def ofSchema (queryId : Option String) (schema : String) : Except HeaderFault Header := do
  let cs ← columns (parts 0 [] schema.toList)
  if cs.isEmpty then .error .emptySchema
  else .ok ⟨queryId, cs.map (·.1), cs.map (·.2)⟩

/-- The record of a row. Of columns with one name the last counts. -/
def zipRow (h : Header) (values : List Json) : Except RowFault Json :=
  if values.length = h.columnNames.length then .ok (Json.record (h.columnNames.zip values))
  else .error (.count values.length h.columnNames.length)

end Header
end StreamSql
