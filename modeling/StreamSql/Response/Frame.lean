import StreamSql.Response.Header

namespace StreamSql

inductive ResponseFormat
  | queryStream
  | query
deriving DecidableEq

namespace ResponseFormat

def all : List ResponseFormat := [.queryStream, .query]

def tag : ResponseFormat → String
  | .queryStream => "query-stream"
  | .query => "query"

def toJson (f : ResponseFormat) : Json := .string f.tag

def ofJson? : Json → Option ResponseFormat := Json.choice? all tag

end ResponseFormat

inductive Frame
  | header (h : Header)
  | values (j : Json)
  | failure (e : Error)
  | skip
  | finish

namespace Frame

def failureOf (ms : List (String × Json)) : Error :=
  let message := (Json.find? "message" ms).bind Json.string?
  let code := ((Json.find? "errorCode" ms).orElse fun _ => Json.find? "error_code" ms).bind Json.int64?
  .query (message.getD "unknown error") (code.getD 0)

/-- An object gives an error inside `errorMessage`, or itself if its type says so. -/
def failure? (ms : List (String × Json)) : Option Error :=
  match Json.find? "errorMessage" ms with
  | some (.object inner) => some (failureOf inner)
  | _ =>
    match Json.find? "@type" ms with
    | some (.string type) =>
      if Text.contains "error".toList type.toList then some (failureOf ms) else none
    | _ => none

def ofHeader (h : Except HeaderFault Header) : Except Error Frame :=
  match h with
  | .ok h => .ok (.header h)
  | .error fault => .error (.header fault)

def ofObject (ms : List (String × Json)) : Except Error Frame :=
  match failure? ms with
  | some e => .ok (.failure e)
  | none =>
    if (Json.find? "columnNames" ms).isSome then ofHeader (Header.ofData (.object ms))
    else .ok .skip

def ofSchemaHeader (ms : List (String × Json)) : Except Error Frame :=
  match Json.find? "schema" ms with
  | some (.string schema) =>
    ofHeader (Header.ofSchema ((Json.find? "queryId" ms).bind Json.string?) schema)
  | _ => .error (.header .noSchema)

/-- A row of an array of elements. A tombstone has no values. -/
def ofRow (ms : List (String × Json)) : Except Error Frame :=
  match Json.find? "tombstone" ms with
  | some (.bool true) => .ok .skip
  | _ =>
    match Json.find? "columns" ms with
    | some j => .ok (.values j)
    | none => .error (.row .noColumns)

def ofElement (ms : List (String × Json)) : Except Error Frame :=
  match failure? ms with
  | some e => .ok (.failure e)
  | none =>
    match Json.find? "header" ms with
    | some (.object inner) => ofSchemaHeader inner
    | _ =>
      match Json.find? "row" ms with
      | some (.object inner) => ofRow inner
      | _ => .ok (if (Json.find? "finalMessage" ms).isSome then .finish else .skip)

def element (line : List Char) : List Char :=
  let cs := Text.trim line
  let cs := Text.trimStart ((Text.afterFirst? '[' cs).getD cs)
  let cs := Text.trimEnd ((Text.beforeLast? ',' cs).getD cs)
  Text.trimEnd ((Text.beforeLast? ']' cs).getD cs)

def content : ResponseFormat → List Char → List Char
  | .queryStream => Text.trim
  | .query => element

def ofMembers : ResponseFormat → List (String × Json) → Except Error Frame
  | .queryStream => ofObject
  | .query => ofElement

def ofLine (format : ResponseFormat) (line : String) : Except Error Frame :=
  let text := content format line.toList
  if text.isEmpty then .ok .skip
  else match Json.read? (.ofList text) with
    | none => .error (.row (.malformed (.ofList text)))
    | some (.object ms) => ofMembers format ms
    | some j => .ok (.values j)

end Frame
end StreamSql
