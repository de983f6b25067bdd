import StreamSql.Command.Table
import StreamSql.Command.Usage
import StreamSql.Entity.Create
import StreamSql.Query.Form
import StreamSql.Response.Rows

namespace StreamSql

inductive FileState
  | file (bytes : List UInt8)
  | unreadable (reason : String)
  | absent (reason : String)

namespace FileState

/-- The lines of the file; a failure to read takes the place of the first. -/
def lines : FileState → List Line
  | .file bytes => Line.list bytes
  | .unreadable reason | .absent reason => [.error reason]

def notText : String := "stream did not contain valid UTF-8"

def text : FileState → Except String String
  | .file bytes =>
    match Text.Utf8.decode bytes with
    | .ok s => .ok s
    | .error _ => .error notText
  | .unreadable reason | .absent reason => .error reason

def isThere : FileState → Bool
  | .absent _ => false
  | _ => true

end FileState

structure World where
  file : String → FileState
  userConfig : FileState
  input : List UInt8

inductive Failure
  | error (e : Error)
  | config
  | reading (file reason : String)
  | opening (file reason : String)
  | parsing (file : String)
  | notOne (file : String)

/-- The message of a failure. The text of a failed source stands in it twice, as what failed and as
its cause. -/
def Failure.message : Failure → String
  | .error (.io text) => (Error.io text).message ++ ": " ++ text
  | .error e => e.message
  | .config => "Configuration error: <toml>"
  | .reading file reason => "reading " ++ file ++ ": " ++ reason
  | .opening file reason => "opening " ++ file ++ ": " ++ reason
  | .parsing file => "parsing " ++ file ++ ": <json>"
  | .notOne file => "expected exactly one of \x60schema\x60 or \x60query\x60 in " ++ file

def Compiled.orFail {α : Type} : Compiled α → Except Failure α
  | .ok a => .ok a
  | .error e => .error (.error e)

namespace World

def localConfig : String := "ksql.toml"

def readConfig (f : FileState) : Except Failure Config :=
  match f.text with
  | .error reason => .error (.error (.io reason))
  | .ok text =>
    match Config.read? text with
    | some c => .ok c
    | none => .error .config

def config (w : World) (named : Option String) : Except Failure Config :=
  match named with
  | some path => readConfig (w.file path)
  | none =>
    if (w.file localConfig).isThere then readConfig (w.file localConfig)
    else if w.userConfig.isThere then readConfig w.userConfig
    else .ok .standard

def document {α : Type} (w : World) (ofJson? : Json → Option α) (file : String) :
    Except Failure α :=
  match (w.file file).text with
  | .error reason => .error (.reading file reason)
  | .ok text =>
    match (Json.parse? text).bind ofJson? with
    | some a => .ok a
    | none => .error (.parsing file)

end World

structure Report where
  notes : List String
  result : Except Failure String

namespace Command

def compileText (w : World) (c : Config) (file : String) (keepNames : Bool) :
    Except Failure String := do
  let q ← w.document (Query.ofJson? .text) file
  let o := if keepNames then { c.compile with pluralize := false } else c.compile
  return (← (q.compile o).orFail) ++ "\n"

def createText (w : World) (c : Config) (file : String) (kind : StatementKind)
    (ifNotExists : Bool) : Except Failure String := do
  let d ← w.document (CreateDocument.ofJson? .text) file
  match d.schema, d.query with
  | some s, none => return (← (createStatement s d.metadata kind ifNotExists).orFail) ++ "\n"
  | none, some q =>
    return (← (createAsSelect q d.metadata kind ifNotExists c.compile).orFail) ++ "\n"
  | _, _ => .error (.notOne file)

def collect {α : Type} : List (Item α) → Except Failure (List α)
  | [] => .ok []
  | .ok a :: items => do return a :: (← collect items)
  | .error e :: _ => .error (.error e)

def rowsText (json : Bool) (h : Header) (rows : List Json) : String :=
  if json then (Json.array rows).pretty 0 ++ "\n" else Table.text h.columnNames rows

def decoder (format : ResponseFormat) : Decoder Json := ⟨format, .record, some⟩

def decodeReport (format : ResponseFormat) (json : Bool) (lines : List Line) : Report :=
  match (decoder format).opened lines with
  | .error e => ⟨[], .error (.error e)⟩
  | .ok (h, items) =>
    ⟨h.queryId.toList.map ("Query id: " ++ ·), do return rowsText json h (← collect items)⟩

def report (w : World) (c : Config) : Command → Report
  | .compile file keepNames => ⟨[], compileText w c file keepNames⟩
  | .create file kind ifNotExists => ⟨[], createText w c file kind ifNotExists⟩
  | .decode file format json =>
    let format := format.getD c.format
    match file with
    | none => decodeReport format json (Line.list w.input)
    | some file =>
      match w.file file with
      | .absent reason => ⟨[], .error (.opening file reason)⟩
      | f => decodeReport format json f.lines

end Command

structure Outcome where
  code : UInt8
  output : String
  errors : String
deriving DecidableEq

namespace Invocation

def notes (i : Invocation) (r : Report) : String :=
  if i.verbose then
    ((i.command.file?.toList.map ("Input: " ++ ·)) ++ r.notes).foldl (fun t l => t ++ l ++ "\n") ""
  else ""

def failed (notes : String) (f : Failure) : Outcome :=
  ⟨1, "", notes ++ "Error: " ++ f.message ++ "\n"⟩

def run (i : Invocation) (w : World) : Outcome :=
  match w.config i.config with
  | .error f => failed "" f
  | .ok c =>
    let r := i.command.report w c
    match r.result with
    | .ok text => ⟨0, text, i.notes r⟩
    | .error f => failed (i.notes r) f

end Invocation

def Usage.Stop.outcome (config : String) : Usage.Stop → Outcome
  | .help topic => ⟨0, Help.text config topic, ""⟩
  | .version => ⟨0, Help.version, ""⟩
  | .wrong => ⟨2, "", ""⟩

def runProgram (config : Option String) (args : List String) (w : World) : Outcome :=
  match Usage.read config args with
  | .ok i => i.run w
  | .error stop => stop.outcome (config.getD "")

end StreamSql
