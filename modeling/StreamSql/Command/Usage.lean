import StreamSql.Command
import StreamSql.Command.Help

namespace StreamSql.Usage

inductive Stop
  | help (topic : Help.Topic)
  | version
  | wrong
deriving DecidableEq

structure Opt where
  name : String
  letter : Option Char
  takesValue : Bool

/-- How the arguments of a command change what is known of it. A flag is set to the empty text. -/
structure Reader (σ : Type) where
  options : List Opt
  set : σ → String → String → Except Stop σ
  plain : σ → String → Except Stop σ

namespace Reader

variable {σ : Type} (r : Reader σ)

def find? (name : String) : Option Opt := r.options.find? (·.name = name)

def findLetter? (c : Char) : Option Opt := r.options.find? (·.letter = some c)

def isValue (a : String) : Bool := a = "-" || a.toList.head? ≠ some '-'

def letters (s : σ) : List Char → Except Stop (σ × Option Opt)
  | [] => .ok (s, none)
  | c :: cs =>
    match r.findLetter? c with
    | none => .error .wrong
    | some o =>
      if !o.takesValue then do letters (← r.set s o.name "") cs
      else match cs with
        | [] => .ok (s, some o)
        | '=' :: value => do return (← r.set s o.name (.ofList value), none)
        | value => do return (← r.set s o.name (.ofList value), none)

def long (s : σ) (text : List Char) : Except Stop (σ × Option Opt) :=
  let (name, value) := match Text.cutAt? '=' text with
    | some (name, value) => (name, some value)
    | none => (text, none)
  match r.find? (.ofList name), value with
  | none, _ => .error .wrong
  | some o, some value =>
    if o.takesValue then do return (← r.set s o.name (.ofList value), none) else .error .wrong
  | some o, none =>
    if o.takesValue then .ok (s, some o) else do return (← r.set s o.name "", none)

def one (s : σ) (a : String) : Except Stop (σ × Option Opt) :=
  match a.toList with
  | '-' :: '-' :: text => r.long s text
  | '-' :: c :: cs => r.letters s (c :: cs)
  | _ => do return (← r.plain s a, none)

def plains (s : σ) : List String → Except Stop σ
  | [] => .ok s
  | a :: as => do plains (← r.plain s a) as

/-- Reads arguments, the value of an option first if one is wanted. After two dashes all are plain. -/
def read (wanting : Option Opt) (s : σ) : List String → Except Stop σ
  | [] => if wanting.isSome then .error .wrong else .ok s
  | a :: as =>
    match wanting with
    | some o => if isValue a then do read none (← r.set s o.name a) as else .error .wrong
    | none =>
      if a = "--" then r.plains s as
      else do
        let (s, wanting) ← r.one s a
        read wanting s as

end Reader

def once {α : Type} (old : Option α) (new : Option α) : Except Stop (Option α) :=
  match old, new with
  | none, some a => .ok (some a)
  | _, _ => .error .wrong

def onceFlag (old : Bool) : Except Stop Bool := if old then .error .wrong else .ok true

def path? (a : String) : Option String := if a.isEmpty then none else some a

def helpOpt : Opt := ⟨"help", some 'h', false⟩

structure CompileArgs where
  file : Option String := none
  keepNames : Bool := false

def compileReader : Reader CompileArgs where
  options := [⟨"no-pluralize", none, false⟩, helpOpt]
  set s name _ :=
    match name with
    | "no-pluralize" => do return { s with keepNames := ← onceFlag s.keepNames }
    | _ => .error (.help .compile)
  plain s a := do return { s with file := ← once s.file (path? a) }

def CompileArgs.command (s : CompileArgs) : Except Stop Command :=
  match s.file with
  | some file => .ok (.compile file s.keepNames)
  | none => .error .wrong

structure CreateArgs where
  file : Option String := none
  kind : Option EntityType := none
  replace : Bool := false
  source : Bool := false
  ifNotExists : Bool := false

def createReader : Reader CreateArgs where
  options :=
    [⟨"kind", some 'k', true⟩, ⟨"replace", none, false⟩, ⟨"source", none, false⟩,
     ⟨"if-not-exists", none, false⟩, helpOpt]
  set s name value :=
    match name with
    | "kind" => do
      return { s with kind := ← once s.kind (EntityType.all.find? (·.tag = value)) }
    | "replace" => do return { s with replace := ← onceFlag s.replace }
    | "source" => do return { s with source := ← onceFlag s.source }
    | "if-not-exists" => do return { s with ifNotExists := ← onceFlag s.ifNotExists }
    | _ => .error (.help .create)
  plain s a := do return { s with file := ← once s.file (path? a) }

def CreateArgs.command (s : CreateArgs) : Except Stop Command :=
  match s.file with
  | some file =>
    if s.replace && s.source then .error .wrong
    else
      .ok (.create file ((s.kind.getD .stream).statement s.replace s.source) s.ifNotExists)
  | none => .error .wrong

structure DecodeArgs where
  file : Option String := none
  format : Option ResponseFormat := none
  json : Bool := false

def decodeReader : Reader DecodeArgs where
  options := [⟨"format", some 'f', true⟩, ⟨"json", none, false⟩, helpOpt]
  set s name value :=
    match name with
    | "format" => do
      return { s with format := ← once s.format (ResponseFormat.all.find? (·.tag = value)) }
    | "json" => do return { s with json := ← onceFlag s.json }
    | _ => .error (.help .decode)
  plain s a := do return { s with file := ← once s.file (path? a) }

def DecodeArgs.command (s : DecodeArgs) : Command := .decode s.file s.format s.json

def helpOn : List String → Stop
  | [] => .help .program
  | ["compile"] => .help .compile
  | ["create"] => .help .create
  | ["decode"] => .help .decode
  | ["help"] => .help .help
  | _ => .wrong

def command (name : String) (args : List String) : Except Stop Command :=
  match name with
  | "compile" => do (← compileReader.read none ({} : CompileArgs) args).command
  | "create" => do (← createReader.read none ({} : CreateArgs) args).command
  | "decode" => do return (← decodeReader.read none ({} : DecodeArgs) args).command
  | "help" => .error (helpOn args)
  | _ => .error .wrong

structure ProgramArgs where
  config : Option String := none
  verbose : Bool := false

def programReader : Reader ProgramArgs where
  options :=
    [⟨"config", none, true⟩, ⟨"verbose", some 'v', false⟩, helpOpt, ⟨"version", some 'V', false⟩]
  set s name value :=
    match name with
    | "config" => do return { s with config := ← once s.config (path? value) }
    | "verbose" => do return { s with verbose := ← onceFlag s.verbose }
    | "version" => .error .version
    | _ => .error (.help .program)
  plain _ _ := .error .wrong

def readProgram (wanting : Option Opt) (s : ProgramArgs) :
    List String → Except Stop (ProgramArgs × Command)
  | [] => .error .wrong
  | a :: as =>
    match wanting with
    | some o =>
      if Reader.isValue a then do readProgram none (← programReader.set s o.name a) as
      else .error .wrong
    | none =>
      if a = "-" || a.toList.head? ≠ some '-' then do return (s, ← command a as)
      else if a = "--" then .error .wrong
      else do
        let (s, wanting) ← programReader.one s a
        readProgram wanting s as

def read (config : Option String) (args : List String) : Except Stop Invocation := do
  let (s, command) ← readProgram none {} args
  match s.config, config with
  | some path, _ => return ⟨some path, s.verbose, command⟩
  | none, some path =>
    if path.isEmpty then .error .wrong else return ⟨some path, s.verbose, command⟩
  | none, none => return ⟨none, s.verbose, command⟩

end StreamSql.Usage
