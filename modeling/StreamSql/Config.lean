import StreamSql.Query.Form
import StreamSql.Response.Frame
import StreamSql.Toml.Document

namespace StreamSql

structure Config where
  compile : CompileOptions
  format : ResponseFormat
deriving DecidableEq

namespace Toml

def fields? (names : List String) : Toml → Option (List (String × Toml))
  | .table entries => some entries
  | .array items => some (names.zip items)
  | .time => some []
  | _ => none

def field? {α : Type} (fs : List (String × Toml)) (name : String) (read : Toml → Option α)
    (default : α) : Option α :=
  match fs.lookup name with
  | some v => read v
  | none => some default

def bool? : Toml → Option Bool
  | .bool b => some b
  | _ => none

def char? : Toml → Option Char
  | .string s =>
    match s.toList with
    | [c] => some c
    | _ => none
  | _ => none

def choice? {α : Type} (all : List α) (tag : α → String) : Toml → Option α
  | .string s => all.find? (tag · = s)
  | .table [(s, .table [])] => all.find? (tag · = s)
  | .table [(s, .array [])] => all.find? (tag · = s)
  | _ => none

end Toml

def CompileOptions.ofToml? (v : Toml) : Option CompileOptions := do
  let fs ← v.fields? ["pluralize", "decimal_separator"]
  some {
    pluralize := ← Toml.field? fs "pluralize" Toml.bool? standard.pluralize
    decimalSeparator := ← Toml.field? fs "decimal_separator" Toml.char? standard.decimalSeparator }

namespace Config

def standard : Config := ⟨.standard, .queryStream⟩

def toJson (c : Config) : Json :=
  .object [("compiler", c.compile.toJson), ("decoder", .object [("format", c.format.toJson)])]

def formatOfJson? (j : Json) : Option ResponseFormat := do
  let fs ← j.fields? ["format"]
  fs.orElse "format" ResponseFormat.ofJson? standard.format

def ofJson? (j : Json) : Option Config := do
  let fs ← j.fields? ["compiler", "decoder"]
  some {
    compile := ← fs.orElse "compiler" CompileOptions.ofJson? standard.compile
    format := ← fs.orElse "decoder" formatOfJson? standard.format }

def formatOfToml? (v : Toml) : Option ResponseFormat := do
  let fs ← v.fields? ["format"]
  Toml.field? fs "format" (Toml.choice? ResponseFormat.all ResponseFormat.tag) standard.format

def ofToml? (v : Toml) : Option Config := do
  let fs ← v.fields? ["compiler", "decoder"]
  some {
    compile := ← Toml.field? fs "compiler" CompileOptions.ofToml? standard.compile
    format := ← Toml.field? fs "decoder" formatOfToml? standard.format }

def read? (text : String) : Option Config := do ofToml? (← Toml.read? text)

end Config
end StreamSql
