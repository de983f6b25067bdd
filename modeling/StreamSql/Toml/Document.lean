import StreamSql.Toml.Quoted
import StreamSql.Toml.Word

namespace StreamSql.Toml

def maxDepth : Nat := 79

def skipSpace (cs : List Char) : List Char := cs.dropWhile isSpace

def unixLines : List Char → List Char
  | '\r' :: '\n' :: cs => '\n' :: unixLines cs
  | c :: cs => c :: unixLines cs
  | [] => []

def skipLines (inComment : Bool) : List Char → Option (List Char)
  | [] => some []
  | c :: cs =>
    if c = '\n' then skipLines false cs
    else if inComment then if isPlain c then skipLines true cs else none
    else if isSpace c then skipLines false cs
    else if c = '#' then skipLines true cs
    else some (c :: cs)

def endLine? (cs : List Char) : Option (List Char) :=
  match skipSpace cs with
  | [] => some []
  | '\n' :: cs => some cs
  | '#' :: cs => skipLines true cs
  | _ => none

def isKeyChar (c : Char) : Bool := c.isAlphanum || c = '_' || c = '-'

def keyPart? (cs : List Char) : Option (String × List Char) :=
  match cs.takeWhile isKeyChar with
  | [] => Quoted.short? cs
  | k => some (.ofList k, cs.dropWhile isKeyChar)

def key? : Nat → List Char → Option (List String × List Char)
  | 0, _ => none
  | n + 1, cs => do
    let (k, cs) ← keyPart? (skipSpace cs)
    match skipSpace cs with
    | '.' :: cs => do
      let (ks, cs) ← key? n cs
      return (k :: ks, cs)
    | cs => return ([k], cs)

def equals? : List Char → Option (List Char)
  | '=' :: cs => some (skipSpace cs)
  | _ => none

def items? (value? : List Char → Option (Toml × List Char)) :
    Nat → List Char → Option (List Toml × List Char)
  | 0, _ => none
  | n + 1, cs => do
    match ← skipLines false cs with
    | ']' :: cs => return ([], cs)
    | cs => do
      let (v, cs) ← value? cs
      match ← skipLines false cs with
      | ',' :: cs => do
        let (vs, cs) ← items? value? n cs
        return (v :: vs, cs)
      | ']' :: cs => return ([v], cs)
      | _ => none

def entries? (value? : List Char → Option (Toml × List Char)) :
    Nat → Entries → List Char → Option (Toml × List Char)
  | 0, _, _ => none
  | n + 1, es, cs => do
    let (ks, cs) ← key? maxDepth cs
    let (v, cs) ← value? (← equals? cs)
    let es ← assign? true .defined v ks es
    match skipSpace cs with
    | ',' :: cs => entries? value? n es cs
    | '\x7d' :: cs => return (.table (entryValues es), cs)
    | _ => none

def valueWithin? : Nat → List Char → Option (Toml × List Char)
  | depth, cs =>
    match cs with
    | '[' :: cs =>
      match depth with
      | 0 => none
      | n + 1 => do
        let (vs, cs) ← items? (valueWithin? n) (cs.length + 1) cs
        return (.array vs, cs)
    | '\x7b' :: cs =>
      match depth with
      | 0 => none
      | n + 1 =>
        match skipSpace cs with
        | '\x7d' :: cs => return (.table [], cs)
        | cs => entries? (valueWithin? n) (cs.length + 1) [] cs
    | c :: rest =>
      if Quoted.isMark c then do
        let (s, cs) ← Quoted.read? (c :: rest)
        return (.string s, cs)
      else readWord? (c :: rest)
    | [] => none

structure Document where
  entries : Entries
  openTable : List String

def Document.statement? (d : Document) : List Char → Option (Document × List Char)
  | '[' :: '[' :: cs => do
    let (ks, cs) ← key? maxDepth cs
    match cs with
    | ']' :: ']' :: cs => return (⟨← defineNext? ks d.entries, ks⟩, ← endLine? cs)
    | _ => none
  | '[' :: cs => do
    let (ks, cs) ← key? maxDepth cs
    match cs with
    | ']' :: cs => return (⟨← define? ks d.entries, ks⟩, ← endLine? cs)
    | _ => none
  | cs => do
    let (ks, cs) ← key? maxDepth cs
    let (v, cs) ← valueWithin? maxDepth (← equals? cs)
    return (⟨← within? (assign? true .defined v ks) d.openTable d.entries, d.openTable⟩, ← endLine? cs)

def Document.statements? : Nat → Document → List Char → Option Document
  | 0, _, _ => none
  | n + 1, d, cs => do
    match ← skipLines false cs with
    | [] => some d
    | cs => do
      let (d, cs) ← d.statement? cs
      statements? n d cs

def read? (s : String) : Option Toml := do
  let cs := match s.toList with
    | '\ufeff' :: cs => cs
    | cs => cs
  let d ← Document.statements? (cs.length + 1) ⟨[], []⟩ (unixLines cs)
  return .table (entryValues d.entries)

end StreamSql.Toml
