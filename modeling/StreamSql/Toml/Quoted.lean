import StreamSql.Json.Token

namespace StreamSql.Toml

def isPlain (c : Char) : Bool := c = '\t' || (0x20 ≤ c.toNat && c.toNat ≠ 0x7F)

def isSpace (c : Char) : Bool := c = ' ' || c = '\t'

namespace Quoted

structure Kind where
  mark : Char
  long : Bool

inductive Mode
  | plain
  | marks (count : Nat)
  | escape
  | hex (value left : Nat)
  | lineEnd
  | fold

def unescape? : Char → Option Char
  | 'b' => some '\x08'
  | 't' => some '\t'
  | 'n' => some '\n'
  | 'f' => some '\x0c'
  | 'r' => some '\r'
  | '"' => some '"'
  | '\\' => some '\\'
  | _ => none

def char? (n : Nat) : Option Char := if n.isValidChar then some (.ofNat n) else none

def plainStep? (k : Kind) (c : Char) : Option (List Char × Mode) :=
  if c = '\\' && k.mark = '"' then some ([], .escape)
  else if c = '\n' then if k.long then some ([c], .plain) else none
  else if isPlain c then some ([c], .plain)
  else none

def step? (k : Kind) : Mode → Char → Option (List Char × Mode)
  | .plain, c | .marks _, c => plainStep? k c
  | .escape, c =>
    if c = 'u' then some ([], .hex 0 4)
    else if c = 'U' then some ([], .hex 0 8)
    else if k.long && isSpace c then some ([], .lineEnd)
    else if k.long && c = '\n' then some ([], .fold)
    else (unescape? c).map fun c => ([c], .plain)
  | .hex value left, c => do
    let value := 16 * value + (← Json.hexValue? c)
    if left ≤ 1 then (char? value).map fun c => ([c], .plain) else some ([], .hex value (left - 1))
  | .lineEnd, c =>
    if isSpace c then some ([], .lineEnd) else if c = '\n' then some ([], .fold) else none
  | .fold, c => if isSpace c || c = '\n' then some ([], .fold) else plainStep? k c

def marks (k : Kind) (n : Nat) : List Char := List.replicate n k.mark

def Mode.takesMark : Mode → Bool
  | .plain | .marks _ | .fold => true
  | _ => false

def Mode.markCount : Mode → Nat
  | .marks n => n
  | _ => 0

/-- The text up to its end, and what follows. Of five marks at most, the last three are the end. -/
def rest? (k : Kind) (done : List Char) : Mode → List Char → Option (String × List Char)
  | m, [] => if 3 ≤ m.markCount then close done m.markCount [] else none
  | m, c :: cs =>
    if c = k.mark && m.takesMark then
      if !k.long then some (.ofList done.reverse, cs)
      else if m.markCount = 5 then none
      else rest? k done (.marks (m.markCount + 1)) cs
    else if 3 ≤ m.markCount then close done m.markCount (c :: cs)
    else match step? k m c with
      | some (add, m') => rest? k (add ++ marks k m.markCount ++ done) m' cs
      | none => none
where
  close (done : List Char) (n : Nat) (cs : List Char) : Option (String × List Char) :=
    some (.ofList (marks k (n - 3) ++ done).reverse, cs)

def isMark (c : Char) : Bool := c = '"' || c = '\''

def short? : List Char → Option (String × List Char)
  | c :: cs => if isMark c then rest? ⟨c, false⟩ [] .plain cs else none
  | [] => none

def read? : List Char → Option (String × List Char)
  | a :: b :: c :: cs =>
    if isMark a && b = a && c = a then
      rest? ⟨a, true⟩ [] .plain (match cs with
        | '\n' :: cs => cs
        | cs => cs)
    else short? (a :: b :: c :: cs)
  | cs => short? cs

end Quoted
end StreamSql.Toml
