import StreamSql.Calendar
import StreamSql.Double.Basic
import StreamSql.Json.Token
import StreamSql.Text
import StreamSql.Toml.Basic

namespace StreamSql.Toml

def isWordChar (c : Char) : Bool :=
  c.isAlphanum || c = '_' || c = '+' || c = '-' || c = '.' || c = ':'

def isDigits (digit : Char → Bool) : List Char → Bool
  | [c] => digit c
  | c :: '_' :: cs => digit c && isDigits digit cs
  | c :: cs => digit c && isDigits digit cs
  | [] => false

def unsigned : List Char → List Char
  | '+' :: cs | '-' :: cs => cs
  | cs => cs

def isWhole (cs : List Char) : Bool :=
  match cs with
  | '0' :: _ :: _ => false
  | cs => isDigits Char.isDigit cs

def natural (base : Nat) (cs : List Char) : Nat :=
  (cs.filter (· ≠ '_')).foldl (fun n c => base * n + (Json.hexValue? c).getD 0) 0

def isHexDigit (c : Char) : Bool := (Json.hexValue? c).isSome
def isOctalDigit (c : Char) : Bool := '0' ≤ c && c ≤ '7'
def isBinaryDigit (c : Char) : Bool := c = '0' || c = '1'

def integerBound : Nat := 0x8000000000000000

def isInteger : List Char → Bool
  | '0' :: 'x' :: cs => isDigits isHexDigit cs && natural 16 cs < integerBound
  | '0' :: 'o' :: cs => isDigits isOctalDigit cs && natural 8 cs < integerBound
  | '0' :: 'b' :: cs => isDigits isBinaryDigit cs && natural 2 cs < integerBound
  | '-' :: cs => isWhole cs && natural 10 cs ≤ integerBound
  | cs => isWhole (unsigned cs) && natural 10 (unsigned cs) < integerBound

def isFinite (n : Nat) (e : Int) : Bool :=
  if n = 0 then true
  else if 0 ≤ e then e ≤ 400 && (Double.ofRatio? false (n * pow10 e.toNat) 1).isSome
  else n.log2 < 3 * e.natAbs || (Double.ofRatio? false n (pow10 e.natAbs)).isSome

def exponent? (cs : List Char) : Option Int :=
  if isDigits Char.isDigit (unsigned cs) then
    let n : Int := natural 10 (unsigned cs)
    some (if cs.head? = some '-' then -n else n)
  else none

def isExponentMark (c : Char) : Bool := c = 'e' || c = 'E'

def isFloat (cs : List Char) : Bool :=
  let whole := (unsigned cs).takeWhile fun c => c ≠ '.' && !isExponentMark c
  let rest := (unsigned cs).dropWhile fun c => c ≠ '.' && !isExponentMark c
  let (fraction, rest) : Option (List Char) × List Char := match rest with
    | '.' :: cs => (some (cs.takeWhile (!isExponentMark ·)), cs.dropWhile (!isExponentMark ·))
    | cs => (none, cs)
  let e : Option Int := match rest with
    | [] => if fraction.isSome then some 0 else none
    | _ :: cs => exponent? cs
  match e with
  | none => false
  | some e =>
    let fs := (fraction.getD []).filter (· ≠ '_')
    isWhole whole && fraction.all (isDigits Char.isDigit) &&
      (cs.head? = some '-' || isFinite (natural 10 (whole ++ fs)) (e - fs.length))

def isSpecialFloat (cs : List Char) : Bool := unsigned cs = "inf".toList || unsigned cs = "nan".toList

def pair? (a b : Char) : Option Nat :=
  if a.isDigit && b.isDigit then some (Text.ofDigits [a, b]) else none

def pairIn (low high : Nat) (a b : Char) : Bool := (pair? a b).any fun n => low ≤ n && n ≤ high

def isDate : List Char → Bool
  | [y, z, v, w, '-', a, b, '-', c, d] =>
    [y, z, v, w].all Char.isDigit && pairIn 1 12 a b &&
      pairIn 1 (daysIn (Text.ofDigits [y, z, v, w]) ((pair? a b).getD 0)) c d
  | _ => false

def isOffset : List Char → Bool
  | [] => true
  | ['Z'] | ['z'] => true
  | [s, a, b, ':', c, d] => (s = '+' || s = '-') && pairIn 0 23 a b && pairIn 0 59 c d
  | _ => false

def isTime (rest : List Char → Bool) : List Char → Bool
  | a :: b :: ':' :: c :: d :: ':' :: e :: f :: cs =>
    pairIn 0 23 a b && pairIn 0 59 c d && pairIn 0 60 e f &&
      match cs with
      | '.' :: cs =>
        (cs.head?.any Char.isDigit) && rest (cs.dropWhile Char.isDigit)
      | cs => rest cs
  | _ => false

def isMoment (cs : List Char) : Bool :=
  isDate (cs.take 10) &&
    match cs.drop 10 with
    | [] => true
    | c :: cs => (c = 'T' || c = 't') && isTime isOffset cs

def word? (cs : List Char) : Option Toml :=
  if cs = "true".toList then some (.bool true)
  else if cs = "false".toList then some (.bool false)
  else if isInteger cs || isFloat cs || isSpecialFloat cs then some .number
  else if isMoment cs || isTime List.isEmpty cs then some .time
  else none

/-- Reads a word. A space may stand between a date and a time. -/
def readWord? (cs : List Char) : Option (Toml × List Char) :=
  let w := cs.takeWhile isWordChar
  match cs.dropWhile isWordChar with
  | ' ' :: rest =>
    let w' := rest.takeWhile isWordChar
    if isDate w && w' ≠ [] then
      if isTime isOffset w' then some (.time, rest.dropWhile isWordChar) else none
    else (word? w).map (·, ' ' :: rest)
  | rest => (word? w).map (·, rest)

end StreamSql.Toml
