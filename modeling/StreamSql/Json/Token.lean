import StreamSql.Json.Number

namespace StreamSql.Json

inductive Token
  | openArray
  | closeArray
  | openObject
  | closeObject
  | comma
  | colon
  | null
  | bool (b : Bool)
  | number (n : Option Number)
  | string (s : Option String)
deriving DecidableEq

/-- The characters of a string so far, last first; none once there is half a surrogate pair. -/
abbrev Seen := Option (List Char)

def Seen.push (c : Char) (seen : Seen) : Seen := seen.map (c :: ·)

/-- What has been begun; characters seen come last first. A string may wait for the second half of
an escaped surrogate pair, its first half being `lead`. -/
inductive Mode
  | between
  | word (seen : List Char)
  | number (seen : List Char)
  | text (seen : Seen)
  | escape (seen : Seen)
  | hex (seen : Seen) (lead : Option Nat) (value left : Nat)
  | pair (seen : Seen) (lead : Nat)
  | pairEscape (seen : Seen) (lead : Nat)

def isSpace (c : Char) : Bool := c = ' ' || c = '\t' || c = '\n' || c = '\r'

def isNumeric (c : Char) : Bool := c.isDigit || c = '-' || c = '+' || c = '.' || c = 'e' || c = 'E'

def word? : List Char → Option Token
  | ['n', 'u', 'l', 'l'] => some .null
  | ['t', 'r', 'u', 'e'] => some (.bool true)
  | ['f', 'a', 'l', 's', 'e'] => some (.bool false)
  | _ => none

def hexValue? (c : Char) : Option Nat :=
  if c.isDigit then some (c.toNat - 48)
  else if 'a' ≤ c && c ≤ 'f' then some (c.toNat - 87)
  else if 'A' ≤ c && c ≤ 'F' then some (c.toNat - 55)
  else none

def unescape? : Char → Option Char
  | '"' => some '"'
  | '\\' => some '\\'
  | '/' => some '/'
  | 'b' => some '\x08'
  | 'f' => some '\x0c'
  | 'n' => some '\n'
  | 'r' => some '\r'
  | 't' => some '\t'
  | _ => none

def Mode.ofUnit (seen : Seen) (lead : Option Nat) (unit : Nat) : Mode :=
  let isSecond := 0xDC00 ≤ unit && unit < 0xE000
  match lead with
  | some hi =>
    if isSecond then
      .text (seen.push (Char.ofNat (0x10000 + (hi - 0xD800) * 0x400 + (unit - 0xDC00))))
    else .text none
  | none =>
    if 0xD800 ≤ unit && unit < 0xDC00 then .pair seen unit
    else if isSecond then .text none
    else .text (seen.push (Char.ofNat unit))

def Mode.begin? (c : Char) : Option (List Token × Mode) :=
  if isSpace c then some ([], .between)
  else if c = '[' then some ([.openArray], .between)
  else if c = ']' then some ([.closeArray], .between)
  else if c = '\x7b' then some ([.openObject], .between)
  else if c = '\x7d' then some ([.closeObject], .between)
  else if c = ',' then some ([.comma], .between)
  else if c = ':' then some ([.colon], .between)
  else if c = '"' then some ([], .text (some []))
  else if c.isDigit || c = '-' then some ([], .number [c])
  else if c.isLower then some ([], .word [c])
  else none

def Mode.finishWord? (seen : List Char) : Option Token := word? seen.reverse

def Mode.finishNumber? (seen : List Char) : Option Token :=
  (Number.Numeral.read? seen.reverse).map fun l => .number l.value?

def Mode.stepText? (seen : Seen) (c : Char) : Option (List Token × Mode) :=
  if c = '"' then some ([.string (seen.map fun cs => .ofList cs.reverse)], .between)
  else if c = '\\' then some ([], .escape seen)
  else if c.toNat < 0x20 then none
  else some ([], .text (seen.push c))

def Mode.stepEscape? (seen : Seen) (c : Char) : Option (List Token × Mode) :=
  if c = 'u' then some ([], .hex seen none 0 4)
  else (unescape? c).map fun c => ([], .text (seen.push c))

def Mode.step? : Mode → Char → Option (List Token × Mode)
  | .between, c => begin? c
  | .word seen, c =>
    if c.isLower then some ([], .word (c :: seen))
    else do
      let t ← finishWord? seen
      let (ts, m) ← begin? c
      some (t :: ts, m)
  | .number seen, c =>
    if isNumeric c then some ([], .number (c :: seen))
    else do
      let t ← finishNumber? seen
      let (ts, m) ← begin? c
      some (t :: ts, m)
  | .text seen, c => stepText? seen c
  | .escape seen, c => stepEscape? seen c
  | .hex seen lead value left, c =>
    (hexValue? c).map fun d =>
      if left ≤ 1 then ([], ofUnit seen lead (16 * value + d))
      else ([], .hex seen lead (16 * value + d) (left - 1))
  | .pair seen lead, c =>
    if c = '\\' then some ([], .pairEscape seen lead) else stepText? none c
  | .pairEscape seen lead, c =>
    if c = 'u' then some ([], .hex seen (some lead) 0 4) else stepEscape? none c

def Mode.finish? : Mode → Option (List Token)
  | .between => some []
  | .word seen => (finishWord? seen).map ([·])
  | .number seen => (finishNumber? seen).map ([·])
  | _ => none

def tokensFrom? (done : List Token) : Mode → List Char → Option (List Token)
  | m, [] => m.finish?.map fun ts => done.reverse ++ ts
  | m, c :: cs =>
    match m.step? c with
    | some (ts, m) => tokensFrom? (ts.reverse ++ done) m cs
    | none => none

def tokens? (cs : List Char) : Option (List Token) := tokensFrom? [] .between cs

end StreamSql.Json
