import StreamSql.Text
import StreamSql.Double.Shortest
import StreamSql.Json.Basic

namespace StreamSql

namespace Number

def layout : DigitLayout := ⟨.toEven, some (-4), some 16, ".0"⟩

def text : Number → String
  | .whole n _ => toString n
  | .double x => x.text layout

end Number

namespace Json

def hexDigits : List Char := "0123456789abcdef".toList

def hexDigit (n : Nat) : Char := hexDigits.getD n '0'

def escape (c : Char) : List Char :=
  if c = '"' then ['\\', '"']
  else if c = '\\' then ['\\', '\\']
  else if c = '\x08' then ['\\', 'b']
  else if c = '\x0c' then ['\\', 'f']
  else if c = '\n' then ['\\', 'n']
  else if c = '\r' then ['\\', 'r']
  else if c = '\t' then ['\\', 't']
  else if c.toNat < 0x20 then ['\\', 'u', '0', '0', hexDigit (c.toNat / 16), hexDigit (c.toNat % 16)]
  else [c]

def quote (s : String) : String := .ofList ('"' :: s.toList.flatMap escape ++ ['"'])

mutual
def compact : Json → String
  | .null | .outOfRange => "null"
  | .bool b => if b then "true" else "false"
  | .number n => n.text
  | .string s => quote s
  | .array items => "[" ++ Text.join "," (compactItems items) ++ "]"
  | .object ms => "\x7b" ++ Text.join "," (compactMembers ms) ++ "\x7d"
termination_by structural j => j
def compactItems : List Json → List String
  | [] => []
  | j :: js => j.compact :: compactItems js
termination_by structural js => js
def compactMembers : List (String × Json) → List String
  | [] => []
  | (k, j) :: ms => (quote k ++ ":" ++ j.compact) :: compactMembers ms
termination_by structural ms => ms
end

def block (indent : Nat) (l r : String) (parts : List String) : String :=
  let line (n : Nat) : String := "\n" ++ .ofList (List.replicate n ' ')
  if parts.isEmpty then l ++ r
  else l ++ line (indent + 2) ++ Text.join ("," ++ line (indent + 2)) parts ++ line indent ++ r

mutual
def pretty (indent : Nat) : Json → String
  | .array items => block indent "[" "]" (prettyItems (indent + 2) items)
  | .object ms => block indent "\x7b" "\x7d" (prettyMembers (indent + 2) ms)
  | .null | .outOfRange => "null"
  | .bool b => if b then "true" else "false"
  | .number n => n.text
  | .string s => quote s
termination_by structural j => j
def prettyItems (indent : Nat) : List Json → List String
  | [] => []
  | j :: js => j.pretty indent :: prettyItems indent js
termination_by structural js => js
def prettyMembers (indent : Nat) : List (String × Json) → List String
  | [] => []
  | (k, j) :: ms => (quote k ++ ": " ++ j.pretty indent) :: prettyMembers indent ms
termination_by structural ms => ms
end

end Json
end StreamSql
