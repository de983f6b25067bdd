
namespace StreamSql.Text.Utf8

inductive Fault
  | invalid (count index : Nat)
  | incomplete (index : Nat)
deriving DecidableEq

def Fault.text : Fault → String
  | .invalid n i =>
    "invalid utf-8 sequence of " ++ toString n ++ " bytes from index " ++ toString i
  | .incomplete i => "incomplete utf-8 byte sequence from index " ++ toString i

structure Begun where
  index : Nat
  read : Nat
  rest : Nat
  low : Nat
  high : Nat
  value : Nat

/-- The character that a byte of more than one begins. Bounds on the second byte keep out longer forms
of characters, surrogates and what lies past the last character. -/
def begun? (i b : Nat) : Option Begun :=
  if 0xC2 ≤ b && b ≤ 0xDF then some ⟨i, 1, 0, 0x80, 0xBF, b - 0xC0⟩
  else if b = 0xE0 then some ⟨i, 1, 1, 0xA0, 0xBF, 0⟩
  else if b = 0xED then some ⟨i, 1, 1, 0x80, 0x9F, 0xD⟩
  else if 0xE1 ≤ b && b ≤ 0xEF then some ⟨i, 1, 1, 0x80, 0xBF, b - 0xE0⟩
  else if b = 0xF0 then some ⟨i, 1, 2, 0x90, 0xBF, 0⟩
  else if 0xF1 ≤ b && b ≤ 0xF3 then some ⟨i, 1, 2, 0x80, 0xBF, b - 0xF0⟩
  else if b = 0xF4 then some ⟨i, 1, 2, 0x80, 0x8F, 4⟩
  else none

def chars (i : Nat) : Option Begun → List UInt8 → Except Fault (List Char)
  | none, [] => .ok []
  | some c, [] => .error (.incomplete c.index)
  | none, b :: bs =>
    if b < 0x80 then do .ok (.ofNat b.toNat :: (← chars (i + 1) none bs))
    else match begun? i b.toNat with
      | some c => chars (i + 1) (some c) bs
      | none => .error (.invalid 1 i)
  | some c, b :: bs =>
    if c.low ≤ b.toNat && b.toNat ≤ c.high then
      let value := c.value * 64 + (b.toNat - 0x80)
      match c.rest with
      | 0 => do .ok (.ofNat value :: (← chars (i + 1) none bs))
      | n + 1 => chars (i + 1) (some ⟨c.index, c.read + 1, n, 0x80, 0xBF, value⟩) bs
    else .error (.invalid c.read c.index)

def decode (bytes : List UInt8) : Except Fault String := do .ok (.ofList (← chars 0 none bytes))

end StreamSql.Text.Utf8
