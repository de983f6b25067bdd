import StreamSql.Text
import StreamSql.Json.Basic

/-!
Reading a JSON number. A whole number that fits 64 bits is kept as it is. Any other number is read
through a significand of 64 bits: digits are taken while it has room for them, and the rest of the
text moves the power of ten by which the significand, rounded to binary64, is multiplied or divided.
-/

namespace StreamSql.Number

def absorb (n : Nat) : List Char → Nat × List Char
  | [] => (n, [])
  | c :: cs =>
    let m := 10 * n + Text.digitValue c
    if m < 0x10000000000000000 then absorb m cs else (n, c :: cs)

def power (e : Nat) : Double := (Double.ofRatio? false (pow10 e) 1).getD default

/-- Division by `10 ^ e`, in steps of at most `10 ^ 308`, each of them rounded. -/
def shrink (x : Double) (e : Nat) : Double :=
  if e ≤ 308 then (x.div? (power e)).getD default
  else if x.isZero then x
  else shrink ((x.div? (power 308)).getD default) (e - 308)
termination_by e

def scale? (significand : Nat) (e : Int) : Option Double :=
  let x := Double.ofNat false significand
  if e < 0 then some (shrink x e.natAbs)
  else if e ≤ 308 then x.mul? (power e.toNat)
  else if x.isZero then some x
  else none

/-- Written exponents stop at 32 bits: one that passes them gives zero, or no number. -/
def exponentLimit : Int := 0x7FFFFFFF

def ofParts? (whole fraction : List Char) (e : Int) : Option Double :=
  let (n, skipped) := absorb 0 whole
  let (n, dropped) := absorb n fraction
  let start : Int := skipped.length - (fraction.length - dropped.length)
  if e.natAbs ≤ exponentLimit then scale? n (max (-exponentLimit - 1) (min exponentLimit (start + e)))
  else if n = 0 || e < 0 then some (.zero false)
  else none

def exponent? : List Char → Option (Option Int)
  | [] => some none
  | c :: cs =>
    if c = 'e' || c = 'E' then
      let (sign, ds) : Int × List Char := match cs with
        | '+' :: ds => (1, ds)
        | '-' :: ds => (-1, ds)
        | ds => (1, ds)
      if ds ≠ [] && ds.all Char.isDigit then some (some (sign * Text.ofDigits ds)) else none
    else none

def isWhole (ds : List Char) : Bool :=
  match ds with
  | [] => false
  | '0' :: rest => rest.isEmpty
  | _ => true

structure Numeral where
  negative : Bool
  whole : List Char
  fraction : Option (List Char)
  exponent : Option Int

def Numeral.read? (cs : List Char) : Option Numeral := do
  let (negative, cs) := match cs with
    | '-' :: cs => (true, cs)
    | cs => (false, cs)
  let whole := cs.takeWhile Char.isDigit
  if !isWhole whole then none
  let rest := cs.dropWhile Char.isDigit
  let (fraction, rest) ← match rest with
    | '.' :: cs =>
      let fraction := cs.takeWhile Char.isDigit
      if fraction = [] then none else some (some fraction, cs.dropWhile Char.isDigit)
    | rest => some (none, rest)
  some ⟨negative, whole, fraction, ← exponent? rest⟩

def Numeral.value? (l : Numeral) : Option Number :=
  let signed (x : Double) : Number := .double (if l.negative then x.neg else x)
  match l.fraction, l.exponent with
  | none, none =>
    let n := Text.ofDigits l.whole
    if l.negative && n = 0 then some (signed (.zero false))
    else (whole? (if l.negative then -n else n)).orElse fun _ => (ofParts? l.whole [] 0).map signed
  | _, _ => (ofParts? l.whole (l.fraction.getD []) (l.exponent.getD 0)).map signed

end StreamSql.Number
