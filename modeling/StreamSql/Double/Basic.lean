import StreamSql.Power

/-!
The finite numbers of the binary64 format, kept exactly: sign, mantissa and exponent. Every
operation computes its exact quotient and rounds it once, to the nearest number and a half to the
even mantissa.
-/

namespace StreamSql

/-- The number `± mantissa · 2 ^ (exponent - 1074)`. A mantissa below `2 ^ 52` occurs at the least
exponent only, so a number other than zero is written in one way. -/
structure Double where
  negative : Bool
  mantissa : Nat
  exponent : Nat
  mantissa_lt : mantissa < 0x20000000000000
  exponent_le : exponent ≤ 2045
  normal : exponent = 0 ∨ 0x10000000000000 ≤ mantissa
deriving DecidableEq

def roundHalfEven (n d : Nat) : Nat :=
  let q := n / d
  let r := n % d
  if 2 * r < d then q else if d < 2 * r then q + 1 else q + q % 2

namespace Double

def zero (negative : Bool) : Double := ⟨negative, 0, 0, by decide, by decide, .inl rfl⟩

instance : Inhabited Double := ⟨zero false⟩

def make? (negative : Bool) (mantissa exponent : Nat) : Option Double :=
  if h : mantissa < 0x20000000000000 ∧ exponent ≤ 2045 ∧
      (exponent = 0 ∨ 0x10000000000000 ≤ mantissa) then
    some ⟨negative, mantissa, exponent, h.1, h.2.1, h.2.2⟩
  else none

def units (x : Double) : Nat := x.mantissa * pow2 x.exponent

/-- The number nearest to `± num / den`, none where it passes the format's range. -/
def ofRatio? (negative : Bool) (num den : Nat) : Option Double :=
  let scaled := num * pow2 1074
  let exponent := (scaled / den).log2 - 52
  let mantissa := roundHalfEven scaled (den * pow2 exponent)
  if mantissa = 0x20000000000000 then make? negative 0x10000000000000 (exponent + 1)
  else make? negative mantissa exponent

def ofNat (negative : Bool) (n : Nat) : Double := (ofRatio? negative n 1).getD default

def ofInt (n : Int) : Double := ofNat (n < 0) n.natAbs

def neg (x : Double) : Double := { x with negative := !x.negative }

def isZero (x : Double) : Bool := x.mantissa = 0

def mul? (x y : Double) : Option Double :=
  ofRatio? (x.negative != y.negative) (x.units * y.units) (pow2 2148)

def div? (x y : Double) : Option Double :=
  if y.isZero then none else ofRatio? (x.negative != y.negative) x.units y.units

def same (x y : Double) : Bool := x = y || (x.isZero && y.isZero)

end Double
end StreamSql
