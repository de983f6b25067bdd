import StreamSql.Text
import StreamSql.Double.Basic

namespace StreamSql

inductive Tie
  | up
  | toEven
deriving DecidableEq

/-- How digits are laid out. With the point before the digits at place `0`, numbers whose point is
at a place from `least` to `greatest` are written in full, the others with an exponent. -/
structure DigitLayout where
  tie : Tie
  least : Option Int
  greatest : Option Int
  wholeEnd : String

structure Digits where
  digits : List Char
  point : Int

namespace Double

def decimalPlace (num den : Nat) : Int :=
  if den ≤ num then (Nat.toDigits 10 (num / den)).length
  else
    let q := (Nat.toDigits 10 (den / num)).length
    if num * pow10 (q - 1) < den then 1 - (q : Int) else 2 - (q : Int)

structure Neighbourhood where
  lo : Nat
  mid : Nat
  hi : Nat
  den : Nat
  closed : Bool

def neighbourhood (x : Double) : Neighbourhood :=
  let unit := pow2 x.exponent
  let below := if x.mantissa = 0x10000000000000 && x.exponent ≠ 0 then 1 else 2
  { lo := (4 * x.mantissa - below) * unit
    mid := 4 * x.mantissa * unit
    hi := (4 * x.mantissa + 2) * unit
    den := pow2 1076
    closed := x.mantissa % 2 = 0 }

def Neighbourhood.holds (i : Neighbourhood) (c : Nat) (k : Int) : Bool :=
  let at' := c * pow10 k.toNat * i.den
  let scale := pow10 (-k).toNat
  if i.closed then i.lo * scale ≤ at' && at' ≤ i.hi * scale
  else i.lo * scale < at' && at' < i.hi * scale

def Neighbourhood.onGrid? (i : Neighbourhood) (tie : Tie) (k : Int) : Option Nat :=
  let scaled := i.mid * pow10 (-k).toNat
  let step := i.den * pow10 k.toNat
  let c := scaled / step
  let rest := scaled % step
  match i.holds c k, i.holds (c + 1) k with
  | true, false => some c
  | false, true => some (c + 1)
  | false, false => none
  | true, true =>
    if 2 * rest < step then some c
    else if step < 2 * rest then some (c + 1)
    else match tie with
      | .up => some (c + 1)
      | .toEven => some (c + c % 2)

def dropZeros (cs : List Char) : List Char := (cs.reverse.dropWhile (· = '0')).reverse

def shortest (tie : Tie) (x : Double) : Digits :=
  let i := x.neighbourhood
  let place := decimalPlace i.mid i.den
  match (List.range 17).findSome? fun (n : Nat) => (i.onGrid? tie (place - (n + 1))).map (n + 1, ·) with
  | some (n, c) =>
    let ds := Nat.toDigits 10 c
    ⟨dropZeros ds, place + (ds.length - n)⟩
  | none => ⟨[], 0⟩

end Double

def DigitLayout.writesFull (l : DigitLayout) (place : Int) : Bool :=
  l.least.all (· ≤ place) && l.greatest.all (place ≤ ·)

def Digits.text (d : Digits) (l : DigitLayout) : String :=
  let n : Int := d.digits.length
  if l.writesFull d.point then
    if d.point ≤ 0 then
      "0." ++ .ofList (List.replicate (-d.point).toNat '0' ++ d.digits)
    else if d.point < n then
      .ofList (d.digits.take d.point.toNat) ++ "." ++ .ofList (d.digits.drop d.point.toNat)
    else .ofList (d.digits ++ List.replicate (d.point - n).toNat '0') ++ l.wholeEnd
  else
    let exponent := d.point - 1
    let mantissa := match d.digits with
      | [] => ""
      | [c] => .ofList [c]
      | c :: cs => .ofList (c :: '.' :: cs)
    mantissa ++ (if exponent < 0 then "e-" else "e+") ++ toString exponent.natAbs

def Double.text (l : DigitLayout) (x : Double) : String :=
  (if x.negative then "-" else "") ++
    if x.isZero then "0" ++ l.wholeEnd else (x.shortest l.tie).text l

end StreamSql
