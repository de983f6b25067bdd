import StreamSql.Power
import StreamSql.Text

namespace StreamSql

abbrev Decimal.bound : Nat := 0x1000000000000000000000000

/-- The number `± coefficient / 10 ^ scale`. A zero keeps the sign of what was rounded to it. -/
structure Decimal where
  negative : Bool
  coefficient : Nat
  scale : Nat
  coefficient_lt : coefficient < Decimal.bound
  scale_le : scale ≤ 28
deriving DecidableEq

namespace Decimal

def maxScale : Nat := 28

def make? (negative : Bool) (coefficient scale : Nat) : Option Decimal :=
  if h : coefficient < bound ∧ scale ≤ 28 then
    some ⟨negative && coefficient ≠ 0, coefficient, scale, h.1, h.2⟩
  else none

def ofInt? (n : Int) : Option Decimal := make? (n < 0) n.natAbs 0

/-- Equality as a number: neither trailing zeros after the point nor the sign of zero count. -/
def same (x y : Decimal) : Bool :=
  (x.negative = y.negative || x.coefficient = 0) && x.coefficient * pow10 y.scale = y.coefficient * pow10 x.scale

def text (d : Decimal) : String :=
  let ds := (Text.padNat (d.scale + 1) d.coefficient).toList
  let whole := ds.take (ds.length - d.scale)
  let fraction := ds.drop (ds.length - d.scale)
  (if d.negative then "-" else "") ++ .ofList whole ++
    if d.scale = 0 then "" else "." ++ .ofList fraction

structure Scan where
  coefficient : Nat
  point : Bool
  scale : Nat
  digit : Bool

def Scan.start : Scan := ⟨0, false, 0, false⟩

def Scan.round? (s : Scan) (negative : Bool) (next : Char) (rest : List Char) : Option Decimal :=
  if (next :: rest).all fun c => c.isDigit || c = '_' then
    let up := next.isDigit && 5 ≤ Text.digitValue next
    let c := if up then s.coefficient + 1 else s.coefficient
    if c < bound then make? negative c s.scale
    else if s.scale = 0 then none
    else make? negative ((c + 4) / 10) (s.scale - 1)
  else none

/-- Reads digits with at most one point; an underscore may follow a digit or the point. The digits
that do not fit after the point are rounded away, those that do not fit before it are refused. -/
def Scan.read? (negative : Bool) (s : Scan) : List Char → Option Decimal
  | [] => if s.digit then make? negative s.coefficient s.scale else none
  | c :: cs =>
    if s.point && maxScale ≤ s.scale && s.digit then s.round? negative c cs
    else if c.isDigit then
      let n := 10 * s.coefficient + Text.digitValue c
      if n < bound then
        Scan.read? negative ⟨n, s.point, if s.point then s.scale + 1 else 0, true⟩ cs
      else if s.point then s.round? negative c cs
      else none
    else if c = '.' && !s.point then Scan.read? negative { s with point := true } cs
    else if c = '_' && s.digit then Scan.read? negative s cs
    else none

def readPlain? : List Char → Option Decimal
  | '-' :: cs => Scan.start.read? true cs
  | '+' :: cs => Scan.start.read? false cs
  | cs => if cs = [] then none else Scan.start.read? false cs

def exponent? (cs : List Char) : Option Nat :=
  let ds := match cs with
    | '+' :: ds => ds
    | ds => ds
  let n := Text.ofDigits ds
  if ds ≠ [] && ds.all Char.isDigit && n < 0x100000000 then some n else none

def roundHalfUp (coefficient unit : Nat) : Nat := (2 * coefficient + unit) / (2 * unit)

theorem roundHalfUp_lt_bound {coefficient unit : Nat} (h : coefficient < bound)
    (unit_pos : 0 < unit) : roundHalfUp coefficient unit < bound := by
  refine Nat.div_lt_of_lt_mul ?_
  simp only [bound] at *
  omega

/-- The number divided by `10 ^ e`. The digits that would pass the last place are rounded away, a half
away from zero, before the point is moved. -/
def shiftLeft? (d : Decimal) (e : Nat) : Option Decimal :=
  if e ≤ 28 then
    if h : d.scale + e ≤ 28 then some { d with scale := d.scale + e, scale_le := h }
    else some { d with
      coefficient := roundHalfUp d.coefficient (pow10 (d.scale + e - 28))
      scale := 28
      coefficient_lt := roundHalfUp_lt_bound d.coefficient_lt (Nat.pow_pos (by decide))
      scale_le := Nat.le_refl 28 }
  else none

def shiftRight? (d : Decimal) (e : Nat) : Option Decimal :=
  if e ≤ d.scale then make? d.negative d.coefficient (d.scale - e)
  else if e ≤ maxScale then make? d.negative (d.coefficient * pow10 (e - d.scale)) 0
  else none

def readScientific? (cs : List Char) : Option Decimal :=
  let base := cs.takeWhile fun c => c ≠ 'e' && c ≠ 'E'
  match cs.dropWhile fun c => c ≠ 'e' && c ≠ 'E' with
  | _ :: '-' :: ds => do
    let d ← readPlain? base
    let e ← exponent? ds
    d.shiftLeft? e
  | _ :: ds => do
    let d ← readPlain? base
    d.shiftRight? (← exponent? ds)
  | [] => none

def read? (s : String) : Option Decimal :=
  (readPlain? s.toList).orElse fun _ => readScientific? s.toList

end Decimal
end StreamSql
