import StreamSql.Power
import StreamSql.Text

namespace StreamSql

def isLeap (year : Int) : Bool := year % 4 = 0 && (year % 100 ≠ 0 || year % 400 = 0)

def daysIn (year : Int) (month : Nat) : Nat :=
  if month = 2 then (if isLeap year then 29 else 28)
  else if month = 4 || month = 6 || month = 9 || month = 11 then 30 else 31

structure Date where
  year : Int
  month : Nat
  day : Nat
  year_mem : -262143 ≤ year ∧ year ≤ 262142
  month_mem : 1 ≤ month ∧ month ≤ 12
  day_mem : 1 ≤ day ∧ day ≤ daysIn year month
deriving DecidableEq

structure ClockTime where
  hour : Nat
  minute : Nat
  second : Nat
  nanosecond : Nat
  hour_lt : hour < 24
  minute_lt : minute < 60
  second_lt : second < 60
  nanosecond_lt : nanosecond < 1000000000 ∨ (second = 59 ∧ nanosecond < 2000000000)
deriving DecidableEq

structure Timestamp where
  date : Date
  time : ClockTime
deriving DecidableEq

def Date.make? (year : Int) (month day : Nat) : Option Date :=
  if h : (-262143 ≤ year ∧ year ≤ 262142) ∧ (1 ≤ month ∧ month ≤ 12) ∧
      (1 ≤ day ∧ day ≤ daysIn year month) then
    some ⟨year, month, day, h.1, h.2.1, h.2.2⟩
  else none

/-- The time on the clock; the second 60 is a leap second. -/
def ClockTime.make? (hour minute second nanosecond : Nat) : Option ClockTime :=
  let (second, nanosecond) := if second = 60 then (59, nanosecond + 1000000000) else (second, nanosecond)
  if h : hour < 24 ∧ minute < 60 ∧ second < 60 ∧
      (nanosecond < 1000000000 ∨ (second = 59 ∧ nanosecond < 2000000000)) then
    some ⟨hour, minute, second, nanosecond, h.1, h.2.1, h.2.2.1, h.2.2.2⟩
  else none

/-- Four digits; years outside `0` to `9999` carry their sign. -/
def yearText (year : Int) : String :=
  if 0 ≤ year && year ≤ 9999 then Text.padNat 4 year.natAbs
  else (if year < 0 then "-" else "+") ++ Text.padNat 4 year.natAbs

def Date.text (d : Date) : String :=
  yearText d.year ++ "-" ++ Text.padNat 2 d.month ++ "-" ++ Text.padNat 2 d.day

def ClockTime.shownSecond (t : ClockTime) : Nat := t.second + t.nanosecond / 1000000000

def ClockTime.hms (t : ClockTime) : String :=
  Text.padNat 2 t.hour ++ ":" ++ Text.padNat 2 t.minute ++ ":" ++ Text.padNat 2 t.shownSecond

/-- The fraction of the second in 0, 3, 6 or 9 digits, the fewest that are exact. -/
def ClockTime.fraction (t : ClockTime) : String :=
  let n := t.nanosecond % 1000000000
  if n = 0 then ""
  else if n % 1000000 = 0 then "." ++ Text.padNat 3 (n / 1000000)
  else if n % 1000 = 0 then "." ++ Text.padNat 6 (n / 1000)
  else "." ++ Text.padNat 9 n

def ClockTime.text (t : ClockTime) : String := t.hms ++ t.fraction

def ClockTime.milliseconds (t : ClockTime) : Nat := t.nanosecond % 1000000000 / 1000000

def Timestamp.text (t : Timestamp) : String := t.date.text ++ "T" ++ t.time.text

def Timestamp.textMillis (t : Timestamp) : String :=
  t.date.text ++ "T" ++ t.time.hms ++ "." ++ Text.padNat 3 t.time.milliseconds

namespace Calendar

def number? (width : Nat) (cs : List Char) : Option (Nat × List Char) :=
  let ds := (cs.takeWhile Char.isDigit).take width
  if ds = [] then none else some (Text.ofDigits ds, cs.drop ds.length)

def field? (lo hi : Nat) (cs : List Char) : Option (Nat × List Char) := do
  let (n, cs) ← number? 2 (Text.trimStart cs)
  if lo ≤ n && n ≤ hi then some (n, cs) else none

def year? (cs : List Char) : Option (Int × List Char) :=
  match Text.trimStart cs with
  | '-' :: cs => (number? cs.length cs).map fun (n, cs) => (-(n : Int), cs)
  | '+' :: cs => (number? cs.length cs).map fun (n, cs) => ((n : Int), cs)
  | cs => (number? 4 cs).map fun (n, cs) => ((n : Int), cs)

def separator? (c : Char) (cs : List Char) : Option (List Char) :=
  Text.afterFirst? c (Text.trimStart cs)

/-- The digits after the point, of which nine count. -/
def fraction? : List Char → Option (Nat × List Char)
  | '.' :: cs => do
    let ds := (cs.takeWhile Char.isDigit).take 9
    if ds = [] then none
    else some (Text.ofDigits ds * pow10 (9 - ds.length), cs.dropWhile Char.isDigit)
  | cs => some (0, cs)

def date? (cs : List Char) : Option (Date × List Char) := do
  let (year, cs) ← year? cs
  let cs ← separator? '-' cs
  let (month, cs) ← field? 1 12 cs
  let cs ← separator? '-' cs
  let (day, cs) ← field? 1 31 cs
  let d ← Date.make? year month day
  some (d, Text.trimStart cs)

def seconds? (cs : List Char) : Option ((Nat × Nat) × List Char) := do
  let cs ← separator? ':' cs
  let (second, cs) ← field? 0 60 cs
  let (nanosecond, cs) ← fraction? cs
  some ((second, nanosecond), Text.trimStart cs)

def hourMinute? (cs : List Char) : Option ((Nat × Nat) × List Char) := do
  let (hour, cs) ← field? 0 23 cs
  let cs ← separator? ':' cs
  let (minute, cs) ← field? 0 59 cs
  some ((hour, minute), cs)

def ended {α : Type} : Option (α × List Char) → Option α
  | some (a, []) => some a
  | _ => none

end Calendar

open Calendar

def Date.read? (s : String) : Option Date := ended (date? s.toList)

def ClockTime.read? (s : String) : Option ClockTime := do
  let ((hour, minute), cs) ← hourMinute? s.toList
  if Text.trimStart cs = [] then make? hour minute 0 0
  else
    let (second, nanosecond) ← ended (seconds? cs)
    make? hour minute second nanosecond

def Timestamp.read? (s : String) : Option Timestamp := do
  let (date, cs) ← date? s.toList
  let cs ← Text.afterFirst? 'T' cs
  let ((hour, minute), cs) ← hourMinute? cs
  let (second, nanosecond) ← ended (seconds? cs)
  let time ← ClockTime.make? hour minute second nanosecond
  some ⟨date, time⟩

end StreamSql
