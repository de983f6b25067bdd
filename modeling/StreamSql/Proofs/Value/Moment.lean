import StreamSql.Proofs.Calendar
import StreamSql.Value.Literal

namespace StreamSql

def unquote? (t : String) : Option String := do
  let cs ← Text.afterFirst? '\x27' t.toList
  let cs ← Text.beforeLast? '\x27' cs
  some (.ofList cs)

theorem unquote?_quoted (t : String) : unquote? (quoted t) = some t := by
  simp [unquote?, quoted, Text.afterFirst?, Text.beforeLast?]

def ClockTime.toMillis (t : ClockTime) : ClockTime :=
  { t with
    nanosecond := t.nanosecond / 1000000 * 1000000
    nanosecond_lt := by have := t.nanosecond_lt; omega }

inductive Moment
  | date (d : Date)
  | time (t : ClockTime)
  | timestamp (t : Timestamp)
deriving DecidableEq

namespace Moment

def kind : Moment → TypeKind
  | .date _ => .date
  | .time _ => .time
  | .timestamp _ => .timestamp

def value : Moment → Value
  | .date d => .date d
  | .time t => .time t
  | .timestamp t => .timestamp t

def text : Moment → String
  | .date d => d.text
  | .time t => t.text
  | .timestamp t => t.text

def IsOrdinary : Moment → Prop
  | .date d => d.IsOrdinary
  | .time t => t.IsOrdinary
  | .timestamp t => t.date.IsOrdinary ∧ t.time.IsOrdinary

instance : ∀ m : Moment, Decidable m.IsOrdinary
  | .date d => inferInstanceAs (Decidable d.IsOrdinary)
  | .time t => inferInstanceAs (Decidable t.IsOrdinary)
  | .timestamp t => inferInstanceAs (Decidable (t.date.IsOrdinary ∧ t.time.IsOrdinary))

def toMillis : Moment → Moment
  | .date d => .date d
  | .time t => .time t.toMillis
  | .timestamp t => .timestamp { t with time := t.time.toMillis }

def IsFractionalTime : Moment → Prop
  | .time t => t.milliseconds ≠ 0
  | _ => False

/-- What a literal of the kind denotes, none for the kinds that are no moments. -/
def denoted? (kind : TypeKind) (t : String) : Option Moment := do
  let t ← unquote? t
  match kind with
  | .date => (Date.read? t).map .date
  | .time => (ClockTime.read? t).map .time
  | .timestamp => (Timestamp.read? t).map .timestamp
  | _ => none

end Moment

section

variable {t : ClockTime}

theorem ClockTime.withNanosecond_self (h : t.IsOrdinary) : t.withNanosecond t.nanosecond h = t := rfl

theorem ClockTime.milliseconds_eq (h : t.IsOrdinary) : t.milliseconds = t.nanosecond / 1000000 := by
  rw [milliseconds, Nat.mod_eq_of_lt h]

theorem ClockTime.milliseconds_lt (t : ClockTime) : t.milliseconds < 1000 := by
  unfold milliseconds
  omega

theorem ClockTime.toMillis_withNanosecond_zero (h : t.IsOrdinary) :
    (t.withNanosecond 0 (by decide)).toMillis = t.toMillis ↔ t.milliseconds = 0 := by
  rw [milliseconds_eq h]
  simp only [toMillis, withNanosecond, ClockTime.mk.injEq, true_and]
  omega

theorem ClockTime.toMillis_withNanosecond (h : t.IsOrdinary) (lt : t.milliseconds * 1000000 < 1000000000) :
    (t.withNanosecond (t.milliseconds * 1000000) lt).toMillis = t.toMillis := by
  simp [toMillis, withNanosecond, milliseconds_eq h]

end

namespace Moment

variable {m : Moment}

theorem denoted?_text (h : m.IsOrdinary) : denoted? m.kind (quoted m.text) = some m := by
  cases m with
  | date d =>
    simp [denoted?, unquote?_quoted, kind, text, Date.read?_text h]
  | time t =>
    have read := ClockTime.read?_hms_append h h (Calendar.fraction?_fraction h) (Calendar.stops_fraction t)
    simp [denoted?, unquote?_quoted, kind, text, ClockTime.text, read, ClockTime.withNanosecond_self h]
  | timestamp t =>
    have read := Timestamp.read?_hms_append h.1 h.2 h.2 (Calendar.fraction?_fraction h.2)
      (Calendar.stops_fraction t.time)
    simp [denoted?, unquote?_quoted, kind, text, Timestamp.text, ClockTime.text, read,
      ClockTime.withNanosecond_self h.2]

theorem denoted?_literal (h : m.IsOrdinary) (s : LiteralStyle) :
    ∃ q, denoted? m.kind (m.value.literal s) = some q ∧
      (q.toMillis = m.toMillis ↔ ¬ m.IsFractionalTime) := by
  cases m with
  | date d =>
    refine ⟨.date d, ?_, by simp [IsFractionalTime]⟩
    simp [denoted?, unquote?_quoted, kind, value, Value.literal, Date.read?_text h]
  | time t =>
    have read := ClockTime.read?_hms_append (f := "") (n := 0) h (by decide) rfl Calendar.stops_nil
    refine ⟨.time (t.withNanosecond 0 (by decide)), ?_, ?_⟩
    · rw [String.append_empty] at read
      simp [denoted?, unquote?_quoted, kind, value, Value.literal, read]
    · simp [toMillis, IsFractionalTime, ClockTime.toMillis_withNanosecond_zero h]
  | timestamp t =>
    have millis := t.time.milliseconds_lt
    have lt : t.time.milliseconds * 1000000 < 1000000000 := by omega
    have digits := Calendar.fraction?_padNat (w := 3) (n := t.time.milliseconds) (by decide)
      (by decide) millis
    have point : Calendar.Stops ('.' :: (Text.padNat 3 t.time.milliseconds).toList) :=
      Calendar.stops_cons (by decide) (by decide)
    have read := Timestamp.read?_hms_append (f := "." ++ Text.padNat 3 t.time.milliseconds) h.1 h.2 lt
      (by simpa [pow10] using digits) (by simpa using point)
    refine ⟨.timestamp ⟨t.date, t.time.withNanosecond _ lt⟩, ?_, ?_⟩
    · simp only [← String.append_assoc] at read
      simp [denoted?, unquote?_quoted, kind, value, Value.literal, Timestamp.textMillis, read]
    · simp [toMillis, IsFractionalTime, ClockTime.toMillis_withNanosecond h.2 lt]

end Moment
end StreamSql
