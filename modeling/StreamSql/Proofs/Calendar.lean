import StreamSql.Calendar
import StreamSql.Proofs.Json.Number
import StreamSql.Proofs.Text.Trim

namespace StreamSql

namespace Text

theorem ofDigits_padNat (width n : Nat) : ofDigits (padNat width n).toList = n := by
  have digits : ofDigits (Nat.toDigits 10 n) = n := Number.ofDigits_toDigits n
  have zeros (k : Nat) (ds : List Char) : ofDigits (List.replicate k '0' ++ ds) = ofDigits ds := by
    induction k with
    | zero => rfl
    | succ k ih => exact ih
  rw [padNat, String.toList_ofList, zeros, digits]

theorem length_padNat {width n : Nat} (pos : 0 < width) (lt : n < pow10 width) :
    (padNat width n).toList.length = width := by
  have short := (Nat.length_toDigits_le_iff (b := 10) (by decide) pos).2 lt
  simp [padNat]
  omega

end Text

namespace Calendar

variable {cs ds rest : List Char}

def Stops (cs : List Char) : Prop := ∀ c ∈ cs.head?, c.isDigit = false ∧ Text.isBlank c = false

theorem Stops.trimStart_eq (h : Stops cs) : Text.trimStart cs = cs :=
  Text.trimStart_of_head fun c hc => (h c hc).2

theorem trimStart_digits (digits : ∀ c ∈ ds, c.isDigit = true) (ne : ds ≠ []) :
    Text.trimStart (ds ++ rest) = ds ++ rest := by
  obtain ⟨c, ds, rfl⟩ := List.exists_cons_of_ne_nil ne
  have alphanum : c.isAlphanum = true := by simp [Char.isAlphanum, digits c]
  exact Text.trimStart_of_head fun d hd => Option.some.inj hd ▸ Text.not_isBlank_of_isAlphanum alphanum

theorem takeWhile_digits (digits : ∀ c ∈ ds, c.isDigit = true) (stop : Stops rest) :
    (ds ++ rest).takeWhile Char.isDigit = ds := by
  rw [List.takeWhile_append_of_pos digits]
  cases rest with
  | nil => simp
  | cons c rest => simp [(stop c rfl).1]

theorem number?_digits {w : Nat} (digits : ∀ c ∈ ds, c.isDigit = true) (ne : ds ≠ [])
    (le : ds.length ≤ w) (stop : Stops rest) :
    number? w (ds ++ rest) = some (Text.ofDigits ds, rest) := by
  simp [number?, takeWhile_digits digits stop, List.take_of_length_le le, ne]

section

variable {n : Nat}

theorem padNat_ne_nil {w : Nat} (pos : 0 < w) : (Text.padNat w n).toList ≠ [] := by
  have length := Text.le_length_padNat w n
  rintro empty
  rw [empty] at length
  exact absurd length (Nat.not_le.2 pos)

theorem number?_padNat {w : Nat} (pos : 0 < w) (lt : n < pow10 w) (stop : Stops rest) :
    number? w ((Text.padNat w n).toList ++ rest) = some (n, rest) := by
  rw [number?_digits (fun _ => Text.isDigit_of_mem_padNat) (padNat_ne_nil pos)
    (Nat.le_of_eq (Text.length_padNat pos lt)) stop, Text.ofDigits_padNat]

theorem field?_padNat (lo hi : Nat) (mem : lo ≤ n ∧ n ≤ hi) (lt : n < 100) (stop : Stops rest) :
    field? lo hi ((Text.padNat 2 n).toList ++ rest) = some (n, rest) := by
  rw [field?, trimStart_digits (fun _ => Text.isDigit_of_mem_padNat) (padNat_ne_nil (by decide)),
    number?_padNat (by decide) lt stop]
  simp [mem]

theorem separator?_cons {c : Char} (h : Text.isBlank c = false) : separator? c (c :: rest) = some rest := by
  have stays : Text.trimStart (c :: rest) = c :: rest :=
    Text.trimStart_of_head fun d hd => Option.some.inj hd ▸ h
  simp [separator?, stays, Text.afterFirst?]

end

theorem stops_nil : Stops [] := fun _ h => nomatch h

theorem stops_cons {c : Char} (digit : c.isDigit = false) (blank : Text.isBlank c = false) :
    Stops (c :: rest) := fun _ h => Option.some.inj h ▸ ⟨digit, blank⟩

theorem year?_padNat {n : Nat} (le : n ≤ 9999) (stop : Stops rest) :
    year? ((Text.padNat 4 n).toList ++ rest) = some ((n : Int), rest) := by
  have digits : ∀ c ∈ (Text.padNat 4 n).toList, c.isDigit = true := fun _ => Text.isDigit_of_mem_padNat
  have number := number?_padNat (w := 4) (by decide) (Nat.lt_succ_of_le le) stop
  rw [year?, trimStart_digits digits (padNat_ne_nil (by decide))]
  obtain ⟨c, cs, split⟩ := List.exists_cons_of_ne_nil (padNat_ne_nil (n := n) (w := 4) (by decide))
  have digit : c.isDigit = true := digits c (by simp [split])
  rw [split] at number ⊢
  have minus : c ≠ '-' := by rintro rfl; exact absurd digit (by decide)
  have plus : c ≠ '+' := by rintro rfl; exact absurd digit (by decide)
  simp_all

end Calendar

open Calendar

def Date.IsOrdinary (d : Date) : Prop := 0 ≤ d.year ∧ d.year ≤ 9999

instance (d : Date) : Decidable d.IsOrdinary := inferInstanceAs (Decidable (_ ∧ _))

theorem Date.day_le (d : Date) : d.day ≤ 31 := by
  have month : daysIn d.year d.month ≤ 31 := by
    unfold daysIn
    split
    · split <;> decide
    · split <;> decide
  exact d.day_mem.2.trans month

theorem Date.make?_self (d : Date) : make? d.year d.month d.day = some d := by
  simp [make?, d.year_mem, d.month_mem, d.day_mem]

theorem Calendar.date?_text {d : Date} (h : d.IsOrdinary) {rest : List Char} (stop : Stops rest) :
    date? (d.text.toList ++ rest) = some (d, rest) := by
  have month := d.month_mem
  have day := d.day_mem
  have last := d.day_le
  have text : d.text.toList ++ rest = (Text.padNat 4 d.year.natAbs).toList ++
      '-' :: ((Text.padNat 2 d.month).toList ++ '-' :: ((Text.padNat 2 d.day).toList ++ rest)) := by
    simp [Date.text, yearText, h.1, h.2]
  have year : ((d.year.natAbs : Nat) : Int) = d.year := Int.natAbs_of_nonneg h.1
  have dash {cs : List Char} : Stops ('-' :: cs) := stops_cons (by decide) (by decide)
  rw [text, date?, year?_padNat (by have := h.2; omega) dash]
  simp only [Option.bind_eq_bind, Option.bind_some, separator?_cons (c := '-') (by decide),
    field?_padNat 1 12 month (by omega) dash, field?_padNat 1 31 ⟨day.1, last⟩ (by omega) stop, year,
    Date.make?_self, stop.trimStart_eq]

theorem Date.read?_text {d : Date} (h : d.IsOrdinary) : read? d.text = some d := by
  have date := Calendar.date?_text h stops_nil
  rw [List.append_nil] at date
  rw [read?, date]
  rfl

namespace ClockTime

def IsOrdinary (t : ClockTime) : Prop := t.nanosecond < 1000000000

instance (t : ClockTime) : Decidable t.IsOrdinary := inferInstanceAs (Decidable (_ < _))

def withNanosecond (t : ClockTime) (n : Nat) (lt : n < 1000000000) : ClockTime :=
  { t with nanosecond := n, nanosecond_lt := .inl lt }

theorem make?_withNanosecond (t : ClockTime) (n : Nat) (lt : n < 1000000000) :
    make? t.hour t.minute t.second n = some (t.withNanosecond n lt) := by
  have second := t.second_lt
  have leap : t.second ≠ 60 := by omega
  simp [make?, leap, t.hour_lt, t.minute_lt, second, lt, withNanosecond]

end ClockTime

section

variable {t : ClockTime} {f : List Char} {n : Nat}

theorem Calendar.fraction?_digits {ds : List Char} (digits : ∀ c ∈ ds, c.isDigit = true) (ne : ds ≠ [])
    (le : ds.length ≤ 9) : fraction? ('.' :: ds) = some (Text.ofDigits ds * pow10 (9 - ds.length), []) := by
  have all := takeWhile_digits digits stops_nil
  rw [List.append_nil] at all
  have none : ds.dropWhile Char.isDigit = [] := List.dropWhile_eq_nil_iff.2 digits
  simp [fraction?, all, none, List.take_of_length_le le, ne]

theorem Calendar.fraction?_padNat {w : Nat} (pos : 0 < w) (le : w ≤ 9)
    (lt : n < pow10 w) :
    fraction? ('.' :: (Text.padNat w n).toList) = some (n * pow10 (9 - w), []) := by
  have length := Text.length_padNat pos lt
  rw [fraction?_digits (fun _ => Text.isDigit_of_mem_padNat) (padNat_ne_nil pos)
    (Nat.le_trans (Nat.le_of_eq length) le), Text.ofDigits_padNat, length]

theorem Calendar.fraction?_fraction (h : t.IsOrdinary) :
    fraction? t.fraction.toList = some (t.nanosecond, []) := by
  have lt : t.nanosecond < 1000000000 := h
  have whole : t.nanosecond % 1000000000 = t.nanosecond := Nat.mod_eq_of_lt lt
  simp only [ClockTime.fraction, whole]
  split
  · next zero => rw [zero]; rfl
  · split
    · next thousands =>
      have digits := fraction?_padNat (w := 3) (n := t.nanosecond / 1000000) (by decide) (by decide)
        (Nat.div_lt_of_lt_mul lt)
      have value : t.nanosecond / 1000000 * pow10 (9 - 3) = t.nanosecond :=
        Nat.div_mul_cancel (Nat.dvd_of_mod_eq_zero thousands)
      simpa [value] using digits
    · split
      · next thousands =>
        have digits := fraction?_padNat (w := 6) (n := t.nanosecond / 1000) (by decide) (by decide)
          (Nat.div_lt_of_lt_mul lt)
        have value : t.nanosecond / 1000 * pow10 (9 - 6) = t.nanosecond :=
          Nat.div_mul_cancel (Nat.dvd_of_mod_eq_zero thousands)
        simpa [value] using digits
      · have digits := fraction?_padNat (w := 9) (n := t.nanosecond) (by decide) (by decide) lt
        simpa [pow10] using digits

theorem Calendar.stops_fraction (t : ClockTime) : Stops t.fraction.toList := by
  have point {cs : List Char} : Stops ('.' :: cs) := stops_cons (by decide) (by decide)
  unfold ClockTime.fraction
  simp only
  split
  · exact stops_nil
  · split
    · simpa using point
    · split <;> simpa using point

theorem ClockTime.toList_hms (h : t.IsOrdinary) :
    t.hms.toList = (Text.padNat 2 t.hour).toList ++
      ':' :: ((Text.padNat 2 t.minute).toList ++ ':' :: (Text.padNat 2 t.second).toList) := by
  have second : t.shownSecond = t.second := by simp [shownSecond, Nat.div_eq_of_lt h]
  simp [hms, second]

theorem Calendar.hourMinute?_padNat (t : ClockTime) {rest : List Char} (stop : Stops rest) :
    hourMinute? ((Text.padNat 2 t.hour).toList ++ ':' :: ((Text.padNat 2 t.minute).toList ++ rest)) =
      some ((t.hour, t.minute), rest) := by
  have hour := t.hour_lt
  have minute := t.minute_lt
  have colon {cs : List Char} : Stops (':' :: cs) := stops_cons (by decide) (by decide)
  simp [hourMinute?, field?_padNat (n := t.hour) 0 23 (by omega) (by omega) colon,
    separator?_cons (c := ':') (by decide),
    field?_padNat (n := t.minute) 0 59 (by omega) (by omega) stop]

theorem Calendar.seconds?_padNat (t : ClockTime) (fraction : fraction? f = some (n, []))
    (stop : Stops f) :
    seconds? (':' :: ((Text.padNat 2 t.second).toList ++ f)) = some ((t.second, n), []) := by
  have second := t.second_lt
  simp [seconds?, separator?_cons (c := ':') (by decide),
    field?_padNat (n := t.second) 0 60 (by omega) (by omega) stop, fraction, Text.trimStart]

theorem ClockTime.read?_hms_append (h : t.IsOrdinary) {f : String} (lt : n < 1000000000)
    (fraction : fraction? f.toList = some (n, [])) (stop : Stops f.toList) :
    read? (t.hms ++ f) = some (t.withNanosecond n lt) := by
  have colon {cs : List Char} : Stops (':' :: cs) := stops_cons (by decide) (by decide)
  have text : (t.hms ++ f).toList = (Text.padNat 2 t.hour).toList ++ ':' ::
      ((Text.padNat 2 t.minute).toList ++ ':' :: ((Text.padNat 2 t.second).toList ++ f.toList)) := by
    simp [toList_hms h]
  rw [read?, text, hourMinute?_padNat t colon]
  simp [colon.trimStart_eq, seconds?_padNat t fraction stop, ended, make?_withNanosecond t n lt]

theorem Timestamp.read?_hms_append {t : Timestamp} (date : t.date.IsOrdinary)
    (time : t.time.IsOrdinary) {f : String} (lt : n < 1000000000)
    (fraction : fraction? f.toList = some (n, [])) (stop : Stops f.toList) :
    read? (t.date.text ++ "T" ++ (t.time.hms ++ f)) =
      some ⟨t.date, t.time.withNanosecond n lt⟩ := by
  have colon {cs : List Char} : Stops (':' :: cs) := stops_cons (by decide) (by decide)
  have letter {cs : List Char} : Stops ('T' :: cs) := stops_cons (by decide) (by decide)
  have text : (t.date.text ++ "T" ++ (t.time.hms ++ f)).toList = t.date.text.toList ++ 'T' ::
      ((Text.padNat 2 t.time.hour).toList ++ ':' :: ((Text.padNat 2 t.time.minute).toList ++
        ':' :: ((Text.padNat 2 t.time.second).toList ++ f.toList))) := by
    simp [ClockTime.toList_hms time]
  rw [read?, text, date?_text date letter]
  simp [Text.afterFirst?, hourMinute?_padNat t.time colon, seconds?_padNat t.time fraction stop, ended,
    ClockTime.make?_withNanosecond t.time n lt]

end

end StreamSql
