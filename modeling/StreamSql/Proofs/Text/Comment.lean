import StreamSql.Proofs.Value.Plain

namespace StreamSql.Text

def HasComment (t : String) : Prop := ['-', '-'] <:+: t.toList

def StartsSigned (t : String) : Prop := t.toList.head? = some '-'

def EndsSigned (t : String) : Prop := t.toList.getLast? = some '-'

def Signless (t : String) : Prop := '-' ∉ t.toList

instance (t : String) : Decidable (Signless t) := inferInstanceAs (Decidable ('-' ∉ t.toList))

theorem pair_infix_cons {α : Type} {a b c : α} {cs : List α} :
    [a, b] <:+: c :: cs ↔ (c = a ∧ cs.head? = some b) ∨ [a, b] <:+: cs := by
  rw [List.infix_cons_iff, List.cons_prefix_cons, List.singleton_prefix_iff_head?_eq_some]
  simp [eq_comm]

theorem pair_infix_append {α : Type} {a b : α} {cs ds : List α} :
    [a, b] <:+: cs ++ ds ↔
      [a, b] <:+: cs ∨ [a, b] <:+: ds ∨ (cs.getLast? = some a ∧ ds.head? = some b) := by
  induction cs with
  | nil => simp
  | cons c cs ih =>
    rw [List.cons_append, pair_infix_cons, pair_infix_cons, ih]
    cases cs with
    | nil => simp [or_comm]
    | cons d ds => simp [or_assoc, List.getLast?_cons_cons]

variable {t u w : String}

theorem hasComment_append :
    HasComment (t ++ u) ↔ HasComment t ∨ HasComment u ∨ (EndsSigned t ∧ StartsSigned u) := by
  rw [HasComment, String.toList_append]
  exact pair_infix_append

theorem not_hasComment_sign : ¬ HasComment "-" := fun pair => absurd pair.length_le (by decide)

namespace Signless

theorem append (ht : Signless t) (hu : Signless u) : Signless (t ++ u) := by
  rw [Signless, String.toList_append, List.mem_append]
  exact fun h => h.elim ht hu

theorem not_hasComment (h : Signless t) : ¬ HasComment t :=
  fun pair => h (pair.subset (by simp))

theorem not_startsSigned (h : Signless t) : ¬ StartsSigned t :=
  fun sign => h (List.mem_of_mem_head? sign)

theorem not_endsSigned (h : Signless t) : ¬ EndsSigned t :=
  fun sign => h (List.mem_of_getLast? sign)

theorem of_isDigit (h : ∀ c ∈ t.toList, c.isDigit = true) : Signless t :=
  fun sign => absurd (h '-' sign) (by decide)

theorem padNat (width n : Nat) : Signless (padNat width n) :=
  .of_isDigit fun _ => isDigit_of_mem_padNat

theorem not_hasComment_minus (h : Signless t) : ¬ HasComment ("-" ++ t) := by
  rw [hasComment_append]
  rintro (minus | inside | ⟨-, sign⟩)
  · exact not_hasComment_sign minus
  · exact h.not_hasComment inside
  · exact h.not_startsSigned sign

theorem not_hasComment_arrow (h : Signless t) : ¬ HasComment ("->" ++ t) := by
  have rest : Signless (">" ++ t) := .append (by decide) h
  rw [show "->" = "-" ++ ">" from rfl, String.append_assoc]
  exact rest.not_hasComment_minus

end Signless

theorem IsWord.signless (h : IsWord t) : Signless t :=
  fun sign => absurd (h.letters '-' sign) (by decide)

theorem signless_of_lettered (h : Lettered t.toList) : Signless t :=
  fun sign => absurd (h '-' sign) (by decide)

/-- A text that keeps the signs on its two sides apart, and has no comment itself. -/
structure Firm (w : String) : Prop where
  ne : w ≠ ""
  starts : ¬ StartsSigned w
  ends : ¬ EndsSigned w
  free : ¬ HasComment w

namespace Firm

theorem of_signless (h : Signless w) (ne : w ≠ "") : Firm w :=
  ⟨ne, h.not_startsSigned, h.not_endsSigned, h.not_hasComment⟩

theorem not_endsSigned_append (h : Firm w) (t : String) : ¬ EndsSigned (t ++ w) := by
  rw [EndsSigned, String.toList_append, List.getLast?_append]
  cases last : w.toList.getLast? with
  | none => exact absurd (List.getLast?_eq_none_iff.1 last) (by simpa using h.ne)
  | some c => simpa [EndsSigned, last] using h.ends

theorem not_startsSigned_append (h : Firm w) (t : String) : ¬ StartsSigned (w ++ t) := by
  rw [StartsSigned, String.toList_append, List.head?_append]
  cases first : w.toList.head? with
  | none => exact absurd (List.head?_eq_none_iff.1 first) (by simpa using h.ne)
  | some c => simpa [StartsSigned, first] using h.starts

theorem hasComment_left (h : Firm w) : HasComment (w ++ t) ↔ HasComment t := by
  simp [hasComment_append, h.free, h.ends]

theorem hasComment_right (h : Firm w) : HasComment (t ++ w) ↔ HasComment t := by
  simp [hasComment_append, h.free, h.starts]

theorem hasComment_between (h : Firm w) :
    HasComment (t ++ w ++ u) ↔ HasComment t ∨ HasComment u := by
  simp [hasComment_append (t := t ++ w), h.hasComment_right, h.not_endsSigned_append]

end Firm

theorem firm_comma : Firm ", " := .of_signless (by decide) (by decide)

theorem not_hasComment_join {ts : List String} (h : ∀ t ∈ ts, ¬ HasComment t) :
    ¬ HasComment (join ", " ts) := by
  refine join_induction (Signless.not_hasComment (t := "") (by decide)) (fun ht hu => ?_) h
  rw [firm_comma.hasComment_between]
  exact fun either => either.elim ht hu

theorem hasComment_enclosed {l r : String} (hl : Signless l) (hr : Signless r) (nel : l ≠ "")
    (ner : r ≠ "") : HasComment (l ++ t ++ r) ↔ HasComment t := by
  rw [(Firm.of_signless hr ner).hasComment_right, (Firm.of_signless hl nel).hasComment_left]

theorem hasComment_quoted : HasComment (quoted t) ↔ HasComment t :=
  hasComment_enclosed (by decide) (by decide) (by decide) (by decide)

end StreamSql.Text

namespace StreamSql

open Text

theorem not_hasComment_date (d : Date) : ¬ HasComment d.text := by
  have digits (width n : Nat) (pos : 0 < width) : Firm (padNat width n) := by
    refine .of_signless (.padNat width n) fun empty => ?_
    have length := le_length_padNat width n
    rw [empty] at length
    exact absurd length (by simp; omega)
  have year : ¬ HasComment (yearText d.year) ∧ ¬ EndsSigned (yearText d.year) := by
    have four := digits 4 d.year.natAbs (by decide)
    unfold yearText
    split
    · exact ⟨four.free, four.ends⟩
    · refine ⟨?_, four.not_endsSigned_append _⟩
      split
      · exact (Signless.padNat _ _).not_hasComment_minus
      · exact (Signless.append (t := "+") (by decide) (.padNat _ _)).not_hasComment
  have month := digits 2 d.month (by decide)
  have day := digits 2 d.day (by decide)
  simp [Date.text, hasComment_append, month.hasComment_between, year, day.free, day.starts,
    not_hasComment_sign]

theorem signless_hms (t : ClockTime) : Signless t.hms :=
  ((((Signless.padNat 2 _).append (u := ":") (by decide)).append (.padNat 2 _)).append (u := ":")
    (by decide)).append (.padNat 2 _)

theorem signless_boolText (s : LiteralStyle) (b : Bool) : Signless (s.boolText b) := by
  unfold LiteralStyle.boolText
  cases s.lowerBools <;> cases b <;> decide

theorem not_hasComment_textMillis (t : Timestamp) : ¬ HasComment t.textMillis := by
  have time : Signless ("T" ++ t.time.hms ++ "." ++ padNat 3 t.time.milliseconds) :=
    (((Signless.append (t := "T") (by decide) (signless_hms t.time)).append (u := ".")
      (by decide)).append (.padNat 3 _))
  have firm := Firm.of_signless time (by simp)
  have text : t.textMillis =
      t.date.text ++ ("T" ++ t.time.hms ++ "." ++ padNat 3 t.time.milliseconds) := by
    simp [Timestamp.textMillis, String.append_assoc]
  rw [text, firm.hasComment_right]
  exact not_hasComment_date t.date

theorem not_hasComment_signedText {negative : Bool} {cs : List Char} (h : '-' ∉ cs) :
    ¬ HasComment (signedText negative cs) := by
  have digits : Signless (.ofList cs) := by simpa [Signless] using h
  cases negative
  · simpa [signedText] using digits.not_hasComment
  · exact digits.not_hasComment_minus

theorem not_hasComment_int (n : Int) : ¬ HasComment (toString n) := by
  rw [toString_eq_signedText]
  exact not_hasComment_signedText fun sign => absurd (isDigit_of_mem_toDigits sign) (by decide)

theorem IsNumeral.signless {cs : List Char} (h : IsNumeral cs) : '-' ∉ cs := by
  cases h with
  | whole ne digits => exact fun sign => absurd (digits '-' sign) (by decide)
  | fraction left right digits =>
    intro sign
    simp only [List.mem_append, List.mem_cons] at sign
    rcases sign with sign | same | sign
    · exact absurd (digits '-' (List.mem_append_left _ sign)) (by decide)
    · exact absurd same (by decide)
    · exact absurd (digits '-' (List.mem_append_right _ sign)) (by decide)

namespace Value

mutual
def isSignless : Value → Bool
  | .string t | .enum t => decide (Signless t)
  | .array items => areItemsSignless items
  | .map entries => areEntriesSignless entries
  | .struct fields => areFieldsSignless fields
  | _ => true
termination_by structural v => v
def areItemsSignless : List Value → Bool
  | [] => true
  | v :: vs => v.isSignless && areItemsSignless vs
termination_by structural vs => vs
def areEntriesSignless : List (Value × Value) → Bool
  | [] => true
  | (k, v) :: es => k.isSignless && v.isSignless && areEntriesSignless es
termination_by structural es => es
def areFieldsSignless : List (String × Value) → Bool
  | [] => true
  | (n, v) :: fs => decide (Signless n) && v.isSignless && areFieldsSignless fs
termination_by structural fs => fs
end

theorem signless_bytes (bs : List UInt8) : Signless (bytesLiteral bs) := by
  have hex : Signless (.ofList (bs.flatMap hexPair)) := by simp [Signless, hexPair]
  exact (Signless.append (t := "TO_BYTES('") (by decide) hex).append (u := "', 'hex')") (by decide)

theorem hasComment_list {l : String} {ts : List String} (hl : Signless l) (ne : l ≠ "")
    (h : ∀ t ∈ ts, ¬ HasComment t) {r : String} (hr : Signless r) (ner : r ≠ "") :
    ¬ HasComment (l ++ join ", " ts ++ r) := by
  rw [hasComment_enclosed hl hr ne ner]
  exact not_hasComment_join h

mutual
theorem not_hasComment_literal : ∀ (v : Value) (s : LiteralStyle), v.isSignless = true →
    s.separator = '.' → ¬ HasComment (v.literal s)
  | .null, _, _, _ => Signless.not_hasComment (t := "NULL") (by decide)
  | .bool b, s, _, _ => (signless_boolText s b).not_hasComment
  | .int n, _, _, _ => not_hasComment_int n.toInt
  | .float x, s, _, point => by
    obtain ⟨cs, numeral, text⟩ := x.text_eq_signedText
    simp only [literal, point, withSeparator_point, text]
    exact not_hasComment_signedText numeral.signless
  | .decimal d, s, _, point => by
    obtain ⟨cs, numeral, text⟩ := d.text_eq_signedText
    simp only [literal, point, withSeparator_point, text]
    exact not_hasComment_signedText numeral.signless
  | .string t, _, signless, _ | .enum t, _, signless, _ => by
    have free : Signless t := of_decide_eq_true signless
    exact fun h => free.not_hasComment (hasComment_quoted.1 h)
  | .bytes bs, _, _, _ => (signless_bytes bs).not_hasComment
  | .date d, _, _, _ => fun h => not_hasComment_date d (hasComment_quoted.1 h)
  | .time t, _, _, _ => fun h => (signless_hms t).not_hasComment (hasComment_quoted.1 h)
  | .timestamp t, _, _, _ => fun h => not_hasComment_textMillis t (hasComment_quoted.1 h)
  | .array items, s, signless, point => by
    have items := not_hasComment_literals items s.nested signless point
    simp only [literal]
    split
    · exact not_hasComment_join items
    · split
      · exact Signless.not_hasComment (t := emptyArray none) (by decide)
      · exact hasComment_list (by decide) (by decide) items (by decide) (by decide)
  | .map entries, s, signless, point =>
    hasComment_list (l := "MAP(") (by decide) (by decide)
      (not_hasComment_entryLiterals entries s.nested signless point) (by decide) (by decide)
  | .struct fields, s, signless, point =>
    hasComment_list (l := "STRUCT(") (by decide) (by decide)
      (not_hasComment_fieldLiterals fields s.nested signless point) (by decide) (by decide)
termination_by structural v => v
theorem not_hasComment_literals : ∀ (vs : List Value) (s : LiteralStyle),
    areItemsSignless vs = true → s.separator = '.' → ∀ t ∈ literals s vs, ¬ HasComment t
  | [], _, _, _, _, mem => nomatch mem
  | v :: vs, s, signless, point, t, mem => by
    simp only [areItemsSignless, Bool.and_eq_true] at signless
    rcases List.mem_cons.1 mem with rfl | mem
    · exact not_hasComment_literal v s signless.1 point
    · exact not_hasComment_literals vs s signless.2 point t mem
termination_by structural vs => vs
theorem not_hasComment_entryLiterals : ∀ (es : List (Value × Value)) (s : LiteralStyle),
    areEntriesSignless es = true → s.separator = '.' → ∀ t ∈ entryLiterals s es, ¬ HasComment t
  | [], _, _, _, _, mem => nomatch mem
  | (k, v) :: es, s, signless, point, t, mem => by
    simp only [areEntriesSignless, Bool.and_eq_true] at signless
    rcases List.mem_cons.1 mem with rfl | mem
    · rw [(Firm.of_signless (by decide) (by decide)).hasComment_between]
      exact fun either => either.elim (not_hasComment_literal k s signless.1.1 point)
        (not_hasComment_literal v s signless.1.2 point)
    · exact not_hasComment_entryLiterals es s signless.2 point t mem
termination_by structural es => es
theorem not_hasComment_fieldLiterals : ∀ (fs : List (String × Value)) (s : LiteralStyle),
    areFieldsSignless fs = true → s.separator = '.' → ∀ t ∈ fieldLiterals s fs, ¬ HasComment t
  | [], _, _, _, _, mem => nomatch mem
  | (n, v) :: fs, s, signless, point, t, mem => by
    simp only [areFieldsSignless, Bool.and_eq_true, decide_eq_true_eq] at signless
    rcases List.mem_cons.1 mem with rfl | mem
    · rw [(Firm.of_signless (by decide) (by decide)).hasComment_between]
      exact fun either => either.elim signless.1.1.not_hasComment
        (not_hasComment_literal v s signless.1.2 point)
    · exact not_hasComment_fieldLiterals fs s signless.2 point t mem
termination_by structural fs => fs
end

end Value
end StreamSql
