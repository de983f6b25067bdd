import StreamSql.Proofs.Response.Frame
import StreamSql.Response.Rows

namespace StreamSql.Decoder

variable {α : Type} {d : Decoder α} {h : Header} {l : Line}

inductive IsTerminal (d : Decoder α) : Line → Prop
  | unreadable {text : String} : IsTerminal d (.error text)
  | malformed {line : String} {e : Error} :
    Frame.ofLine d.format line = .error e → IsTerminal d (.ok line)
  | failure {line : String} {e : Error} :
    Frame.ofLine d.format line = .ok (.failure e) → IsTerminal d (.ok line)
  | finish {line : String} : Frame.ofLine d.format line = .ok .finish → IsTerminal d (.ok line)

inductive IsSkipped (d : Decoder α) : Line → Prop
  | intro {line : String} : Frame.ofLine d.format line = .ok .skip → IsSkipped d (.ok line)

theorem step_closed (l : Line) : d.step .closed l = (.closed, none) := rfl

theorem step_of_isTerminal (ht : d.IsTerminal l) (p : Phase) : (d.step p l).1 = .closed := by
  cases p with
  | closed => rfl
  | header => cases ht <;> simp [step, headerOf?, *]
  | rows => cases ht <;> simp [step, rowStep, *]

theorem step_of_isSkipped (hs : d.IsSkipped l) (p : Phase) : d.step p l = (p, none) := by
  obtain ⟨hs⟩ := hs
  cases p <;> simp [step, headerOf?, rowStep, hs]

theorem step_rows_of_not_isTerminal (ht : ¬ d.IsTerminal l) : (d.step (.rows h) l).1 = .rows h := by
  cases l with
  | error text => exact absurd .unreadable ht
  | ok line =>
    cases frame : Frame.ofLine d.format line with
    | error e => exact absurd (.malformed frame) ht
    | ok f =>
      cases f with
      | failure e => exact absurd (.failure frame) ht
      | finish => exact absurd (.finish frame) ht
      | _ => simp [step, rowStep, frame]

theorem headerOf?_eq_none_iff : d.headerOf? l = none ↔ d.IsSkipped l := by
  constructor
  · intro none
    cases l with
    | error text => cases none
    | ok line =>
      cases frame : Frame.ofLine d.format line with
      | error e => simp [headerOf?, frame] at none
      | ok f =>
        cases f with
        | skip => exact ⟨frame⟩
        | _ => simp [headerOf?, frame] at none
  · rintro ⟨skip⟩
    simp [headerOf?, skip]

theorem step_header_ok (hl : d.headerOf? l = some (.ok h)) :
    d.step .header l = (.rows h, none) := by
  simp [step, hl]

theorem step_header_error {e : Error} (hl : d.headerOf? l = some (.error e)) :
    d.step .header l = (.closed, some (.error e)) := by
  simp [step, hl]

def after (d : Decoder α) (p : Phase) (ls : List Line) : Phase :=
  ls.foldl (fun p l => (d.step p l).1) p

/-- What the lines give before the end of the response is seen. -/
def given (d : Decoder α) : Phase → List Line → List (Item α)
  | _, [] => []
  | p, l :: ls => (d.step p l).2.toList ++ d.given (d.step p l).1 ls

variable {p : Phase} {a b ls : List Line}

theorem after_cons : d.after p (l :: ls) = d.after (d.step p l).1 ls := rfl

theorem after_append : d.after p (a ++ b) = d.after (d.after p a) b := List.foldl_append

theorem given_append : d.given p (a ++ b) = d.given p a ++ d.given (d.after p a) b := by
  induction a generalizing p with
  | nil => rfl
  | cons l a ih => simp [given, after_cons, ih]

theorem map_events (n : Nat) (p : Phase) (ls : List Line) :
    (d.events n p ls).map (·.2) = d.given p ls ++ (finish (d.after p ls)).toList := by
  induction ls generalizing n p with
  | nil => simp [events, given, after, Function.comp_def]
  | cons l ls ih => simp [events, given, after_cons, ih, Function.comp_def]

theorem decode_eq : d.decode ls = d.given .header ls ++ (finish (d.after .header ls)).toList :=
  map_events 0 .header ls

theorem after_closed : d.after .closed ls = .closed := by
  induction ls with
  | nil => rfl
  | cons l ls ih => rw [after_cons, step_closed, ih]

theorem given_closed : d.given .closed ls = [] := by
  induction ls with
  | nil => rfl
  | cons l ls ih => simp [given, step_closed, ih]

theorem after_of_isTerminal (ht : ∃ l ∈ ls, d.IsTerminal l) : d.after p ls = .closed := by
  induction ls generalizing p with
  | nil => simp at ht
  | cons l ls ih =>
    obtain ⟨m, hm, ht⟩ := ht
    rw [after_cons]
    rcases List.mem_cons.1 hm with rfl | hm
    · rw [step_of_isTerminal ht, after_closed]
    · exact ih ⟨m, hm, ht⟩

theorem after_of_isSkipped (hs : ∀ l ∈ ls, d.IsSkipped l) : d.after p ls = p := by
  induction ls with
  | nil => rfl
  | cons l ls ih =>
    rw [after_cons, step_of_isSkipped (hs l (by simp))]
    exact ih fun m hm => hs m (by simp [hm])

theorem given_of_isSkipped (hs : ∀ l ∈ ls, d.IsSkipped l) : d.given p ls = [] := by
  induction ls with
  | nil => rfl
  | cons l ls ih =>
    rw [given, step_of_isSkipped (hs l (by simp))]
    exact ih fun m hm => hs m (by simp [hm])

theorem after_rows (ht : ∀ l ∈ ls, ¬ d.IsTerminal l) : d.after (.rows h) ls = .rows h := by
  induction ls with
  | nil => rfl
  | cons l ls ih =>
    rw [after_cons, step_rows_of_not_isTerminal (ht l (by simp))]
    exact ih fun m hm => ht m (by simp [hm])

theorem finish_after_rows : (finish (d.after (.rows h) ls) : Option (Item α)) = none := by
  by_cases ht : ∃ l ∈ ls, d.IsTerminal l
  · rw [after_of_isTerminal ht]
    rfl
  · rw [after_rows fun l hl t => ht ⟨l, hl, t⟩]
    rfl

theorem rows_eq : d.rows h ls = d.given (.rows h) ls := by
  rw [rows, map_events, finish_after_rows]
  simp

section Frames

variable {line : String}

theorem rows_cons_values {j : Json} (frame : Frame.ofLine d.format line = .ok (.values j)) :
    d.rows h (.ok line :: ls) = d.row h j :: d.rows h ls := by
  simp [rows_eq, given, step, rowStep, frame]

theorem rows_cons_skip (frame : Frame.ofLine d.format line = .ok .skip) :
    d.rows h (.ok line :: ls) = d.rows h ls := by
  simp [rows_eq, given, step, rowStep, frame]

theorem rows_cons_failure {e : Error} (frame : Frame.ofLine d.format line = .ok (.failure e)) :
    d.rows h (.ok line :: ls) = [.error e] := by
  simp [rows_eq, given, step, rowStep, frame, given_closed]

theorem rows_cons_finish (frame : Frame.ofLine d.format line = .ok .finish) :
    d.rows h (.ok line :: ls) = [] := by
  simp [rows_eq, given, step, rowStep, frame, given_closed]

end Frames

theorem opened_cons_header {line : String} (frame : Frame.ofLine d.format line = .ok (.header h)) :
    d.opened (.ok line :: ls) = .ok (h, d.rows h ls) := by
  simp [opened, readHeader, headerOf?, frame]

theorem readHeader_cons_skipped (hs : d.IsSkipped l) :
    d.readHeader (l :: ls) = d.readHeader ls := by
  simp [readHeader, headerOf?_eq_none_iff.2 hs]

/-- What reading a header comes to, and the lines that it leaves: every line is passed over, or the
first that is not decides. -/
inductive Opening (d : Decoder α) : List Line → Except Error Header → List Line → Prop
  | missing {ls : List Line} : (∀ l ∈ ls, d.IsSkipped l) → Opening d ls (.error (.header .missing)) []
  | found {a b : List Line} {l : Line} {r : Except Error Header} : (∀ m ∈ a, d.IsSkipped m) →
    d.headerOf? l = some r → Opening d (a ++ l :: b) r b

theorem Opening.cons {r : Except Error Header} (opens : d.Opening ls r b) (hs : d.IsSkipped l) :
    d.Opening (l :: ls) r b := by
  cases opens with
  | missing all => exact .missing (List.forall_mem_cons.2 ⟨hs, all⟩)
  | @found a _ m _ all header => exact .found (a := l :: a) (List.forall_mem_cons.2 ⟨hs, all⟩) header

theorem opening (d : Decoder α) (ls : List Line) :
    d.Opening ls (d.readHeader ls).1 (d.readHeader ls).2 := by
  induction ls with
  | nil => exact .missing (by simp)
  | cons l ls ih =>
    cases hl : d.headerOf? l with
    | none =>
      have skipped := headerOf?_eq_none_iff.1 hl
      rw [readHeader_cons_skipped skipped]
      exact ih.cons skipped
    | some r =>
      rw [readHeader, hl]
      exact .found (a := []) (by simp) hl

theorem exists_opening {r : Except Error Header} (hh : (d.readHeader ls).1 = r) :
    ∃ rest, d.Opening ls r rest :=
  ⟨_, hh ▸ d.opening ls⟩

theorem after_of_readHeader_ok (hh : (d.readHeader ls).1 = .ok h)
    (ht : ∀ l ∈ ls, ¬ d.IsTerminal l) : d.after .header ls = .rows h := by
  obtain ⟨rest, opens⟩ := exists_opening hh
  cases opens with
  | found skipped header =>
    rw [after_append, after_of_isSkipped skipped, after_cons, step_header_ok header]
    exact after_rows fun m hm => ht m (by simp [hm])

theorem after_of_readHeader_error {e : Error} (hh : (d.readHeader ls).1 = .error e)
    (hs : ∃ l ∈ ls, ¬ d.IsSkipped l) : d.after .header ls = .closed := by
  obtain ⟨rest, opens⟩ := exists_opening hh
  cases opens with
  | missing all =>
    obtain ⟨l, hl, hs⟩ := hs
    exact absurd (all l hl) hs
  | found skipped header =>
    rw [after_append, after_of_isSkipped skipped, after_cons, step_header_error header, after_closed]

theorem decode_eq_opened : d.decode ls =
    match d.opened ls with
    | .ok (_, items) => items
    | .error e => [.error e] := by
  have opens := d.opening ls
  rw [decode_eq, opened]
  generalize d.readHeader ls = read at opens ⊢
  obtain ⟨r, rest⟩ := read
  cases opens with
  | missing all =>
    rw [given_of_isSkipped all, after_of_isSkipped all]
    rfl
  | found skipped header =>
    rw [given_append, after_append, given_of_isSkipped skipped, after_of_isSkipped skipped,
      List.nil_append, given, after_cons]
    cases r with
    | ok h =>
      rw [step_header_ok header, finish_after_rows]
      simp [rows_eq]
    | error e =>
      rw [step_header_error header, given_closed, after_closed]
      simp [finish]

theorem opened_eq_map : d.opened ls = (d.readHeader ls).1.map fun h => (h, d.decode ls) := by
  have items : d.decode ls = _ := decode_eq_opened
  unfold opened at items ⊢
  rcases hr : d.readHeader ls with ⟨e | h, rest⟩
  · rfl
  · rw [hr] at items
    have items : d.decode ls = d.rows h rest := items
    rw [items]
    rfl

theorem decode_append_of_readHeader (hh : (d.readHeader a).1 = .ok h)
    (ht : ∀ l ∈ a, ¬ d.IsTerminal l) : d.decode (a ++ b) = d.decode a ++ d.rows h b := by
  have read := after_of_readHeader_ok hh ht
  rw [decode_eq, decode_eq, given_append, after_append, read, finish_after_rows, rows_eq]
  simp [finish]

theorem decode_append_of_closed (closed : d.after .header a = .closed) :
    d.decode (a ++ b) = d.decode a := by
  rw [decode_eq, decode_eq, given_append, after_append, closed, given_closed, after_closed]
  simp

theorem decode_append_of_isSkipped (hs : ∀ l ∈ a, d.IsSkipped l) :
    d.decode (a ++ b) = d.decode b := by
  rw [decode_eq, decode_eq, given_append, after_append, after_of_isSkipped hs,
    given_of_isSkipped hs, List.nil_append]

/-- A response in two parts: behind the header the items of the second part follow those of the
first, unless the first ends the response; a first part that is passed over changes nothing. A row
that does not fit is an error in its place. Items are those of the opened response, or the error
that keeps it from being opened. -/
theorem decode_append (d : Decoder α) (a b : List Line) :
    (∀ h, (d.readHeader a).1 = .ok h → (∀ l ∈ a, ¬ d.IsTerminal l) →
      d.decode (a ++ b) = d.decode a ++ d.rows h b ∧
      ∀ line j fault, Frame.ofLine d.format line = .ok (.values j) →
        d.row h j = .error (.row fault) →
        d.decode (a ++ .ok line :: b) = d.decode a ++ .error (.row fault) :: d.rows h b) ∧
    (((∃ l ∈ a, d.IsTerminal l) ∨
        ∃ e, (d.readHeader a).1 = .error e ∧ ∃ l ∈ a, ¬ d.IsSkipped l) →
      d.decode (a ++ b) = d.decode a) ∧
    ((∀ l ∈ a, d.IsSkipped l) → d.decode (a ++ b) = d.decode b) ∧
    d.decode a = (match d.opened a with
      | .ok (_, items) => items
      | .error e => [.error e]) := by
  refine ⟨fun h hh ht => ⟨decode_append_of_readHeader hh ht, ?_⟩, ?_, decode_append_of_isSkipped,
    decode_eq_opened⟩
  · intro line j fault frame misfit
    rw [decode_append_of_readHeader hh ht, rows_cons_values frame, misfit]
  · rintro (ht | ⟨e, hh, hs⟩)
    · exact decode_append_of_closed (after_of_isTerminal ht)
    · exact decode_append_of_closed (after_of_readHeader_error hh hs)

def generic (format : ResponseFormat) (shape : RowShape) : Decoder Json := ⟨format, shape, some⟩

private def records : Decoder Json := generic .queryStream .record

private def headerLine : Line := .ok "\x7b\"columnNames\":[\"A\"]\x7d"

private def nameObject : Json := .object [("columnNames", .array [.string "A"])]

private theorem headerOf?_headerLine :
    records.headerOf? headerLine = some (.ok ⟨none, ["A"], []⟩) := by
  have read : Json.read? nameObject.compact = some nameObject.normal :=
    Json.read?_of_parse? rfl rfl
  have frame : Frame.ofLine .queryStream "\x7b\"columnNames\":[\"A\"]\x7d" =
      .ok (.header ⟨none, ["A"], []⟩) := (Frame.ofLine_queryStream_object read).trans rfl
  simp [headerOf?, headerLine, records, generic, frame]

theorem decode_append_places :
    ((records.readHeader [headerLine]).1 = .ok ⟨none, ["A"], []⟩ ∧
      (∀ l ∈ [headerLine], ¬ records.IsTerminal l) ∧
      Frame.ofLine .queryStream "[]" = .ok (.values (.array [])) ∧
      records.row ⟨none, ["A"], []⟩ (.array []) = .error (.row (.count 0 1)) ∧
      records.decode ([headerLine] ++ .ok "[]" :: [.ok "[true]"]) =
        records.decode [headerLine] ++ .error (.row (.count 0 1)) ::
          records.rows ⟨none, ["A"], []⟩ [.ok "[true]"]) ∧
    ((∃ l ∈ [.error "reset"], records.IsTerminal l) ∧
      records.decode ([.error "reset"] ++ [headerLine]) = records.decode [.error "reset"]) ∧
    (∀ l ∈ [.ok ""], records.IsSkipped l) ∧
      records.decode ([.ok ""] ++ [headerLine]) = records.decode [headerLine] := by
  have read : (records.readHeader [headerLine]).1 = .ok ⟨none, ["A"], []⟩ := by
    rw [readHeader, headerOf?_headerLine]
  have going : ∀ l ∈ [headerLine], ¬ records.IsTerminal l := by
    intro l hl terminal
    obtain rfl := List.mem_singleton.1 hl
    have closed := step_of_isTerminal terminal .header
    rw [step_header_ok headerOf?_headerLine] at closed
    cases closed
  have row : Frame.ofLine .queryStream "[]" = .ok (.values (.array [])) := rfl
  have misfit : records.row ⟨none, ["A"], []⟩ (.array []) = .error (.row (.count 0 1)) := rfl
  have terminal : ∃ l ∈ [.error "reset"], records.IsTerminal l :=
    ⟨_, List.mem_cons_self, .unreadable⟩
  have skipped : ∀ l ∈ [.ok ""], records.IsSkipped l := List.forall_mem_singleton.2 ⟨rfl⟩
  refine ⟨⟨read, going, row, misfit, ?_⟩, ⟨terminal, ?_⟩, skipped, ?_⟩
  · exact ((decode_append _ [headerLine] [.ok "[true]"]).1 _ read going).2 _ _ _ row misfit
  · exact (decode_append _ [.error "reset"] [headerLine]).2.1 (.inl terminal)
  · exact (decode_append _ [.ok ""] [headerLine]).2.2.1 skipped

end StreamSql.Decoder
