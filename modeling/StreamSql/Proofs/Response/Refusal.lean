import StreamSql.Proofs.Response.Decode
import StreamSql.Proofs.Response.Members

namespace StreamSql

namespace Frame

def IsMisread (format : ResponseFormat) (line : String) : Prop :=
  IsMalformed format line ∨ format = .query ∧ ∃ ms, Holds format line ms ∧ IsBareRow ms

variable {format : ResponseFormat} {line : String} {e : Error}

theorem isMisread_iff : IsMisread format line ↔ ∃ fault, ofLine format line = .error (.row fault) := by
  constructor
  · rintro (malformed | ⟨rfl, ms, holds, row⟩)
    · exact ⟨_, malformed.ofLine_eq⟩
    · exact ⟨_, holds.ofLine_eq.trans row.ofMembers_eq⟩
  · rintro ⟨fault, wrong⟩
    cases lineAs_of_ofLine wrong with
    | malformed malformed => exact .inl malformed
    | object holds readAs =>
      cases readAs with
      | bareRow row => exact .inr ⟨rfl, _, holds, row⟩

theorem exists_error_iff : (∃ ms, Holds format line ms ∧ ¬ NoError ms) ↔
    ∃ message code, ofLine format line = .ok (.failure (.query message code)) := by
  constructor
  · rintro ⟨ms, holds, wrong⟩
    obtain ⟨message, code, failed⟩ := exists_failure wrong
    exact ⟨message, code, holds.ofLine_eq.trans (ofMembers_of_failure failed)⟩
  · rintro ⟨message, code, failure⟩
    cases lineAs_of_ofLine failure with
    | object holds readAs =>
      cases readAs with
      | failure wrong => exact ⟨_, holds, wrong⟩

theorem error_of_ofLine (wrong : ofLine format line = .error e) :
    (∃ fault, e = .header fault) ∨ ∃ fault, e = .row fault := by
  cases lineAs_of_ofLine wrong with
  | malformed => exact .inr ⟨_, rfl⟩
  | object holds readAs =>
    cases readAs with
    | wrongHeader => exact .inl ⟨_, rfl⟩
    | bareRow => exact .inr ⟨_, rfl⟩

theorem failure_of_ofLine (failure : ofLine format line = .ok (.failure e)) :
    ∃ message code, e = .query message code := by
  cases lineAs_of_ofLine failure with
  | object holds readAs =>
    cases readAs with
    | failure => exact ⟨_, _, rfl⟩

end Frame

namespace Decoder

open StreamSql.Frame

variable {α : Type} {d : Decoder α} {l : Line} {ls : List Line} {e : Error}

/-- Why there is no header in a line that is not passed over. -/
inductive Refuses (d : Decoder α) : Line → Error → Prop
  | unreadable {text} : Refuses d (.error text) (.io text)
  | wrong {line e} : ofLine d.format line = .error e → Refuses d (.ok line) e
  | failure {line e} : ofLine d.format line = .ok (.failure e) → Refuses d (.ok line) e
  | late {line frame} : ofLine d.format line = .ok frame → (∀ e, frame ≠ .failure e) →
    Refuses d (.ok line) (.header .notFirst)

theorem refuses_of_headerOf? (refused : d.headerOf? l = some (.error e)) : d.Refuses l e := by
  cases l with
  | error text =>
    cases refused
    exact .unreadable
  | ok line =>
    cases frame : ofLine d.format line with
    | error e' =>
      obtain rfl : e' = e := by simpa [headerOf?, frame] using refused
      exact .wrong frame
    | ok f =>
      cases f with
      | header h => simp [headerOf?, frame] at refused
      | skip => simp [headerOf?, frame] at refused
      | failure e' =>
        obtain rfl : e' = e := by simpa [headerOf?, frame] using refused
        exact .failure frame
      | values j =>
        obtain rfl : .header .notFirst = e := by simpa [headerOf?, frame] using refused
        exact .late frame (by simp)
      | finish =>
        obtain rfl : .header .notFirst = e := by simpa [headerOf?, frame] using refused
        exact .late frame (by simp)

section Classes

variable (refuses : d.Refuses l e)

include refuses

theorem io_iff_of_refuses : (∃ text, e = .io text) ↔ ∃ text, l = .error text := by
  cases refuses with
  | unreadable => exact ⟨fun _ => ⟨_, rfl⟩, fun _ => ⟨_, rfl⟩⟩
  | wrong wrong => rcases error_of_ofLine wrong with ⟨fault, rfl⟩ | ⟨fault, rfl⟩ <;> simp
  | failure failure =>
    obtain ⟨message, code, rfl⟩ := failure_of_ofLine failure
    simp
  | late => simp

theorem query_iff_of_refuses : (∃ message code, e = .query message code) ↔
    ∃ line ms, l = .ok line ∧ Holds d.format line ms ∧ ¬ NoError ms := by
  simp only [exists_and_left, exists_error_iff]
  cases refuses with
  | unreadable => simp
  | wrong wrong => rcases error_of_ofLine wrong with ⟨fault, rfl⟩ | ⟨fault, rfl⟩ <;> simp [wrong]
  | failure failure => simp [failure]
  | late frame sound => simp [frame, sound]

theorem row_iff_of_refuses : (∃ fault, e = .row fault) ↔
    ∃ line, l = .ok line ∧ IsMisread d.format line := by
  simp only [isMisread_iff]
  cases refuses with
  | unreadable => simp
  | wrong wrong => simp [wrong]
  | failure failure =>
    obtain ⟨message, code, rfl⟩ := failure_of_ofLine failure
    simp [failure]
  | late frame => simp [frame]

theorem class_of_refuses : (∃ fault, e = .header fault) ∨ (∃ fault, e = .row fault) ∨
    (∃ message code, e = .query message code) ∨ ∃ text, e = .io text := by
  cases refuses with
  | unreadable => simp
  | wrong wrong => rcases error_of_ofLine wrong with ⟨fault, rfl⟩ | ⟨fault, rfl⟩ <;> simp
  | failure failure =>
    obtain ⟨message, code, rfl⟩ := failure_of_ofLine failure
    simp
  | late => simp

end Classes

theorem exists_refuses (failed : (d.readHeader ls).1 = .error e) :
    (∀ l ∈ ls, d.IsSkipped l) ∧ e = .header .missing ∨
      ∃ a l b, ls = a ++ l :: b ∧ (∀ m ∈ a, d.IsSkipped m) ∧ d.Refuses l e := by
  obtain ⟨rest, opens⟩ := exists_opening failed
  cases opens with
  | missing all => exact .inl ⟨all, rfl⟩
  | found skipped header =>
    exact .inr ⟨_, _, _, rfl, skipped, refuses_of_headerOf? header⟩

theorem readHeader_of_opened (failed : d.opened ls = .error e) : (d.readHeader ls).1 = .error e := by
  rw [opened_eq_map] at failed
  cases read : (d.readHeader ls).1 with
  | error fault =>
    rw [read] at failed
    cases failed
    rfl
  | ok h =>
    rw [read] at failed
    cases failed

/-- Where a response is not opened, its one item is the error that keeps it from being opened. The
first line that is not passed over says which: its source failed, it is an error of the server, or
there is no header on it. But a line that is not JSON, or a row without columns, is an error of a row. -/
theorem opened_failure (failed : d.opened ls = .error e) :
    d.decode ls = [.error e] ∧
      ((∀ l ∈ ls, d.IsSkipped l) ∧ e = .header .missing ∨
        ∃ a l b, ls = a ++ l :: b ∧ (∀ m ∈ a, d.IsSkipped m) ∧
          ((∃ text, e = .io text) ↔ ∃ text, l = .error text) ∧
          ((∃ message code, e = .query message code) ↔
            ∃ line ms, l = .ok line ∧ Holds d.format line ms ∧ ¬ NoError ms) ∧
          ((∃ fault, e = .row fault) ↔ ∃ line, l = .ok line ∧ IsMisread d.format line) ∧
          ((∃ fault, e = .header fault) ∨ (∃ fault, e = .row fault) ∨
            (∃ message code, e = .query message code) ∨ ∃ text, e = .io text)) := by
  refine ⟨by rw [decode_eq_opened, failed], ?_⟩
  rcases exists_refuses (readHeader_of_opened failed) with missing | ⟨a, l, b, lines, skipped, refuses⟩
  · exact .inl missing
  · exact .inr ⟨a, l, b, lines, skipped, io_iff_of_refuses refuses, query_iff_of_refuses refuses,
      row_iff_of_refuses refuses, class_of_refuses refuses⟩

private abbrev noJson : List Line := [.ok " ", .ok "not json"]

theorem opened_failure_noJson :
    (generic .queryStream .record).opened noJson = .error (.row (.malformed "not json")) ∧
      (generic .queryStream .record).decode noJson = [.error (.row (.malformed "not json"))] ∧
      ∃ line, .ok line ∈ noJson ∧ IsMisread .queryStream line := by
  have failed : (generic .queryStream .record).opened noJson =
    .error (.row (.malformed "not json")) := rfl
  obtain ⟨items, ⟨-, missing⟩ | ⟨a, l, b, lines, -, -, -, row, -⟩⟩ := opened_failure failed
  · cases missing
  · obtain ⟨line, rfl, misread⟩ := row.1 ⟨_, rfl⟩
    exact ⟨failed, items, line, by simp [lines], misread⟩

theorem not_opened_failure :
    ¬ ∀ (format : ResponseFormat) (ls : List Line) (e : Error),
      (generic format .record).opened ls = .error e →
        (∃ fault, e = .header fault) ∨ (∃ message code, e = .query message code) ∨
          ∃ text, e = .io text := by
  intro errors
  rcases errors .queryStream [.ok "not json"] _ rfl with ⟨_, header⟩ | ⟨_, _, query⟩ | ⟨_, io⟩
  · cases header
  · cases query
  · cases io

end Decoder
end StreamSql
