import StreamSql.Proofs.Response.Decode
import StreamSql.Proofs.Response.Members

namespace StreamSql

namespace Frame

variable {format : ResponseFormat}

inductive ControlLine (format : ResponseFormat) : Line → Prop
  | blank {line : String} : IsBlank line.toList → ControlLine format (.ok line)
  | object {line : String} {ms} : Holds format line ms → IsControl format ms →
    ControlLine format (.ok line)

inductive HeaderLine (format : ResponseFormat) : Line → Prop
  | object {line : String} {ms h} : Holds format line ms → IsHeader format ms h →
    HeaderLine format (.ok line)

theorem content_of_isBlank {cs : List Char} (blank : IsBlank cs) : content format cs = [] := by
  cases format with
  | queryStream =>
    have start : Text.trimStart cs = [] := List.dropWhile_eq_nil_iff.2 blank
    rw [content, Text.trim, start]
    rfl
  | query => exact element_of_isBlank blank

theorem headerLine_of_ofLine {line : String} {h : Header} (read : ofLine format line = .ok (.header h)) :
    HeaderLine format (.ok line) := by
  cases lineAs_of_ofLine read with
  | object holds readAs =>
    cases readAs with
    | header header => exact .object holds header

/-- The second response is the first one with lines put into it: ones that say nothing of the rows
anywhere, and headers where the first response had one before. The flag tells whether it had. -/
inductive Padded (format : ResponseFormat) : Bool → List Line → List Line → Prop
  | nil {began} : Padded format began [] []
  | keep {began l ls ls'} : Padded format began ls ls' → Padded format began (l :: ls) (l :: ls')
  | start {l ls ls'} : HeaderLine format l → Padded format true ls ls' →
    Padded format false (l :: ls) (l :: ls')
  | control {began l ls ls'} : ControlLine format l → Padded format began ls ls' →
    Padded format began ls (l :: ls')
  | header {l ls ls'} : HeaderLine format l → Padded format true ls ls' →
    Padded format true ls (l :: ls')

end Frame

namespace Decoder

open StreamSql.Frame

variable {α : Type} {d : Decoder α} {l : Line} {ls ls' : List Line} {p : Phase} {began : Bool}

theorem isSkipped_of_controlLine (control : ControlLine d.format l) : d.IsSkipped l := by
  cases control with
  | blank blank => exact ⟨by simp [ofLine, content_of_isBlank blank]⟩
  | object holds control => exact ⟨holds.ofLine_eq.trans control.ofMembers_eq⟩

theorem headerLine_iff : HeaderLine d.format l ↔ ∃ h, d.headerOf? l = some (.ok h) := by
  constructor
  · intro header
    cases header with
    | @object line ms h holds header =>
      exact ⟨h, by simp [headerOf?, holds.ofLine_eq, header.ofMembers_eq]⟩
  · rintro ⟨h, read⟩
    cases l with
    | error text => cases read
    | ok line =>
      have frame : ofLine d.format line = .ok (.header h) := by
        simp only [headerOf?] at read
        split at read <;> cases read
        assumption
      exact headerLine_of_ofLine frame

theorem step_ne_header (hp : p ≠ .header) (l : Line) : (d.step p l).1 ≠ .header := by
  cases p with
  | header => exact absurd rfl hp
  | closed => simp [step_closed]
  | rows h =>
    by_cases ht : d.IsTerminal l
    · simp [step_of_isTerminal ht]
    · simp [step_rows_of_not_isTerminal ht]

theorem step_headerLine_ne_header (header : HeaderLine d.format l) (p : Phase) :
    (d.step p l).1 ≠ .header := by
  by_cases hp : p = .header
  · obtain ⟨h, read⟩ := headerLine_iff.1 header
    simp [hp, step_header_ok read]
  · exact step_ne_header hp l

theorem step_headerLine (header : HeaderLine d.format l) (hp : p ≠ .header) :
    d.step p l = (p, none) := by
  obtain ⟨holds, header⟩ := header
  cases p with
  | header => exact absurd rfl hp
  | closed => rfl
  | rows h => simp [step, rowStep, holds.ofLine_eq, header.ofMembers_eq]

theorem given_padded (padded : Padded d.format began ls ls') (hp : began = true → p ≠ .header) :
    d.given p ls' = d.given p ls ∧ d.after p ls' = d.after p ls := by
  induction padded generalizing p with
  | nil => exact ⟨rfl, rfl⟩
  | @keep _ l _ _ _ ih =>
    obtain ⟨given, after⟩ := ih fun began => step_ne_header (hp began) l
    exact ⟨congrArg (_ ++ ·) given, after⟩
  | @start l _ _ header _ ih =>
    obtain ⟨given, after⟩ := ih fun _ => step_headerLine_ne_header header p
    exact ⟨congrArg (_ ++ ·) given, after⟩
  | control control _ ih =>
    simp only [given, after_cons, step_of_isSkipped (isSkipped_of_controlLine control)]
    exact ih hp
  | header header _ ih =>
    simp only [given, after_cons, step_headerLine header (hp rfl)]
    exact ih hp

theorem decode_padded (padded : Padded d.format false ls ls') : d.decode ls' = d.decode ls := by
  obtain ⟨given, after⟩ := given_padded (p := .header) padded nofun
  rw [decode_eq, decode_eq, given, after]

theorem readHeader_padded (padded : Padded d.format began ls ls') (start : began = false) :
    (d.readHeader ls').1 = (d.readHeader ls).1 := by
  induction padded with
  | nil => rfl
  | @keep _ l _ _ _ ih =>
    cases hl : d.headerOf? l with
    | none => simpa [readHeader, hl] using ih start
    | some r => simp [readHeader, hl]
  | start header =>
    obtain ⟨h, read⟩ := headerLine_iff.1 header
    simp [readHeader, read]
  | control control _ ih =>
    rw [readHeader_cons_skipped (isSkipped_of_controlLine control)]
    exact ih start
  | header => cases start

/-- Blank lines, objects that say nothing of the rows, rows without values, and headers behind the
first one leave a response as it is, wherever they are put. -/
theorem opened_padded (d : Decoder α) (padded : Padded d.format false ls ls') :
    d.opened ls' = d.opened ls ∧ d.decode ls' = d.decode ls := by
  have items := decode_padded padded
  refine ⟨?_, items⟩
  rw [opened_eq_map, opened_eq_map, readHeader_padded padded rfl, items]

private abbrev schemaOf (text : String) : List (String × Json) :=
  [("header", .object [("schema", .string text)])]

private abbrev heartbeat : List (String × Json) := [("heartbeat", .bool true)]

private abbrev deadRow : List (String × Json) :=
  [("row", .object [("columns", .null), ("tombstone", .bool true)])]

private abbrev liveRow : Line := .ok "\x7b\"row\":\x7b\"columns\":[true]\x7d\x7d,"

private abbrev flags : Line := .ok ("[" ++ (Json.object (schemaOf "\x60A\x60 BOOLEAN")).compact ++ ",")

private abbrev sizes : Line := .ok ((Json.object (schemaOf "\x60B\x60 INT")).compact ++ ",")

theorem opened_padded_flags :
    Padded .query false [flags, liveRow, .error "reset"]
        [.ok "\t", .ok (Json.object heartbeat).compact, flags, .ok (Json.object deadRow).compact,
          liveRow, sizes, .ok " ", .error "reset"] ∧
      (generic .query .record).decode [.ok "\t", .ok (Json.object heartbeat).compact, flags,
          .ok (Json.object deadRow).compact, liveRow, sizes, .ok " ", .error "reset"] =
        (generic .query .record).decode [flags, liveRow, .error "reset"] := by
  have silent {ms : List (String × Json)} (wrapped : Json.find? "errorMessage" ms = none)
      (typed : Json.find? "@type" ms = none) : NoError ms := by
    constructor <;> simp [wrapped, typed]
  have holds {line : String} {ms : List (String × Json)}
      (content_eq : content .query line.toList = (Json.object ms).compact.toList)
      (parsed : Json.parse? (Json.object ms).compact = some (.object ms))
      (inRange : (Json.object ms).inRange = true) (normal : (Json.object ms).normal = .object ms) :
      Holds .query line ms :=
    ⟨_, content_eq, (Json.read?_of_parse? parsed inRange).trans (congrArg some normal)⟩
  have beats : IsControl .query heartbeat :=
    .query (silent rfl rfl) (by simp [Json.find?]) (by simp [Json.find?]) rfl
  have dies : IsControl .query deadRow :=
    .tombstone (silent rfl rfl) (by simp [Json.find?]) rfl rfl
  have beat : ControlLine .query (.ok (Json.object heartbeat).compact) :=
    .object (holds rfl rfl rfl rfl) beats
  have dead : ControlLine .query (.ok (Json.object deadRow).compact) :=
    .object (holds rfl rfl rfl rfl) dies
  have starts : IsHeader .query (schemaOf "\x60A\x60 BOOLEAN") ⟨none, ["A"], ["BOOLEAN"]⟩ :=
    .schema (silent rfl rfl) rfl rfl rfl
  have restarts : IsHeader .query (schemaOf "\x60B\x60 INT") ⟨none, ["B"], ["INT"]⟩ :=
    .schema (silent rfl rfl) rfl rfl rfl
  have start : HeaderLine .query flags := .object (holds rfl rfl rfl rfl) starts
  have again : HeaderLine .query sizes := .object (holds rfl rfl rfl rfl) restarts
  have padded : Padded .query false [flags, liveRow, .error "reset"]
      [.ok "\t", .ok (Json.object heartbeat).compact, flags, .ok (Json.object deadRow).compact,
        liveRow, sizes, .ok " ", .error "reset"] :=
    .control (.blank (by decide)) (.control beat (.start start (.control dead (.keep
      (.header again (.control (.blank (by decide)) (.keep .nil)))))))
  exact ⟨padded, (opened_padded (generic .query .record) padded).2⟩

end Decoder
end StreamSql
