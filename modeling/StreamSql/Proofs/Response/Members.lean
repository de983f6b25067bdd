import StreamSql.Proofs.Response.Layout

namespace StreamSql.Frame

/-- The members of an object that says nothing of the rows, or that is a row without values. -/
inductive IsControl : ResponseFormat → List (String × Json) → Prop
  | queryStream {ms} : NoError ms → Json.find? "columnNames" ms = none → IsControl .queryStream ms
  | query {ms} : NoError ms → (∀ header, Json.find? "header" ms ≠ some (.object header)) →
    (∀ row, Json.find? "row" ms ≠ some (.object row)) → Json.find? "finalMessage" ms = none →
    IsControl .query ms
  | tombstone {ms row} : NoError ms → (∀ header, Json.find? "header" ms ≠ some (.object header)) →
    Json.find? "row" ms = some (.object row) → Json.find? "tombstone" row = some (.bool true) →
    IsControl .query ms

inductive IsHeader : ResponseFormat → List (String × Json) → Header → Prop
  | data {ms h} : NoError ms → Json.find? "columnNames" ms ≠ none →
    Header.ofData (.object ms) = .ok h → IsHeader .queryStream ms h
  | schema {ms inner schema h} : NoError ms → Json.find? "header" ms = some (.object inner) →
    Json.find? "schema" inner = some (.string schema) →
    Header.ofSchema ((Json.find? "queryId" inner).bind Json.string?) schema = .ok h →
    IsHeader .query ms h

structure IsBareRow (ms : List (String × Json)) : Prop where
  noError : NoError ms
  noHeader : ∀ inner, Json.find? "header" ms ≠ some (.object inner)
  row : ∃ inner, Json.find? "row" ms = some (.object inner) ∧
    Json.find? "columns" inner = none ∧ Json.find? "tombstone" inner ≠ some (.bool true)

inductive ReadAs : ResponseFormat → List (String × Json) → Except Error Frame → Prop
  | failure {format ms message code} : ¬ NoError ms →
    ReadAs format ms (.ok (.failure (.query message code)))
  | header {format ms h} : IsHeader format ms h → ReadAs format ms (.ok (.header h))
  | wrongHeader {format ms fault} : ReadAs format ms (.error (.header fault))
  | control {format ms} : IsControl format ms → ReadAs format ms (.ok .skip)
  | row {ms columns} : IsRow ms columns → ReadAs .query ms (.ok (.values columns))
  | bareRow {ms} : IsBareRow ms → ReadAs .query ms (.error (.row .noColumns))
  | finish {ms} : ReadAs .query ms (.ok .finish)

variable {format : ResponseFormat} {ms : List (String × Json)} {h : Header}

theorem IsControl.ofMembers_eq (control : IsControl format ms) : ofMembers format ms = .ok .skip := by
  cases control with
  | queryStream sound none =>
    simp [ofMembers, ofObject, failure?_eq_none_iff.2 sound, none]
  | query sound noHeader noRow none =>
    simp [ofMembers, ofElement, failure?_eq_none_iff.2 sound, none]
  | tombstone sound noHeader row dead =>
    simp [ofMembers, ofElement, failure?_eq_none_iff.2 sound, row, ofRow, dead]

theorem IsHeader.ofMembers_eq (header : IsHeader format ms h) :
    ofMembers format ms = .ok (.header h) := by
  cases header with
  | data sound named read =>
    simp [ofMembers, ofObject, failure?_eq_none_iff.2 sound, Option.isSome_iff_ne_none, named, read,
      ofHeader]
  | schema sound header schema read =>
    simp [ofMembers, ofElement, failure?_eq_none_iff.2 sound, header, ofSchemaHeader, schema, read,
      ofHeader]

theorem exists_failure (h : ¬ NoError ms) : ∃ message code, failure? ms = some (.query message code) := by
  cases failed : failure? ms with
  | none => exact absurd (failure?_eq_none_iff.1 failed) h
  | some e =>
    unfold failure? at failed
    split at failed
    · exact ⟨_, _, congrArg some (Option.some.inj failed).symm⟩
    · split at failed
      · split at failed
        · exact ⟨_, _, congrArg some (Option.some.inj failed).symm⟩
        · cases failed
      · cases failed

theorem ofMembers_of_failure {e : Error} (failed : failure? ms = some e) :
    ofMembers format ms = .ok (.failure e) := by
  cases format <;> simp [ofMembers, ofObject, ofElement, failed]

theorem IsBareRow.ofMembers_eq (h : IsBareRow ms) : ofMembers .query ms = .error (.row .noColumns) := by
  obtain ⟨sound, noHeader, inner, row, none, living⟩ := h
  simp [ofMembers, ofElement, failure?_eq_none_iff.2 sound, row, ofRow, none]

theorem readAs_ofHeader {r : Except HeaderFault Header} (header : ∀ h, r = .ok h → IsHeader format ms h) :
    ReadAs format ms (ofHeader r) := by
  cases r with
  | error fault => exact .wrongHeader
  | ok h => exact .header (header h rfl)

theorem readAs_ofObject (sound : NoError ms) : ReadAs .queryStream ms (ofObject ms) := by
  simp only [ofObject, failure?_eq_none_iff.2 sound]
  cases named : Json.find? "columnNames" ms with
  | none => exact .control (.queryStream sound named)
  | some j => exact readAs_ofHeader fun h read => .data sound (by simp [named]) read

theorem readAs_ofRow {row : List (String × Json)} (sound : NoError ms)
    (noHeader : ∀ header, Json.find? "header" ms ≠ some (.object header))
    (found : Json.find? "row" ms = some (.object row)) : ReadAs .query ms (ofRow row) := by
  unfold ofRow
  split
  · next dead => exact .control (.tombstone sound noHeader found dead)
  · next living =>
    split
    · next columns some =>
      exact .row ⟨⟨row, found, some, living⟩, noHeader, sound.noFailure, sound.noErrorType⟩
    · next none => exact .bareRow ⟨sound, noHeader, row, found, none, living⟩

theorem readAs_ofElement (sound : NoError ms) : ReadAs .query ms (ofElement ms) := by
  simp only [ofElement, failure?_eq_none_iff.2 sound]
  split
  · next inner found =>
    unfold ofSchemaHeader
    split
    · next schema text => exact readAs_ofHeader fun h read => .schema sound found text read
    · exact .wrongHeader
  · next noHeader =>
    split
    · next row found => exact readAs_ofRow sound noHeader found
    · next noRow =>
      cases final : Json.find? "finalMessage" ms with
      | none => exact .control (.query sound noHeader noRow final)
      | some j => exact .finish

theorem readAs_ofMembers (format : ResponseFormat) (ms : List (String × Json)) :
    ReadAs format ms (ofMembers format ms) := by
  by_cases sound : NoError ms
  · cases format with
    | queryStream => exact readAs_ofObject sound
    | query => exact readAs_ofElement sound
  · obtain ⟨message, code, failed⟩ := exists_failure sound
    rw [ofMembers_of_failure failed]
    exact .failure sound

inductive LineAs (format : ResponseFormat) (line : String) : Except Error Frame → Prop
  | blank : LineAs format line (.ok .skip)
  | malformed {fault} : IsMalformed format line → LineAs format line (.error (.row fault))
  | object {ms r} : Holds format line ms → ReadAs format ms r → LineAs format line r
  | values {j} : LineAs format line (.ok (.values j))

theorem lineAs_ofLine (format : ResponseFormat) (line : String) :
    LineAs format line (ofLine format line) := by
  rcases ofLine_cases format line with skip | malformed | ⟨ms, holds⟩ | ⟨j, values⟩
  · exact skip ▸ .blank
  · exact malformed.ofLine_eq ▸ .malformed malformed
  · exact holds.ofLine_eq ▸ .object holds (readAs_ofMembers format ms)
  · exact values ▸ .values

theorem lineAs_of_ofLine {line : String} {r : Except Error Frame} (read : ofLine format line = r) :
    LineAs format line r := read ▸ lineAs_ofLine format line

end StreamSql.Frame
