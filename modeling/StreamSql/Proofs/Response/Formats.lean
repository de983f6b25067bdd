import StreamSql.Proofs.Response.Decode
import StreamSql.Proofs.Response.Frame
import StreamSql.Proofs.Response.Schema

namespace StreamSql

/-- The members of an object as they are read back: sorted, and none twice. -/
def Json.membersRead (ms : List (String × Json)) : List (String × Json) := sorted (normalMembers ms)

def Frame.HasErrorType (ms : List (String × Json)) : Prop :=
  ∃ t, Json.find? "@type" ms = some (.string t) ∧ Text.contains "error".toList t.toList = true

namespace Reply

inductive Element
  | row (values : List Json)
  | tombstone (columns : Json)

/-- An error. In the format of one array it comes inside `errorMessage`. In the other it may so too,
or it comes by itself and is an error by its type. -/
structure Failure where
  members : List (String × Json)
  wrapped : Bool
  hasErrorType : wrapped = false → Frame.HasErrorType (Json.membersRead members)

inductive Ending
  | silent
  | message (j : Json)
  | failure (f : Failure)

end Reply

/-- What a server replies. Names of columns and of the fields of their types are plain. -/
structure Reply where
  queryId : Option String
  columns : List (String × TypeKind)
  elements : List Reply.Element
  ending : Reply.Ending
  columns_ne_nil : columns ≠ []
  isPlainName : ∀ c ∈ columns, IsPlainName c.1
  isPlainName_field : ∀ c ∈ columns, ∀ n ∈ c.2.wireNames, IsPlainName n

namespace Reply

variable {α : Type} {d : Decoder α} {h : Header}

def Element.values? : Element → Option (List Json)
  | .row values => some values
  | .tombstone _ => none

def Ending.failure? : Ending → Option Failure
  | .failure f => some f
  | _ => none

def Failure.error (f : Failure) : Error := Frame.failureOf (Json.membersRead f.members)

/-- An error that comes by itself is read from the object under its own `errorMessage`, if any. -/
def Failure.streamError (f : Failure) : Error :=
  match f.wrapped, Json.find? "errorMessage" (Json.membersRead f.members) with
  | false, some (.object inner) => Frame.failureOf inner
  | _, _ => f.error

/-- Whether that object says the same as the error. -/
def Failure.Agrees (f : Failure) : Prop :=
  f.wrapped = false → ∀ inner,
    Json.find? "errorMessage" (Json.membersRead f.members) = some (.object inner) →
      Frame.failureOf inner = f.error

theorem Failure.streamError_eq_iff (f : Failure) : f.streamError = f.error ↔ f.Agrees := by
  unfold streamError Agrees
  split
  · next inner bare found =>
    constructor
    · rintro same - inner' found'
      cases found.symm.trans found'
      exact same
    · exact fun agrees => agrees bare inner found
  · next other => exact iff_of_true rfl fun bare inner found => (other inner bare found).elim

def rows (r : Reply) : List (List Json) := r.elements.filterMap Element.values?

def columnTexts (r : Reply) : List (String × String) := r.columns.map fun c => (c.1, c.2.text)

def header (r : Reply) : Header := ⟨r.queryId, r.columns.map (·.1), r.columns.map (·.2.text)⟩

def itemsOf (d : Decoder α) (h : Header) (rows : List (List Json)) (e : Option Error) :
    List (Item α) :=
  rows.map (fun values => d.row h (.array (Json.normalItems values))) ++ (e.map .error).toList

def items (d : Decoder α) (r : Reply) : List (Item α) :=
  itemsOf d r.header r.rows (r.ending.failure?.map Failure.error)

def streamItems (d : Decoder α) (r : Reply) : List (Item α) :=
  itemsOf d r.header r.rows (r.ending.failure?.map Failure.streamError)

theorem streamItems_eq_iff (d : Decoder α) (r : Reply) :
    r.streamItems d = r.items d ↔ ∀ f, r.ending.failure? = some f → f.Agrees := by
  have same : r.streamItems d = r.items d ↔
      r.ending.failure?.map Failure.streamError = r.ending.failure?.map Failure.error := by
    constructor
    · intro h
      have ends := List.append_cancel_left h
      cases ending : r.ending.failure? with
      | none => rfl
      | some f => simpa [ending] using ends
    · intro h
      rw [streamItems, items, h]
  rw [same]
  cases r.ending.failure? <;> simp [Failure.streamError_eq_iff]

def inErrorMessage (ms : List (String × Json)) : Json := .object [("errorMessage", .object ms)]

def Failure.toJson (f : Failure) : Json :=
  if f.wrapped then inErrorMessage f.members else .object f.members

def Element.toJson : Element → Json
  | .row values => .object [("row", .object [("columns", .array values)])]
  | .tombstone columns => .object [("row", .object [("columns", columns), ("tombstone", .bool true)])]

def Ending.toJson? : Ending → Option Json
  | .silent => none
  | .message j => some (.object [("finalMessage", j)])
  | .failure f => some (inErrorMessage f.members)

def schemaHeader (r : Reply) : Json :=
  .object [("header", .object [("queryId", .ofOption .string r.queryId),
    ("schema", .string (Header.schemaText r.columnTexts))])]

def streamValues (r : Reply) : List Json :=
  r.header.toJson :: (r.rows.map .array ++ (r.ending.failure?.map Failure.toJson).toList)

def queryValues (r : Reply) : List Json :=
  r.schemaHeader :: (r.elements.map Element.toJson ++ r.ending.toJson?.toList)

def lineOf (j : Json) : Line := .ok j.compact

def behind (own : Bool) : List Json → String
  | [] => if own then "" else "]"
  | _ :: _ => ","

def arrayLines (own : Bool) (before : String) : List Json → List Line
  | [] => if own then [.ok "]"] else []
  | j :: js => .ok (before ++ j.compact ++ behind own js) :: arrayLines own "" js

def streamLines (r : Reply) : List Line := r.streamValues.map lineOf

def queryLines (own : Bool) (r : Reply) : List Line := arrayLines own "[" r.queryValues

def ReadsBack (j : Json) : Prop := Json.read? j.compact = some j.normal

theorem normalItems_map_string (xs : List String) :
    Json.normalItems (xs.map .string) = xs.map .string := by
  induction xs with
  | nil => rfl
  | cons x xs ih => simp [Json.normalItems, Json.normal, ih]

theorem normal_ofOption_string (q : Option String) :
    (Json.ofOption .string q).normal = .ofOption .string q := by
  cases q <;> rfl

theorem list?_ofList_string (xs : List String) :
    Json.list? Json.string? (.ofList .string xs) = some xs := by
  induction xs with
  | nil => rfl
  | cons x xs ih =>
    have rest : (xs.map Json.string).mapM Json.string? = some xs := ih
    simp [Json.list?, Json.ofList, Json.string?, rest]

theorem normal_header (h : Header) : h.toJson.normal =
    .object [("columnNames", .ofList .string h.columnNames),
      ("columnTypes", .ofList .string h.columnTypes),
      ("queryId", .ofOption .string h.queryId)] := by
  simp only [Header.toJson, Json.normal, Json.normalMembers, Json.record, Json.sorted, List.foldl,
    Json.insert, Json.ofList, normal_ofOption_string, normalItems_map_string, String.reduceLT,
    String.reduceEq, if_true, if_false]

theorem ofJson?_normal_header (h : Header) : Header.ofJson? h.toJson.normal = some h := by
  obtain ⟨queryId, names, types⟩ := h
  rw [normal_header]
  cases queryId <;>
    simp [Header.ofJson?, Json.fields?, Json.byName, Json.slot?, Json.Fields.required,
      Json.Fields.optional, Json.Fields.orElse, Json.Fields.get, List.lookup_cons, Json.ofOption,
      Json.nullable?, Json.string?, list?_ofList_string]

theorem normal_schemaHeader (r : Reply) : r.schemaHeader.normal =
    .object [("header", .object [("queryId", .ofOption .string r.queryId),
      ("schema", .string (Header.schemaText r.columnTexts))])] := by
  simp only [schemaHeader, Json.normal, Json.normalMembers, Json.record, Json.sorted, List.foldl,
    Json.insert, normal_ofOption_string, String.reduceLT, String.reduceEq, if_false]

theorem normal_tombstone (columns : Json) : (Element.tombstone columns).toJson.normal =
    .object [("row", .object [("columns", columns.normal), ("tombstone", .bool true)])] := by
  simp only [Element.toJson, Json.normal, Json.normalMembers, Json.record, Json.sorted, List.foldl,
    Json.insert, String.reduceLT, String.reduceEq, if_false]

theorem failure?_membersRead {f : Failure} (bare : f.wrapped = false) :
    Frame.failure? (Json.membersRead f.members) = some f.streamError := by
  obtain ⟨t, type, error⟩ := f.hasErrorType bare
  unfold Frame.failure? Failure.streamError
  rw [bare]
  split
  · next found => rw [found]
  · next other =>
    simp only [type, error, if_true]
    split
    · next found => exact (other _ found).elim
    · rfl

theorem failure?_inErrorMessage (ms : List (String × Json)) :
    Frame.failure? [("errorMessage", .object ms)] = some (Frame.failureOf ms) := by
  simp [Frame.failure?, Json.find?]

theorem ofLine_header {h : Header} (lengths : h.columnTypes.length = h.columnNames.length)
    (printed : ReadsBack h.toJson) :
    Frame.ofLine .queryStream h.toJson.compact = .ok (.header h) := by
  have object := ofJson?_normal_header h
  rw [normal_header] at object
  refine (Frame.ofLine_queryStream_object (printed.trans (congrArg some (normal_header h)))).trans ?_
  simp [Frame.ofObject, Frame.failure?, Json.find?, Header.ofData, object, lengths, Frame.ofHeader]

theorem ofLine_values {values : List Json} (printed : ReadsBack (.array values)) :
    Frame.ofLine .queryStream (Json.array values).compact =
      .ok (.values (.array (Json.normalItems values))) :=
  Frame.ofLine_queryStream_array printed

theorem ofLine_failure {f : Failure} (printed : ReadsBack f.toJson) :
    Frame.ofLine .queryStream f.toJson.compact = .ok (.failure f.streamError) := by
  obtain ⟨ms, wrapped, type⟩ := f
  cases wrapped with
  | true =>
    have read : Json.read? (inErrorMessage ms).compact =
        some (.object [("errorMessage", .object (Json.membersRead ms))]) := printed
    refine (Frame.ofLine_queryStream_object read).trans ?_
    rw [Frame.ofObject, failure?_inErrorMessage]
    rfl
  | false =>
    have read : Json.read? (Json.object ms).compact = some (.object (Json.membersRead ms)) := printed
    refine (Frame.ofLine_queryStream_object read).trans ?_
    rw [Frame.ofObject, failure?_membersRead (f := ⟨ms, false, type⟩) rfl]

theorem ofSchema_columnTexts (r : Reply) :
    Header.ofSchema r.queryId (Header.schemaText r.columnTexts) = .ok r.header := by
  have ne : r.columnTexts ≠ [] := by simpa [columnTexts] using r.columns_ne_nil
  have names : ∀ c ∈ r.columnTexts, IsPlainName c.1 := List.forall_mem_map.2 r.isPlainName
  have types : ∀ c ∈ r.columnTexts, IsTypeText c.2 :=
    List.forall_mem_map.2 fun c hc => TypeKind.isTypeText_text (r.isPlainName_field c hc)
  rw [Header.ofSchema_schemaText r.queryId ne names types]
  simp [columnTexts, header, Function.comp_def]

section Framed

variable {before after : String} (hb : before = "" ∨ before = "[")
    (ha : after = "" ∨ after = "," ∨ after = "]")

include hb ha

theorem ofLine_schemaHeader {r : Reply} (printed : ReadsBack r.schemaHeader) :
    Frame.ofLine .query (before ++ r.schemaHeader.compact ++ after) = .ok (.header r.header) := by
  have queryId : (Json.ofOption Json.string r.queryId).string? = r.queryId := by
    cases r.queryId <;> rfl
  have read := printed.trans (congrArg some (normal_schemaHeader r))
  refine (Frame.ofLine_query_object hb ha read).trans ?_
  simp [Frame.ofElement, Frame.failure?, Json.find?, Frame.ofSchemaHeader, queryId,
    ofSchema_columnTexts, Frame.ofHeader]

theorem ofLine_row {values : List Json} (printed : ReadsBack (Element.row values).toJson) :
    Frame.ofLine .query (before ++ (Element.row values).toJson.compact ++ after) =
      .ok (.values (.array (Json.normalItems values))) := by
  have read : Json.read? (Element.row values).toJson.compact =
      some (.object [("row", .object [("columns", .array (Json.normalItems values))])]) := printed
  refine (Frame.ofLine_query_object hb ha read).trans ?_
  simp [Frame.ofElement, Frame.failure?, Json.find?, Frame.ofRow]

theorem ofLine_tombstone {columns : Json} (printed : ReadsBack (Element.tombstone columns).toJson) :
    Frame.ofLine .query (before ++ (Element.tombstone columns).toJson.compact ++ after) =
      .ok .skip := by
  have read := printed.trans (congrArg some (normal_tombstone columns))
  refine (Frame.ofLine_query_object hb ha read).trans ?_
  simp [Frame.ofElement, Frame.failure?, Json.find?, Frame.ofRow]

theorem ofLine_errorMessage {ms : List (String × Json)} (printed : ReadsBack (inErrorMessage ms)) :
    Frame.ofLine .query (before ++ (inErrorMessage ms).compact ++ after) =
      .ok (.failure (Frame.failureOf (Json.membersRead ms))) := by
  have read : Json.read? (inErrorMessage ms).compact =
      some (.object [("errorMessage", .object (Json.membersRead ms))]) := printed
  refine (Frame.ofLine_query_object hb ha read).trans ?_
  rw [Frame.ofElement, failure?_inErrorMessage]

theorem ofLine_finalMessage {j : Json} (printed : ReadsBack (.object [("finalMessage", j)])) :
    Frame.ofLine .query (before ++ (Json.object [("finalMessage", j)]).compact ++ after) =
      .ok .finish := by
  have read : Json.read? (Json.object [("finalMessage", j)]).compact =
      some (.object [("finalMessage", j.normal)]) := printed
  refine (Frame.ofLine_query_object hb ha read).trans ?_
  simp [Frame.ofElement, Frame.failure?, Json.find?]

end Framed

theorem behind_cases (own : Bool) (js : List Json) :
    behind own js = "" ∨ behind own js = "," ∨ behind own js = "]" := by
  cases js <;> cases own <;> simp [behind]

theorem rows_lineOf (hd : d.format = .queryStream) {rows : List (List Json)} {f : Option Failure}
    (printed : ∀ j ∈ rows.map Json.array ++ (f.map Failure.toJson).toList, ReadsBack j) :
    d.rows h ((rows.map Json.array ++ (f.map Failure.toJson).toList).map lineOf) =
      itemsOf d h rows (f.map Failure.streamError) := by
  induction rows with
  | nil =>
    cases f with
    | none => rfl
    | some f =>
      have frame := ofLine_failure (printed _ List.mem_cons_self)
      exact Decoder.rows_cons_failure (hd ▸ frame)
  | cons values rows ih =>
    have frame := ofLine_values (printed _ List.mem_cons_self)
    have rest := ih fun j hj => printed j (List.mem_cons_of_mem _ hj)
    calc
      _ = d.row h (.array (Json.normalItems values)) ::
          d.rows h ((rows.map Json.array ++ (f.map Failure.toJson).toList).map lineOf) :=
        Decoder.rows_cons_values (hd ▸ frame)
      _ = _ := by rw [rest]; rfl

theorem rows_ending (hd : d.format = .query) (own : Bool) {e : Ending}
    (printed : ∀ j ∈ e.toJson?.toList, ReadsBack j) :
    d.rows h (arrayLines own "" e.toJson?.toList) =
      itemsOf d h [] (e.failure?.map Failure.error) := by
  cases e with
  | silent =>
    cases own with
    | true => exact Decoder.rows_cons_skip (hd ▸ rfl)
    | false => rfl
  | message j =>
    have frame := ofLine_finalMessage (.inl rfl) (behind_cases own []) (printed _ List.mem_cons_self)
    exact Decoder.rows_cons_finish (hd ▸ frame)
  | failure f =>
    have frame := ofLine_errorMessage (.inl rfl) (behind_cases own []) (printed _ List.mem_cons_self)
    exact Decoder.rows_cons_failure (hd ▸ frame)

theorem rows_arrayLines (hd : d.format = .query) (own : Bool) {elements : List Element} {e : Ending}
    (printed : ∀ j ∈ elements.map Element.toJson ++ e.toJson?.toList, ReadsBack j) :
    d.rows h (arrayLines own "" (elements.map Element.toJson ++ e.toJson?.toList)) =
      itemsOf d h (elements.filterMap Element.values?) (e.failure?.map Failure.error) := by
  induction elements with
  | nil => exact rows_ending hd own printed
  | cons element elements ih =>
    have rest := ih fun j hj => printed j (List.mem_cons_of_mem _ hj)
    have first := printed _ List.mem_cons_self
    have after := behind_cases own (elements.map Element.toJson ++ e.toJson?.toList)
    cases element with
    | row values =>
      calc
        _ = d.row h (.array (Json.normalItems values)) ::
            d.rows h (arrayLines own "" (elements.map Element.toJson ++ e.toJson?.toList)) :=
          Decoder.rows_cons_values (hd ▸ ofLine_row (.inl rfl) after first)
        _ = _ := by rw [rest]; rfl
    | tombstone columns =>
      calc
        _ = d.rows h (arrayLines own "" (elements.map Element.toJson ++ e.toJson?.toList)) :=
          Decoder.rows_cons_skip (hd ▸ ofLine_tombstone (.inl rfl) after first)
        _ = _ := rest

theorem opened_streamLines (hd : d.format = .queryStream) {r : Reply}
    (printed : ∀ j ∈ r.streamValues, ReadsBack j) :
    d.opened r.streamLines = .ok (r.header, r.streamItems d) := by
  have lengths : r.header.columnTypes.length = r.header.columnNames.length := by simp [header]
  have frame := ofLine_header lengths (printed _ List.mem_cons_self)
  have rows := @rows_lineOf _ d r.header hd r.rows r.ending.failure?
    fun j hj => printed j (List.mem_cons_of_mem _ hj)
  exact (Decoder.opened_cons_header (hd ▸ frame)).trans (by rw [rows]; rfl)

theorem opened_queryLines (hd : d.format = .query) (own : Bool) {r : Reply}
    (printed : ∀ j ∈ r.queryValues, ReadsBack j) :
    d.opened (r.queryLines own) = .ok (r.header, r.items d) := by
  have frame := ofLine_schemaHeader (.inr rfl)
    (behind_cases own (r.elements.map Element.toJson ++ r.ending.toJson?.toList))
    (printed _ List.mem_cons_self)
  have rows := @rows_arrayLines _ d r.header hd own r.elements r.ending
    fun j hj => printed j (List.mem_cons_of_mem _ hj)
  exact (Decoder.opened_cons_header (hd ▸ frame)).trans (by rw [rows]; rfl)

/-- A reply is read as the same header and rows from both formats, and as the same error unless an
object under the `errorMessage` of an error that comes by itself says another one. -/
theorem decode_formats (r : Reply) (own : Bool) (shape : RowShape) (read : Json → Option α)
    (printed : ∀ j ∈ r.streamValues ++ r.queryValues, ReadsBack j) :
    let stream : Decoder α := ⟨.queryStream, shape, read⟩
    let query : Decoder α := ⟨.query, shape, read⟩
    stream.opened r.streamLines = .ok (r.header, r.streamItems stream) ∧
      query.opened (r.queryLines own) = .ok (r.header, r.items stream) ∧
      stream.decode r.streamLines = r.streamItems stream ∧
      query.decode (r.queryLines own) = r.items stream ∧
      (r.streamItems stream = r.items stream ↔
        ∀ f, r.ending.failure? = some f → f.Agrees) := by
  intro stream query
  have inStream : stream.opened r.streamLines = .ok (r.header, r.streamItems stream) :=
    opened_streamLines rfl fun j hj => printed j (List.mem_append_left _ hj)
  have inQuery : query.opened (r.queryLines own) = .ok (r.header, r.items stream) :=
    opened_queryLines rfl own fun j hj => printed j (List.mem_append_right _ hj)
  refine ⟨inStream, inQuery, ?_, ?_, streamItems_eq_iff stream r⟩
  · rw [Decoder.decode_eq_opened, inStream]
  · rw [Decoder.decode_eq_opened, inQuery]

def lost : Reply where
  queryId := some "q1"
  columns := [("A", .boolean), ("B", .array (.struct [.ofKind "C" .int]))]
  elements := [.row [.bool true, .null], .tombstone .null, .row [.string "a"]]
  ending := .failure ⟨[("@type", .string "generic_error"), ("message", .string "lost")], false,
    fun _ => ⟨_, rfl, by decide⟩⟩
  columns_ne_nil := by simp
  isPlainName := by decide
  isPlainName_field := by decide

example : lost.queryLines true = [
    .ok ("[\x7b\"header\":\x7b\"queryId\":\"q1\"," ++
      "\"schema\":\"\x60A\x60 BOOLEAN, \x60B\x60 ARRAY<STRUCT<C INT>>\"\x7d\x7d,"),
    .ok "\x7b\"row\":\x7b\"columns\":[true,null]\x7d\x7d,",
    .ok "\x7b\"row\":\x7b\"columns\":null,\"tombstone\":true\x7d\x7d,",
    .ok "\x7b\"row\":\x7b\"columns\":[\"a\"]\x7d\x7d,",
    .ok "\x7b\"errorMessage\":\x7b\"@type\":\"generic_error\",\"message\":\"lost\"\x7d\x7d",
    .ok "]"] := rfl

private theorem readsBack_lost : ∀ j ∈ lost.streamValues ++ lost.queryValues, ReadsBack j := by
  have values : lost.streamValues ++ lost.queryValues =
      [lost.header.toJson, .array [.bool true, .null], .array [.string "a"],
        .object [("@type", .string "generic_error"), ("message", .string "lost")],
        lost.schemaHeader, (Element.row [.bool true, .null]).toJson,
        (Element.tombstone .null).toJson, (Element.row [.string "a"]).toJson,
        inErrorMessage [("@type", .string "generic_error"), ("message", .string "lost")]] := rfl
  simp only [values, List.forall_mem_cons, ReadsBack]
  refine ⟨?_, ?_, ?_, ?_, ?_, ?_, ?_, ?_, ?_, by simp⟩
  all_goals exact Json.read?_of_parse? rfl rfl

theorem decode_formats_lost :
    (∀ j ∈ lost.streamValues ++ lost.queryValues, ReadsBack j) ∧
      (Decoder.generic .queryStream .record).decode lost.streamLines =
        [.ok (.object [("A", .bool true), ("B", .null)]), .error (.row (.count 1 2)),
          .error (.query "lost" 0)] ∧
      (Decoder.generic .query .record).decode (lost.queryLines true) =
        [.ok (.object [("A", .bool true), ("B", .null)]), .error (.row (.count 1 2)),
          .error (.query "lost" 0)] := by
  obtain ⟨-, -, inStream, inQuery, -⟩ := decode_formats lost true .record some readsBack_lost
  exact ⟨readsBack_lost, inStream, inQuery⟩

private abbrev nestedError : List (String × Json) :=
  [("@type", .string "error"), ("errorMessage", .object [("message", .string "inner")]),
   ("message", .string "outer")]

def nested : Reply where
  queryId := none
  columns := [("A", .boolean)]
  elements := []
  ending := .failure ⟨nestedError, false, fun _ => ⟨_, rfl, by decide⟩⟩
  columns_ne_nil := by simp
  isPlainName := by decide
  isPlainName_field := by decide

private theorem readsBack_nested :
    ∀ j ∈ nested.streamValues ++ nested.queryValues, ReadsBack j := by
  have values : nested.streamValues ++ nested.queryValues =
      [nested.header.toJson, .object nestedError, nested.schemaHeader,
        inErrorMessage nestedError] := rfl
  simp only [values, List.forall_mem_cons, ReadsBack]
  refine ⟨?_, ?_, ?_, ?_, by simp⟩
  all_goals exact Json.read?_of_parse? rfl rfl

theorem not_decode_formats :
    (∀ j ∈ nested.streamValues ++ nested.queryValues, ReadsBack j) ∧
      (Decoder.generic .queryStream .record).decode nested.streamLines =
        [.error (.query "inner" 0)] ∧
      (Decoder.generic .query .record).decode (nested.queryLines true) =
        [.error (.query "outer" 0)] := by
  have inStream := opened_streamLines (d := Decoder.generic .queryStream .record) rfl
    fun j hj => readsBack_nested j (List.mem_append_left _ hj)
  have inQuery := opened_queryLines (d := Decoder.generic .query .record) rfl true
    fun j hj => readsBack_nested j (List.mem_append_right _ hj)
  refine ⟨readsBack_nested, ?_, ?_⟩
  · rw [Decoder.decode_eq_opened, inStream]
    rfl
  · rw [Decoder.decode_eq_opened, inQuery]
    rfl

end Reply
end StreamSql
