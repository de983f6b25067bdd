import StreamSql.Proofs.Entity.Form
import StreamSql.Proofs.Query.Form

namespace StreamSql

theorem Json.depth_string (s : String) : (Json.string s).depth = 0 := rfl

theorem Json.depth_bool (b : Bool) : (Json.bool b).depth = 0 := rfl

theorem Json.depth_ofUInt32 (n : UInt32) : (Json.ofUInt32 n).depth = 0 := rfl

theorem Metadata.depth_toJson (m : Metadata) : m.toJson.depth ≤ Json.maxDepth := by
  have option {α : Type} {write : α → Json} (h : ∀ a, (write a).depth = 0) (a : Option α) :
      (Json.ofOption write a).depth = 0 := by
    cases a with
    | none => rfl
    | some a => exact h a
  have string := option Json.depth_string
  have bool := option Json.depth_bool
  have count := option Json.depth_ofUInt32
  have format := option fun f : RecordFormat => Json.depth_string f.text
  have window := option fun t : WindowType => Json.depth_string t.tag
  simp [toJson, Json.depth, Json.depthMembers, string, bool, count, format, window, Json.maxDepth]

/-- Whatever is not nested deeper than the reader goes, and whose fractions, dates and times read
back one by one, reads back as a whole from its text. -/
theorem parse?_toJson :
    (∀ q : Query, q.ReadsBack → q.toJson.depth ≤ Json.maxDepth →
      (Json.parse? q.toJson.compact).bind (Query.ofJson? .text) = some q) ∧
    (∀ v : Value, v.ReadsBack → v.toJson.depth ≤ Json.maxDepth →
      (Json.parse? v.toJson.compact).bind Value.ofJson? = some v) ∧
    (∀ e : Expr, e.ReadsBack → e.toJson.depth ≤ Json.maxDepth →
      (Json.parse? e.toJson.compact).bind (Expr.ofJson? .text) = some e) ∧
    (∀ s : Schema, s.toJson.depth ≤ Json.maxDepth →
      (Json.parse? s.toJson.compact).bind (Schema.ofJson? .text) = some s) ∧
    (∀ m : Metadata, (Json.parse? m.toJson.compact).bind Metadata.ofJson? = some m) := by
  refine ⟨fun q h depth => ?_, fun v h depth => ?_, fun e h depth => ?_, fun s depth => ?_,
    fun m => ?_⟩
  · rw [Json.parse?_compact (Query.readsBack_toJson h) depth, Option.bind_some]
    exact Query.ofJson?_toJson .text h
  · rw [Json.parse?_compact (v.readsBack_toJson h) depth, Option.bind_some]
    exact v.ofJson?_toJson h
  · rw [Json.parse?_compact (e.readsBack_toJson h) depth, Option.bind_some]
    exact Expr.ofJson?_toJson .text h
  · rw [Json.parse?_compact s.readsBack_toJson depth, Option.bind_some]
    exact s.ofJson?_toJson .text
  · rw [Json.parse?_compact m.readsBack_toJson m.depth_toJson, Option.bind_some]
    exact m.ofJson?_toJson

private abbrev measured : Double :=
  ⟨false, 6755399441055744, 1022, by decide, by decide, by decide⟩

private abbrev lowered : Decimal := ⟨true, 125, 2, by decide, by decide⟩

private abbrev leapDay : Timestamp :=
  ⟨⟨2024, 2, 29, by decide, by decide, by decide⟩,
    ⟨23, 5, 9, 120000000, by decide, by decide, by decide, by decide⟩⟩

private abbrev measurements : Value := .array [.float measured, .decimal lowered, .timestamp leapDay]

private abbrev measurement : Expr :=
  .lambda ["m"] (.binary .ge (.member (.parameter "m") "At" (some "at")) (.constant measurements))

private abbrev sensors : Schema :=
  ⟨"Sensor", [⟨"At", some "at", .array (.decimal 9 2), true, .key⟩]⟩

private abbrev readings : Query :=
  ⟨[.source ⟨"Sensor", none, some sensors⟩, .filter measurement, .take 9], true⟩

theorem parse?_toJson_readings :
    (Json.parse? readings.toJson.compact).bind (Query.ofJson? .text) = some readings ∧
    (Json.parse? measurements.toJson.compact).bind Value.ofJson? = some measurements ∧
    (Json.parse? measurement.toJson.compact).bind (Expr.ofJson? .text) = some measurement ∧
    (Json.parse? sensors.toJson.compact).bind (Schema.ofJson? .text) = some sensors := by
  have values : measurements.ReadsBack := by
    refine ⟨?_, ?_, ?_, trivial⟩
    · exact (by decide +kernel : (Number.double measured).ReadsBack)
    · exact (by decide +kernel : Decimal.read? lowered.text = some lowered)
    · exact (by decide +kernel : Timestamp.read? leapDay.text = some leapDay)
  have expr : measurement.ReadsBack := ⟨trivial, values⟩
  have query : readings.ReadsBack := by
    intro n mem e he
    simp only [List.mem_cons, List.not_mem_nil, or_false] at mem
    rcases mem with rfl | rfl | rfl <;> simp [QueryNode.exprs] at he
    exact he ▸ expr
  obtain ⟨ofQuery, ofValue, ofExpr, ofSchema, -⟩ := parse?_toJson
  exact ⟨ofQuery readings query (by decide +kernel), ofValue measurements values (by decide +kernel),
    ofExpr measurement expr (by decide +kernel), ofSchema sensors (by decide +kernel)⟩

end StreamSql
