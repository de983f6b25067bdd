import StreamSql.Proofs.Json.Record
import StreamSql.Value.Form

namespace StreamSql.Value

mutual
def ReadsBack : Value → Prop
  | .float x => (Number.double x).ReadsBack
  | .decimal d => Decimal.read? d.text = some d
  | .date d => Date.read? d.text = some d
  | .time t => ClockTime.read? t.text = some t
  | .timestamp t => Timestamp.read? t.text = some t
  | .array items => ItemsReadBack items
  | .map entries => EntriesReadBack entries
  | .struct fields => FieldsReadBack fields
  | _ => True
termination_by structural v => v
def ItemsReadBack : List Value → Prop
  | [] => True
  | v :: vs => v.ReadsBack ∧ ItemsReadBack vs
termination_by structural vs => vs
def EntriesReadBack : List (Value × Value) → Prop
  | [] => True
  | (k, v) :: es => (k.ReadsBack ∧ v.ReadsBack) ∧ EntriesReadBack es
termination_by structural es => es
def FieldsReadBack : List (String × Value) → Prop
  | [] => True
  | (_, v) :: fs => v.ReadsBack ∧ FieldsReadBack fs
termination_by structural fs => fs
end

mutual
theorem readsBack_toJson : ∀ v : Value, v.ReadsBack → v.toJson.ReadsBack
  | .null, _ => trivial
  | .bool _, _ => ⟨trivial, trivial⟩
  | .int _, _ => ⟨Number.readsBack_whole _ _, trivial⟩
  | .float _, h => ⟨h, trivial⟩
  | .decimal _, _ => ⟨trivial, trivial⟩
  | .string _, _ => ⟨trivial, trivial⟩
  | .bytes _, _ => ⟨Json.itemsReadBack_map fun _ _ => Number.readsBack_whole _ _, trivial⟩
  | .date _, _ => ⟨trivial, trivial⟩
  | .time _, _ => ⟨trivial, trivial⟩
  | .timestamp _, _ => ⟨trivial, trivial⟩
  | .enum _, _ => ⟨trivial, trivial⟩
  | .array items, h => ⟨readsBack_itemsToJson items h, trivial⟩
  | .map entries, h => ⟨readsBack_entriesToJson entries h, trivial⟩
  | .struct fields, h => ⟨readsBack_fieldsToJson fields h, trivial⟩
termination_by structural v => v
theorem readsBack_itemsToJson : ∀ vs, ItemsReadBack vs → Json.ItemsReadBack (itemsToJson vs)
  | [], _ => trivial
  | v :: vs, h => ⟨readsBack_toJson v h.1, readsBack_itemsToJson vs h.2⟩
termination_by structural vs => vs
theorem readsBack_entriesToJson :
    ∀ es, EntriesReadBack es → Json.ItemsReadBack (entriesToJson es)
  | [], _ => trivial
  | (k, v) :: es, h =>
    ⟨⟨readsBack_toJson k h.1.1, readsBack_toJson v h.1.2, trivial⟩, readsBack_entriesToJson es h.2⟩
termination_by structural es => es
theorem readsBack_fieldsToJson : ∀ fs, FieldsReadBack fs → Json.ItemsReadBack (fieldsToJson fs)
  | [], _ => trivial
  | (_, v) :: fs, h => ⟨⟨trivial, readsBack_toJson v h.1, trivial⟩, readsBack_fieldsToJson fs h.2⟩
termination_by structural fs => fs
end

theorem bytes_ofList (bs : List UInt8) :
    ((Json.ofList .ofUInt8 bs).list? Json.uint8?).map Value.bytes = some (.bytes bs) := by
  rw [Json.ofList, Json.list?_map fun b _ => Json.uint8?_ofUInt8 b]
  rfl

mutual
theorem ofJson?_toJson : ∀ v : Value, v.ReadsBack → ofJson? v.toJson = some v
  | .null, _ => rfl
  | .bool _, _ => rfl
  | .int n, _ => congrArg (Option.map Value.int) (Json.int64?_ofInt64 n)
  | .float _, _ => rfl
  | .decimal _, h => by
    simpa [ReadsBack, toJson, ofJson?, Json.tagged, leaf?, Decimal.ofJson?, Decimal.toJson] using h
  | .string _, _ => rfl
  | .bytes bs, _ => bytes_ofList bs
  | .date _, h => by
    simpa [ReadsBack, toJson, ofJson?, Json.tagged, leaf?, Date.ofJson?, Json.string?] using h
  | .time _, h => by
    simpa [ReadsBack, toJson, ofJson?, Json.tagged, leaf?, ClockTime.ofJson?, Json.string?] using h
  | .timestamp _, h => by
    simpa [ReadsBack, toJson, ofJson?, Json.tagged, leaf?, Timestamp.ofJson?, Json.string?] using h
  | .enum _, _ => rfl
  | .array items, h => congrArg (Option.map Value.array) (itemsOfJson?_toJson items h)
  | .map entries, h => congrArg (Option.map Value.map) (entriesOfJson?_toJson entries h)
  | .struct fields, h => congrArg (Option.map Value.struct) (fieldsOfJson?_toJson fields h)
termination_by structural v => v
theorem itemsOfJson?_toJson : ∀ vs, ItemsReadBack vs → itemsOfJson? (itemsToJson vs) = some vs
  | [], _ => rfl
  | v :: vs, h => by
    rw [itemsToJson, itemsOfJson?, ofJson?_toJson v h.1, itemsOfJson?_toJson vs h.2]
    rfl
termination_by structural vs => vs
theorem entriesOfJson?_toJson :
    ∀ es, EntriesReadBack es → entriesOfJson? (entriesToJson es) = some es
  | [], _ => rfl
  | (k, v) :: es, h => by
    rw [entriesToJson, entriesOfJson?, ofJson?_toJson k h.1.1, ofJson?_toJson v h.1.2,
      entriesOfJson?_toJson es h.2]
    rfl
termination_by structural es => es
theorem fieldsOfJson?_toJson : ∀ fs, FieldsReadBack fs → fieldsOfJson? (fieldsToJson fs) = some fs
  | [], _ => rfl
  | (_, v) :: fs, h => by
    rw [fieldsToJson, fieldsOfJson?, ofJson?_toJson v h.1, fieldsOfJson?_toJson fs h.2]
    rfl
termination_by structural fs => fs
end

end StreamSql.Value
