import StreamSql.Proofs.Json.Record
import StreamSql.Schema.Form

namespace StreamSql

open Json (Fields)

theorem KeyRole.choice?_tag (role : KeyRole) :
    Json.choice? all tag (.string role.tag) = some role :=
  Json.choice?_tag (by decide +kernel) (by cases role <;> decide)

namespace TypeKind

mutual
theorem readsBack_toJson : ∀ k : TypeKind, k.toJson.ReadsBack
  | .decimal _ _ =>
    ⟨⟨Number.readsBack_whole _ _, Number.readsBack_whole _ _, trivial⟩, trivial⟩
  | .array element => ⟨readsBack_toJson element, trivial⟩
  | .map key value => ⟨⟨readsBack_toJson key, readsBack_toJson value, trivial⟩, trivial⟩
  | .struct fields => ⟨readsBack_fieldsToJson fields, trivial⟩
  | .int | .bigInt | .double | .boolean | .string | .bytes | .date | .time | .timestamp => trivial
termination_by structural k => k
theorem readsBack_fieldsToJson : ∀ cs : List Column, Json.ItemsReadBack (fieldsToJson cs)
  | [] => trivial
  | ⟨_, _, kind, _, _⟩ :: cs =>
    ⟨⟨trivial, Json.readsBack_ofOption fun _ _ => trivial, readsBack_toJson kind, trivial, trivial,
      trivial⟩,
      readsBack_fieldsToJson cs⟩
termination_by structural cs => cs
end

end TypeKind

theorem Column.ofJsonWith?_toJson {kind? : Json → Option TypeKind} {c : Column}
    (h : kind? c.kind.toJson = some c.kind) : ofJsonWith? kind? c.toJson = some c := by
  cases c
  simp [ofJsonWith?, toJson, Json.fields?_object, Fields.required_cons, Fields.optional_cons,
    Fields.orElse_cons, show kind? _ = _ from h, Json.string?, Json.bool?, Json.nullable?_ofOption,
    KeyRole.choice?_tag]

namespace TypeKind

mutual
theorem ofJsonWithin?_toJson (o : Json.Origin) :
    ∀ (k : TypeKind) (n : Nat), k.toJson.depth < n → ofJsonWithin? o n k.toJson = some k
  | k, 0, h => absurd h (Nat.not_lt_zero _)
  | .decimal precision scale, n + 1, _ => by
    simp [toJson, Json.tagged, ofJsonWithin?, Json.case?, Json.caseFields?_object,
      Fields.required_cons, Json.uint8?_ofUInt8]
  | .array element, n + 1, h => by
    have within : element.toJson.depth < n := by
      simp only [toJson, Json.tagged, Json.depth, Json.depthMembers] at h
      omega
    simp [toJson, Json.tagged, ofJsonWithin?, Json.case?, ofJsonWithin?_toJson o element n within]
  | .map key value, n + 1, h => by
    simp only [toJson, Json.tagged, Json.depth, Json.depthMembers, Json.depthItems] at h
    simp [toJson, Json.tagged, ofJsonWithin?, Json.case?, Json.pair?,
      ofJsonWithin?_toJson o key n (by omega), ofJsonWithin?_toJson o value n (by omega)]
  | .struct fields, n + 1, h => by
    have within : Json.depthItems (fieldsToJson fields) < n := by
      simp only [toJson, Json.tagged, Json.depth, Json.depthMembers] at h
      omega
    simp [toJson, Json.tagged, ofJsonWithin?, Json.case?, Json.list?,
      mapM_fieldsToJson o fields n within]
  | .int, n + 1, _ | .bigInt, n + 1, _ | .double, n + 1, _ | .boolean, n + 1, _
  | .string, n + 1, _ | .bytes, n + 1, _ | .date, n + 1, _ | .time, n + 1, _
  | .timestamp, n + 1, _ => by rfl
termination_by structural k => k
theorem mapM_fieldsToJson (o : Json.Origin) : ∀ (cs : List Column) (n : Nat),
    Json.depthItems (fieldsToJson cs) < n →
    (fieldsToJson cs).mapM (Column.ofJsonWith? (ofJsonWithin? o n)) = some cs
  | [], _, _ => rfl
  | ⟨name, rename, kind, nullable, role⟩ :: cs, n, h => by
    simp only [fieldsToJson, Json.depthItems, Json.depth, Json.depthMembers] at h
    have first := Column.ofJsonWith?_toJson (c := ⟨name, rename, kind, nullable, role⟩)
      (ofJsonWithin?_toJson o kind n (by omega))
    have rest := mapM_fieldsToJson o cs n (by omega)
    change (Column.toJson ⟨name, rename, kind, nullable, role⟩ :: fieldsToJson cs).mapM
      (Column.ofJsonWith? (ofJsonWithin? o n)) = _
    rw [List.mapM_cons, first, rest]
    rfl
termination_by structural cs => cs
end

end TypeKind

theorem TypeKind.ofJson?_toJson (o : Json.Origin) (k : TypeKind) :
    TypeKind.ofJson? o k.toJson = some k :=
  ofJsonWithin?_toJson o k _ (Nat.lt_succ_self _)

theorem Column.ofJson?_toJson (o : Json.Origin) (c : Column) : Column.ofJson? o c.toJson = some c :=
  ofJsonWith?_toJson (TypeKind.ofJson?_toJson o c.kind)

namespace Schema

theorem readsBack_toJson (s : Schema) : s.toJson.ReadsBack := by
  refine ⟨trivial, Json.itemsReadBack_map fun c _ => ?_, trivial⟩
  exact ⟨trivial, Json.readsBack_ofOption fun _ _ => trivial, c.kind.readsBack_toJson, trivial,
    trivial, trivial⟩

theorem ofJson?_toJson (o : Json.Origin) (s : Schema) : Schema.ofJson? o s.toJson = some s := by
  simp [Schema.ofJson?, toJson, Json.fields?_object, Fields.required_cons, Json.string?,
    Json.ofList, Json.list?_map fun c _ => Column.ofJson?_toJson o c]

end Schema
end StreamSql
