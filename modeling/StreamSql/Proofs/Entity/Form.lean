import StreamSql.Entity.Form
import StreamSql.Proofs.Json.Record

namespace StreamSql

open Json (Fields)

theorem RecordFormat.ofJson?_text (f : RecordFormat) :
    RecordFormat.ofJson? (.string f.text) = some f :=
  Json.choice?_tag (by decide +kernel) (by cases f <;> decide)

theorem WindowType.ofJson?_tag (t : WindowType) : WindowType.ofJson? (.string t.tag) = some t :=
  Json.choice?_tag (by decide +kernel) (by cases t <;> decide)

namespace Metadata

theorem readsBack_toJson (m : Metadata) : m.toJson.ReadsBack := by
  have string (s : Option String) : (Json.ofOption .string s).ReadsBack :=
    Json.readsBack_ofOption fun _ _ => trivial
  have format (f : Option RecordFormat) : (Json.ofOption (.string ·.text) f).ReadsBack :=
    Json.readsBack_ofOption fun _ _ => trivial
  have count (n : Option UInt32) : (Json.ofOption .ofUInt32 n).ReadsBack :=
    Json.readsBack_ofOption fun _ _ => Number.readsBack_whole _ _
  exact ⟨string _, trivial, string _, format _, format _, string _, count _, count _, string _,
    string _, Json.readsBack_ofOption fun _ _ => trivial,
    Json.readsBack_ofOption fun _ _ => trivial, string _, trivial⟩

theorem ofJson?_toJson (m : Metadata) : Metadata.ofJson? m.toJson = some m := by
  have format (f : Option RecordFormat) :
      Json.nullable? RecordFormat.ofJson? (.ofOption (.string ·.text) f) = some f :=
    Json.nullable?_ofOption fun f _ => ⟨by simp, f.ofJson?_text⟩
  have window (t : Option WindowType) :
      Json.nullable? WindowType.ofJson? (.ofOption (.string ·.tag) t) = some t :=
    Json.nullable?_ofOption fun t _ => ⟨by simp, t.ofJson?_tag⟩
  have count (n : Option UInt32) :
      Json.nullable? Json.uint32? (.ofOption .ofUInt32 n) = some n :=
    Json.nullable?_ofOption fun n _ => ⟨by simp [Json.ofUInt32], Json.uint32?_ofUInt32 n⟩
  have string (s : Option String) : Json.nullable? Json.string? (.ofOption .string s) = some s :=
    Json.nullable?_ofOption fun _ _ => ⟨by simp, rfl⟩
  have bool (b : Option Bool) : Json.nullable? Json.bool? (.ofOption .bool b) = some b :=
    Json.nullable?_ofOption fun _ _ => ⟨by simp, rfl⟩
  have next {α : Type} {x : Option α} {a : α} {f : α → Option Metadata} (read : x = some a)
      (rest : f a = some m) : (x >>= f) = some m := read ▸ rest
  refine next (Json.fields?_object rfl (by simp)) ?_
  exact next (string _) (next rfl (next (string _) (next (format _) (next (format _) (next (string _)
    (next (count _) (next (count _) (next (string _) (next (string _) (next (bool _) (next (window _)
      (next (string _) rfl))))))))))))

end Metadata
end StreamSql
