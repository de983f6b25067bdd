import StreamSql.Proofs.Naming.Bytes
import StreamSql.Proofs.Text.Trim
import StreamSql.Response.Header

namespace StreamSql

open Text
open String (utf8Len)

namespace Header

variable {schema done part rest : List Char}

/-- The parts of a text from `start` on, of which the given characters have not been read. -/
def partsByBytes (schema : List Char) (depth start : Nat) : List (Nat × Char) → Cut (List (List Char))
  | [] => do
    let (_, part) ← cutAtByte start schema
    .ok (if part.all isBlank then [] else [part])
  | (place, c) :: rest =>
    if c = ',' && depth = 0 then do
      let part ← slice start place schema
      let parts ← partsByBytes schema 0 (place + 1) rest
      .ok (part :: parts)
    else partsByBytes schema (depthAfter depth c) start rest

def columnByBytes (text : List Char) : Cut (Except HeaderFault (String × String)) :=
  let cs := trim text
  match afterFirst? nameMark cs with
  | some rest =>
    match placeOf? nameMark rest with
    | some place => do
      let (name, _) ← cutAtByte place rest
      let (_, type) ← cutAtByte (place + 1) rest
      .ok (.ok (.ofList name, .ofList (trim type)))
    | none => .ok (.error (.unterminatedName (.ofList cs)))
  | none =>
    match cutAt? ' ' cs with
    | some (name, type) => .ok (.ok (.ofList name, .ofList (trim type)))
    | none => .ok (.error (.noType (.ofList cs)))

def columnsByBytes : List (List Char) → Cut (Except HeaderFault (List (String × String)))
  | [] => .ok (.ok [])
  | text :: texts => do
    match ← columnByBytes text with
    | .ok c => .ok ((← columnsByBytes texts).map (c :: ·))
    | .error fault => .ok (.error fault)

def ofSchemaByBytes (queryId : Option String) (schema : String) : Cut (Except HeaderFault Header) := do
  let texts ← partsByBytes schema.toList 0 0 (placed 0 schema.toList)
  match ← columnsByBytes texts with
  | .ok cs =>
    if cs.isEmpty then .ok (.error .emptySchema)
    else .ok (.ok ⟨queryId, cs.map (·.1), cs.map (·.2)⟩)
  | .error fault => .ok (.error fault)

/-- A part begins behind what is done, and goes on up to the place of the next character. -/
theorem partsByBytes_eq (whole : schema = done ++ (part.reverse ++ rest)) (depth : Nat) :
    partsByBytes schema depth (utf8Len done) (placed (utf8Len (done ++ part.reverse)) rest) =
      .ok (parts depth part rest) := by
  induction rest generalizing done part depth with
  | nil =>
    rw [List.append_nil] at whole
    rw [placed, partsByBytes, whole, cutAtByte_append, Cut.ok_bind, parts]
    simp
  | cons c rest ih =>
    rw [placed, partsByBytes, parts]
    split
    · next comma =>
      obtain ⟨rfl, -⟩ : c = ',' ∧ depth = 0 := by simpa using comma
      have one : ','.utf8Size = 1 := rfl
      have next := @ih (done ++ part.reverse ++ [',']) [] (by simp [whole]) 0
      rw [List.reverse_nil, List.append_nil, utf8Len_concat, one] at next
      have between : slice (utf8Len done) (utf8Len (done ++ part.reverse)) schema = .ok part.reverse := by
        rw [whole, slice_append]
      rw [between, Cut.ok_bind, one, next, Cut.ok_bind]
    · have next := @ih done (c :: part) (by simp [whole]) (depthAfter depth c)
      rwa [List.reverse_cons, ← List.append_assoc, utf8Len_concat] at next

theorem columnByBytes_eq (text : List Char) : columnByBytes text = .ok (column text) := by
  rw [columnByBytes, column]
  cases afterFirst? nameMark (trim text) with
  | none => cases cutAt? ' ' (trim text) <;> rfl
  | some rest =>
    by_cases mem : nameMark ∈ rest
    · obtain ⟨name, type, rfl, first⟩ := List.eq_append_cons_of_mem mem
      have behind : cutAtByte (utf8Len name + 1) (name ++ nameMark :: type) =
          .ok (name ++ [nameMark], type) := by
        have one : nameMark.utf8Size = 1 := rfl
        rw [List.append_cons, ← one, ← utf8Len_concat, cutAtByte_append]
      simp only [placeOf?_append first, cutAt?_append first, cutAtByte_append, behind, Cut.ok_bind]
    · simp only [placeOf?_eq_none mem, cutAt?_eq_none mem]

theorem columnsByBytes_eq (texts : List (List Char)) : columnsByBytes texts = .ok (columns texts) := by
  induction texts with
  | nil => rfl
  | cons text texts ih =>
    rw [columnsByBytes, columns, columnByBytes_eq, ih, Cut.ok_bind]
    cases column text with
    | error fault => rfl
    | ok c => cases columns texts <;> rfl

theorem ofSchemaByBytes_eq (queryId : Option String) (schema : String) :
    ofSchemaByBytes queryId schema = .ok (ofSchema queryId schema) := by
  have texts : partsByBytes schema.toList 0 0 (placed 0 schema.toList) =
      .ok (parts 0 [] schema.toList) := @partsByBytes_eq schema.toList [] [] schema.toList rfl 0
  rw [ofSchemaByBytes, ofSchema, texts, Cut.ok_bind, columnsByBytes_eq, Cut.ok_bind]
  cases columns (parts 0 [] schema.toList) with
  | error fault => rfl
  | ok cs =>
    simp only [bind, Except.bind]
    split <;> rfl

end Header

/-- There is every cut that is asked for, that is, each is at a valid position (`exists_cutAtByte_iff`).
By bytes, plurals and headers are what they are by characters. -/
theorem byBytes_eq_ok {name low : String} (lowers : Naming.Lowers name.toList low.toList)
    (queryId : Option String) (schema : String) :
    Naming.pluralByBytes low.toList name.toList = .ok (Naming.pluralize name).toList ∧
      Header.partsByBytes schema.toList 0 0 (placed 0 schema.toList) =
        .ok (Header.parts 0 [] schema.toList) ∧
      Header.ofSchemaByBytes queryId schema = .ok (Header.ofSchema queryId schema) := by
  refine ⟨?_, @Header.partsByBytes_eq schema.toList [] [] schema.toList rfl 0,
    Header.ofSchemaByBytes_eq queryId schema⟩
  rw [Naming.pluralByBytes_eq lowers, Naming.pluralize, String.toList_ofList]

theorem byBytes_eq_ok_kelvin :
    Naming.Lowers "\u212A\u023A_Person".toList "k\u2C65_person".toList ∧
      Naming.pluralByBytes "k\u2C65_person".toList "\u212A\u023A_Person".toList =
        .ok "\u212A\u023A_People".toList ∧
      Header.ofSchemaByBytes none "\x60\u212A\x60 INT, N DECIMAL(4, 2)" =
        .ok (.ok ⟨none, ["\u212A", "N"], ["INT", "DECIMAL(4, 2)"]⟩) := by
  have longer : Naming.LowerCase '\u023A' ['\u2C65'] :=
    .other (by decide) (by decide) (List.forall_mem_singleton.2 (by decide))
  have lowers : Naming.Lowers "\u212A\u023A_Person".toList "k\u2C65_person".toList :=
    .cons .kelvin (.cons longer (Naming.lowers_lowered "_Person".toList))
  obtain ⟨plural, -, header⟩ :=
    byBytes_eq_ok lowers none "\x60\u212A\x60 INT, N DECIMAL(4, 2)"
  exact ⟨lowers, plural.trans (by decide), header.trans (by rfl)⟩

end StreamSql
