import StreamSql.Json.Printer
import StreamSql.Proofs.Text.Trim
import StreamSql.Response.Frame

namespace StreamSql

theorem Json.read?_of_parse? {text : String} {j : Json} (parsed : parse? text = some j)
    (inRange : j.inRange = true) : read? text = some j.normal := by
  simp [read?, parsed, inRange]

namespace Frame

variable {format : ResponseFormat} {line text : String} {cs : List Char}

theorem ofLine_eq {j : Json} (content_eq : content format line.toList = text.toList)
    (read : Json.read? text = some j) :
    ofLine format line = match j with
      | .object ms => ofMembers format ms
      | j => .ok (.values j) := by
  have ne : text.toList ≠ [] := by
    intro empty
    obtain rfl : text = "" := by simpa using empty
    cases read
  simp only [ofLine, content_eq, List.isEmpty_eq_false_iff.2 ne, String.ofList_toList, read]
  cases j <;> rfl

/-- The line holds an object with these members, when what its format frames it with is put aside. -/
def Holds (format : ResponseFormat) (line : String) (ms : List (String × Json)) : Prop :=
  ∃ text : String, content format line.toList = text.toList ∧ Json.read? text = some (.object ms)

theorem Holds.ofLine_eq {ms : List (String × Json)} (h : Holds format line ms) :
    ofLine format line = ofMembers format ms := by
  obtain ⟨text, content_eq, read⟩ := h
  exact Frame.ofLine_eq content_eq read

structure IsMalformed (format : ResponseFormat) (line : String) : Prop where
  ne_nil : content format line.toList ≠ []
  unread : Json.read? (.ofList (content format line.toList)) = none

theorem IsMalformed.ofLine_eq (h : IsMalformed format line) :
    ofLine format line = .error (.row (.malformed (.ofList (content format line.toList)))) := by
  simp [ofLine, h.ne_nil, h.unread]

theorem ofLine_cases (format : ResponseFormat) (line : String) :
    ofLine format line = .ok .skip ∨ IsMalformed format line ∨ (∃ ms, Holds format line ms) ∨
      ∃ j, ofLine format line = .ok (.values j) := by
  by_cases none : content format line.toList = []
  · exact .inl (by simp [ofLine, none])
  · cases read : Json.read? (.ofList (content format line.toList)) with
    | none => exact .inr (.inl ⟨none, read⟩)
    | some j =>
      have text : content format line.toList =
          (String.ofList (content format line.toList)).toList := by simp
      have line_eq := Frame.ofLine_eq text read
      cases j with
      | object ms => exact .inr (.inr (.inl ⟨ms, _, text, read⟩))
      | _ => exact .inr (.inr (.inr ⟨_, line_eq⟩))

structure NoError (ms : List (String × Json)) : Prop where
  noFailure : ∀ inner, Json.find? "errorMessage" ms ≠ some (.object inner)
  noErrorType : ∀ type, Json.find? "@type" ms = some (.string type) →
    ¬ "error".toList <:+: type.toList

theorem failure?_eq_none_iff {ms : List (String × Json)} : failure? ms = none ↔ NoError ms := by
  unfold failure?
  split
  · next inner wrapped => exact ⟨nofun, fun h => absurd wrapped (h.noFailure inner)⟩
  · next bare =>
    split
    · next type found =>
      have only : NoError ms ↔ ¬ "error".toList <:+: type.toList := by
        refine ⟨fun h => h.noErrorType type found, fun h => ⟨bare, fun other same => ?_⟩⟩
        obtain rfl : type = other := Json.string.inj (Option.some.inj (found.symm.trans same))
        exact h
      simp [only, ← Text.contains_iff]
    · next untyped => exact ⟨fun _ => ⟨bare, fun type found => absurd found (untyped type)⟩, fun _ => rfl⟩

def braced (cs : List Char) : List Char := '\x7b' :: (cs ++ ['\x7d'])

theorem isTrimmed_braced (cs : List Char) : Text.IsTrimmed (braced cs) := by
  constructor <;> simp [braced, List.getLast?_cons, Text.isBlank]

inductive Front : List Char → Prop
  | none : Front []
  | opening {pad : List Char} : (∀ c ∈ pad, Text.isBlank c = true) → Front ('[' :: pad)

inductive Back : List Char → Prop
  | none : Back []
  | comma {pad : List Char} : (∀ c ∈ pad, Text.isBlank c = true) → Back (pad ++ [','])
  | closing {pad : List Char} : (∀ c ∈ pad, Text.isBlank c = true) → Back (pad ++ [']'])

variable {before behind pad : List Char}

theorem isTrimmed_framed (hb : Front before) (ha : Back behind) :
    Text.IsTrimmed (before ++ (braced cs ++ behind)) := by
  constructor
  · cases hb <;> simp [braced, Text.isBlank]
  · cases ha <;> simp [braced, List.getLast?_cons, Text.isBlank]

theorem trimStart_afterFirst? (hb : Front before) :
    Text.trimStart ((Text.afterFirst? '[' (before ++ (braced cs ++ behind))).getD
      (before ++ (braced cs ++ behind))) = braced cs ++ behind := by
  have start : Text.trimStart (braced cs ++ behind) = braced cs ++ behind :=
    Text.trimStart_of_head (by simp [braced, Text.isBlank])
  cases hb with
  | none =>
    have none : Text.afterFirst? '[' (braced cs ++ behind) = none :=
      Text.afterFirst?_eq_none (by simp [braced])
    simpa [none] using start
  | opening blank =>
    simpa [Text.afterFirst?, Text.trimStart_append_of_blank blank] using start

theorem trimEnd_braced : Text.trimEnd (braced cs) = braced cs :=
  Text.trimEnd_of_last (isTrimmed_braced cs).last

theorem trimEnd_beforeLast?_braced {c : Char} (hc : '\x7d' ≠ c) :
    Text.trimEnd ((Text.beforeLast? c (braced cs)).getD (braced cs)) = braced cs := by
  have none : Text.beforeLast? c (braced cs) = none :=
    Text.beforeLast?_eq_none (by simpa [braced, List.getLast?_cons] using hc)
  rw [none, Option.getD_none, trimEnd_braced]

theorem trimEnd_beforeLast? {c : Char} (blank : ∀ d ∈ pad, Text.isBlank d = true) :
    Text.trimEnd ((Text.beforeLast? c (braced cs ++ (pad ++ [c]))).getD (braced cs ++ (pad ++ [c]))) =
      braced cs := by
  rw [← List.append_assoc, Text.beforeLast?_concat, Option.getD_some,
    Text.trimEnd_append_of_blank blank, trimEnd_braced]

theorem element_framed (hb : Front before) (ha : Back behind) :
    element (before ++ (braced cs ++ behind)) = braced cs := by
  simp only [element, (isTrimmed_framed hb ha).trim_eq, trimStart_afterFirst? hb]
  cases ha with
  | none =>
    rw [List.append_nil, trimEnd_beforeLast?_braced (by decide),
      trimEnd_beforeLast?_braced (by decide)]
  | comma blank => rw [trimEnd_beforeLast? blank, trimEnd_beforeLast?_braced (by decide)]
  | @closing pad blank =>
    have none : Text.beforeLast? ',' (braced cs ++ (pad ++ [']'])) = none :=
      Text.beforeLast?_eq_none (by simp)
    have stop : Text.trimEnd (braced cs ++ (pad ++ [']'])) = braced cs ++ (pad ++ [']']) :=
      Text.trimEnd_of_last (by simp [Text.isBlank])
    rw [none, Option.getD_none, stop, trimEnd_beforeLast? blank]

theorem exists_braced_eq_compact (ms : List (String × Json)) :
    ∃ cs, (Json.object ms).compact.toList = braced cs :=
  ⟨(Text.join "," (Json.compactMembers ms)).toList, by simp [Json.compact, braced]⟩

theorem isTrimmed_compact_array (items : List Json) :
    Text.IsTrimmed (Json.array items).compact.toList := by
  constructor <;> simp [Json.compact, List.getLast?_cons, Text.isBlank]

variable {items items' : List Json} {ms ms' : List (String × Json)}

theorem ofLine_queryStream_object
    (read : Json.read? (Json.object ms).compact = some (.object ms')) :
    ofLine .queryStream (Json.object ms).compact = ofObject ms' := by
  obtain ⟨cs, text⟩ := exists_braced_eq_compact ms
  have trimmed : content .queryStream (Json.object ms).compact.toList =
      (Json.object ms).compact.toList := by
    rw [content, text, (isTrimmed_braced cs).trim_eq]
  exact ofLine_eq trimmed read

theorem ofLine_queryStream_array
    (read : Json.read? (Json.array items).compact = some (.array items')) :
    ofLine .queryStream (Json.array items).compact = .ok (.values (.array items')) := by
  have trimmed : content .queryStream (Json.array items).compact.toList =
      (Json.array items).compact.toList := (isTrimmed_compact_array items).trim_eq
  exact ofLine_eq trimmed read

theorem ofLine_query_object {before behind : String} (hb : before = "" ∨ before = "[")
    (ha : behind = "" ∨ behind = "," ∨ behind = "]")
    (read : Json.read? (Json.object ms).compact = some (.object ms')) :
    ofLine .query (before ++ (Json.object ms).compact ++ behind) = ofElement ms' := by
  obtain ⟨cs, text⟩ := exists_braced_eq_compact ms
  refine ofLine_eq ?_ read
  simp only [content, String.toList_append, List.append_assoc, text]
  refine element_framed ?_ ?_
  · rcases hb with rfl | rfl
    · exact .none
    · exact .opening (by simp)
  · rcases ha with rfl | rfl | rfl
    · exact .none
    · exact @Back.comma [] (by simp)
    · exact @Back.closing [] (by simp)

end Frame
end StreamSql
