import Mathlib.Data.List.Forall2
import StreamSql.Proofs.Json.Object
import StreamSql.Proofs.Response.Frame

/-!
An array of objects on the lines of a response. However its brackets and commas are put on the lines,
each object is read as if it stood alone, and what it holds is never taken for what frames it.
-/

namespace StreamSql.Frame

inductive Sign
  | opening
  | comma
  | closing

def Sign.char : Sign → Char
  | opening => '['
  | comma => ','
  | closing => ']'

inductive Part
  | sign (s : Sign)
  | element (t : String)

namespace Part

def chars : Part → List Char
  | .sign s => [s.char]
  | .element t => t.toList

def element? : Part → Option String
  | .sign _ => none
  | .element t => some t

end Part

def parts (elements : List String) : List Part :=
  .sign .opening ::
    ([.sign .comma].intercalate (elements.map fun t => [.element t]) ++ [.sign .closing])

def IsBlank (pad : List Char) : Prop := ∀ c ∈ pad, Text.isBlank c = true

instance (pad : List Char) : Decidable (IsBlank pad) :=
  decidable_of_iff (pad.all Text.isBlank = true) List.all_eq_true

inductive Spaced : List Part → List Char → Prop
  | nil {pad : List Char} : IsBlank pad → Spaced [] pad
  | cons {pad cs : List Char} {p : Part} {ps : List Part} : IsBlank pad → Spaced ps cs →
    Spaced (p :: ps) (pad ++ (p.chars ++ cs))

/-- The parts that one line may have: none, a sign, or an element with the bracket that opens the array
before it or not, and the comma or the bracket that closes the array behind it or not. -/
inductive OnLine : List Part → Prop
  | blank : OnLine []
  | sign {s : Sign} : OnLine [.sign s]
  | element {front back : List Part} {t : String} : front ∈ [[], [.sign .opening]] →
    back ∈ [[], [.sign .comma], [.sign .closing]] → OnLine (front ++ .element t :: back)

/-- The lines are the parts of the array, cut into those that one line may have. -/
structure IsLayout (elements : List String) (pss : List (List Part)) (lines : List String) : Prop where
  parts : pss.flatten = parts elements
  lines : List.Forall₂ (fun ps line => OnLine ps ∧ Spaced ps line.toList) pss lines

def held (ps : List Part) : Option String := ps.findSome? Part.element?

variable {elements lines : List String} {pss : List (List Part)} {ps : List Part} {cs : List Char}
  {line t : String}

theorem filterMap_parts (elements : List String) :
    (parts elements).filterMap Part.element? = elements := by
  have inside : ([.sign .comma].intercalate (elements.map fun t => [Part.element t])).filterMap
      Part.element? = elements := by
    induction elements with
    | nil => rfl
    | cons t ts ih =>
      cases ts with
      | nil => rfl
      | cons u us => exact congrArg (t :: ·) ih
  rw [parts, List.filterMap_cons, List.filterMap_append, inside]
  simp [Part.element?]

theorem OnLine.filterMap_eq (h : OnLine ps) : ps.filterMap Part.element? = (held ps).toList := by
  cases h with
  | blank | sign => rfl
  | element front back =>
    simp only [List.mem_cons, List.not_mem_nil, or_false] at front back
    rcases front with rfl | rfl <;> rcases back with rfl | rfl | rfl <;> rfl

theorem filterMap_flatten
    (h : List.Forall₂ (fun ps (line : String) => OnLine ps ∧ Spaced ps line.toList) pss lines) :
    pss.flatten.filterMap Part.element? = pss.filterMap held := by
  induction h with
  | nil => rfl
  | @cons ps _ _ _ first _ ih =>
    rw [List.flatten_cons, List.filterMap_append, first.1.filterMap_eq, ih, List.filterMap_cons]
    cases held ps <;> rfl

theorem IsLayout.filterMap_held (h : IsLayout elements pss lines) : pss.filterMap held = elements := by
  rw [← filterMap_flatten h.lines, h.parts, filterMap_parts]

def IsObject (t : String) : Prop := ∃ cs, t.toList = braced cs

theorem isObject_of_parse? {ms : List (String × Json)} (trimmed : Text.IsTrimmed t.toList)
    (parsed : Json.parse? t = some (.object ms)) : IsObject t :=
  Json.exists_braced_of_parse? trimmed parsed

theorem element_padded {pad pad' : List Char} (blank : IsBlank pad) (blank' : IsBlank pad')
    (trimmed : Text.IsTrimmed cs) : element (pad ++ (cs ++ pad')) = element cs := by
  simp only [element, trimmed.trim_padded blank blank', trimmed.trim_eq]

theorem element_of_isBlank (blank : IsBlank cs) : element cs = [] := by
  have nothing : Text.IsTrimmed [] := by constructor <;> simp
  have padded : element (cs ++ ([] ++ [])) = element [] :=
    element_padded blank (by decide) nothing
  rw [List.nil_append, List.append_nil] at padded
  exact padded.trans rfl

theorem element_of_sign (s : Sign) : element [s.char] = [] := by
  cases s <;> decide

theorem Sign.isTrimmed (s : Sign) : Text.IsTrimmed [s.char] := by
  cases s <;> constructor <;> simp [Sign.char, Text.isBlank]

theorem Spaced.exists_front {front ps : List Part} (h : Spaced (front ++ .element t :: ps) cs)
    (hf : front ∈ [[], [.sign .opening]]) :
    ∃ pad before rest, IsBlank pad ∧ Front before ∧ Spaced ps rest ∧
      cs = pad ++ (before ++ (t.toList ++ rest)) := by
  simp only [List.mem_cons, List.not_mem_nil, or_false] at hf
  rcases hf with rfl | rfl
  · cases h with
    | @cons pad rest _ _ blank spaced => exact ⟨pad, [], rest, blank, .none, spaced, rfl⟩
  · cases h with
    | @cons pad _ _ _ blank spaced =>
      cases spaced with
      | @cons pad' rest _ _ blank' spaced =>
        exact ⟨pad, '[' :: pad', rest, blank, .opening blank', spaced, by simp [Part.chars, Sign.char]⟩

theorem Spaced.exists_back {back : List Part} (h : Spaced back cs)
    (hb : back ∈ [[], [.sign .comma], [.sign .closing]]) :
    ∃ behind pad, Back behind ∧ IsBlank pad ∧ cs = behind ++ pad := by
  simp only [List.mem_cons, List.not_mem_nil, or_false] at hb
  rcases hb with rfl | rfl | rfl
  · cases h with
    | nil blank => exact ⟨[], cs, .none, blank, rfl⟩
  · cases h with
    | @cons pad _ _ _ blank spaced =>
      cases spaced with
      | nil blank' => exact ⟨pad ++ [','], _, .comma blank, blank', by simp [Part.chars, Sign.char]⟩
  · cases h with
    | @cons pad _ _ _ blank spaced =>
      cases spaced with
      | nil blank' => exact ⟨pad ++ [']'], _, .closing blank, blank', by simp [Part.chars, Sign.char]⟩

theorem element_of_onLine (h : OnLine ps) (spaced : Spaced ps cs)
    (objects : ∀ t ∈ held ps, IsObject t) : element cs = (held ps).elim [] String.toList := by
  cases h with
  | blank =>
    cases spaced with
    | nil blank => exact element_of_isBlank blank
  | @sign s =>
    cases spaced with
    | cons blank spaced =>
      cases spaced with
      | nil blank' => exact (element_padded blank blank' s.isTrimmed).trans (element_of_sign s)
  | @element front back t hf hb =>
    obtain ⟨pad, before, rest, blank, hBefore, spacedBack, rfl⟩ := spaced.exists_front hf
    obtain ⟨behind, pad', hBehind, blank', rfl⟩ := spacedBack.exists_back hb
    have one : held (front ++ .element t :: back) = some t := by
      simp only [List.mem_cons, List.not_mem_nil, or_false] at hf
      rcases hf with rfl | rfl <;> rfl
    obtain ⟨inside, braces⟩ := objects t one
    rw [one, Option.elim_some, braces]
    have trimmed : Text.IsTrimmed (before ++ (braced inside ++ behind)) :=
      isTrimmed_framed hBefore hBehind
    have padded := element_padded blank blank' trimmed
    rw [element_framed hBefore hBehind] at padded
    simpa [List.append_assoc] using padded

theorem IsObject.element_eq (h : IsObject t) : element t.toList = t.toList := by
  obtain ⟨inside, braces⟩ := h
  have alone : element ([] ++ (braced inside ++ [])) = _ := element_framed .none .none
  rw [List.nil_append, List.append_nil] at alone
  rw [braces, alone]

theorem ofLine_of_onLine (h : OnLine ps) (spaced : Spaced ps line.toList)
    (objects : ∀ t ∈ held ps, IsObject t) :
    ofLine .query line = (held ps).elim (.ok .skip) (ofLine .query) := by
  have text : content .query line.toList = (held ps).elim [] String.toList :=
    element_of_onLine h spaced objects
  cases one : held ps with
  | none =>
    rw [one, Option.elim_none] at text
    simp [ofLine, text]
  | some t =>
    have alone : content .query t.toList = t.toList := (objects t one).element_eq
    rw [one, Option.elim_some, ← alone] at text
    simp only [ofLine, text, Option.elim_some]

structure IsRow (ms : List (String × Json)) (columns : Json) : Prop where
  row : ∃ inner, Json.find? "row" ms = some (.object inner) ∧
    Json.find? "columns" inner = some columns ∧ Json.find? "tombstone" inner ≠ some (.bool true)
  noHeader : ∀ inner, Json.find? "header" ms ≠ some (.object inner)
  noFailure : ∀ inner, Json.find? "errorMessage" ms ≠ some (.object inner)
  noErrorType : ∀ type, Json.find? "@type" ms = some (.string type) →
    ¬ "error".toList <:+: type.toList

theorem IsRow.ofElement_eq {ms : List (String × Json)} {columns : Json} (h : IsRow ms columns) :
    ofElement ms = .ok (.values columns) := by
  obtain ⟨inner, row, found, living⟩ := h.row
  have sound : failure? ms = none := failure?_eq_none_iff.2 ⟨h.noFailure, h.noErrorType⟩
  have alive : ofRow inner = .ok (.values columns) := by
    unfold ofRow
    split
    · next dead => exact absurd dead living
    · rw [found]
  simp only [ofElement, sound]
  split
  · next inner header => exact absurd header (h.noHeader inner)
  · simp only [row, alive]

/-- Where an array of objects is on lines, each line is read as the object on it is by itself, and a
line without one is passed over; so a row stays a row with its columns, whatever these are. -/
theorem ofLine_layout (objects : ∀ t ∈ elements, IsObject t) (layout : IsLayout elements pss lines) :
    List.Forall₂ (fun ps line => ofLine .query line = (held ps).elim (.ok .skip) (ofLine .query))
        pss lines ∧
      pss.filterMap held = elements ∧
      (∀ t ∈ elements, ∀ ms columns, Json.read? t = some (.object ms) → IsRow ms columns →
        ofLine .query t = .ok (.values columns)) ∧
      ∀ t ms, Text.IsTrimmed t.toList → Json.parse? t = some (.object ms) → IsObject t := by
  have order := layout.filterMap_held
  refine ⟨?_, order, ?_, fun t ms => isObject_of_parse?⟩
  · have inside : ∀ ps ∈ pss, ∀ t ∈ held ps, IsObject t := fun ps mem t one =>
      objects t (order ▸ List.mem_filterMap.2 ⟨ps, mem, one⟩)
    exact ((List.forall₂_and_left pss lines).2 ⟨inside, layout.lines⟩).imp
      fun ps line ⟨object, onLine, spaced⟩ => ofLine_of_onLine onLine spaced object
  · intro t mem ms columns read row
    have alone : content .query t.toList = t.toList := (objects t mem).element_eq
    exact (ofLine_eq alone read).trans row.ofElement_eq

private abbrev brackets : List (String × Json) :=
  [("row", .object [("columns", .array [.string "],[ error"])])]

private abbrev first : String := (Json.object brackets).compact

private abbrev last : String := (Json.object [("finalMessage", .string "[,]")]).compact

private abbrev cut : List (List Part) :=
  [[.sign .opening, .element first], [], [.sign .comma], [.element last, .sign .closing]]

theorem ofLine_layout_brackets :
    (∀ t ∈ [first, last], IsObject t) ∧
      IsLayout [first, last] cut [" [\t" ++ first, "\t", ", ", last ++ "]"] ∧
      ofLine .query (" [\t" ++ first) = .ok (.values (.array [.string "],[ error"])) ∧
      ofLine .query "\t" = .ok .skip ∧ ofLine .query ", " = .ok .skip ∧
      ofLine .query (last ++ "]") = ofLine .query last := by
  have read : Json.read? first = some (.object brackets) :=
    (Json.read?_of_parse? (j := .object brackets) rfl rfl).trans rfl
  have row : IsRow brackets (.array [.string "],[ error"]) := by
    refine ⟨⟨_, rfl, rfl, ?_⟩, ?_, ?_, ?_⟩ <;> simp [Json.find?]
  have objects : ∀ t ∈ [first, last], IsObject t := by
    simpa using ⟨exists_braced_eq_compact _, exists_braced_eq_compact _⟩
  have opened : Spaced [.sign .opening, .element first] (" [\t" ++ first).toList := by
    have spaced : Spaced [.sign .opening, .element first]
        ([' '] ++ (['['] ++ (['\t'] ++ (first.toList ++ [])))) :=
      .cons (by decide) (.cons (by decide) (.nil (by decide)))
    simpa using spaced
  have nothing : Spaced [] "\t".toList := .nil (by decide)
  have comma : Spaced [.sign .comma] ", ".toList := by
    have spaced : Spaced [.sign .comma] ([] ++ ([','] ++ [' '])) :=
      .cons (by decide) (.nil (by decide))
    simpa using spaced
  have closed : Spaced [.element last, .sign .closing] (last ++ "]").toList := by
    have spaced : Spaced [.element last, .sign .closing]
        ([] ++ (last.toList ++ ([] ++ ([']'] ++ [])))) :=
      .cons (by decide) (.cons (by decide) (.nil (by decide)))
    simpa using spaced
  have layout : IsLayout [first, last] cut [" [\t" ++ first, "\t", ", ", last ++ "]"] := by
    refine ⟨rfl, .cons ⟨?_, opened⟩ (.cons ⟨.blank, nothing⟩ (.cons ⟨.sign, comma⟩
      (.cons ⟨?_, closed⟩ .nil)))⟩
    · exact @OnLine.element [.sign .opening] [] first (by simp) (by simp)
    · exact @OnLine.element [] [.sign .closing] last (by simp) (by simp)
  obtain ⟨lines, -, rows, -⟩ := ofLine_layout objects layout
  simp only [List.forall₂_cons, List.Forall₂.nil, and_true, held, List.findSome?, Part.element?,
    Option.elim_some, Option.elim_none] at lines
  obtain ⟨opening, blank, comma, closing⟩ := lines
  exact ⟨objects, layout, opening.trans (rows first (by simp) _ _ read row), blank, comma, closing⟩

end StreamSql.Frame
