import StreamSql.Proofs.Expr.Segment

namespace StreamSql.Expr

mutual
/-- The value that an expression of constants and constructors puts together. -/
def built? : Expr → Option Value
  | .constant v => some v
  | .array items => (itemsBuilt? items).map .array
  | .map entries => (entriesBuilt? entries).map .map
  | .new _ members => (membersBuilt? members).map .struct
  | _ => none
termination_by structural e => e
def itemsBuilt? : List Expr → Option (List Value)
  | [] => some []
  | e :: es => do
    let v ← e.built?
    let vs ← itemsBuilt? es
    some (v :: vs)
termination_by structural es => es
def entriesBuilt? : List (Expr × Expr) → Option (List (Value × Value))
  | [] => some []
  | (k, e) :: es => do
    let k ← k.built?
    let v ← e.built?
    let vs ← entriesBuilt? es
    some ((k, v) :: vs)
termination_by structural es => es
def membersBuilt? : List (String × Expr) → Option (List (String × Value))
  | [] => some []
  | (n, e) :: ms => do
    let v ← e.built?
    let vs ← membersBuilt? ms
    some ((n, v) :: vs)
termination_by structural ms => ms
end

theorem itemsBuilt?_cons {e : Expr} {es : List Expr} {vs : List Value}
    (built : itemsBuilt? (e :: es) = some vs) :
    ∃ w ws, e.built? = some w ∧ itemsBuilt? es = some ws ∧ vs = w :: ws := by
  obtain ⟨w, first, built⟩ := Option.bind_eq_some_iff.1 built
  obtain ⟨ws, rest, built⟩ := Option.bind_eq_some_iff.1 built
  exact ⟨w, ws, first, rest, (Option.some.inj built).symm⟩

theorem length_itemsBuilt? {es : List Expr} {vs : List Value} (built : itemsBuilt? es = some vs) :
    es.length = vs.length := by
  induction es generalizing vs with
  | nil =>
    obtain rfl := Option.some.inj built
    rfl
  | cons e es ih =>
    obtain ⟨w, ws, -, rest, rfl⟩ := itemsBuilt?_cons built
    simp [ih rest]

section

variable (key : KeyText) (s : Scope)

mutual
theorem compile_of_built? : ∀ (e : Expr) {v : Value}, e.built? = some v →
    e.compile key s = .ok (v.literal s.style)
  | .constant v, _, built => by
    obtain rfl := Option.some.inj built
    rfl
  | .array items, _, built => by
    obtain ⟨vs, parts, rfl⟩ := Option.map_eq_some_iff.1 built
    rw [compile, itemTexts_of_built? items parts]
    rfl
  | .map entries, _, built => by
    obtain ⟨vs, parts, rfl⟩ := Option.map_eq_some_iff.1 built
    rw [compile, entryTexts_of_built? entries parts]
    rfl
  | .new _ members, _, built => by
    obtain ⟨vs, parts, rfl⟩ := Option.map_eq_some_iff.1 built
    rw [compile, memberTexts_of_built? members parts]
    rfl
termination_by structural e => e
theorem itemTexts_of_built? : ∀ (es : List Expr) {vs : List Value}, itemsBuilt? es = some vs →
    itemTexts key es s = .ok (Value.literals s.style vs)
  | [], _, built => by
    obtain rfl := Option.some.inj built
    rfl
  | e :: es, _, built => by
    obtain ⟨w, ws, first, rest, rfl⟩ := itemsBuilt?_cons built
    rw [itemTexts, compile_of_built? e first, itemTexts_of_built? es rest]
    rfl
termination_by structural es => es
theorem entryTexts_of_built? : ∀ (es : List (Expr × Expr)) {vs : List (Value × Value)},
    entriesBuilt? es = some vs → entryTexts key es s = .ok (Value.entryLiterals s.style vs)
  | [], _, built => by
    obtain rfl := Option.some.inj built
    rfl
  | (k, e) :: es, _, built => by
    obtain ⟨l, first, built⟩ := Option.bind_eq_some_iff.1 built
    obtain ⟨w, second, built⟩ := Option.bind_eq_some_iff.1 built
    obtain ⟨ws, rest, built⟩ := Option.bind_eq_some_iff.1 built
    obtain rfl := Option.some.inj built
    rw [entryTexts, compile_of_built? k first, compile_of_built? e second, entryTexts_of_built? es rest]
    rfl
termination_by structural es => es
theorem memberTexts_of_built? : ∀ (ms : List (String × Expr)) {vs : List (String × Value)},
    membersBuilt? ms = some vs → memberTexts key ms s = .ok (Value.fieldLiterals s.style vs)
  | [], _, built => by
    obtain rfl := Option.some.inj built
    rfl
  | (n, e) :: ms, _, built => by
    obtain ⟨w, first, built⟩ := Option.bind_eq_some_iff.1 built
    obtain ⟨ws, rest, built⟩ := Option.bind_eq_some_iff.1 built
    obtain rfl := Option.some.inj built
    rw [memberTexts, compile_of_built? e first, memberTexts_of_built? ms rest]
    rfl
termination_by structural ms => ms
end

end

section

variable {e : Expr} {vs : List Value}

theorem eq_of_built?_array (built : e.built? = some (.array vs)) :
    e = .constant (.array vs) ∨ ∃ items, e = .array items ∧ itemsBuilt? items = some vs := by
  cases e with
  | constant v =>
    obtain rfl := Option.some.inj built
    exact .inl rfl
  | array items =>
    obtain ⟨ws, parts, same⟩ := Option.map_eq_some_iff.1 built
    obtain rfl := Value.array.inj same
    exact .inr ⟨items, rfl, parts⟩
  | map | new =>
    obtain ⟨ws, -, same⟩ := Option.map_eq_some_iff.1 built
    cases same
  | _ => cases built

theorem listLength?_of_built? (key : KeyText) (built : e.built? = some (.array vs)) :
    (e.part key).listLength? = some vs.length := by
  rcases eq_of_built?_array built with rfl | ⟨items, rfl, parts⟩
  · rfl
  · exact congrArg some (length_itemsBuilt? parts)

theorem listText_of_built? (key : KeyText) (s : Scope) (built : e.built? = some (.array vs)) :
    (e.part key).listText s = .ok (Text.join ", " (vs.map (Value.literal s.style))) := by
  rw [← Value.literals_eq_map]
  rcases eq_of_built?_array built with rfl | ⟨items, rfl, parts⟩
  · rfl
  · have texts := itemTexts_of_built? key s items parts
    exact Compiled.bind_eq_ok.2 ⟨_, texts, rfl⟩

theorem compile_contains_of_built? (key : KeyText) (s : Scope) (target : Option Expr) (args : List Expr)
    {item : Expr} (built : e.built? = some (.array vs)) (ne : vs ≠ [])
    (split : target.toList ++ args = [e, item]) :
    (call target .contains args).compile key s = (do
      let t ← item.compile key s
      .ok (t ++ " IN " ++ parens (Text.join ", " (vs.map (Value.literal s.style))))) := by
  obtain ⟨n, length⟩ := Nat.exists_eq_succ_of_ne_zero fun none => ne (List.eq_nil_of_length_eq_zero none)
  simp only [compile, targetPart_eq_map, parts_eq_map, Method.text, Callee.oneArgument,
    Visit.splitReceiver_eq _ key split, Compiled.ok_bind, List.map_cons, List.map_nil, containsText,
    listLength?_of_built? key built, length, listText_of_built? key s built]
  rfl

end

/-- An expression that puts a value together is written as the constant of the value is. A list of a
membership test is written bare, and its items in brackets as elsewhere. -/
theorem compile_built {e : Expr} {v : Value} (built : e.built? = some v) (key : KeyText) (s : Scope) :
    (∃ t, e.compile key s = .ok t ∧ (constant v).compile key s = .ok t) ∧
    ∀ vs ≠ [], v = .array vs →
      e.compile key s = .ok ("ARRAY[" ++ Text.join ", " (vs.map (Value.literal s.style)) ++ "]") ∧
      ∀ target args item, target.toList ++ args = [e, item] →
        (call target .contains args).compile key s =
          (call (some (constant v)) .contains [item]).compile key s ∧
        (call target .contains args).compile key s = (do
          let t ← item.compile key s
          .ok (t ++ " IN " ++ parens (Text.join ", " (vs.map (Value.literal s.style))))) := by
  have text := compile_of_built? key s e built
  refine ⟨⟨_, text, rfl⟩, ?_⟩
  rintro vs ne rfl
  refine ⟨?_, fun target args item split => ?_⟩
  · cases vs with
    | nil => exact absurd rfl ne
    | cons w ws => rw [text, ← Value.literals_eq_map]; rfl
  · have list := compile_contains_of_built? key s target args built ne split
    have same := compile_contains_of_built? key s (some (constant (.array vs))) [item] rfl ne rfl
    exact ⟨list.trans same.symm, list⟩

private abbrev watched : Expr :=
  .array [.new none [("Seen", .constant (.bool true)), ("Tags", .constant (.array []))],
    .constant (.array [.string "x"])]

theorem compile_built_watched :
    ∃ v, watched.built? = some v ∧
      (call none .contains [watched, .constant .null]).compile noKey ⟨[], [], [], true, ','⟩ =
        (call (some (constant v)) .contains [.constant .null]).compile noKey ⟨[], [], [], true, ','⟩ ∧
      (call none .contains [watched, .constant .null]).compile noKey ⟨[], [], [], true, ','⟩ =
        .ok ("NULL IN (STRUCT(Seen := true, Tags := ARRAY_REMOVE(ARRAY[0], 0)), " ++
          "ARRAY['x'])") := by
  obtain ⟨-, lists⟩ := compile_built (e := watched) rfl noKey ⟨[], [], [], true, ','⟩
  obtain ⟨-, contains⟩ := lists _ (List.cons_ne_nil _ _) rfl
  obtain ⟨same, text⟩ := contains none _ (.constant .null) rfl
  exact ⟨_, rfl, same, text.trans rfl⟩

end StreamSql.Expr
