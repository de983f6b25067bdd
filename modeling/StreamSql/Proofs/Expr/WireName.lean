import StreamSql.Proofs.Expr.Widen

/-!
Fields by their wire names. An access starts at a row, goes on by members and subscripts, and enters
the items of a collection in a lambda. The schema of the row declares a kind for everything on the way;
the kind that is inferred for the text goes along with members of a row only.
-/

namespace StreamSql

abbrev Kinds := String → Option TypeKind

/-- In a lambda over a collection the last parameter is one of its items. -/
def Kinds.enter (Γ : Kinds) (params : List String) (element : TypeKind) : Kinds := fun p =>
  if params.getLast? = some p then some element else if p ∈ params then none else Γ p

/-- An access arrives at a value of a kind: a member at that of the field, a subscript at that of the
items. -/
inductive Kinds.Arrives (Γ : Kinds) : Expr → TypeKind → Prop
  | parameter {p kind} : Γ p = some kind → Arrives Γ (.parameter p) kind
  | member {e fields name c rename} : Arrives Γ e (.struct fields) →
    Column.find? name fields = some c → Arrives Γ (.member e name rename) c.kind
  | index {e kind element i} : Arrives Γ e kind → kind.element? = some element →
    Arrives Γ (.binary .index e i) element

namespace Scope

variable {s : Scope} {params : List String} {kind : Option TypeKind} {p : String} {i : Nat}

def items (s : Scope) (params : List String) (kind : Option TypeKind) : Scope :=
  (match params.getLast? with
    | some last => s.withItemKind last kind
    | none => s).bind (params.map (·, .item))

@[simp] theorem sources_items : (s.items params kind).sources = s.sources := by
  cases h : params.getLast? <;> cases kind <;> simp [items, bind, withItemKind, h]

theorem lookup_map_item (p : String) (ps : List String) :
    (ps.map (·, Binding.item)).lookup p = if p ∈ ps then some .item else none := by
  induction ps with
  | nil => rfl
  | cons q ps ih =>
    by_cases same : p = q
    · simp [same]
    · simpa [List.lookup_cons, same, beq_eq_false_iff_ne.2 same] using ih

theorem lookup?_items :
    (s.items params kind).lookup? p = if p ∈ params then some .item else s.lookup? p := by
  have bindings : (s.items params kind).bindings =
      params.reverse.map (·, Binding.item) ++ s.bindings := by
    cases h : params.getLast? <;> cases kind <;> simp [items, bind, withItemKind, h]
  rw [lookup?, bindings, List.lookup_append, lookup_map_item]
  simp only [List.mem_reverse]
  split <;> rfl

def rowKind? (s : Scope) (i : Nat) : Option TypeKind :=
  ((s.sources[i]?).bind ScopeSource.schema).map fun schema => .struct schema.columns

theorem column?_eq_find? {fields : List Column} (h : s.rowKind? i = some (.struct fields))
    (name : String) : s.column? i name = Column.find? name fields := by
  obtain ⟨schema, found, columns⟩ := Option.map_eq_some_iff.1 h
  obtain rfl := TypeKind.struct.inj columns
  obtain ⟨source, at_i, has⟩ := Option.bind_eq_some_iff.1 found
  simp [column?, at_i, has, Schema.find?]

def rowKinds (s : Scope) : Kinds := fun p =>
  match s.lookup? p with
  | some (.source i) => s.rowKind? i
  | _ => none

/-- What the parameters in a scope are declared to be: outside of lambdas all are rows. -/
inductive Declares : Scope → Kinds → Prop
  | rows {s : Scope} : (∀ p, s.lookup? p ≠ some .item) → Declares s s.rowKinds
  | items {s : Scope} {Γ : Kinds} {collection : Expr} {kind element : TypeKind}
    {params : List String} : Declares s Γ → Γ.Arrives collection kind →
    kind.element? = some element →
    Declares (s.items params ((collection.kind? s).bind TypeKind.element?)) (Γ.enter params element)

def row? (s : Scope) : Expr → Option Nat
  | .parameter p =>
    match s.lookup? p with
    | some (.source i) => some i
    | _ => none
  | _ => none

theorem row?_eq_some {e : Expr} (h : s.row? e = some i) :
    ∃ p, e = .parameter p ∧ s.lookup? p = some (.source i) := by
  unfold row? at h
  split at h
  · split at h
    · exact ⟨_, rfl, Option.some.inj h ▸ ‹_›⟩
    · cases h
  · cases h

theorem Declares.lookup? {Γ : Kinds} (h : s.Declares Γ) {kind : TypeKind} (declared : Γ p = some kind) :
    s.lookup? p = some .item ∨ ∃ i, s.lookup? p = some (.source i) ∧ s.rowKind? i = some kind := by
  induction h generalizing kind with
  | rows =>
    simp only [rowKinds] at declared
    split at declared
    · exact .inr ⟨_, ‹_›, declared⟩
    · cases declared
  | @items s Γ collection _ element params _ _ _ ih =>
    rw [lookup?_items]
    by_cases mem : p ∈ params
    · exact .inl (if_pos mem)
    · have other : params.getLast? ≠ some p := fun last => mem (List.mem_of_getLast? last)
      simp only [Kinds.enter, if_neg other, if_neg mem] at declared ⊢
      simpa only [rowKind?, sources_items] using ih declared

end Scope

def Expr.onRow (s : Scope) : Expr → Bool
  | .member target _ _ => target.onRow s
  | e => (s.row? e).isSome

section

variable {s : Scope} {Γ : Kinds} {e : Expr} {kind : TypeKind}

theorem Expr.kind?_member {target : Expr} (h : ∀ p, target ≠ .parameter p) (name : String)
    (rename : Option String) :
    (Expr.member target name rename).kind? s =
      ((target.kind? s).bind TypeKind.fields?).bind fun fields =>
        (Column.find? name fields).map Column.kind := by
  cases target with
  | parameter p => exact absurd rfl (h p)
  | _ => simp [kind?, Option.bind_assoc]

theorem Scope.Declares.kind?_eq (declares : s.Declares Γ) (arrives : Γ.Arrives e kind)
    (h : ∀ p, e ≠ .parameter p) : e.kind? s = if e.onRow s then some kind else none := by
  induction arrives with
  | parameter => exact absurd rfl (h _)
  | @member e fields name c rename arrives found ih =>
    by_cases isParameter : ∃ p, e = .parameter p
    · obtain ⟨p, rfl⟩ := isParameter
      cases arrives with
      | parameter declared =>
        rcases declares.lookup? declared with item | ⟨i, row, columns⟩
        · simp [Expr.kind?, Expr.onRow, Scope.row?, item]
        · simp [Expr.kind?, Expr.onRow, Scope.row?, row, s.column?_eq_find? columns, found]
    · have notParameter : ∀ p, e ≠ .parameter p := fun p same => isParameter ⟨p, same⟩
      rw [Expr.kind?_member notParameter, ih notParameter, Expr.onRow]
      split <;> simp [TypeKind.fields?, found]
  | index => simp [Expr.kind?, Expr.onRow, Scope.row?]

end

def Scope.fieldText (s : Scope) (target : Expr) (t name : String) : String :=
  match s.row? target with
  | some i => s.columnText i name (some name)
  | none => t ++ "->" ++ name

theorem callText_ne_arrow {f : String} (h : '>' ∉ f.toList) (t name : String) :
    callText f [t] ≠ t ++ "->" ++ name := by
  intro same
  have arrows := congrArg (fun u : String => u.toList.count '>') same
  simp [callText, Text.join, List.count_eq_zero_of_not_mem h] at arrows

theorem memberText_length_ne (s : Scope) (target : Expr) (rename : Option String) (t name : String) :
    memberText s target "Length" rename t ≠ t ++ "->" ++ name := by
  simp only [memberText, if_true]
  split <;> exact callText_ne_arrow (by decide) t name

theorem memberText_of_ne {name t : String} (h : name ≠ "Length") (shown : t ≠ "") (s : Scope)
    (target : Expr) :
    memberText s target name none t = t ++ "->" ++
      ((((target.kind? s).bind TypeKind.fields?).bind (Column.find? name)).map
        Column.wireName).getD name := by
  simp [memberText, h, shown]

section

variable {s : Scope} {Γ : Kinds} {target : Expr} {kind : TypeKind} {fields : List Column}
  {name t : String} {c : Column} {key : KeyText}

theorem Scope.Declares.access_eq (declares : s.Declares Γ) (arrives : Γ.Arrives target kind)
    (h : ∀ p, target ≠ .parameter p) (name : String) (rename : Option String) :
    access s target name rename = .member := by
  cases arrives with
  | parameter => exact absurd rfl (h _)
  | index => rfl
  | @member inner _ name _ _ arrives _ =>
    have noGroup : s.isGrouping inner = false := by
      generalize TypeKind.struct _ = kind at arrives
      cases arrives with
      | parameter declared =>
        rcases declares.lookup? declared with item | ⟨i, row, -⟩
        · simp [Scope.isGrouping, item]
        · simp [Scope.isGrouping, row]
      | _ => rfl
    unfold access
    split <;> simp_all

theorem Expr.compile_member_of_access {rename : Option String}
    (member : access s target name rename = .member) (ok : target.compile key s = .ok t) :
    (Expr.member target name rename).compile key s = .ok (memberText s target name rename t) := by
  simp only [compile, member, ok]
  rfl

theorem Scope.fieldText_of_none (row : s.row? target = none) (t name : String) :
    s.fieldText target t name = t ++ "->" ++ name := by
  simp [fieldText, row]

theorem Scope.Declares.compile_column {i : Nat} (declares : s.Declares Γ)
    (arrives : Γ.Arrives target (.struct fields)) (found : Column.find? name fields = some c)
    (row : s.row? target = some i) (t : String) :
    (Expr.member target name none).compile key s = .ok (s.fieldText target t c.wireName) := by
  obtain ⟨p, rfl, source⟩ := row?_eq_some row
  cases arrives with
  | parameter declared =>
    rcases declares.lookup? declared with item | ⟨j, source', columns⟩
    · simp [source] at item
    · obtain rfl : i = j := by simpa [source] using source'
      have column : s.column? i name = some c := by rw [s.column?_eq_find? columns, found]
      simp [Expr.compile, access, source, Scope.fieldText, row, Scope.columnText, column]

theorem compile_itemMember_iff {p : String} (item : s.lookup? p = some .item) (wire : String) :
    (Expr.member (.parameter p) name none).compile key s = .ok (p ++ "->" ++ wire) ↔
      name ≠ "Length" ∧ wire = name := by
  by_cases length : name = "Length"
  · subst length
    have member : access s (.parameter p) "Length" none = .member := by simp [access, item]
    have ok : (Expr.parameter p).compile key s = .ok p := by simp [Expr.compile, parameterText, item]
    rw [Expr.compile_member_of_access member ok]
    simp [memberText_length_ne]
  · simp [Expr.compile, access, item, length, eq_comm]

theorem Scope.Declares.compile_innerMember_iff (declares : s.Declares Γ)
    (arrives : Γ.Arrives target (.struct fields)) (found : Column.find? name fields = some c)
    (ok : target.compile key s = .ok t) (h : ∀ p, target ≠ .parameter p) (shown : t ≠ "") :
    (Expr.member target name none).compile key s = .ok (t ++ "->" ++ c.wireName) ↔
      name ≠ "Length" ∧ (target.onRow s ∨ c.wireName = name) := by
  rw [Expr.compile_member_of_access (declares.access_eq arrives h name none) ok, Except.ok.injEq]
  by_cases length : name = "Length"
  · subst length
    simp [memberText_length_ne]
  · rw [memberText_of_ne length shown, declares.kind?_eq arrives h]
    cases target.onRow s <;> simp [TypeKind.fields?, found, length, eq_comm]

/-- A field is written by its wire name where it is a column of a row. Elsewhere it is so only if it is
not called `Length`, and if the access is one to members of a row or the field is not renamed. -/
theorem Scope.Declares.compile_member_iff (declares : s.Declares Γ)
    (arrives : Γ.Arrives target (.struct fields)) (found : Column.find? name fields = some c)
    (ok : target.compile key s = .ok t) (shown : (s.row? target).isSome ∨ t ≠ "") :
    (Expr.member target name none).compile key s = .ok (s.fieldText target t c.wireName) ↔
      (s.row? target).isSome ∨ name ≠ "Length" ∧ (target.onRow s ∨ c.wireName = name) := by
  cases row : s.row? target with
  | some i => exact iff_of_true (declares.compile_column arrives found row t) (.inl rfl)
  | none =>
    have notEmpty : t ≠ "" := by simpa [row] using shown
    simp only [s.fieldText_of_none row, Option.isSome_none, Bool.false_eq_true, false_or]
    by_cases isParameter : ∃ p, target = .parameter p
    · obtain ⟨p, rfl⟩ := isParameter
      have item : s.lookup? p = some .item := by
        cases arrives with
        | parameter declared =>
          rcases declares.lookup? declared with item | ⟨i, source, -⟩
          · exact item
          · simp [Scope.row?, source] at row
      obtain rfl : p = t := by simpa [Expr.compile, parameterText, item] using ok
      rw [compile_itemMember_iff item]
      simp [Expr.onRow, row]
    · exact declares.compile_innerMember_iff arrives found ok (fun p same => isParameter ⟨p, same⟩)
        notEmpty

end

private abbrev idField : Column := (Column.ofKind "Id" .int).renamed "id"

private abbrev mainField : Column := (Column.ofKind "Main" (.struct [idField])).renamed "main"

private abbrev tagsField : Column := (Column.ofKind "Tags" (.array (.struct [idField]))).renamed "tags"

private abbrev ofMovies : Scope :=
  ⟨[⟨"Movies", none, some ⟨"Movie", [mainField, tagsField]⟩⟩], [("m", .source 0)], [], false, '.'⟩

private abbrev ofTags : Scope := ofMovies.items ["x"] (some (.struct [idField]))

private abbrev mainTag : Expr := .member (.parameter "m") "Main" none

private abbrev tagList : Expr := .member (.parameter "m") "Tags" none

private theorem declares_ofMovies : ofMovies.Declares ofMovies.rowKinds := by
  refine .rows fun p => ?_
  simp only [Scope.lookup?, List.lookup_cons, List.lookup_nil]
  split <;> simp

private theorem arrives_tagList : ofMovies.rowKinds.Arrives tagList tagsField.kind :=
  .member (.parameter rfl) rfl

private theorem declares_ofTags : ofTags.Declares (ofMovies.rowKinds.enter ["x"] (.struct [idField])) :=
  .items declares_ofMovies arrives_tagList rfl

theorem compile_member_iff_tags :
    (Expr.member mainTag "Id" none).compile noKey ofMovies = .ok "main->id" ∧
    (Expr.member (.binary .index tagList (.constant (.int 0))) "Id" none).compile noKey ofMovies ≠
      .ok "tags[0]->id" ∧
    (Expr.member (.parameter "x") "Id" none).compile noKey ofTags ≠ .ok "x->id" := by
  have found : Column.find? "Id" [idField] = some idField := rfl
  have onRow : ofMovies.rowKinds.Arrives mainTag mainField.kind := .member (.parameter rfl) rfl
  have subscript := Kinds.Arrives.index (i := .constant (.int 0)) arrives_tagList rfl
  have item : (ofMovies.rowKinds.enter ["x"] (.struct [idField])).Arrives (.parameter "x")
    (.struct [idField]) := .parameter rfl
  refine ⟨?_, fun same => ?_, fun same => ?_⟩
  · exact (declares_ofMovies.compile_member_iff onRow found rfl (.inr (by decide))).2 (by decide)
  · have first : (Expr.binary .index tagList (.constant (.int 0))).compile noKey ofMovies =
        .ok "tags[0]" := rfl
    have iff := declares_ofMovies.compile_member_iff subscript found first (.inr (by decide))
    exact absurd (iff.1 same) (by decide)
  · have first : (Expr.parameter "x").compile noKey ofTags = .ok "x" := rfl
    have iff := declares_ofTags.compile_member_iff item found first (.inr (by decide))
    exact absurd (iff.1 same) (by decide)

theorem not_compile_member :
    ¬ ∀ (s : Scope) (Γ : Kinds) (key : KeyText) (target : Expr) (fields : List Column) (name t : String)
      (c : Column), s.Declares Γ → Γ.Arrives target (.struct fields) →
      Column.find? name fields = some c → target.compile key s = .ok t →
      (Expr.member target name none).compile key s = .ok (s.fieldText target t c.wireName) := by
  intro wire
  have text := wire ofTags _ noKey (.parameter "x") [idField] "Id" "x" idField declares_ofTags
    (.parameter rfl) rfl rfl
  exact absurd (Except.ok.inj text) (by decide)

end StreamSql
