import StreamSql.Proofs.Expr.Plain
import StreamSql.Proofs.Naming
import StreamSql.Proofs.Query.GroupKey
import StreamSql.Proofs.Query.Joins

namespace StreamSql

open Text

theorem Expr.isPlain_lambdaBody {e : Expr} (plain : e.isPlain = true) :
    e.lambdaBody.isPlain = true := by
  cases e with
  | lambda =>
    simp only [isPlain, Bool.and_eq_true] at plain
    exact plain.2
  | _ => exact plain

structure Expr.IsSimpleKey (K : Expr) : Prop where
  ne_new : ∀ name ms, K ≠ .new name ms
  ne_parameter : ∀ p, K ≠ .parameter p

theorem Expr.IsSimpleKey.fold {K : Expr} (h : K.IsSimpleKey) : K.fold.IsSimpleKey :=
  ⟨Expr.fold_ne_new h.ne_new, fun p same => h.ne_parameter p (Expr.eq_parameter_of_fold same)⟩

theorem GroupKey.text_plain {k : GroupKey} (plain : k.body.isPlain = true) (h : k.body.IsSimpleKey) :
    k.text.Plain := by
  intro use s hs
  cases use with
  | whole =>
    intro t ok
    rw [text, keyListText_of_ne_new h.ne_new] at ok
    exact Expr.solid_of_compile noKey_plain (hs.bind _) plain ok h.ne_parameter
  | part name =>
    rw [text]
    split
    · next name' ms new => exact absurd new (h.ne_new name' ms)
    · exact .error

theorem GroupKey.body_ofExpr (bindings : List Binding) (e : Expr) :
    (GroupKey.ofExpr bindings e).body = e.lambdaBody.fold := by
  cases e with
  | member | binary =>
    simp only [ofExpr, Expr.fold, Expr.lambdaBody, Expr.constantOr]
    split <;> rename_i folded
    · split at folded <;> cases folded
    · rfl
  | _ => rfl

structure Source.Plain (s : Source) : Prop where
  name : Lettered s.baseName.toList
  columns : ∀ schema, s.schema = some schema → TypeKind.areFieldsPlain schema.columns = true

theorem Source.plain_named {name : String} (word : IsWord name) : (Source.named name).Plain :=
  ⟨word.letters, fun _ none => by cases none⟩

theorem exists_of_scopeSources {o : CompileOptions} {first : Source} {js : List Join} {i : Nat}
    {source : ScopeSource} (found : (scopeSources o first js)[i]? = some source) :
    ∃ s ∈ first :: js.map (·.other), source.schema = s.schema ∧ ∀ a, source.alias? = some a →
      a ∈ Aliases.empty.assignAll ((first :: js.map (·.other)).map (·.displayName o)) := by
  cases js with
  | nil =>
    have only := List.mem_of_getElem? found
    simp only [scopeSources, List.isEmpty_nil, if_true, List.map_nil, List.map_cons, List.zip_cons_cons,
      List.zip_nil_right, List.zipWith_cons_cons, List.zipWith_nil_right, List.mem_singleton] at only
    subst only
    exact ⟨first, List.mem_cons_self, rfl, fun a h => by cases h⟩
  | cons j js =>
    rw [scopeSources_joined o first (List.cons_ne_nil j js), List.getElem?_zipWith_eq_some] at found
    obtain ⟨s, a, at_i, given, rfl⟩ := found
    refine ⟨s, List.mem_of_getElem? at_i, rfl, fun b h => ?_⟩
    obtain rfl : a = b := Option.some.inj h
    exact List.mem_of_getElem? given

namespace Query

structure Plain (q : Query) : Prop where
  select : ∀ e, .select e ∈ q.nodes → e.isPlain = true
  groupBy : ∀ e, .groupBy e ∈ q.nodes → e.isPlain = true
  source : ∀ s, .source s ∈ q.nodes → s.Plain
  joins : ∀ j, .join j ∈ q.nodes → j.other.Plain

variable {o : CompileOptions} {q : Query} {t : String}

theorem exists_source {first : Source} (start : q.source? = some first) {s : Source}
    (mem : s ∈ first :: q.outline.joins.map (·.other)) :
    .source s ∈ q.nodes ∨ ∃ j, .join j ∈ q.nodes ∧ j.other = s := by
  obtain ⟨ns, pull, rfl⟩ := eq_of_source? start
  rcases List.mem_cons.1 mem with rfl | mem
  · exact .inl List.mem_cons_self
  · obtain ⟨j, joined, rfl⟩ := List.mem_map.1 mem
    exact .inr ⟨j, (QueryNode.mem_filterMap_iff QueryNode.join?_eq_some).1 joined, rfl⟩

theorem Plain.of_mem (plain : q.Plain) {first : Source} (start : q.source? = some first) {s : Source}
    (mem : s ∈ first :: q.outline.joins.map (·.other)) : s.Plain := by
  rcases exists_source start mem with source | ⟨j, join, rfl⟩
  · exact plain.source s source
  · exact plain.joins j join

theorem Plain.scope (plain : q.Plain) (point : o.decimalSeparator = '.') : (q.scope o).Plain := by
  have named {i : Nat} {source : ScopeSource} (found : (q.scopeSources o)[i]? = some source) :
      (∀ schema, source.schema = some schema → TypeKind.areFieldsPlain schema.columns = true) ∧
        ∀ a, source.alias? = some a → Lettered a.toList := by
    unfold scopeSources at found
    split at found
    · next first start =>
      obtain ⟨s, mem, schema, given⟩ := exists_of_scopeSources found
      refine ⟨schema ▸ (plain.of_mem start mem).columns, fun a h => ?_⟩
      refine Aliases.lettered_assignAll (List.forall_mem_map.2 fun t among => ?_) (given a h)
      exact Naming.lettered_entityName (plain.of_mem start among).name o.pluralize
    · cases found
  constructor
  · intro i name c found
    obtain ⟨source, at_i, found⟩ := Option.bind_eq_some_iff.1 found
    obtain ⟨schema, declared, found⟩ := Option.bind_eq_some_iff.1 found
    exact TypeKind.isPlain_find? ((named at_i).1 schema declared) found
  · intro i a found
    obtain ⟨source, at_i, found⟩ := Option.bind_eq_some_iff.1 found
    exact (named at_i).2 a found
  · intro p k found
    cases found
  · exact point

end Query

section

variable {name t : String} {value : Expr}

theorem projectedColumn_eq_or (name : String) (value : Expr) (h : Sealed 0 t) :
    projectedColumn name value t = name ∨
      ∃ u, Sealed 0 u ∧ projectedColumn name value t = u ++ " " ++ name := by
  have as : Sealed 0 (t ++ " AS") := h.append (.of_unmarked (by decide))
  have keyword : t ++ " AS " ++ name = t ++ " AS" ++ " " ++ name := by
    rw [← String.toList_inj]
    simp
  unfold projectedColumn
  split
  · next same => exact .inl same
  · split
    · split
      · exact .inr ⟨t, h, rfl⟩
      · exact .inr ⟨_, as, keyword⟩
    · exact .inr ⟨t, h, rfl⟩

structure IsColumn (name column : String) : Prop where
  solid : Solid column
  name_eq : outputName column = name
  name_behind : outputName (" " ++ column) = name

theorem isColumn_projectedColumn (word : IsWord name) (h : Sealed 0 t) :
    IsColumn name (projectedColumn name value t) := by
  have blank : Sealed 0 " " := .of_unmarked (by decide)
  have behind {u : String} (sealed : Sealed 0 u) : Place.outside.behind u.toList = .outside :=
    sealed.behind_eq 0 (Nat.le_refl 0)
  rcases projectedColumn_eq_or name value h with same | ⟨u, sealed, ends⟩
  · rw [same]
    exact ⟨word.solid, outputName_of_not_mem word.blank_not_mem,
      outputName_append (t := "") rfl word.blank_not_mem⟩
  · rw [ends]
    refine ⟨word.solid.append_right (sealed.append blank),
      outputName_append (behind sealed) word.blank_not_mem, ?_⟩
    rw [← String.append_assoc, ← String.append_assoc]
    exact outputName_append (behind (blank.append sealed)) word.blank_not_mem

end

theorem lookup?_bind_zip {s : Scope} {params : List String} {bs : List Binding} {p : String}
    (unbound : s.bindings = []) (h : p ∉ params) : (s.bind (params.zip bs)).lookup? p = none := by
  rw [Scope.lookup?, Scope.bind, unbound, List.append_nil, List.lookup_eq_none_iff]
  intro b mem
  have bound : b.1 ∈ params := List.of_mem_zip (List.mem_reverse.1 mem) |>.1
  simpa using fun same : p = b.1 => h (same ▸ bound)

section

variable {key : KeyText} {s : Scope} {ms : List (String × Expr)} {list : List String}

theorem forall₂_projectedColumns (hk : key.Plain) (hs : s.Plain)
    (plain : ∀ m ∈ ms, IsWord m.1 ∧ m.2.isPlain = true)
    (rows : ∀ m ∈ ms, ∀ p, m.2 = .parameter p → s.lookup? p = none)
    (ok : projectedColumns key s ms = .ok list) :
    List.Forall₂ IsColumn (ms.map Prod.fst) list := by
  induction ms generalizing list with
  | nil => exact Except.ok.inj ok ▸ .nil
  | cons m ms ih =>
    obtain ⟨name, value⟩ := m
    rw [List.forall_mem_cons] at plain rows
    obtain ⟨t, compiled, ok⟩ := Compiled.bind_eq_ok.1 ok
    obtain ⟨ts, rest, ok⟩ := Compiled.bind_eq_ok.1 ok
    have noRow (p : String) : value ≠ .parameter p := by
      rintro rfl
      have unbound : Scope.lookup? { s with lowerBools := true } p = none := rows.1 p rfl
      rw [Expr.compile, parameterText, unbound] at compiled
      cases compiled
    have solid : Solid t := Expr.solid_of_compile hk (hs.lowerBools true) plain.1.2 compiled noRow
    rw [if_neg (by simpa using solid.ne)] at ok
    obtain rfl := Except.ok.inj ok
    exact .cons (isColumn_projectedColumn plain.1.1 solid.toSealed) (ih plain.2 rows.2 rest)

end

section

variable {names list : List String}

theorem solid_of_forall₂ (h : List.Forall₂ IsColumn names list) : ∀ column ∈ list, Solid column := by
  induction h with
  | nil => simp
  | cons first _ ih => exact List.forall_mem_cons.2 ⟨first.solid, ih⟩

theorem map_outputName_columns (h : List.Forall₂ IsColumn names list) :
    (columns (join ", " list)).map outputName = names := by
  have solid := solid_of_forall₂ h
  cases h with
  | nil => rfl
  | cons first rest =>
    rw [columns_join _ _ solid, List.map_cons, first.name_eq, List.map_map]
    congr 1
    rw [← List.forall₂_eq_eq_eq, List.forall₂_map_left_iff]
    exact rest.flip.imp fun _ _ column => column.name_behind

end

namespace Query

variable {o : CompileOptions} {q : Query} {t : String}

theorem key_plain (group : ∀ e, .groupBy e ∈ q.nodes → e.lambdaBody.IsSimpleKey) (plain : q.Plain)
    (sources : List ScopeSource) : KeyText.Plain (q.clauses.key sources) := by
  unfold Clauses.key
  split
  · next k keyed =>
    obtain ⟨e, grouped, rfl⟩ := Option.map_eq_some_iff.1 keyed
    have mem : .groupBy e ∈ q.nodes := List.mem_of_mem_drop
      ((QueryNode.mem_filterMap_iff QueryNode.groupBy?_eq_some).1 (List.mem_of_head? grouped))
    refine GroupKey.text_plain ?_ ?_ <;> rw [GroupKey.body_ofExpr]
    · exact Expr.isPlain_fold (Expr.isPlain_lambdaBody (plain.groupBy e mem))
    · exact (group e mem).fold
  · exact noKey_plain

theorem select_clauses {e : Expr} (ok : q.compile o = .ok t) (select : .select e ∈ q.nodes) :
    q.clauses.select = some e := by
  obtain ⟨first, ns, c, u, nodes, chain, -⟩ := compile_eq_ok ok
  obtain ⟨fit, -⟩ := Clauses.ofNodes_eq_ok_iff.1 chain
  have mem : e ∈ ns.filterMap QueryNode.select? :=
    (QueryNode.mem_filterMap_iff QueryNode.select?_eq_some).2 (by simpa [nodes] using select)
  obtain ⟨d, one⟩ := List.length_eq_one_iff.1
    (Nat.le_antisymm fit.select (List.length_pos_of_mem mem))
  rw [one, List.mem_singleton] at mem
  simp only [clauses, nodes, List.drop_succ_cons, List.drop_zero, Clauses.ofChain, one, mem,
    List.head?_cons]

variable {params : List String} {typeName : Option String} {members : List (String × Expr)}

theorem exists_columns (point : o.decimalSeparator = '.') (ok : q.compile o = .ok t)
    (select : .select (.lambda params (.new typeName members)) ∈ q.nodes)
    (rows : ∀ m ∈ members, ∀ p ∈ params, m.2 ≠ .parameter p)
    (group : ∀ e, .groupBy e ∈ q.nodes → e.lambdaBody.IsSimpleKey) (plain : q.Plain) {list : String}
    (columnsText : q.clauses.columnsText (q.scopeSources o) (q.scope o) = .ok list) :
    ∃ cs, list = join ", " cs ∧ List.Forall₂ IsColumn (members.map Prod.fst) cs := by
  simp only [Clauses.columnsText, Clauses.projection, select_clauses ok select, projectionText,
    Expr.fold, Expr.foldMembers_eq_map] at columnsText
  obtain ⟨cs, projected, joined⟩ := Compiled.bind_eq_ok.1 columnsText
  refine ⟨cs, (Except.ok.inj joined).symm, ?_⟩
  have parts := plain.select _ select
  simp only [Expr.isPlain, Bool.and_eq_true, Expr.areMembersPlain_iff] at parts
  have words : ∀ m ∈ members.map fun m => (m.1, m.2.fold), IsWord m.1 ∧ m.2.isPlain = true :=
    List.forall_mem_map.2 fun m mem => ⟨(parts.2 m mem).1, Expr.isPlain_fold (parts.2 m mem).2⟩
  have noRows : ∀ m ∈ members.map fun m => (m.1, m.2.fold), ∀ p, m.2 = .parameter p → p ∉ params :=
    List.forall_mem_map.2 fun m mem p row bound => rows m mem p bound (Expr.eq_parameter_of_fold row)
  have named := forall₂_projectedColumns (key_plain group plain _) ((plain.scope point).bind _) words
    (fun m mem p row => lookup?_bind_zip rfl (noRows m mem p row)) projected
  rw [List.map_map] at named
  exact named

/-- A projection to an object has one column for each member, in order and with its name. With no
member it has all columns of the sources. -/
theorem compile_columns (point : o.decimalSeparator = '.') (ok : q.compile o = .ok t)
    (select : .select (.lambda params (.new typeName members)) ∈ q.nodes)
    (rows : ∀ m ∈ members, ∀ p ∈ params, m.2 ≠ .parameter p)
    (group : ∀ e, .groupBy e ∈ q.nodes → e.lambdaBody.IsSimpleKey) (plain : q.Plain) :
    ∃ list source bs rest, q.Joined o t source bs ∧
      t = "SELECT " ++ list ++ JoinBlock.fromText source bs ++ rest ∧
      (members = [] → list = "*") ∧
      (members ≠ [] → (columns list).map outputName = members.map Prod.fst) := by
  obtain ⟨source, bs, joined⟩ := exists_joined ok
  obtain ⟨list, rest, columnsText, whole⟩ := joined.opens
  obtain ⟨cs, rfl, named⟩ := exists_columns point ok select rows group plain columnsText
  refine ⟨_, source, bs, rest, joined, whole, ?none, fun some => ?some⟩
  case none =>
    rintro rfl
    obtain rfl := List.forall₂_nil_left_iff.1 named
    rfl
  case some =>
    have list : join ", " cs ≠ "" := by
      obtain ⟨m, ms, rfl⟩ := List.exists_cons_of_ne_nil some
      obtain ⟨c, cs, first, -, rfl⟩ := List.forall₂_cons_left_iff.1 named
      exact first.solid.join_ne_empty cs
    rw [if_neg (by simpa using list)]
    exact map_outputName_columns named

private abbrev charges : Query := ⟨[.source (.named "Charge"),
  .groupBy (.lambda ["c"] (.member (.parameter "c") "City" none)),
  .select (.lambda ["g"] (.new none [("Key", .member (.parameter "g") "Key" none),
    ("Note", .constant (.string "net, (gross")),
    ("Total", .binary .add (.call (some (.parameter "g")) (.aggregate .sum)
      [.lambda ["c"] (.member (.parameter "c") "Amount" none)]) (.constant (.int 1)))]))], false⟩

theorem compile_columns_charges : ∃ t, charges.compile .standard = .ok t ∧
    ∃ list source bs rest, charges.Joined .standard t source bs ∧
      t = "SELECT " ++ list ++ JoinBlock.fromText source bs ++ rest ∧
      (columns list).map outputName = ["Key", "Note", "Total"] := by
  have plain : charges.Plain := {
    select := by simp; decide
    groupBy := by simp; decide
    source := by simpa using Source.plain_named (by decide)
    joins := by simp }
  obtain ⟨t, ok⟩ : ∃ t, charges.compile .standard = .ok t := ⟨_, rfl⟩
  have key : ∀ e, .groupBy e ∈ charges.nodes → e.lambdaBody.IsSimpleKey := by
    intro e mem
    obtain rfl : e = .lambda ["c"] (.member (.parameter "c") "City" none) := by simpa using mem
    exact ⟨nofun, nofun⟩
  obtain ⟨list, source, bs, rest, joined, whole, -, named⟩ := compile_columns rfl ok
    (.tail _ (.tail _ (.head _))) (by simp) key plain
  exact ⟨t, ok, list, source, bs, rest, joined, whole, named (List.cons_ne_nil _ _)⟩

example : (charges.compile .standard).toOption =
    some ("SELECT City Key, 'net, (gross' Note, SUM(Amount) + 1 Total FROM Charges" ++
      " GROUP BY City EMIT CHANGES;") := by
  decide +kernel

private abbrev allColumns : Query := ⟨[.source (.named "Location"),
  .select (.lambda ["l"] (.new none []))], false⟩

theorem not_compile_columns :
    ¬ ∀ (q : Query) (t : String) (params : List String) (typeName : Option String)
      (members : List (String × Expr)), q.compile .standard = .ok t →
      .select (.lambda params (.new typeName members)) ∈ q.nodes →
      (∀ m ∈ members, ∀ p ∈ params, m.2 ≠ .parameter p) →
      (∀ e, .groupBy e ∈ q.nodes → e.lambdaBody.IsSimpleKey) → q.Plain →
      ∃ list source bs rest, q.Joined .standard t source bs ∧
        t = "SELECT " ++ list ++ JoinBlock.fromText source bs ++ rest ∧
        (columns list).map outputName = members.map Prod.fst := by
  intro all
  have plain : allColumns.Plain := {
    select := by simp; decide
    groupBy := by simp
    source := by simpa using Source.plain_named (by decide)
    joins := by simp }
  obtain ⟨t, ok, text⟩ : ∃ t, allColumns.compile .standard = .ok t ∧
      t = "SELECT * FROM Locations EMIT CHANGES;" := ⟨_, rfl, by decide⟩
  obtain ⟨list, source, bs, rest, -, whole, none⟩ := all allColumns _ ["l"] none [] ok
    (.tail _ (.head _)) (by simp) (by simp) plain
  obtain rfl := eq_empty_of_columns (List.map_eq_nil_iff.1 none)
  have eighth := congrArg (fun t : String => t.toList[7]?) (text.symm.trans whole)
  simp [JoinBlock.fromText] at eighth

end Query

end StreamSql
