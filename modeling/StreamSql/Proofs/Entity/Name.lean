import StreamSql.Entity.Create
import StreamSql.Entity.Insert
import StreamSql.Proofs.Query.Joins

namespace StreamSql

namespace StatementKind

def opening (kind : StatementKind) (ifNotExists : Bool) : String :=
  kind.keyword ++ (if ifNotExists then " IF NOT EXISTS" else "") ++ " "

theorem head_eq_ok {kind : StatementKind} {ifNotExists : Bool} {name t : String}
    (ok : kind.head ifNotExists name = .ok t) : t = kind.opening ifNotExists ++ name := by
  unfold head at ok
  split at ok
  · cases ok
  · exact (Except.ok.inj ok).symm

end StatementKind

section

variable {schema : Schema} {m : Metadata} {q : Query} {o : CompileOptions} {kind : StatementKind}
  {ifNotExists : Bool} {t : String}

theorem createStatement_eq_ok (ok : createStatement schema m kind ifNotExists = .ok t) :
    t = kind.opening ifNotExists ++ m.resolveName schema.name ++
      (" (" ++ Text.join ", " (schema.columns.map (·.definition kind)) ++ ")" ++ m.withClause ++
        ";") := by
  unfold createStatement at ok
  split at ok
  · cases ok
  · obtain ⟨head, opened, ok⟩ := Compiled.bind_eq_ok.1 ok
    obtain rfl := Except.ok.inj ok
    rw [StatementKind.head_eq_ok opened]
    simp only [String.append_assoc]

theorem createAsSelect_eq_ok (ok : createAsSelect q m kind ifNotExists o = .ok t) :
    ∃ name select, m.queryName q = .ok name ∧ q.selectText o = .ok select ∧
      t = kind.opening ifNotExists ++ name ++ (m.withClause ++ " AS " ++ select ++ ";") := by
  unfold createAsSelect at ok
  split at ok
  · cases ok
  · obtain ⟨name, named, ok⟩ := Compiled.bind_eq_ok.1 ok
    obtain ⟨select, selected, ok⟩ := Compiled.bind_eq_ok.1 ok
    obtain ⟨head, opened, ok⟩ := Compiled.bind_eq_ok.1 ok
    obtain rfl := Except.ok.inj ok
    refine ⟨name, select, named, selected, ?_⟩
    rw [StatementKind.head_eq_ok opened]
    simp only [String.append_assoc]

end

theorem insertStatement_eq_ok {schema : Schema} {row : Json} {p : InsertProperties} {t : String}
    (ok : insertStatement schema row p = .ok t) :
    ∃ ms as, row = .object ms ∧ Insert.assignments p.style ms schema.columns = .ok as ∧ as ≠ [] ∧
      t = "INSERT INTO " ++ p.resolveName schema.name ++
        (" (" ++ Text.join ", " (as.map (·.1)) ++ ") VALUES (" ++ Text.join ", " (as.map (·.2)) ++
          ");") := by
  cases row with
  | object ms =>
    obtain ⟨as, assigned, ok⟩ := Compiled.bind_eq_ok.1 ok
    split at ok
    · cases ok
    · rename_i some
      obtain rfl := Except.ok.inj ok
      refine ⟨ms, as, rfl, assigned, by simpa using some, ?_⟩
      simp only [String.append_assoc]
  | _ => cases ok

theorem head?_scopeSources (o : CompileOptions) (first : Source) (js : List Join) :
    (scopeSources o first js).head?.map (·.name) = some (first.displayName o) := by
  cases js with
  | nil => rfl
  | cons j js =>
    obtain ⟨f, sources, -⟩ := exists_scopeSources o first (List.cons_ne_nil j js)
    rw [sources]
    rfl

theorem Query.Joined.name_eq {o : CompileOptions} {q : Query} {t : String} {source : ScopeSource}
    {bs : List JoinBlock} {first : Source} (joined : q.Joined o t source bs)
    (start : q.source? = some first) : source.name = first.displayName o := by
  have head := head?_scopeSources o first q.outline.joins
  have sources := joined.sources
  simp only [Query.scopeSources, start] at sources
  rw [sources] at head
  exact Option.some.inj head

/-- An entity is created with columns, filled and queried by one name. Created as a query it has its
base name, which is that name only where nothing is put in the plural. -/
theorem statements_name {base : String} {p : Bool} {m : Metadata} {ps : InsertProperties}
    {o : CompileOptions} {q : Query} {first : Source}
    (created : m.entityName = some base ∧ m.pluralize = p)
    (filled : ps.entityName = some base ∧ ps.pluralize = p)
    (queried : q.source? = some first ∧ first.overrideName = some base ∧ o.pluralize = p) :
    let name := Naming.entityName p base
    (∀ schema kind ifNotExists t, createStatement schema m kind ifNotExists = .ok t →
      t = kind.opening ifNotExists ++ name ++
        (" (" ++ Text.join ", " (schema.columns.map (·.definition kind)) ++ ")" ++ m.withClause ++
          ";")) ∧
    (∀ schema row t, insertStatement schema row ps = .ok t →
      ∃ ms as, row = .object ms ∧ Insert.assignments ps.style ms schema.columns = .ok as ∧
        t = "INSERT INTO " ++ name ++
          (" (" ++ Text.join ", " (as.map (·.1)) ++ ") VALUES (" ++
            Text.join ", " (as.map (·.2)) ++ ");")) ∧
    (∀ t, q.compile o = .ok t → ∃ source bs, q.Joined o t source bs ∧ source.name = name) ∧
    (∀ q' o' kind ifNotExists t, createAsSelect q' m kind ifNotExists o' = .ok t →
      ∃ select, q'.selectText o' = .ok select ∧
        t = kind.opening ifNotExists ++ base ++ (m.withClause ++ " AS " ++ select ++ ";") ∧
        (t = kind.opening ifNotExists ++ name ++ (m.withClause ++ " AS " ++ select ++ ";") ↔
          p = false ∨ Naming.pluralize base = base)) := by
  obtain ⟨entity, rfl⟩ := created
  obtain ⟨filledEntity, filledPlural⟩ := filled
  obtain ⟨start, override, queriedPlural⟩ := queried
  refine ⟨fun schema kind ifNotExists t ok => ?columns, fun schema row t ok => ?row,
    fun t ok => ?query, fun q' o' kind ifNotExists t ok => ?asQuery⟩
  case columns => simpa [Metadata.resolveName, entity] using createStatement_eq_ok ok
  case row =>
    obtain ⟨ms, as, object, assigned, -, text⟩ := insertStatement_eq_ok ok
    refine ⟨ms, as, object, assigned, ?_⟩
    simpa [InsertProperties.resolveName, filledEntity, filledPlural] using text
  case query =>
    obtain ⟨source, bs, joined⟩ := Query.exists_joined ok
    refine ⟨source, bs, joined, ?_⟩
    rw [joined.name_eq start, Source.displayName, Source.baseName, override, queriedPlural]
    rfl
  case asQuery =>
    obtain ⟨name, select, named, selected, rfl⟩ := createAsSelect_eq_ok ok
    obtain rfl : base = name := by simpa [Metadata.queryName, entity] using named
    refine ⟨select, selected, rfl, ?_⟩
    rw [String.append_left_inj, String.append_right_inj]
    cases m.pluralize <;> simp [Naming.entityName, eq_comm]

private abbrev movie : Metadata := { Metadata.standard with entityName := some "Movie" }

private abbrev movies : Query := .ofSource ⟨"Film", some "Movie", none⟩

private abbrev film : Schema := ⟨"Film", [.ofKind "Id" .int]⟩

theorem statements_name_movie :
    Naming.entityName true "Movie" = "Movies" ∧
    createStatement film movie .createTable true =
      .ok ("CREATE TABLE IF NOT EXISTS " ++ "Movies" ++
        (" (" ++ "Id INT" ++ ")" ++ " WITH ( VALUE_FORMAT='Json' )" ++ ";")) ∧
    (∃ (t : String) (as : List (String × String)), insertStatement film (.object [("Id", .null)])
        { InsertProperties.standard with entityName := some "Movie" } = .ok t ∧
      t = "INSERT INTO " ++ "Movies" ++ (" (" ++ Text.join ", " (as.map Prod.fst) ++ ") VALUES (" ++
        Text.join ", " (as.map Prod.snd) ++ ");")) ∧
    (∃ t, movies.compile .standard = .ok t ∧
      ∃ source bs, movies.Joined .standard t source bs ∧ source.name = "Movies") ∧
    ∃ t select, createAsSelect movies movie .createStream false .standard = .ok t ∧
      movies.selectText .standard = .ok select ∧
      t = "CREATE STREAM " ++ "Movie" ++ (" WITH ( VALUE_FORMAT='Json' )" ++ " AS " ++ select ++ ";") ∧
      t ≠ "CREATE STREAM " ++ "Movies" ++ (" WITH ( VALUE_FORMAT='Json' )" ++ " AS " ++ select ++ ";") := by
  have plural : Naming.entityName true "Movie" = "Movies" := by decide
  obtain ⟨created, filled, queried, asQuery⟩ := @statements_name "Movie" true movie
    { InsertProperties.standard with entityName := some "Movie" } .standard movies _
    ⟨rfl, rfl⟩ ⟨rfl, rfl⟩ ⟨rfl, rfl, rfl⟩
  rw [plural] at created filled queried asQuery
  refine ⟨plural, congrArg Except.ok (created film .createTable true _ rfl), ?row, ?query, ?asQuery⟩
  case row =>
    obtain ⟨-, as, -, -, text⟩ := filled film (.object [("Id", .null)]) _ rfl
    exact ⟨_, as, rfl, text⟩
  case query =>
    obtain ⟨t, ok⟩ : ∃ t, movies.compile .standard = .ok t := ⟨_, rfl⟩
    exact ⟨t, ok, queried t ok⟩
  case asQuery =>
    obtain ⟨select, selected, text, iff⟩ := asQuery movies .standard .createStream false _ rfl
    exact ⟨_, select, rfl, selected, text, fun same => absurd (iff.1 same) (by decide)⟩

theorem not_createAsSelect_name :
    ¬ ∀ (base : String) (m : Metadata) (q : Query) (kind : StatementKind) (ifNotExists : Bool)
      (o : CompileOptions) (t select : String), m.entityName = some base →
      q.selectText o = .ok select → createAsSelect q m kind ifNotExists o = .ok t →
      t = kind.opening ifNotExists ++ Naming.entityName m.pluralize base ++
        (m.withClause ++ " AS " ++ select ++ ";") := by
  intro alike
  have text := alike "Movie" movie movies .createStream false .standard _ _ rfl rfl rfl
  exact absurd text (by decide)

end StreamSql
