import StreamSql.Proofs.Expr.Condition
import StreamSql.Proofs.Query.Clauses

namespace StreamSql

open Reading

inductive ConditionClause
  | rows
  | groups

namespace ConditionClause

def head : ConditionClause → String
  | .rows => "\nWHERE "
  | .groups => " HAVING "

def condition? : ConditionClause → QueryNode → Option Expr
  | .rows, .filter e => some e
  | .groups, .having e => some e
  | _, _ => none

def conditions : ConditionClause → Clauses → List Expr
  | .rows, c => c.filters
  | .groups, c => c.having

def drop : ConditionClause → Clauses → Clauses
  | .rows, c => { c with filters := [] }
  | .groups, c => { c with having := [] }

def key (c : Clauses) (sources : List ScopeSource) : ConditionClause → KeyText
  | .rows => noKey
  | .groups => c.key sources

def bindings (c : Clauses) (sources : List ScopeSource) : ConditionClause → List Binding
  | .rows => rowBindings sources
  | .groups => c.groupRows sources

end ConditionClause

inductive Expr.IsPredicate (key : KeyText) (bs : List Binding) (s : Scope) : Expr → Prop
  | lambda {params : List String} {body : Expr} : params.length ≤ bs.length →
    body.IsCondition key (s.bind (params.zip bs)) → IsPredicate key bs s (.lambda params body)

def Expr.holds (key : KeyText) (bs : List Binding) (s : Scope) (ν : Term → Bool) : Expr → Bool
  | .lambda params body => body.truth key (s.bind (params.zip bs)) ν
  | _ => false

section Predicates

variable {key : KeyText} {bs : List Binding} {s : Scope}

theorem Expr.and_lt_level {e : Expr} (or : ¬ e.isOr = true) (and : e.level ≠ Reading.level .and) :
    Reading.level .and < e.level := by
  cases e with
  | binary op l r =>
    cases op with
    | or => exact absurd rfl or
    | and => exact absurd rfl and
    | _ => simp [level, Reading.level]
  | unary op e => cases op <;> simp [level, Reading.level, signLevel]
  | _ => exact level_lt_closedLevel .and

theorem Expr.compileBound_lambda {params : List String} (body : Expr)
    (le : params.length ≤ bs.length) :
    (Expr.lambda params body).compileBound key bs s =
      body.compile key (s.bind (params.zip bs)) := by
  simp [compileBound, part, Part.boundText, Nat.not_lt.2 le, bodyText]

theorem predicateText_lambda {params : List String} (body : Expr) (le : params.length ≤ bs.length) :
    predicateText key bs s (.lambda params body) = (do
      let t ← body.fold.compile key (s.bind (params.zip bs))
      .ok (if body.fold.isOr then parens t else t)) := by
  simp only [predicateText, Expr.fold, Expr.compileBound_lambda body.fold le]
  rfl

theorem Expr.IsPredicate.reads {e : Expr} (h : e.IsPredicate key bs s) :
    ∃ t x f, predicateText key bs s e = .ok t ∧ Reads (Reading.level .and) t x f ∧
      ReadsTrue (fun ν => e.holds key bs s ν) (Reading.level .and) x f := by
  obtain ⟨le, condition⟩ := h
  rename_i params body
  obtain ⟨t, x, f, text, reads, truth⟩ := condition.reads
  have whole : predicateText key bs s (.lambda params body) =
      .ok (if body.isOr then parens t else t) := by
    rw [predicateText_lambda body le, condition.fold_eq, text]
    rfl
  by_cases or : body.isOr = true
  · rw [if_pos or] at whole
    exact ⟨_, x, _, whole, reads.parenthesized.mono (by decide), .closed truth.alone⟩
  · rw [if_neg or] at whole
    by_cases and : body.level = Reading.level .and
    · exact ⟨t, x, f, whole, and ▸ reads, and ▸ truth⟩
    · exact ⟨t, x, _, whole, reads.mono (body.and_lt_level or and), .closed truth.alone⟩

theorem predicateTexts_reads {e : Expr} {es : List Expr}
    (h : ∀ d ∈ e :: es, d.IsPredicate key bs s) :
    ∃ t ts x f, predicateTexts key bs s (e :: es) = .ok (t :: ts) ∧
      Reads (Reading.level .and) (Text.join " AND " (t :: ts)) x f ∧
      ReadsTrue (fun ν => (e :: es).all (·.holds key bs s ν)) (Reading.level .and) x f := by
  induction es generalizing e with
  | nil =>
    obtain ⟨t, x, f, text, reads, truth⟩ := (h e (by simp)).reads
    refine ⟨t, [], x, f, ?_, reads, by simpa using truth⟩
    simp only [predicateTexts, text]
    rfl
  | cons d es ih =>
    obtain ⟨t, x, f, text, reads, truth⟩ := (h e (by simp)).reads
    obtain ⟨u, us, y, g, texts, readsAll, truthAll⟩ :=
      ih fun d' hd => h d' (List.mem_cons_of_mem _ hd)
    refine ⟨t, u :: us, _, _, ?_, ?_, truth.binary (.inl rfl) truthAll⟩
    · rw [predicateTexts, text, texts]
      rfl
    · rw [Text.join_cons_cons]
      have both := reads.binary (show BinaryOp.and ≠ .index by decide) readsAll
      simpa [String.append_assoc, BinaryOp.text] using both

theorem conditionsText_reads (head : String) {es : List Expr} (ne : es ≠ [])
    (h : ∀ e ∈ es, e.IsPredicate key bs s) :
    ∃ w x, conditionsText head key bs s es = .ok (head ++ w) ∧ read w = some x ∧
      ∀ ν, x.truth ν = es.all (·.holds key bs s ν) := by
  obtain ⟨e, es, rfl⟩ := List.exists_cons_of_ne_nil ne
  obtain ⟨t, ts, x, f, texts, reads, truth⟩ := predicateTexts_reads h
  refine ⟨_, x, ?_, reads.read_eq, truth.alone⟩
  simp [conditionsText, texts]
  rfl

end Predicates

def ConditionClause.around (c : Clauses) (pull : Bool) (sources : List ScopeSource) (s : Scope)
    (k : ConditionClause) : Compiled (String × String) := do
  let grouped ← c.groupedText sources s
  let columns ← c.columnsText sources s
  let joins ← joinTexts s 1 (sources.drop 1) c.joins
  let start := "SELECT " ++ (if columns.isEmpty then "*" else columns) ++
    " FROM " ++ (sources.head?.elim "" ScopeSource.text) ++ joins
  let window := optionalText " WINDOW " Window.text c.window
  let stop := (if pull then "" else " EMIT CHANGES") ++
    optionalText " LIMIT " (fun n => toString n.toNat) c.limit
  match k with
  | .rows => do
    let partition ← partitionText (rowBindings sources) s c.partitionBy
    let having ← conditionsText " HAVING " (c.key sources) (c.groupRows sources) s c.having
    .ok (start, window ++ grouped ++ partition ++ having ++ stop)
  | .groups => do
    let filters ← conditionsText "\nWHERE " noKey (rowBindings sources) s c.filters
    let partition ← partitionText (rowBindings sources) s c.partitionBy
    .ok (start ++ filters ++ window ++ grouped ++ partition, stop)

namespace ConditionClause

variable {c : Clauses} {pull : Bool} {sources : List ScopeSource} {s : Scope} {k : ConditionClause}

theorem text_eq {w : String}
    (h : conditionsText k.head (k.key c sources) (k.bindings c sources) s (k.conditions c) =
      .ok w) :
    c.text pull sources s = (k.around c pull sources s).map fun p => p.1 ++ w ++ p.2 := by
  simp only [Clauses.text_eq, around, Compiled.map_bind]
  refine bind_congr fun grouped => bind_congr fun columns => bind_congr fun joins => ?_
  cases k with
  | rows =>
    rw [show conditionsText "\nWHERE " noKey (rowBindings sources) s c.filters = .ok w from h]
    simp only [Compiled.ok_bind, Compiled.map_bind]
    refine bind_congr fun partition => bind_congr fun having => ?_
    unfold Clauses.statement
    simp only [Except.map, String.append_assoc]
  | groups =>
    rw [show conditionsText " HAVING " (c.key sources) (c.groupRows sources) s c.having = .ok w
      from h]
    simp only [Compiled.ok_bind, Compiled.map_bind]
    refine bind_congr fun filters => bind_congr fun partition => ?_
    unfold Clauses.statement
    simp only [Except.map, String.append_assoc]

theorem text_drop : (k.drop c).text pull sources s =
    (k.around c pull sources s).map fun p => p.1 ++ p.2 := by
  have none : conditionsText k.head (k.key (k.drop c) sources) (k.bindings (k.drop c) sources) s
      (k.conditions (k.drop c)) = .ok "" := by
    cases k <;> rfl
  have around : k.around (k.drop c) pull sources s = k.around c pull sources s := by
    cases k <;> rfl
  rw [text_eq none, around]
  simp

theorem key_congr {d : Clauses} (h : c.groupBy = d.groupBy) :
    k.key c sources = k.key d sources := by
  cases k <;> simp [key, Clauses.key, Clauses.groupKey, h]

theorem bindings_congr {d : Clauses} (h : c.groupBy = d.groupBy) :
    k.bindings c sources = k.bindings d sources := by
  cases k <;> simp [bindings, Clauses.groupRows, h]

theorem conditions_ofNodes {d : Clauses} {ns : List QueryNode} (h : c.ofNodes ns = .ok d) :
    k.conditions d = k.conditions c ++ ns.filterMap k.condition? := by
  induction ns generalizing c with
  | nil =>
    obtain rfl := Except.ok.inj h
    simp
  | cons n ns ih =>
    obtain ⟨c', added, h⟩ := Clauses.ofNodes_cons_eq_ok h
    rw [ih h]
    cases k <;> cases added <;> simp [List.filterMap_cons, condition?, conditions]

theorem drop_add (c : Clauses) (n : QueryNode) :
    (if (k.condition? n).isNone then (k.drop c).add n else .ok (k.drop c)) =
      (c.add n).map k.drop := by
  cases n with
  | select | groupBy | windowedBy | partitionBy =>
    simp only [Clauses.add, Compiled.map_bind]
    cases k <;> rfl
  | _ => cases k <;> rfl

theorem ofNodes_filter (c : Clauses) (ns : List QueryNode) :
    (k.drop c).ofNodes (ns.filter fun n => (k.condition? n).isNone) =
      (c.ofNodes ns).map k.drop := by
  induction ns generalizing c with
  | nil => rfl
  | cons n ns ih =>
    have step := drop_add (k := k) c n
    simp only [List.filter_cons, Clauses.ofNodes]
    split at step
    · rename_i keep
      rw [if_pos keep, Clauses.ofNodes, step]
      cases c.add n with
      | error => rfl
      | ok c' => exact ih c'
    · rename_i dropped
      rw [if_neg dropped]
      cases hc : c.add n with
      | error => simp [hc, Except.map] at step
      | ok c' =>
        have same : k.drop c = k.drop c' := Except.ok.inj (hc ▸ step)
        rw [same]
        exact ih c'

end ConditionClause

namespace Query

def conditions (k : ConditionClause) (q : Query) : List Expr := q.nodes.filterMap k.condition?

def without (k : ConditionClause) (q : Query) : Query :=
  { q with nodes := q.nodes.filter fun n => (k.condition? n).isNone }

def conditionKey (o : CompileOptions) (k : ConditionClause) (q : Query) : KeyText :=
  k.key q.outline (q.scopeSources o)

def conditionBindings (o : CompileOptions) (k : ConditionClause) (q : Query) : List Binding :=
  k.bindings q.outline (q.scopeSources o)

variable {o : CompileOptions} {q : Query} {k : ConditionClause} {first : Source}

theorem conditions_of_source {ns : List QueryNode} {pull : Bool} {c : Clauses}
    (h : Clauses.empty.ofNodes ns = .ok c) :
    (Query.mk (.source first :: ns) pull).conditions k = k.conditions c := by
  rw [k.conditions_ofNodes h]
  cases k <;> rfl

theorem compile_without (k : ConditionClause) (ns : List QueryNode) (pull : Bool) :
    ((Query.mk (.source first :: ns) pull).without k).compile o = (do
      let c ← Clauses.empty.ofNodes ns
      let sources := StreamSql.scopeSources o first c.joins
      ((k.drop c).text pull sources ⟨sources, [], [], false, o.decimalSeparator⟩).map
        (· ++ ";")) := by
  have rest : (Query.mk (.source first :: ns) pull).without k =
      ⟨.source first :: ns.filter fun n => (k.condition? n).isNone, pull⟩ := by
    cases k <;> rfl
  have nodes := k.ofNodes_filter .empty ns
  rw [show k.drop .empty = .empty by cases k <;> rfl] at nodes
  rw [rest, compile_source, nodes]
  cases Clauses.empty.ofNodes ns with
  | error => rfl
  | ok c =>
    have joins : (k.drop c).joins = c.joins := by cases k <;> rfl
    simp only [Except.map, Compiled.ok_bind, joins]

theorem compile_around (start : q.source? = some first) {w : String}
    (text : conditionsText k.head (q.conditionKey o k) (q.conditionBindings o k) (q.scope o)
      (q.conditions k) = .ok w) :
    ∃ parts : Compiled (String × String),
      (q.without k).compile o = parts.map (fun p => p.1 ++ p.2) ∧
      q.compile o = parts.map (fun p => p.1 ++ w ++ p.2) := by
  obtain ⟨ns, pull, rfl⟩ := eq_of_source? start
  rw [compile_without, compile_source]
  cases nodes : Clauses.empty.ofNodes ns with
  | error e => exact ⟨.error e, rfl, rfl⟩
  | ok c =>
    have groupBy : (Query.mk (.source first :: ns) pull).outline.groupBy = c.groupBy :=
      groupBy_outline nodes
    simp only [conditionKey, conditionBindings, scope, scopeSources, source?,
      joins_outline nodes, conditions_of_source nodes, k.key_congr groupBy,
      k.bindings_congr groupBy] at text
    refine ⟨(k.around c pull (StreamSql.scopeSources o first c.joins)
      ⟨StreamSql.scopeSources o first c.joins, [], [], false, o.decimalSeparator⟩).map
        fun p => (p.1, p.2 ++ ";"), ?_, ?_⟩
    · simp only [Compiled.ok_bind, k.text_drop]
      cases k.around c pull _ _ <;> simp [Except.map, String.append_assoc]
    · simp only [Compiled.ok_bind, k.text_eq text]
      cases k.around c pull _ _ <;> simp [Except.map, String.append_assoc]

/-- The conditions of a query are one formula in its statement, true where all of them are. But for
the formula the statement is that of the query without them. -/
theorem compile_conditions (k : ConditionClause) (o : CompileOptions) (q : Query) {first : Source}
    (start : q.source? = some first) (ne : q.conditions k ≠ [])
    (predicates : ∀ e ∈ q.conditions k,
      e.IsPredicate (q.conditionKey o k) (q.conditionBindings o k) (q.scope o)) :
    ∃ (w : String) (x : Term) (parts : Compiled (String × String)),
      (q.without k).compile o = parts.map (fun p => p.1 ++ p.2) ∧
      q.compile o = parts.map (fun p => p.1 ++ k.head ++ w ++ p.2) ∧
      read w = some x ∧
      ∀ ν, x.truth ν = (q.conditions k).all
        (·.holds (q.conditionKey o k) (q.conditionBindings o k) (q.scope o) ν) := by
  obtain ⟨w, x, text, reads, truth⟩ := conditionsText_reads k.head ne predicates
  obtain ⟨parts, without, whole⟩ := compile_around start text
  refine ⟨w, x, parts, without, ?_, reads, truth⟩
  simpa only [String.append_assoc] using whole

private abbrev place (name : String) : Expr := .member (.parameter "l") name none

private abbrev places : Query := ⟨[.source (.named "Location"),
  .filter (.lambda ["l"] (.binary .or (place "A") (.binary .gt (place "B") (.constant (.int 5))))),
  .filter (.lambda ["l"] (.unary .not (place "C")))], false⟩

private theorem isColumn_place {name : String} (h : IsName name) :
    (place name).IsColumn noKey ((places.scope .standard).bind [("l", .source 0)]) :=
  ⟨.parameter, name, rfl, h⟩

theorem compile_conditions_places :
    ∃ (w : String) (x : Term) (parts : Compiled (String × String)),
      (places.without .rows).compile .standard = parts.map (fun p => p.1 ++ p.2) ∧
      places.compile .standard = parts.map (fun p => p.1 ++ "\nWHERE " ++ w ++ p.2) ∧
      read w = some x ∧
      ∀ ν, x.truth ν = (places.conditions .rows).all
        (·.holds noKey [.source 0] (places.scope .standard) ν) := by
  have start : places.source? = some (.named "Location") := rfl
  refine compile_conditions .rows .standard places start
    (by simp [conditions, ConditionClause.condition?]) ?_
  intro e he
  have hb : IsName "B" := by decide
  have ha : IsName "A" := by decide
  have hc : IsName "C" := by decide
  simp [conditions, ConditionClause.condition?] at he
  rcases he with rfl | rfl
  · have right := Expr.IsCondition.compareRight (show BinaryOp.gt.isComparison = true from rfl)
      (isColumn_place hb) (.int (n := 5)) (by simp)
    exact .lambda (by decide) (.or (.column (isColumn_place ha)) right)
  · exact .lambda (by decide) (.not (.column (isColumn_place hc)))

end Query
end StreamSql
