import StreamSql.Query.Select

namespace StreamSql

namespace Compiled

variable {α β γ : Type}

theorem map_bind (x : Compiled α) (f : α → Compiled β) (g : β → γ) :
    (x >>= f).map g = x >>= fun a => (f a).map g := by
  cases x <;> rfl

theorem map_eq_ok {x : Compiled α} {g : α → β} {b : β} :
    x.map g = .ok b ↔ ∃ a, x = .ok a ∧ g a = b := by
  cases x <;> simp [Except.map]

end Compiled

def rowBindings (sources : List ScopeSource) : List Binding :=
  (List.range sources.length).map .source

namespace Clauses

variable (c : Clauses) (sources : List ScopeSource) (s : Scope)

def groupKey : Option GroupKey := c.groupBy.map (GroupKey.ofExpr (rowBindings sources))

def key : KeyText :=
  match c.groupKey sources with
  | some k => k.text
  | none => noKey

def groupRows : List Binding :=
  if c.groupBy.isSome then [.grouping 0] else rowBindings sources

def groupedText : Compiled :=
  match c.groupKey sources with
  | some k => do .ok (" GROUP BY " ++ (← keyListText k.body (s.bind k.bindings)))
  | none => .ok ""

def columnsText : Compiled :=
  match c.projection (c.groupRows sources) (rowBindings sources) with
  | some (e, bindings) => projectionText (c.key sources) bindings s e.fold
  | none => .ok ""

def statement (pull : Bool) (columns joins filters grouped partition having : String) : String :=
  "SELECT " ++ (if columns.isEmpty then "*" else columns) ++
    " FROM " ++ (sources.head?.elim "" ScopeSource.text) ++ joins ++ filters ++
    optionalText " WINDOW " Window.text c.window ++ grouped ++ partition ++ having ++
    (if pull then "" else " EMIT CHANGES") ++
    optionalText " LIMIT " (fun n => toString n.toNat) c.limit

theorem text_eq (pull : Bool) :
    c.text pull sources s = (do
      let grouped ← c.groupedText sources s
      let columns ← c.columnsText sources s
      let joins ← joinTexts s 1 (sources.drop 1) c.joins
      let filters ← conditionsText "\nWHERE " noKey (rowBindings sources) s c.filters
      let partition ← partitionText (rowBindings sources) s c.partitionBy
      let having ← conditionsText " HAVING " (c.key sources) (c.groupRows sources) s c.having
      .ok (c.statement sources pull columns joins filters grouped partition having)) := by
  simp only [text, groupedText, columnsText, key, groupKey, groupRows, rowBindings]
  cases c.groupBy with
  | none =>
    simp only [Option.map_none, Option.isSome_none, Bool.false_eq_true, if_false, Compiled.ok_bind]
    cases c.projection ((List.range sources.length).map .source)
      ((List.range sources.length).map .source) <;> rfl
  | some e =>
    simp only [Option.map_some, Option.isSome_some, if_true, bind_assoc]
    congr 1
    funext key
    cases c.projection [.grouping 0] ((List.range sources.length).map .source) <;> rfl

end Clauses

def QueryNode.join? : QueryNode → Option Join
  | .join j => some j
  | _ => none

def QueryNode.groupBy? : QueryNode → Option Expr
  | .groupBy e => some e
  | _ => none

namespace Clauses

inductive Added (c : Clauses) : QueryNode → Clauses → Prop
  | select {e : Expr} : c.select = none → Added c (.select e) { c with select := some e }
  | filter {e : Expr} : Added c (.filter e) { c with filters := c.filters ++ [e] }
  | join {j : Join} : Added c (.join j) { c with joins := c.joins ++ [j] }
  | groupBy {e : Expr} : c.groupBy = none → Added c (.groupBy e) { c with groupBy := some e }
  | having {e : Expr} : Added c (.having e) { c with having := c.having ++ [e] }
  | windowedBy {w : Window} : c.window = none → Added c (.windowedBy w) { c with window := some w }
  | partitionBy {e : Expr} : c.partitionBy = none →
    Added c (.partitionBy e) { c with partitionBy := some e }
  | take {n : UInt64} : Added c (.take n) { c with limit := some (c.limit.elim n (min · n)) }

variable {c d : Clauses} {n : QueryNode} {ns : List QueryNode}

theorem setOnce_bind {α : Type} {k : Clause} {old : Option α} {new : α} {f : Option α → Clauses}
    (h : (do .ok (f (← setOnce k old new))) = Except.ok (ε := Error) d) :
    old = none ∧ f (some new) = d := by
  cases old with
  | none => exact ⟨rfl, Except.ok.inj h⟩
  | some _ => simp [setOnce, unsupported, bind, Except.bind] at h

theorem Added.of_add (h : c.add n = .ok d) : c.Added n d := by
  cases n with
  | source => simp [add, invalid] at h
  | select =>
    obtain ⟨old, rfl⟩ := setOnce_bind (f := fun x => { c with select := x }) h
    exact .select old
  | groupBy =>
    obtain ⟨old, rfl⟩ := setOnce_bind (f := fun x => { c with groupBy := x }) h
    exact .groupBy old
  | windowedBy =>
    obtain ⟨old, rfl⟩ := setOnce_bind (f := fun x => { c with window := x }) h
    exact .windowedBy old
  | partitionBy =>
    obtain ⟨old, rfl⟩ := setOnce_bind (f := fun x => { c with partitionBy := x }) h
    exact .partitionBy old
  | filter => exact Except.ok.inj h ▸ .filter
  | join => exact Except.ok.inj h ▸ .join
  | having => exact Except.ok.inj h ▸ .having
  | take => exact Except.ok.inj h ▸ .take

theorem ofNodes_cons_eq_ok (h : c.ofNodes (n :: ns) = .ok d) :
    ∃ c', c.Added n c' ∧ c'.ofNodes ns = .ok d := by
  simp only [ofNodes] at h
  cases added : c.add n with
  | error => simp [added, bind, Except.bind] at h
  | ok c' => exact ⟨c', .of_add added, by simpa [added, bind, Except.bind] using h⟩

theorem joins_ofNodes (h : c.ofNodes ns = .ok d) :
    d.joins = c.joins ++ ns.filterMap QueryNode.join? := by
  induction ns generalizing c with
  | nil =>
    obtain rfl := Except.ok.inj h
    simp
  | cons n ns ih =>
    obtain ⟨c', added, h⟩ := ofNodes_cons_eq_ok h
    rw [ih h]
    cases added <;> simp [List.filterMap_cons, QueryNode.join?]

theorem groupBy_ofNodes (h : c.ofNodes ns = .ok d) :
    d.groupBy = c.groupBy.or (ns.findSome? QueryNode.groupBy?) := by
  induction ns generalizing c with
  | nil =>
    obtain rfl := Except.ok.inj h
    simp
  | cons n ns ih =>
    obtain ⟨c', added, h⟩ := ofNodes_cons_eq_ok h
    rw [ih h]
    cases added <;> simp_all [List.findSome?_cons, QueryNode.groupBy?]

end Clauses

namespace Query

theorem compile_source (o : CompileOptions) (s : Source) (ns : List QueryNode) (pull : Bool) :
    (Query.mk (.source s :: ns) pull).compile o = (do
      let c ← Clauses.empty.ofNodes ns
      let sources := StreamSql.scopeSources o s c.joins
      (c.text pull sources ⟨sources, [], [], false, o.decimalSeparator⟩).map (· ++ ";")) := by
  simp only [compile, selectText, bind_assoc]
  refine bind_congr fun c => ?_
  cases c.text pull _ _ <;> rfl

/-- The joins and the key of a query, which its other clauses depend on. -/
def outline (q : Query) : Clauses :=
  { Clauses.empty with
    joins := q.nodes.filterMap QueryNode.join?
    groupBy := q.nodes.findSome? QueryNode.groupBy? }

def scopeSources (o : CompileOptions) (q : Query) : List ScopeSource :=
  match q.source? with
  | some first => StreamSql.scopeSources o first q.outline.joins
  | none => []

def scope (o : CompileOptions) (q : Query) : Scope :=
  ⟨q.scopeSources o, [], [], false, o.decimalSeparator⟩

theorem eq_of_source? {q : Query} {first : Source} (h : q.source? = some first) :
    ∃ ns pull, q = ⟨.source first :: ns, pull⟩ := by
  obtain ⟨_ | ⟨n, ns⟩, pull⟩ := q
  · simp [source?] at h
  · cases n with
    | source s =>
      obtain rfl : s = first := by simpa [source?] using h
      exact ⟨ns, pull, rfl⟩
    | _ => simp [source?] at h

section

variable {first : Source} {ns : List QueryNode} {pull : Bool} {c : Clauses}

theorem joins_outline (h : Clauses.empty.ofNodes ns = .ok c) :
    (Query.mk (.source first :: ns) pull).outline.joins = c.joins := by
  simp [outline, Clauses.joins_ofNodes h, Clauses.empty, QueryNode.join?, List.filterMap_cons]

theorem groupBy_outline (h : Clauses.empty.ofNodes ns = .ok c) :
    (Query.mk (.source first :: ns) pull).outline.groupBy = c.groupBy := by
  simp [outline, Clauses.groupBy_ofNodes h, Clauses.empty, QueryNode.groupBy?,
    List.findSome?_cons]

end

theorem compile_eq_ok {o : CompileOptions} {q : Query} {t : String} (ok : q.compile o = .ok t) :
    ∃ first ns c u, q.nodes = .source first :: ns ∧ Clauses.empty.ofNodes ns = .ok c ∧
      q.outline.joins = c.joins ∧ c.text q.pull (q.scopeSources o) (q.scope o) = .ok u ∧
      t = u ++ ";" := by
  obtain ⟨u, text, whole⟩ := Compiled.bind_eq_ok.1 ok
  obtain ⟨_ | ⟨n, ns⟩, pull⟩ := q
  · cases text
  · cases n with
    | source first =>
      obtain ⟨c, nodes, text⟩ := Compiled.bind_eq_ok.1 text
      have joins : (Query.mk (.source first :: ns) pull).outline.joins = c.joins :=
        joins_outline nodes
      refine ⟨first, ns, c, u, rfl, nodes, joins, ?_, Except.ok.inj whole.symm⟩
      simpa only [scope, scopeSources, source?, joins] using text
    | _ => cases text

end Query
end StreamSql
