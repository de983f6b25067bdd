import Mathlib.Data.List.Nodup
import StreamSql.Proofs.Alias
import StreamSql.Proofs.Expr.Widen
import StreamSql.Proofs.Query.Chain

namespace StreamSql

structure JoinBlock where
  kind : JoinKind
  source : ScopeSource
  within : Option JoinWindow
  outer : String
  inner : String

namespace JoinBlock

def text (b : JoinBlock) : String :=
  "\n" ++ b.kind.text ++ " JOIN " ++ b.source.text ++ optionalText "" JoinWindow.text b.within ++
    "\nON " ++ b.outer ++ " = " ++ b.inner

def texts : List JoinBlock → String
  | [] => ""
  | b :: bs => b.text ++ texts bs

def fromText (source : ScopeSource) (bs : List JoinBlock) : String :=
  " FROM " ++ source.text ++ texts bs

def ofJoin (index : Nat) (source : ScopeSource) (s : Scope) (j : Join) : Compiled JoinBlock := do
  let outer ← j.outerKey.fold.compileBound noKey ((List.range index).map .source) s
  let inner ← j.innerKey.fold.compileBound noKey [.source index] s
  .ok ⟨j.kind, source, j.within, outer, inner⟩

def ofJoins (s : Scope) : Nat → List ScopeSource → List Join → Compiled (List JoinBlock)
  | index, source :: sources, j :: joins => do
    let b ← ofJoin index source s j
    let bs ← ofJoins s (index + 1) sources joins
    .ok (b :: bs)
  | _, _, _ => .ok []

variable {s s' : Scope} {index : Nat} {source : ScopeSource} {sources : List ScopeSource}
  {js js' : List Join} {b : JoinBlock} {bs : List JoinBlock}

theorem fromText_append (source : ScopeSource) (bs more : List JoinBlock) :
    fromText source (bs ++ more) = fromText source bs ++ texts more := by
  simp only [fromText, String.append_assoc]
  congr 2
  induction bs with
  | nil => simp [texts]
  | cons b bs ih => simp [texts, ih, String.append_assoc]

theorem joinText_eq (index : Nat) (source : ScopeSource) (s : Scope) (j : Join) :
    joinText index source s j = (ofJoin index source s j).map text := by
  simp only [joinText, joinCondition, ofJoin, bind_assoc, Compiled.map_bind]
  refine bind_congr fun outer => bind_congr fun inner => ?_
  cases j.within <;> simp [Except.map, text, optionalText, Compiled.ok_bind, String.append_assoc]

theorem joinTexts_eq (s : Scope) (index : Nat) (sources : List ScopeSource) (js : List Join) :
    joinTexts s index sources js = (ofJoins s index sources js).map texts := by
  induction js generalizing index sources with
  | nil => cases sources <;> rfl
  | cons j js ih =>
    cases sources with
    | nil => rfl
    | cons source sources =>
      simp only [joinTexts, ofJoins, joinText_eq, ih]
      cases ofJoin index source s j with
      | error => rfl
      | ok b => cases ofJoins s (index + 1) sources js <;> rfl

theorem ofJoin_eq_ok {j : Join} (h : ofJoin index source s j = .ok b) : b.source = source := by
  obtain ⟨outer, -, h⟩ := Compiled.bind_eq_ok.1 h
  obtain ⟨inner, -, h⟩ := Compiled.bind_eq_ok.1 h
  exact (congrArg JoinBlock.source (Except.ok.inj h)).symm

theorem ofJoins_cons_eq_ok {j : Join} (h : ofJoins s index (source :: sources) (j :: js) = .ok bs) :
    ∃ b bs', bs = b :: bs' ∧ ofJoin index source s j = .ok b ∧
      ofJoins s (index + 1) sources js = .ok bs' := by
  obtain ⟨b, first, h⟩ := Compiled.bind_eq_ok.1 h
  obtain ⟨bs', rest, h⟩ := Compiled.bind_eq_ok.1 h
  exact ⟨b, bs', (Except.ok.inj h).symm, first, rest⟩

theorem map_source_ofJoins (length : sources.length = js.length)
    (h : ofJoins s index sources js = .ok bs) : bs.map JoinBlock.source = sources := by
  induction js generalizing index sources bs with
  | nil =>
    obtain rfl := List.length_eq_zero_iff.1 length
    obtain rfl := Except.ok.inj h
    rfl
  | cons j js ih =>
    cases sources with
    | nil => cases length
    | cons source sources =>
      obtain ⟨b, bs', rfl, first, rest⟩ := ofJoins_cons_eq_ok h
      rw [List.map_cons, ofJoin_eq_ok first, ih (Nat.succ.inj length) rest]

theorem ofJoins_take (h : ofJoins s index sources js = .ok bs) (i : Nat) :
    ofJoins s index (sources.take i) (js.take i) = .ok (bs.take i) := by
  induction js generalizing index sources bs i with
  | nil =>
    cases sources <;> obtain rfl := Except.ok.inj h <;> simp [ofJoins]
  | cons j js ih =>
    cases sources with
    | nil =>
      obtain rfl := Except.ok.inj h
      simp [ofJoins]
    | cons source sources =>
      obtain ⟨b, bs', rfl, first, rest⟩ := ofJoins_cons_eq_ok h
      cases i with
      | zero => rfl
      | succ i =>
        simp only [List.take_succ_cons, ofJoins, first, ih rest i]
        rfl

end JoinBlock

def Join.terms (j : Join) : JoinKind × Source × Expr × Expr × Option JoinWindow :=
  (j.kind, j.other, j.outerKey, j.innerKey, j.within)

namespace JoinBlock

variable {s s' : Scope} {n index : Nat} {source : ScopeSource} {sources : List ScopeSource}
  {js js' : List Join}

theorem ofJoin_le (within : s.WithinOn (· < n) s') (lt : index < n) {j j' : Join}
    (same : j.terms = j'.terms) :
    (ofJoin index source s j).Le (ofJoin index source s' j') := by
  simp only [Join.terms, Prod.mk.injEq] at same
  obtain ⟨kind, -, outer, inner, window⟩ := same
  -- Neither key sees a source behind that of the join.
  have before : ∀ b ∈ (List.range index).map Binding.source, b.Shown (· < n) := by
    intro b hb
    obtain ⟨i, hi, rfl⟩ := List.mem_map.1 hb
    exact Nat.lt_trans (List.mem_range.1 hi) lt
  have own : ∀ b ∈ [Binding.source index], b.Shown (· < n) := by
    intro b hb
    rw [List.mem_singleton.1 hb]
    exact lt
  have le (e : Expr) := e.part_le (noKey_le noKey)
  simp only [ofJoin, kind, outer, inner, window]
  refine .bind ((le _).boundText_le within before) fun o _ => ?_
  exact .bind ((le _).boundText_le within own) fun i _ => .refl _

theorem ofJoins_le (within : s.WithinOn (· < n) s') (le : index + js.length ≤ n)
    (same : js.map Join.terms = js'.map Join.terms) :
    (ofJoins s index sources js).Le (ofJoins s' index sources js') := by
  induction js generalizing index sources js' with
  | nil =>
    obtain rfl : js' = [] := by simpa using same.symm
    cases sources <;> exact .refl _
  | cons j js ih =>
    cases js' with
    | nil => cases same
    | cons j' js' =>
      cases sources with
      | nil => exact .refl _
      | cons source sources =>
        obtain ⟨first, rest⟩ := List.cons.inj same
        rw [List.length_cons] at le
        refine .bind (ofJoin_le within (by omega) first) fun b _ => ?_
        exact .bind (ih (by omega) rest) fun bs _ => .refl _

end JoinBlock

section

variable (o : CompileOptions) (first : Source) {js js' : List Join}

theorem length_scopeSources (js : List Join) :
    (scopeSources o first js).length = js.length + 1 := by
  unfold scopeSources
  cases js <;> simp [Aliases.length_assignAll]

def Source.aliased (a : String) (s : Source) : ScopeSource :=
  ⟨s.displayName o, some a, s.schema⟩

theorem Source.text_aliased (a : String) (s : Source) :
    (s.aliased o a).text = s.displayName o ++ " " ++ a := rfl

theorem Scope.columnText_aliased {s : Scope} {i : Nat} {source : Source} {a : String}
    (h : s.sources[i]? = some (source.aliased o a)) (name : String) (rename : Option String) :
    ∃ wire, s.columnText i name rename = a ++ "." ++ wire := by
  simp only [columnText, h, Option.bind_some, Source.aliased]
  exact ⟨_, rfl⟩

theorem scopeSources_joined (joins : js ≠ []) :
    scopeSources o first js =
      List.zipWith (fun s a => s.aliased o a) (first :: js.map (·.other))
        (Aliases.empty.assignAll ((first :: js.map (·.other)).map (·.displayName o))) := by
  have empty : js.isEmpty = false := by simpa using joins
  simp only [scopeSources, empty, Bool.false_eq_true, if_false]
  generalize Aliases.empty.assignAll _ = aliases
  generalize first :: js.map (·.other) = all
  induction all generalizing aliases with
  | nil => rfl
  | cons s all ih =>
    cases aliases with
    | nil => rfl
    | cons a aliases => exact congrArg (s.aliased o a :: ·) (ih aliases)

theorem exists_scopeSources (joins : js ≠ []) :
    ∃ f : String → String,
      scopeSources o first js =
        (first :: js.map (·.other)).map (fun s => s.aliased o (f (s.displayName o))) ∧
      ∀ m ∈ (first :: js.map (·.other)).map (·.displayName o),
        ∀ n ∈ (first :: js.map (·.other)).map (·.displayName o), f m = f n → m = n := by
  obtain ⟨f, aliases, injective⟩ := Aliases.sound_empty.assignAll_eq_map
    ((first :: js.map (·.other)).map (·.displayName o))
  refine ⟨f, ?_, injective⟩
  rw [scopeSources_joined o first joins, aliases, List.zipWith_map_right, List.zipWith_map_right,
    List.zipWith_self]

theorem take_scopeSources (joins : js ≠ []) (joins' : js' ≠ []) {i : Nat}
    (same : (js.take i).map (·.other) = (js'.take i).map (·.other)) :
    (scopeSources o first js).take (i + 1) = (scopeSources o first js').take (i + 1) := by
  rw [scopeSources_joined o first joins, scopeSources_joined o first joins', List.take_zipWith,
    List.take_zipWith, Aliases.take_assignAll, Aliases.take_assignAll]
  simp only [← List.map_take, List.take_succ_cons, same]

end

theorem Clauses.exists_statement (c : Clauses) (sources : List ScopeSource) (pull : Bool)
    (columns joins filters grouped partition having : String) :
    ∃ rest, c.statement sources pull columns joins filters grouped partition having =
      "SELECT " ++ (if columns.isEmpty then "*" else columns) ++
        (" FROM " ++ sources.head?.elim "" ScopeSource.text ++ joins) ++ rest := by
  unfold statement
  generalize (if columns.isEmpty = true then "*" else columns) = shown
  refine ⟨filters ++ optionalText " WINDOW " Window.text c.window ++ grouped ++ partition ++
    having ++ (if pull then "" else " EMIT CHANGES") ++
    optionalText " LIMIT " (fun n => toString n.toNat) c.limit, ?_⟩
  simp only [String.append_assoc]

namespace Query

variable (o : CompileOptions) (q : Query)

def blocks : Compiled (List JoinBlock) :=
  JoinBlock.ofJoins (q.scope o) 1 ((q.scopeSources o).drop 1) q.outline.joins

def Opens (t : String) (u : String) : Prop :=
  ∃ columns rest, q.clauses.columnsText (q.scopeSources o) (q.scope o) = .ok columns ∧
    t = "SELECT " ++ (if columns.isEmpty then "*" else columns) ++ u ++ rest

structure Joined (t : String) (source : ScopeSource) (bs : List JoinBlock) : Prop where
  sources : q.scopeSources o = source :: bs.map JoinBlock.source
  blocks : q.blocks o = .ok bs
  opens : q.Opens o t (JoinBlock.fromText source bs)

variable {o q} {t : String} {source : ScopeSource} {bs more : List JoinBlock}

theorem exists_joined (ok : q.compile o = .ok t) : ∃ source bs, q.Joined o t source bs := by
  obtain ⟨first, u, start, joins, text, rfl⟩ := compile_clauses ok
  have length : (q.scopeSources o).length = q.outline.joins.length + 1 := by
    simp only [scopeSources, start, length_scopeSources]
  obtain ⟨source, others, sources⟩ := List.exists_cons_of_length_eq_add_one length
  rw [Clauses.text_eq] at text
  obtain ⟨grouped, -, text⟩ := Compiled.bind_eq_ok.1 text
  obtain ⟨columns, columnsText, text⟩ := Compiled.bind_eq_ok.1 text
  obtain ⟨joined, blocks, text⟩ := Compiled.bind_eq_ok.1 text
  obtain ⟨filters, -, text⟩ := Compiled.bind_eq_ok.1 text
  obtain ⟨partition, -, text⟩ := Compiled.bind_eq_ok.1 text
  obtain ⟨having, -, text⟩ := Compiled.bind_eq_ok.1 text
  obtain rfl := Except.ok.inj text
  rw [← joins, JoinBlock.joinTexts_eq] at blocks
  obtain ⟨bs, made, rfl⟩ := Compiled.map_eq_ok.1 blocks
  have named : bs.map JoinBlock.source = others := by
    rw [JoinBlock.map_source_ofJoins (by simp [length]) made, sources]
    rfl
  refine ⟨source, bs, by rw [sources, named], made, columns, ?_⟩
  obtain ⟨rest, whole⟩ := q.clauses.exists_statement (q.scopeSources o) q.pull columns
    (JoinBlock.texts bs) filters grouped partition having
  refine ⟨rest ++ ";", columnsText, ?_⟩
  rw [whole, sources, JoinBlock.fromText, List.head?_cons, Option.elim_some]
  simp only [String.append_assoc]

theorem Joined.opens_append (h : q.Joined o t source (bs ++ more)) :
    q.Opens o t (JoinBlock.fromText source bs) := by
  obtain ⟨columns, rest, columnsText, whole⟩ := h.opens
  refine ⟨columns, JoinBlock.texts more ++ rest, columnsText, ?_⟩
  rw [whole, JoinBlock.fromText_append]
  simp only [String.append_assoc]

theorem Joined.length_eq
    (h : q.Joined o t source bs) : bs.length = q.outline.joins.length := by
  have sources := h.sources
  rw [scopeSources] at sources
  cases start : q.source? with
  | none => simp [start] at sources
  | some first =>
    simp only [start] at sources
    have length := StreamSql.length_scopeSources o first q.outline.joins
    simpa [sources] using length

def displayNames (o : CompileOptions) (q : Query) : List String :=
  (q.source?.toList ++ q.outline.joins.map (·.other)).map (·.displayName o)

structure Aliased (o : CompileOptions) (q : Query) (aliasOf : String → String)
    (sources : List ScopeSource) : Prop where
  texts : sources.map ScopeSource.text = (q.displayNames o).map fun n => n ++ " " ++ aliasOf n
  columns : ∀ s : Scope, s.sources = sources → ∀ i n, (q.displayNames o)[i]? = some n →
    ∀ name rename, ∃ wire, s.columnText i name rename = aliasOf n ++ "." ++ wire
  distinct : ∀ m ∈ q.displayNames o, ∀ n ∈ q.displayNames o, aliasOf m = aliasOf n → m = n

/-- Two sources have one alias only where they have one name. -/
theorem compile_aliases (ok : q.compile o = .ok t) (joins : q.outline.joins ≠ []) :
    ∃ source bs aliasOf, q.Joined o t source bs ∧
      q.Aliased o aliasOf (source :: bs.map JoinBlock.source) ∧
      (((q.displayNames o).map aliasOf).Nodup ↔ (q.displayNames o).Nodup) := by
  obtain ⟨source, bs, joined⟩ := exists_joined ok
  obtain ⟨first, -, start, -⟩ := compile_clauses ok
  obtain ⟨aliasOf, aliased, distinct⟩ := exists_scopeSources o first joins
  have names : q.displayNames o = (first :: q.outline.joins.map (·.other)).map (·.displayName o) := by
    simp [displayNames, start]
  have sources : source :: bs.map JoinBlock.source =
      (first :: q.outline.joins.map (·.other)).map fun s => s.aliased o (aliasOf (s.displayName o)) := by
    rw [← joined.sources, ← aliased, scopeSources, start]
  rw [← names] at distinct
  refine ⟨source, bs, aliasOf, joined, ⟨?_, ?_, distinct⟩, List.Nodup.of_map aliasOf, ?_⟩
  · rw [sources, names, List.map_map, List.map_map]
    exact List.map_congr_left fun s _ => s.text_aliased o _
  · intro s hs i n hn
    rw [names, List.getElem?_map, Option.map_eq_some_iff] at hn
    obtain ⟨other, found, rfl⟩ := hn
    apply Scope.columnText_aliased o
    rw [hs, sources, List.getElem?_map, found, Option.map_some]
  · intro nodup
    exact (List.nodup_map_iff_inj_on nodup).2 distinct

private abbrev columnA : Expr := .lambda ["l"] (.member (.parameter "l") "A" none)

private abbrev joinOnA (name : String) : Join :=
  ⟨.inner, .named name, columnA, columnA, .lambda ["l", "r"] (.parameter "l"), none⟩

private abbrev lanes : Query := ⟨[.source (.named "Location"), .join (joinOnA "Lane")], false⟩

theorem compile_aliases_lanes :
    ∃ t, lanes.compile .standard = .ok t ∧ lanes.outline.joins ≠ [] ∧
      ∃ source bs aliasOf, lanes.Joined .standard t source bs ∧
        lanes.Aliased .standard aliasOf (source :: bs.map JoinBlock.source) ∧
        (((lanes.displayNames .standard).map aliasOf).Nodup ↔
          (lanes.displayNames .standard).Nodup) := by
  have joins : lanes.outline.joins ≠ [] := List.cons_ne_nil _ _
  exact ⟨_, rfl, joins, compile_aliases rfl joins⟩

private abbrev selfJoin : Query := ⟨[.source (.named "Location"), .join (joinOnA "Location")], false⟩

theorem not_nodup_aliases :
    ¬ ∀ (o : CompileOptions) (q : Query) (t : String), q.compile o = .ok t → q.outline.joins ≠ [] →
      ∀ source bs, q.Joined o t source bs →
        ((source :: bs.map JoinBlock.source).map (·.alias?)).Nodup := by
  intro distinct
  obtain ⟨t, ok⟩ : ∃ t, selfJoin.compile .standard = .ok t := ⟨_, rfl⟩
  obtain ⟨source, bs, joined⟩ := exists_joined ok
  have nodup := distinct .standard selfJoin t ok (List.cons_ne_nil _ _) source bs joined
  have aliases : (selfJoin.scopeSources .standard).map (·.alias?) = [some "L", some "L"] := rfl
  rw [← joined.sources, aliases] at nodup
  exact absurd nodup (by decide)

theorem withinOn_scope {q' : Query} {n : Nat}
    (same : (q.scopeSources o).take n = (q'.scopeSources o).take n) :
    (q.scope o).WithinOn (· < n) (q'.scope o) where
  sources i hi := by
    have at_i := congrArg (·[i]?) same
    simpa only [scope, List.getElem?_take_of_lt hi] using at_i
  itemKinds := rfl
  lowerBools := rfl
  separator := rfl
  lookup p b bound := by cases bound
  shown p b bound := by cases bound

/-- The first joins of a query do not depend on the ones behind them, or on any other clause. -/
theorem compile_firstJoins {q' : Query} {t t' : String} {i : Nat}
    (ok : q.compile o = .ok t) (ok' : q'.compile o = .ok t') (start : q.source? = q'.source?)
    (pos : 0 < i) (le : i ≤ q.outline.joins.length) (le' : i ≤ q'.outline.joins.length)
    (same : (q.outline.joins.take i).map Join.terms = (q'.outline.joins.take i).map Join.terms) :
    ∃ source bs, bs.length = i ∧
      (∃ more, q.Joined o t source (bs ++ more)) ∧ (∃ more, q'.Joined o t' source (bs ++ more)) ∧
      q.Opens o t (JoinBlock.fromText source bs) ∧ q'.Opens o t' (JoinBlock.fromText source bs) := by
  obtain ⟨source, bs, joined⟩ := exists_joined ok
  obtain ⟨source', bs', joined'⟩ := exists_joined ok'
  have joins : q.outline.joins ≠ [] := List.length_pos_iff.1 (by omega)
  have joins' : q'.outline.joins ≠ [] := List.length_pos_iff.1 (by omega)
  have others : (q.outline.joins.take i).map (·.other) = (q'.outline.joins.take i).map (·.other) := by
    simpa [Join.terms, Function.comp_def] using congrArg (List.map fun terms => terms.2.1) same
  have first : (q.scopeSources o).take (i + 1) = (q'.scopeSources o).take (i + 1) := by
    simp only [scopeSources, ← start]
    cases q.source? with
    | none => rfl
    | some first => exact take_scopeSources o first joins joins' others
  -- In scopes with the same first sources the first blocks are the same.
  have others' := congrArg (List.drop 1) first
  simp only [List.drop_take, Nat.add_sub_cancel] at others'
  have made := JoinBlock.ofJoins_take joined.blocks i
  have made' := JoinBlock.ofJoins_take joined'.blocks i
  rw [← others'] at made'
  have again := JoinBlock.ofJoins_le (withinOn_scope first) (by simp; omega) same _ made
  have blocks : bs'.take i = bs.take i := Except.ok.inj (made'.symm.trans again)
  rw [joined.sources, joined'.sources, List.take_succ_cons, List.take_succ_cons] at first
  obtain rfl : source = source' := (List.cons.inj first).1
  have whole : q.Joined o t source (bs.take i ++ bs.drop i) := by rwa [List.take_append_drop]
  have whole' : q'.Joined o t' source (bs.take i ++ bs'.drop i) := by
    rwa [← blocks, List.take_append_drop]
  refine ⟨source, bs.take i, ?_, ⟨_, whole⟩, ⟨_, whole'⟩, whole.opens_append, whole'.opens_append⟩
  rw [List.length_take, joined.length_eq, Nat.min_eq_left le]

private abbrev loads : Query :=
  ⟨[.source (.named "Location"), .join (joinOnA "Lane"), .filter columnA,
    .join (joinOnA "Location")], true⟩

theorem compile_firstJoins_loads :
    ∃ t t', lanes.compile .standard = .ok t ∧ loads.compile .standard = .ok t' ∧
      ∃ source bs, bs.length = 1 ∧
        (∃ more, lanes.Joined .standard t source (bs ++ more)) ∧
        (∃ more, loads.Joined .standard t' source (bs ++ more)) ∧
        lanes.Opens .standard t (JoinBlock.fromText source bs) ∧
        loads.Opens .standard t' (JoinBlock.fromText source bs) := by
  refine ⟨_, _, rfl, rfl, ?_⟩
  exact compile_firstJoins rfl rfl rfl (by decide) (by decide) (by decide) rfl

end Query
end StreamSql
