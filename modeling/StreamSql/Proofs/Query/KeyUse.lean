import StreamSql.Proofs.Expr.Casing
import StreamSql.Proofs.Query.GroupKey
import StreamSql.Proofs.Query.Visit

/-!
The key of a group wherever it is asked for. Outside of lambdas over items it is written as it is in its
clause: the parameters of the key are bound anew, and all else that a scope adds are bindings and the
case of boolean literals.
-/

namespace StreamSql

open Text (boolWord Template)

theorem Scope.bind_bind (s : Scope) (as bs : List (String × Binding)) :
    (s.bind as).bind bs = s.bind (as ++ bs) := by
  simp [bind]

namespace Visit

/-- What an expression goes on to, but for the lambdas over the items of a collection. -/
def nextOutside (v : Visit) : List Visit :=
  match v.expr with
  | .call target (.higherOrder _) args =>
    ((target.toList ++ args).filter fun e => !(e.part noKey).isLambda).map (⟨·, v.scope, v.key⟩)
  | _ => v.next

def ReachesOutside : Visit → Visit → Prop := Relation.ReflTransGen fun v w => w ∈ v.nextOutside

inductive Asks (w : Visit) : KeyUse → Prop
  | whole {g : String} {i : Nat} {rename : Option String}
    (group : w.scope.lookup? g = some (.grouping i))
    (expr : w.expr = .member (.parameter g) "Key" rename) : Asks w .whole
  | part {g : String} {i : Nat} {rename rename' : Option String} {name : String}
    (group : w.scope.lookup? g = some (.grouping i))
    (expr : w.expr = .member (.member (.parameter g) "Key" rename) name rename') : Asks w (.part name)

variable {v w : Visit} {s : Scope} {key : Option GroupKey} {use : KeyUse}

theorem Asks.access_eq (asks : w.Asks use) : ∃ target name rename,
    w.expr = .member target name rename ∧ access w.scope target name rename = .key use := by
  cases asks with
  | whole group expr => exact ⟨_, _, _, expr, by simp [access, group, groupingAccess]⟩
  | part group expr => exact ⟨_, _, _, expr, by simp [access, Scope.isGrouping, group]⟩

theorem Asks.written_eq (asks : w.Asks use) (accepted : w.Accepted) :
    ∃ k es, w.key = some k ∧ k.exprs? use = some es ∧ w.written =
      Text.join ", " (es.map fun e => (Visit.mk e (w.scope.bind k.bindings) none).written) := by
  obtain ⟨e, s, key⟩ := w
  obtain ⟨target, name, rename, rfl, found⟩ := asks.access_eq
  have fits := ((accepted_iff _).1 accepted).1
  simp only [Fits, found] at fits
  obtain ⟨k, es, rfl, exprs⟩ := fits
  refine ⟨k, es, rfl, exprs, (Visit.written_eq _ accepted).trans ?_⟩
  simp [segments, found, ofKey, exprs, Segment.concat_separated, Segment.concat_visit, Function.comp_def]

theorem next_of_nextOutside (step : w ∈ v.nextOutside) : w ∈ v.next := by
  obtain ⟨e, s, key⟩ := v
  cases e with
  | call target method args =>
    cases method with
    | higherOrder f =>
      simp only [nextOutside] at step
      obtain ⟨e, mem, rfl⟩ := List.mem_map.1 step
      obtain ⟨mem, other⟩ := List.mem_filter.1 mem
      simp only [next, Method.next]
      cases split : target.toList ++ args with
      | nil => simp [split] at mem
      | cons collection rest =>
        rcases List.mem_cons.1 (split ▸ mem) with rfl | mem
        · exact List.mem_cons_self
        · refine List.mem_cons_of_mem _ (List.mem_map.2 ⟨e, mem, ?_⟩)
          cases e with
          | lambda params body => cases other
          | _ => rfl
    | _ => exact step
  | _ => exact step

theorem Accepted.of_reachesOutside (h : v.Accepted) (reaches : v.ReachesOutside w) : w.Accepted := by
  induction reaches with
  | refl => exact h
  | tail _ step ih => exact ((accepted_iff _).1 ih).2 _ (next_of_nextOutside step)

structure Extends (v : Visit) (s : Scope) (key : Option GroupKey) : Prop where
  scope : ∃ bs, v.scope = s.bind bs
  key : v.key = key ∨ v.key = none

namespace Extends

theorem here (e : Expr) (s : Scope) (key : Option GroupKey) : Extends ⟨e, s, key⟩ s key :=
  ⟨⟨[], rfl⟩, .inl rfl⟩

theorem bind (e : Expr) (s : Scope) (bs : List (String × Binding)) (key : Option GroupKey) :
    Extends ⟨e, s.bind bs, key⟩ s key :=
  ⟨⟨bs, rfl⟩, .inl rfl⟩

theorem trans (second : w.Extends v.scope v.key) (first : v.Extends s key) : w.Extends s key := by
  obtain ⟨⟨as, scope⟩, key⟩ := first
  obtain ⟨⟨bs, scope'⟩, key'⟩ := second
  refine ⟨⟨as ++ bs, by rw [scope', scope, Scope.bind_bind]⟩, ?_⟩
  rcases key' with same | none
  · rwa [same]
  · exact .inr none

theorem bound (bindings : List Binding) (e : Expr) (s : Scope) (key : Option GroupKey) :
    (bound key bindings s e).Extends s key := by
  cases e with
  | lambda params body =>
    simp only [Visit.bound]
    split
    · exact here _ s key
    · exact bind body s _ key
  | _ => exact here _ s key

theorem of_map (es : List Expr) (mem : w ∈ es.map (⟨·, s, key⟩)) : w.Extends s key := by
  obtain ⟨e, -, rfl⟩ := List.mem_map.1 mem
  exact here e s key

theorem of_ofKey (mem : w ∈ ofKey key use s) : w.Extends s key := by
  unfold ofKey at mem
  split at mem
  · obtain ⟨e, -, rfl⟩ := List.mem_map.1 mem
    exact ⟨⟨_, rfl⟩, .inr rfl⟩
  · cases mem

theorem of_call {method : Method} {target : Option Expr} {args : List Expr}
    (step : w ∈ (Visit.mk (.call target method args) s key).nextOutside) : w.Extends s key := by
  cases method with
  | other name => cases step
  | aggregate f =>
    simp only [nextOutside, next, Method.next] at step
    split at step
    · obtain ⟨e, -, rfl⟩ := List.mem_map.1 step
      exact bound _ e s key
    · cases step
  | _ => exact of_map _ step

theorem of_nextOutside (step : w ∈ v.nextOutside) : w.Extends v.scope v.key := by
  obtain ⟨e, s, key⟩ := v
  cases e with
  | constant | captured | parameter | lambda => cases step
  | member target name rename =>
    simp only [nextOutside, next] at step
    split at step
    · exact of_ofKey step
    · exact of_map [target] step
    · cases step
  | binary op left right =>
    simp only [nextOutside, next] at step
    split at step
    · exact of_map [left] step
    · exact of_map [right] step
    · exact of_map [left, right] step
  | unary op operand => exact of_map [operand] step
  | call target method args => exact of_call step
  | new typeName members =>
    obtain ⟨m, -, rfl⟩ := List.mem_map.1 step
    exact here m.2 s key
  | array items => exact of_map items step
  | map entries =>
    obtain ⟨e, -, step⟩ := List.mem_flatMap.1 step
    exact of_map [e.1, e.2] step

theorem of_reachesOutside (reaches : v.ReachesOutside w) : w.Extends v.scope v.key := by
  induction reaches with
  | refl => exact here v.expr v.scope v.key
  | tail _ step ih => exact (of_nextOutside step).trans ih

theorem of_ofJoins {index : Nat} {sources : List ScopeSource} {js : List Join}
    (mem : v ∈ ofJoins s index sources js) : v.Extends s none := by
  obtain ⟨is, e, rfl⟩ := Clauses.exists_bound_of_mem_ofJoins mem
  exact bound _ e s none

end Extends

theorem extends_ofProjection {bindings : List Binding} {e : Expr}
    (plain : s.lowerBools = false) (mem : v ∈ ofProjection key bindings s e) :
    ∃ low, v.Extends (s.cased low) key := by
  have same : s.cased false = s := by rw [← plain]; rfl
  unfold ofProjection at mem
  split at mem
  · obtain ⟨m, -, rfl⟩ := List.mem_map.1 mem
    exact ⟨true, ⟨_, rfl⟩, .inl rfl⟩
  · obtain rfl := List.mem_singleton.1 mem
    refine ⟨false, ?_⟩
    rw [same]
    exact .bind _ s _ key
  · obtain rfl := List.mem_singleton.1 mem
    refine ⟨false, ?_⟩
    rw [same]
    exact .here _ s key

theorem written_above {e : Expr} {bs : List (String × Binding)} (bare : s.bindings = [])
    (h : (Visit.mk e (s.bind bs) none).Accepted) (above : List (String × Binding)) :
    (Visit.mk e ((s.bind above).bind bs) none).written = (Visit.mk e (s.bind bs) none).written := by
  have within : s.Within (s.bind above) := Scope.within_bind bare above
  exact written_of_text
    (e.compile_le (noKey_le noKey) (within.on.bind fun b _ => b.2.shown_all) _ h.text_eq)

end Visit

def GroupKey.listText (part : Expr → Template Bool) (low : Bool) (es : List Expr) : String :=
  Text.join ", " (es.map fun e => (part e).fill (boolWord low))

namespace Query

open Visit

variable {o : CompileOptions} {q : Query} {k : GroupKey}

theorem extends_visits {place : Place} {v : Visit} (mem : v ∈ q.visits o place) :
    ∃ low, (low = true → place = .select) ∧
      v.Extends ((q.scope o).cased low) (q.clauses.groupKey (q.scopeSources o)) := by
  have elsewhere {key : Option GroupKey} (h : v.Extends (q.scope o) key)
      (same : key = q.clauses.groupKey (q.scopeSources o) ∨ key = none) :
      ∃ low, (low = true → place = .select) ∧
        v.Extends ((q.scope o).cased low) (q.clauses.groupKey (q.scopeSources o)) := by
    refine ⟨false, by simp, h.scope, ?_⟩
    rcases same with rfl | rfl
    · exact h.key
    · exact .inr (or_self_iff.1 h.key)
  cases place with
  | select =>
    simp only [visits, Clauses.visits] at mem
    split at mem
    · obtain ⟨low, h⟩ := extends_ofProjection rfl mem
      exact ⟨low, fun _ => rfl, h⟩
    · cases mem
  | join => exact elsewhere (.of_ofJoins mem) (.inr rfl)
  | filter | partitionBy =>
    obtain ⟨e, -, rfl⟩ := List.mem_map.1 mem
    exact elsewhere (.bound _ _ _ none) (.inr rfl)
  | groupBy => exact elsewhere (.of_ofKey mem) (.inl rfl)
  | having =>
    obtain ⟨e, -, rfl⟩ := List.mem_map.1 mem
    exact elsewhere (.bound _ _ _ _) (.inl rfl)

/-- Outside of lambdas over items, the key of a group is written as in its clause, and a part of it as the
part of that text. Only in the named columns of a projection are the boolean literals of it in lower
case. -/
theorem compile_groupKey (accepted : (q.compile o).Accepted)
    (grouped : q.clauses.groupKey (q.scopeSources o) = some k) :
    ∃ part : Expr → Template Bool,
      q.clauses.groupedText (q.scopeSources o) (q.scope o) =
        .ok (" GROUP BY " ++ GroupKey.listText part false k.body.keyParts) ∧
      ∀ place, ∀ v ∈ q.visits o place, ∀ w, v.ReachesOutside w → ∀ use, w.Asks use →
        ∃ low es, (low = true → place = .select) ∧ k.exprs? use = some es ∧
          w.text = .ok (GroupKey.listText part low es) := by
  have visits := (accepted_compile.1 accepted).2
  have clause : q.visits o .groupBy =
      k.body.keyParts.map (⟨·, (q.scope o).bind k.bindings, none⟩) := by
    simp [Query.visits, Clauses.visits, grouped, ofKey, GroupKey.exprs?]
  have parts := visits .groupBy
  simp only [clause, List.forall_mem_map] at parts
  -- A part of the key is one template; what fills it is the case of its boolean literals.
  have templates (e : Expr) : ∃ T : Template Bool, e ∈ k.body.keyParts → ∀ low,
      (Visit.mk e (((q.scope o).cased low).bind k.bindings) none).written = T.fill (boolWord low) := by
    by_cases mem : e ∈ k.body.keyParts
    · obtain ⟨T, fill⟩ := casedText (parts e mem)
      exact ⟨T, fun _ => fill⟩
    · exact ⟨[], fun mem' => absurd mem' mem⟩
  choose part fill using templates
  refine ⟨part, ?_, fun place v mem w reaches use asks => ?_⟩
  · have text : keyListText k.body ((q.scope o).bind k.bindings) = _ :=
      keyListText_eq k.body parts
    rw [Clauses.groupedText, grouped]
    simp only [text, Compiled.ok_bind, Segment.concat_separated, List.map_map, GroupKey.listText]
    congr 3
    refine List.map_congr_left fun e mem => ?_
    rw [← fill e mem false]
    exact Segment.concat_visit _
  · obtain ⟨low, select, base⟩ := extends_visits mem
    obtain ⟨⟨above, scope⟩, key⟩ := (Extends.of_reachesOutside reaches).trans base
    have written := (visits place v mem).of_reachesOutside reaches
    obtain ⟨k', es, key', exprs, text⟩ := asks.written_eq written
    -- On the way the key is kept or put aside, but never another one.
    obtain rfl : k' = k := by
      rcases key with same | none
      · exact Option.some.inj (key'.symm.trans (same.trans grouped))
      · cases key'.symm.trans none
    refine ⟨low, es, select, exprs, ?_⟩
    rw [written.text_eq, text, GroupKey.listText, scope]
    congr 2
    refine List.map_congr_left fun e inside => ?_
    have mem := GroupKey.mem_keyParts exprs inside
    rw [← fill e mem low]
    exact written_above rfl (accepted_cased (parts e mem) low) above

private abbrev isBig (o : String) : Expr :=
  .binary .eq (.member (.parameter o) "Express" none) (.constant (.bool true))

private abbrev keyMember (name : String) : Expr :=
  .member (.member (.parameter "g") "Key" none) name none

private abbrev bigOrders : Query := ⟨[.source (.named "Order"),
  .groupBy (.lambda ["o"] (.new none [("City", .member (.parameter "o") "City" none), ("Big", isBig "o")])),
  .select (.lambda ["g"] (.new none [("Big", keyMember "Big")])),
  .having (.lambda ["g"] (.call (some (.parameter "g")) (.aggregate .max)
    [.lambda ["o"] (keyMember "Big")]))], false⟩

example : (bigOrders.compile .standard).toOption = some ("SELECT Express = true Big FROM Orders" ++
    " GROUP BY City, Express = True HAVING MAX(Express = True) EMIT CHANGES;") := by
  decide +kernel

theorem compile_groupKey_bigOrders : (bigOrders.compile .standard).Accepted ∧
    ∃ part : Expr → Template Bool,
      bigOrders.clauses.groupedText (bigOrders.scopeSources .standard) (bigOrders.scope .standard) =
        .ok (" GROUP BY " ++
          GroupKey.listText part false [.member (.parameter "o") "City" none, isBig "o"]) ∧
      ∃ v ∈ bigOrders.visits .standard .having, ∃ w, v.ReachesOutside w ∧ w.Asks (.part "Big") ∧
        w.text = .ok (GroupKey.listText part false [isBig "o"]) := by
  have accepted : (bigOrders.compile .standard).Accepted := ⟨_, rfl⟩
  obtain ⟨part, clause, uses⟩ := compile_groupKey accepted rfl
  refine ⟨accepted, part, clause, _, List.mem_singleton_self _, _, .single List.mem_cons_self,
    .part rfl rfl, ?_⟩
  obtain ⟨low, es, select, exprs, text⟩ := uses .having _ (List.mem_singleton_self _) _
    (.single List.mem_cons_self) (.part "Big") (.part rfl rfl)
  cases low with
  | true => cases select rfl
  | false =>
    cases exprs
    exact text

end Query
end StreamSql
