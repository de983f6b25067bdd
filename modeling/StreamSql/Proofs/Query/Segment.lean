import StreamSql.Proofs.Expr.Descent
import StreamSql.Proofs.Query.Visit

namespace StreamSql

open Segment (concat separated enclosed)

def Expr.aliasText (value : Expr) (name : String) : String :=
  match value with
  | .member _ field _ => if field = name then " " ++ name else " AS " ++ name
  | _ => " " ++ name

theorem projectedColumn_eq (name : String) (value : Expr) (t : String) :
    projectedColumn name value t = if t = name then t else t ++ value.aliasText name := by
  unfold projectedColumn
  split
  · rfl
  · cases value with
    | member target field rename =>
      simp only [Expr.aliasText]
      split <;> rw [String.append_assoc]
    | _ => exact String.append_assoc

namespace Visit

def columnSegments (name : String) (v : Visit) : List Segment :=
  if v.written = name then [.visit v] else [.visit v, .word (v.expr.aliasText name)]

theorem concat_columnSegments (name : String) (v : Visit) :
    concat (v.columnSegments name) = projectedColumn name v.expr v.written := by
  rw [projectedColumn_eq, columnSegments]
  split <;> simp [concat, Segment.text]

def ofMember (key : Option GroupKey) (s : Scope) (e : Expr) : Visit :=
  ⟨e, { s with lowerBools := true }, key⟩

def projectionSegments (key : Option GroupKey) (bindings : List Binding) (s : Scope) :
    Expr → List Segment
  | .lambda params (.new _ members) =>
    separated ((members.filter fun m =>
      (ofMember key (s.bind (params.zip bindings)) m.2).written ≠ "").map
        fun m => (ofMember key (s.bind (params.zip bindings)) m.2).columnSegments m.1)
  | .lambda params body => [.visit ⟨body, s.bind (params.zip bindings), key⟩]
  | e => [.visit ⟨e, s, key⟩]

def conditionSegments (key : Option GroupKey) (bindings : List Binding) (s : Scope) (e : Expr) :
    List Segment :=
  enclosed e.fold.lambdaBody.isOr [.visit (bound key bindings s e.fold)]

def conditionsSegments (head : String) (key : Option GroupKey) (bindings : List Binding) (s : Scope)
    (es : List Expr) : List Segment :=
  if es.isEmpty then []
  else .word head :: Segment.joined " AND " (es.map (conditionSegments key bindings s))

def joinHead (source : ScopeSource) (j : Join) : String :=
  "\n" ++ j.kind.text ++ " JOIN " ++ source.text ++ optionalText "" JoinWindow.text j.within ++ "\nON "

def joinSegments (s : Scope) : Nat → List ScopeSource → List Join → List Segment
  | index, source :: sources, j :: js =>
    [.word (joinHead source j), .visit (bound none ((List.range index).map .source) s j.outerKey.fold),
      .word " = ", .visit (bound none [.source index] s j.innerKey.fold)] ++
      joinSegments s (index + 1) sources js
  | _, _, _ => []

section

variable {key : Option GroupKey} {bindings : List Binding} {s : Scope}

theorem projectedColumns_eq {members : List (String × Expr)}
    (h : ∀ m ∈ members, (ofMember key s m.2).Accepted) :
    projectedColumns (keyText key) s members =
      .ok ((members.filter fun m => (ofMember key s m.2).written ≠ "").map fun m =>
        projectedColumn m.1 m.2 (ofMember key s m.2).written) := by
  induction members with
  | nil => rfl
  | cons m ms ih =>
    have first : m.2.compile (keyText key) { s with lowerBools := true } = _ := (h m (by simp)).text_eq
    rw [projectedColumns, first, ih fun d mem => h d (by simp [mem])]
    by_cases empty : (ofMember key s m.2).written = ""
    · simp [Compiled.ok_bind, ofMember] at empty ⊢
      simp [empty]
    · simp [Compiled.ok_bind, ofMember] at empty ⊢
      simp [empty]

theorem projectionText_eq {e : Expr} (h : ∀ v ∈ ofProjection key bindings s e, v.Accepted) :
    projectionText (keyText key) bindings s e =
      .ok (concat (projectionSegments key bindings s e)) := by
  have visit {v : Visit} (accepted : v.Accepted) : v.text = .ok (concat [.visit v]) := by
    rw [Segment.concat_visit, accepted.text_eq]
  cases e with
  | lambda params body =>
    cases body with
    | new typeName members =>
      have columns := projectedColumns_eq (s := s.bind (params.zip bindings)) (List.forall_mem_map.1 h)
      simp only [projectionText, columns, Compiled.ok_bind, projectionSegments,
        Segment.concat_separated, List.map_map]
      congr 2
      exact List.map_congr_left fun m _ => (concat_columnSegments m.1 _).symm
    | _ => exact visit (List.forall_mem_singleton.1 h)
  | _ => exact visit (List.forall_mem_singleton.1 h)

theorem predicateText_eq {e : Expr} (h : (bound key bindings s e.fold).Accepted) :
    predicateText (keyText key) bindings s e = .ok (concat (conditionSegments key bindings s e)) := by
  have text : e.fold.compileBound (keyText key) bindings s = _ := boundText_eq bindings e.fold h
  rw [predicateText, text, conditionSegments, Segment.concat_enclosed, Segment.concat_visit]
  rfl

theorem predicateTexts_eq {es : List Expr} (h : ∀ e ∈ es, (bound key bindings s e.fold).Accepted) :
    predicateTexts (keyText key) bindings s es =
      .ok (es.map fun e => concat (conditionSegments key bindings s e)) := by
  induction es with
  | nil => rfl
  | cons e es ih =>
    rw [predicateTexts, predicateText_eq (h e (by simp)), ih fun d mem => h d (by simp [mem])]
    rfl

theorem conditionsText_eq (head : String) {es : List Expr}
    (h : ∀ e ∈ es, (bound key bindings s e.fold).Accepted) :
    conditionsText head (keyText key) bindings s es =
      .ok (concat (conditionsSegments head key bindings s es)) := by
  unfold conditionsText conditionsSegments
  split
  · rfl
  · rw [predicateTexts_eq h, concat, Segment.concat_joined, List.map_map]
    rfl

theorem joinTexts_segments {index : Nat} {sources : List ScopeSource} {js : List Join}
    (h : ∀ v ∈ ofJoins s index sources js, v.Accepted) :
    joinTexts s index sources js = .ok (concat (joinSegments s index sources js)) := by
  induction js generalizing index sources with
  | nil => cases sources <;> rfl
  | cons j js ih =>
    cases sources with
    | nil => rfl
    | cons source sources =>
      simp only [ofJoins, List.forall_mem_cons] at h
      have outer : j.outerKey.fold.compileBound noKey ((List.range index).map .source) s = _ :=
        boundText_eq _ _ h.1
      have inner : j.innerKey.fold.compileBound noKey [.source index] s = _ := boundText_eq _ _ h.2.1
      simp only [joinTexts, joinText, joinCondition, outer, inner, ih h.2.2, Compiled.ok_bind,
        joinSegments, Segment.concat_append, concat, Segment.text, joinHead]
      cases j.within <;> simp [optionalText, String.append_assoc]

end

end Visit

namespace Clauses

open Visit

variable (c : Clauses) (sources : List ScopeSource) (s : Scope)

def columnsSegments : List Segment :=
  match c.projection (c.groupRows sources) (rowBindings sources) with
  | some (e, bindings) => projectionSegments (c.groupKey sources) bindings s e.fold
  | none => []

def groupedSegments : List Segment :=
  if c.groupBy.isSome then
    .word " GROUP BY " :: separated ((c.visits sources s .groupBy).map fun v => [.visit v])
  else []

def partitionSegments : List Segment :=
  match c.partitionBy with
  | some e => [.word " PARTITION BY ", .visit (bound none (rowBindings sources) s e.fold)]
  | none => []

def ending (pull : Bool) : String :=
  (if pull then "" else " EMIT CHANGES") ++
    optionalText " LIMIT " (fun n : UInt64 => toString n.toNat) c.limit

def segments (pull : Bool) : List Segment :=
  .word "SELECT " ::
    (if concat (c.columnsSegments sources s) = "" then [.word "*"] else c.columnsSegments sources s) ++
    .word (" FROM " ++ sources.head?.elim "" ScopeSource.text) ::
    joinSegments s 1 (sources.drop 1) c.joins ++
    conditionsSegments "\nWHERE " none (rowBindings sources) s c.filters ++
    .word (optionalText " WINDOW " Window.text c.window) ::
    c.groupedSegments sources s ++ c.partitionSegments sources s ++
    conditionsSegments " HAVING " (c.groupKey sources) (c.groupRows sources) s c.having ++
    [.word (c.ending pull)]

variable {c sources s}

theorem columnsText_eq (h : ∀ v ∈ c.visits sources s .select, v.Accepted) :
    c.columnsText sources s = .ok (concat (c.columnsSegments sources s)) := by
  simp only [visits] at h
  simp only [columnsText, columnsSegments, key_eq]
  cases chosen : c.projection (c.groupRows sources) (rowBindings sources) with
  | none => rfl
  | some p =>
    simp only [chosen] at h
    exact projectionText_eq h

theorem groupedText_eq (h : ∀ v ∈ c.visits sources s .groupBy, v.Accepted) :
    c.groupedText sources s = .ok (concat (c.groupedSegments sources s)) := by
  simp only [visits] at h
  simp only [groupedText, groupedSegments, visits]
  cases grouped : c.groupBy with
  | none => simp [groupKey, grouped, concat]
  | some e =>
    have key : c.groupKey sources = some (GroupKey.ofExpr (rowBindings sources) e) := by
      simp [groupKey, grouped]
    rw [key] at h ⊢
    have text := @keyText_eq _ _ .whole _ _ rfl rfl h
    simp only [keyText, GroupKey.text] at text
    simp [text, Compiled.ok_bind, concat, Segment.text]

theorem partitionText_eq (h : ∀ v ∈ c.visits sources s .partitionBy, v.Accepted) :
    partitionText (rowBindings sources) s c.partitionBy =
      .ok (concat (c.partitionSegments sources s)) := by
  simp only [visits, List.forall_mem_map] at h
  simp only [partitionText, partitionSegments]
  cases partition : c.partitionBy with
  | none => rfl
  | some e =>
    have text : e.fold.compileBound noKey (rowBindings sources) s = _ :=
      boundText_eq _ _ (h e (by simp [partition]))
    simp [text, Compiled.ok_bind, concat, Segment.text]

theorem concat_segments (pull : Bool) :
    concat (c.segments sources s pull) =
      c.statement sources pull (concat (c.columnsSegments sources s))
        (concat (joinSegments s 1 (sources.drop 1) c.joins))
        (concat (conditionsSegments "\nWHERE " none (rowBindings sources) s c.filters))
        (concat (c.groupedSegments sources s)) (concat (c.partitionSegments sources s))
        (concat (conditionsSegments " HAVING " (c.groupKey sources) (c.groupRows sources) s
          c.having)) := by
  unfold segments statement ending
  generalize c.columnsSegments sources s = columns
  generalize joinSegments s 1 (sources.drop 1) c.joins = joins
  generalize conditionsSegments "\nWHERE " none (rowBindings sources) s c.filters = filters
  generalize c.groupedSegments sources s = grouped
  generalize c.partitionSegments sources s = partition
  generalize
    conditionsSegments " HAVING " (c.groupKey sources) (c.groupRows sources) s c.having = having
  have chosen : concat (if concat columns = "" then [.word "*"] else columns) =
      if (concat columns).isEmpty then "*" else concat columns := by
    by_cases empty : concat columns = ""
    · simp [empty, concat, Segment.text]
    · simp [empty]
  simp only [List.cons_append, Segment.concat_append, concat, chosen, Segment.text,
    String.append_assoc, String.append_empty]

theorem text_segments (pull : Bool) (h : ∀ place, ∀ v ∈ c.visits sources s place, v.Accepted) :
    c.text pull sources s = .ok (concat (c.segments sources s pull)) := by
  have joins : joinTexts s 1 (sources.drop 1) c.joins = _ := joinTexts_segments (h .join)
  have filters : conditionsText "\nWHERE " noKey (rowBindings sources) s c.filters = _ :=
    conditionsText_eq "\nWHERE " (List.forall_mem_map.1 (h .filter))
  have having := conditionsText_eq " HAVING " (List.forall_mem_map.1 (h .having))
  rw [text_eq, groupedText_eq (h .groupBy), columnsText_eq (h .select), joins, filters,
    partitionText_eq (h .partitionBy), key_eq, having, concat_segments]
  rfl

variable {v : Visit}

theorem visit_mem_projectionSegments {key : Option GroupKey} {bindings : List Binding} {e : Expr}
    (mem : v ∈ ofProjection key bindings s e) :
    .visit v ∈ projectionSegments key bindings s e ∨ v.written = "" := by
  cases e with
  | lambda params body =>
    cases body with
    | new typeName members =>
      obtain ⟨m, member, rfl⟩ := List.mem_map.1 mem
      by_cases empty : (ofMember key (s.bind (params.zip bindings)) m.2).written = ""
      · exact .inr empty
      · have shown : decide (_ ≠ "") = true := decide_eq_true empty
        refine .inl (visit_mem_separated_map.2 ⟨m, List.mem_filter.2 ⟨member, shown⟩, ?_⟩)
        unfold columnSegments
        split <;> exact List.mem_cons_self
    | _ => exact .inl (by simpa [ofProjection, projectionSegments] using mem)
  | _ => exact .inl (by simpa [ofProjection, projectionSegments] using mem)

theorem visit_mem_joinSegments {index : Nat} {js : List Join} (mem : v ∈ ofJoins s index sources js) :
    .visit v ∈ joinSegments s index sources js := by
  induction js generalizing index sources with
  | nil => cases sources <;> cases mem
  | cons j js ih =>
    cases sources with
    | nil => cases mem
    | cons source sources =>
      simp only [ofJoins, List.mem_cons] at mem
      rcases mem with rfl | rfl | mem
      · simp [joinSegments]
      · simp [joinSegments]
      · simp [joinSegments, ih mem]

theorem visit_mem_conditionsSegments {head : String} {key : Option GroupKey}
    {bindings : List Binding} {es : List Expr}
    (mem : v ∈ es.map fun e => bound key bindings s e.fold) :
    .visit v ∈ conditionsSegments head key bindings s es := by
  obtain ⟨e, condition, rfl⟩ := List.mem_map.1 mem
  unfold conditionsSegments
  split
  · next none =>
    rw [List.isEmpty_iff.1 none] at condition
    cases condition
  · have inside : .visit (bound key bindings s e.fold) ∈ conditionSegments key bindings s e :=
      visit_mem_enclosed.2 List.mem_cons_self
    exact List.mem_cons_of_mem _ (visit_mem_joined.2 ⟨_, List.mem_map_of_mem condition, inside⟩)

theorem visit_mem_columnsSegments (mem : v ∈ c.visits sources s .select) :
    .visit v ∈ c.columnsSegments sources s ∨ v.written = "" := by
  simp only [visits] at mem
  unfold columnsSegments
  cases chosen : c.projection (c.groupRows sources) (rowBindings sources) with
  | none => simp [chosen] at mem
  | some p =>
    simp only [chosen] at mem
    exact visit_mem_projectionSegments mem

theorem visit_mem_segments {place : Place} (pull : Bool) (mem : v ∈ c.visits sources s place) :
    .visit v ∈ c.segments sources s pull ∨ v.written = "" := by
  cases place with
  | select =>
    rcases visit_mem_columnsSegments mem with segment | empty
    · by_cases all : concat (c.columnsSegments sources s) = ""
      · exact .inr (Segment.written_eq_empty segment all)
      · exact .inl (by simp [segments, all, segment])
    · exact .inr empty
  | join => exact .inl (by simp [segments, -List.drop_one, visit_mem_joinSegments mem])
  | filter => exact .inl (by simp [segments, visit_mem_conditionsSegments mem])
  | having => exact .inl (by simp [segments, visit_mem_conditionsSegments mem])
  | groupBy =>
    have grouped : .visit v ∈ c.groupedSegments sources s := by
      unfold groupedSegments
      split
      · exact List.mem_cons_of_mem _ (visit_mem_separated_map.2 ⟨v, mem, List.mem_cons_self⟩)
      · next none =>
        simp only [visits, groupKey, Option.not_isSome_iff_eq_none.1 none] at mem
        cases mem
    exact .inl (by simp [segments, grouped])
  | partitionBy =>
    obtain ⟨e, partition, rfl⟩ := List.mem_map.1 mem
    exact .inl (by simp [segments, partitionSegments, Option.mem_toList.1 partition])

end Clauses

namespace Query

def segments (o : CompileOptions) (q : Query) : List Segment :=
  q.clauses.segments (q.scopeSources o) (q.scope o) q.pull ++ [.word ";"]

theorem compile_eq_segments {o : CompileOptions} {q : Query} {t : String} (ok : q.compile o = .ok t) :
    t = concat (q.segments o) := by
  obtain ⟨first, u, -, -, text, rfl⟩ := compile_clauses ok
  have accepted := (accepted_compile.1 ⟨_, ok⟩).2
  rw [Clauses.text_segments q.pull accepted] at text
  rw [← Except.ok.inj text, segments, Segment.concat_append]
  simp [concat, Segment.text]

end Query
end StreamSql
