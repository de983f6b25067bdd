import StreamSql.Proofs.Expr.Argument
import StreamSql.Proofs.Expr.Blank
import StreamSql.Proofs.Query.Segment

namespace StreamSql

namespace Visit

variable {v w : Visit} {t : String}

/-- What the text `t` of a statement tells of a visit. -/
structure Told (v : Visit) (t : String) : Prop where
  empty_iff : v.written = "" ↔ v.Blank
  stands : v.written.toList <:+: t.toList ∨ v.IsWrittenOut
  tells : ∀ target method args, v.expr = .call target method args →
    v.Tells (method.kept (target.toList ++ args)) v.written
  /-- A conversion is written as if it had not been given what it does not keep. -/
  conversion : ∀ target type args e rest, v.expr = .call target (.cast type) args →
    target.toList ++ args = e :: rest →
    v.text = (Visit.mk (.call none (.cast type) ((Method.cast type).kept (e :: rest))) v.scope
      v.key).text

def Within (v : Visit) (t : String) : Prop :=
  v.written.toList <:+: t.toList ∨
    v.IsWrittenOut ∧ ∀ w ∈ v.next, w.written.toList <:+: t.toList

theorem Within.next (h : v.Within t) (accepted : v.Accepted) (step : w ∈ v.next) : w.Within t := by
  rcases h with inside | ⟨-, items⟩
  · have segment {u : Visit} (mem : .visit u ∈ v.segments) : u.written.toList <:+: t.toList := by
      refine (Segment.text_infix mem).trans ?_
      rwa [← written_eq v accepted]
    rcases segment_of_next ((accepted_iff v).1 accepted).1 step with mem | ⟨out, items⟩
    · exact .inl (segment mem)
    · exact .inr ⟨out, fun u mem => segment (items u mem)⟩
  · exact .inl (items w step)

theorem Within.of_reaches (h : v.Within t) (accepted : v.Accepted) (reaches : v.Reaches w) :
    w.Within t := by
  induction reaches with
  | refl => exact h
  | tail reaches step ih => exact ih.next (accepted.of_reaches reaches) step

theorem told (within : v.Within t) (accepted : v.Accepted) : v.Told t where
  empty_iff := written_eq_empty_iff accepted
  stands := within.imp_right And.left
  tells := by
    obtain ⟨e, s, key⟩ := v
    rintro target method args rfl
    exact accepted.tells
  conversion := by
    obtain ⟨e, s, key⟩ := v
    rintro target type args e rest rfl split
    exact text_cast split

end Visit

namespace Query

variable {o : CompileOptions} {q : Query} {t : String} {place : Place} {v w : Visit}

theorem within_compile (ok : q.compile o = .ok t) (mem : v ∈ q.visits o place) : v.Within t := by
  rcases Clauses.visit_mem_segments q.pull mem with segment | empty
  · rw [compile_eq_segments ok]
    have inside : .visit v ∈ q.segments o := List.mem_append_left _ segment
    have stands := Segment.text_infix inside
    exact .inl stands
  · exact .inl (by simp [empty])

/-- Whatever a query reaches from one of its clauses stands in its statement, but for rows by
themselves, and calls have a place for each argument that they keep. -/
theorem compile_told (ok : q.compile o = .ok t) (mem : v ∈ q.visits o place) (reaches : v.Reaches w) :
    w.Told t := by
  have accepted := (accepted_compile.1 ⟨t, ok⟩).2 place v mem
  exact Visit.told ((within_compile ok mem).of_reaches accepted reaches) (accepted.of_reaches reaches)

private abbrev bareCondition : Query := ⟨[.source (.named "Location"),
  .filter (.lambda ["l"] (.parameter "l"))], false⟩

private abbrev bareRow : Visit :=
  ⟨.parameter "l", (bareCondition.scope .standard).bind [("l", .source 0)], none⟩

theorem bareRow_mem_visits : bareRow ∈ bareCondition.visits .standard .filter := .head _

theorem told_bareRow :
    ∃ t, bareCondition.compile .standard = .ok t ∧ bareRow.Told t ∧ bareRow.written = "" := by
  have accepted : ∃ t, bareCondition.compile .standard = .ok t := ⟨_, rfl⟩
  obtain ⟨t, ok⟩ := accepted
  have told : bareRow.Told t := compile_told ok bareRow_mem_visits .refl
  exact ⟨t, ok, told, rfl⟩

example : (bareCondition.compile .standard).toOption =
    some "SELECT * FROM Locations\nWHERE  EMIT CHANGES;" := by
  decide +kernel

theorem not_written_conditions :
    ¬ ∀ (q : Query) (t : String) (v : Visit), q.compile .standard = .ok t →
      v ∈ q.visits .standard .filter → v.written ≠ "" := by
  intro written
  obtain ⟨t, ok⟩ : ∃ t, bareCondition.compile .standard = .ok t := ⟨_, rfl⟩
  exact written bareCondition t bareRow ok bareRow_mem_visits rfl

end Query
end StreamSql
