import Mathlib.Data.List.Forall2
import StreamSql.Proofs.Expr.Descent
import StreamSql.Proofs.Text.Template

namespace StreamSql

open Segment (concat separated enclosed called)
open Text (HasPlaces)

def Method.kept (method : Method) (es : List Expr) : List Expr :=
  match method with
  | .cast .decimal => es
  | .cast _ => es.take 1
  | _ => es

namespace Visit

inductive WritesAs (c : Visit) : Expr → String → Prop
  | text {e : Expr} {t : String} (ok : (Visit.mk e c.scope c.key).text = .ok t) : WritesAs c e t
  /-- A group has no text: what stands for it is the function of its rows. -/
  | group {e : Expr} {f : AggregateFn} {args : List Expr} {i : Nat}
    (call : c.expr = .call (some e) (.aggregate f) args) (group : c.scope.group? (some e) = some i) :
    WritesAs c e f.name
  | rows {target : Option Expr} {f : AggregateFn} {args : List Expr} {i : Nat} {e : Expr} {t : String}
    (call : c.expr = .call target (.aggregate f) args) (group : c.scope.group? target = some i)
    (ok : (bound c.key [.source i] c.scope e).text = .ok t) : WritesAs c e t
  | items {target : Option Expr} {f : HigherOrderFn} {args rest : List Expr} {collection : Expr}
    {params : List String} {body : Expr} {t : String}
    (call : c.expr = .call target (.higherOrder f) args)
    (split : target.toList ++ args = collection :: rest)
    (ok : (ofItem c.key ((collection.kind? c.scope).bind TypeKind.element?) c.scope
      (.lambda params body)).text = .ok t) :
    WritesAs c (.lambda params body) ("(" ++ Text.join ", " params ++ ") => " ++ t)
  /-- A list that is asked for an item has no brackets of its own. -/
  | list {target : Option Expr} {args es : List Expr} {ts : List String}
    (call : c.expr = .call target .contains args)
    (ok : List.Forall₂ (fun e t => (Visit.mk e c.scope c.key).text = .ok t) es ts) :
    WritesAs c (.array es) (Text.join ", " ts)
  | constant {target : Option Expr} {args : List Expr} {x : Value}
    (call : c.expr = .call target .contains args) :
    WritesAs c (.constant x) (x.literal { c.scope.style with membership := true })
  | captured {target : Option Expr} {args : List Expr} {name : String} {x : Value}
    (call : c.expr = .call target .contains args) :
    WritesAs c (.captured name x) (x.literal { c.scope.style with membership := true })
  | pattern {target : Option Expr} {method : Method} {args : List Expr} {t : String}
    (call : c.expr = .call target method args)
    (like : method = .contains ∨ method = .startsWith ∨ method = .endsWith) :
    WritesAs c (.constant (.string t)) t
  | digits {target : Option Expr} {args : List Expr} {n : Int64}
    (call : c.expr = .call target (.cast .decimal) args) :
    WritesAs c (.constant (.int n)) (toString n.toInt)

variable {c : Visit} {key : Option GroupKey} {s : Scope} {target : Option Expr} {args : List Expr}

theorem WritesAs.of_accepted {e : Expr} (h : (Visit.mk e c.scope c.key).Accepted) :
    c.WritesAs e (Visit.mk e c.scope c.key).written := .text h.text_eq

theorem forall₂_writesAs {es : List Expr} {f : Expr → String} (h : ∀ e ∈ es, c.WritesAs e (f e)) :
    List.Forall₂ c.WritesAs es (es.map f) :=
  List.forall₂_map_right_iff.2 (List.forall₂_same.2 h)

/-- The arguments of a call, in the forms that it writes them in, have places in a text. -/
def Tells (c : Visit) (es : List Expr) (t : String) : Prop :=
  ∃ ts, List.Forall₂ c.WritesAs es ts ∧ HasPlaces t ts

theorem tells_called (name : String) {es : List Expr} {parts : Expr → List Segment}
    (h : ∀ e ∈ es, c.WritesAs e (concat (parts e))) :
    c.Tells es (concat (called name (es.map parts))) := by
  refine ⟨es.map fun e => concat (parts e), forall₂_writesAs h, ?_⟩
  rw [Segment.concat_called, List.map_map]
  exact Text.hasPlaces_list (name ++ "(") ")" _

theorem tells_visits (name : String) {es : List Expr}
    (h : ∀ e ∈ es, (Visit.mk e c.scope c.key).Accepted) :
    c.Tells es (concat (called name (es.map fun e => [.visit ⟨e, c.scope, c.key⟩]))) :=
  tells_called name fun e mem => by
    rw [Segment.concat_visit]
    exact .of_accepted (h e mem)

theorem tells_aggregate {f : AggregateFn} {e : Expr} {i : Nat}
    (call : c.expr = .call (some e) (.aggregate f) args) (group : c.scope.group? (some e) = some i)
    (count : args = [] → f = .count)
    (h : ∀ e ∈ args, (bound c.key [.source i] c.scope e).Accepted) :
    c.Tells (e :: args) (concat (Method.segments (.aggregate f) c.key c.scope (some e) args)) := by
  have rows : ∀ d ∈ args, c.WritesAs d (bound c.key [.source i] c.scope d).written :=
    fun d mem => .rows call group (h d mem).text_eq
  refine ⟨f.name :: args.map fun d => (bound c.key [.source i] c.scope d).written,
    .cons (.group call group) (forall₂_writesAs rows), ?_⟩
  simp only [Method.segments, group]
  cases args with
  | nil =>
    obtain rfl := count rfl
    exact Text.hasPlaces_call "COUNT" [] ["*"]
  | cons d ds =>
    simp only [List.isEmpty_cons, Bool.false_eq_true, if_false, Segment.concat_called, List.map_append,
      Segment.map_concat_visits]
    exact Text.hasPlaces_call _ _ _

theorem tells_like {receiver needle : Expr} (pattern : String → String) (before after : String)
    (around : ∀ t, pattern t = before ++ t ++ after)
    (hr : (Visit.mk receiver c.scope c.key).Accepted) (string : (needle.part noKey).string?.isSome)
    (h : ∀ t, c.WritesAs (.constant (.string t)) t) :
    c.Tells [receiver, needle]
      (concat ((Visit.mk receiver c.scope c.key).likeSegments needle pattern)) := by
  obtain ⟨t, found⟩ := Option.isSome_iff_exists.1 string
  obtain rfl : needle = .constant (.string t) := by
    unfold Part.string? at found
    split at found
    · next same => exact Option.some.inj found ▸ same
    · cases found
  refine ⟨[(Visit.mk receiver c.scope c.key).written, t], .cons (.of_accepted hr) (.cons (h t) .nil),
    [.inr 0, .inl " LIKE ", .inl ("'" ++ before), .inr 1, .inl (after ++ "'")], ?_, fun i less => ?_⟩
  · simp [Text.Template.fill, likeSegments, concat, Segment.text, quoted, Part.string?, Expr.part,
      around, String.append_assoc]
  · simp only [List.length_cons, List.length_nil] at less
    simp
    omega

theorem tells_contains {receiver item : Expr} (call : c.expr = .call target .contains args)
    (holds : receiver.Holds c.scope item) (hr : (Visit.mk receiver c.scope c.key).Accepted)
    (hi : (Visit.mk item c.scope c.key).Accepted) :
    c.Tells [receiver, item]
      (concat ((Visit.mk receiver c.scope c.key).containsSegments ⟨item, c.scope, c.key⟩)) := by
  unfold containsSegments
  cases length : (receiver.part noKey).listLength? with
  | some n =>
    have list : c.WritesAs receiver (concat (Visit.mk receiver c.scope c.key).listSegments) := by
      cases receiver with
      | array items =>
        have accepted : ∀ e ∈ items, (Visit.mk e c.scope c.key).Accepted := by
          simpa [next] using ((accepted_iff _).1 hr).2
        simp only [listSegments, Segment.concat_separated, Segment.map_concat_visits]
        refine .list call (List.forall₂_map_right_iff.2 (List.forall₂_same.2 fun e mem => ?_))
        exact (accepted e mem).text_eq
      | constant x =>
        simp only [listSegments, concat, Segment.text, String.append_empty]
        exact .constant call
      | captured name x =>
        simp only [listSegments, concat, Segment.text, String.append_empty]
        exact .captured call
      | _ => cases length
    refine ⟨_, .cons list (.cons (.of_accepted hi) .nil),
      [.inr 1, .inl " IN (", .inr 0, .inl ")"], ?_, fun i less => ?_⟩
    · simp [Text.Template.fill, concat, Segment.concat_append, Segment.text]
    · simp only [List.length_cons, List.length_nil] at less
      simp
      omega
  | none =>
    simp only
    split
    · next test =>
      exact tells_like _ "%" "%" (fun _ => rfl) hr (holds.2 length test) fun t =>
        .pattern call (.inl rfl)
    · refine ⟨[_, _], .cons (.of_accepted hr) (.cons (.of_accepted hi) .nil), ?_⟩
      rw [Segment.concat_called]
      simp only [List.map_cons, List.map_nil, Segment.concat_visit]
      exact Text.hasPlaces_list "ARRAY_CONTAINS(" ")" _

theorem tells_between (keyword : String) {receiver low high : Expr}
    (h : ∀ e ∈ [receiver, low, high], (Visit.mk e c.scope c.key).Accepted) :
    c.Tells [receiver, low, high] (concat (betweenSegments keyword ⟨receiver, c.scope, c.key⟩
      ⟨low, c.scope, c.key⟩ ⟨high, c.scope, c.key⟩)) := by
  refine ⟨_, forall₂_writesAs fun e mem => .of_accepted (h e mem),
    [.inr 0, .inl (" " ++ keyword ++ " "), .inr 1, .inl " AND ", .inr 2], ?_, fun i less => ?_⟩
  · simp [Text.Template.fill, betweenSegments, concat, Segment.text]
  · simp only [List.map_cons, List.map_nil, List.length_cons, List.length_nil] at less
    simp
    omega

theorem tells_higherOrder {f : HigherOrderFn} {collection : Expr} {rest : List Expr}
    (call : c.expr = .call target (.higherOrder f) args)
    (split : target.toList ++ args = collection :: rest)
    (hc : (Visit.mk collection c.scope c.key).Accepted)
    (h : ∀ e ∈ rest,
      (ofItem c.key ((collection.kind? c.scope).bind TypeKind.element?) c.scope e).Accepted) :
    c.Tells (collection :: rest)
      (concat (Method.segments (.higherOrder f) c.key c.scope target args)) := by
  have items : ∀ e ∈ rest, c.WritesAs e (concat (itemSegments c.key
      ((collection.kind? c.scope).bind TypeKind.element?) c.scope e)) := by
    intro e mem
    cases e with
    | lambda params body =>
      rw [concat_itemSegments_lambda]
      exact .items call split (h _ mem).text_eq
    | _ =>
      simp only [itemSegments, Segment.concat_visit]
      exact .of_accepted (h _ mem)
  simp only [Method.segments, split]
  refine ⟨_, .cons (.of_accepted hc) (forall₂_writesAs items), ?_⟩
  rw [Segment.concat_called, List.map_cons, List.map_map, Segment.concat_visit]
  exact Text.hasPlaces_list (f.name ++ "(") ")" _

theorem exists_int_of_accepted {rest : List Expr}
    (named : (CastType.text .decimal (rest.map (Expr.part noKey))).Accepted) :
    ∃ precision scale, rest = [.constant (.int precision), .constant (.int scale)] := by
  have int {e : Expr} {n : Int64} (found : (e.part noKey).int? = some n) : e = .constant (.int n) := by
    unfold Part.int? at found
    split at found
    · next same => exact Option.some.inj found ▸ same
    · cases found
  match rest with
  | [p, q] =>
    simp only [CastType.text, List.map_cons, List.map_nil] at named
    split at named
    · next precision scale hp hq => exact ⟨precision, scale, by rw [int hp, int hq]⟩
    · exact (Compiled.not_accepted_unsupported _ named).elim
  | [] | [_] | _ :: _ :: _ :: _ => exact (Compiled.not_accepted_unsupported _ named).elim

theorem tells_cast {type : CastType} {e : Expr} {rest : List Expr}
    (call : c.expr = .call target (.cast type) args) (split : target.toList ++ args = e :: rest)
    (named : (type.text (rest.map (Expr.part noKey))).Accepted)
    (h : (Visit.mk e c.scope c.key).Accepted) :
    c.Tells ((Method.cast type).kept (e :: rest))
      (concat (Method.segments (.cast type) c.key c.scope target args)) := by
  simp only [Method.segments, split]
  by_cases decimal : type = .decimal
  · subst decimal
    obtain ⟨precision, scale, rfl⟩ := exists_int_of_accepted named
    refine ⟨_, .cons (.of_accepted h) (.cons (.digits call) (.cons (.digits call) .nil)),
      [.inl "CAST(", .inr 0, .inl " AS ", .inl "DECIMAL(", .inr 1, .inl ", ", .inr 2, .inl ")",
        .inl ")"], ?_, fun i less => ?_⟩
    · simp [Text.Template.fill, concat, Segment.text, CastType.written, CastType.text, Expr.part,
        Part.int?, callText, Text.join, CastType.name, String.append_assoc]
    · simp only [List.length_cons, List.length_nil] at less
      simp
      omega
  · have kept : (Method.cast type).kept (e :: rest) = [e] := by
      cases type <;> first | rfl | exact (decimal rfl).elim
    rw [kept]
    refine ⟨_, .cons (.of_accepted h) .nil,
      [.inl "CAST(", .inr 0, .inl (" AS " ++ type.written rest ++ ")")], ?_, fun i less => ?_⟩
    · simp [Text.Template.fill, concat, Segment.text]
    · simp only [List.length_cons, List.length_nil] at less
      simp
      omega

theorem Accepted.tells {method : Method}
    (accepted : (Visit.mk (.call target method args) s key).Accepted) :
    (Visit.mk (.call target method args) s key).Tells (method.kept (target.toList ++ args))
      (Visit.mk (.call target method args) s key).written := by
  obtain ⟨fits, next⟩ := (accepted_iff _).1 accepted
  rw [written_eq _ accepted]
  simp only [Fits, Visit.next] at fits next
  simp only [segments]
  cases method with
  | other name => exact fits.elim
  | scalar f =>
    simp only [Method.next, List.forall_mem_map] at next
    exact tells_visits (c := ⟨.call target _ args, s, key⟩) _ next
  | udf name externalName =>
    simp only [Method.next, List.forall_mem_map] at next
    exact tells_visits (c := ⟨.call target _ args, s, key⟩) _ next
  | aggregate f =>
    obtain ⟨group, count⟩ := fits
    obtain ⟨i, group⟩ := Option.isSome_iff_exists.1 group
    simp only [Method.next, group, List.forall_mem_map] at next
    cases target with
    | none => cases group
    | some e => exact tells_aggregate (c := ⟨.call (some e) _ args, s, key⟩) rfl group count next
  | contains =>
    obtain ⟨receiver, item, split, holds⟩ := fits
    simp only [Method.next, Method.segments, Method.kept, split, List.forall_mem_map,
      List.forall_mem_cons] at next ⊢
    exact tells_contains (c := ⟨.call target _ args, s, key⟩) rfl holds next.1 next.2.1
  | startsWith =>
    obtain ⟨receiver, needle, split, string⟩ := fits
    simp only [Method.next, Method.segments, Method.kept, split, List.forall_mem_map,
      List.forall_mem_cons] at next ⊢
    exact tells_like (c := ⟨.call target _ args, s, key⟩) _ "" "%" (fun t => by simp) next.1 string
      fun t => .pattern rfl (.inr (.inl rfl))
  | endsWith =>
    obtain ⟨receiver, needle, split, string⟩ := fits
    simp only [Method.next, Method.segments, Method.kept, split, List.forall_mem_map,
      List.forall_mem_cons] at next ⊢
    exact tells_like (c := ⟨.call target _ args, s, key⟩) _ "%" "" (fun t => by simp) next.1 string
      fun t => .pattern rfl (.inr (.inr rfl))
  | between | notBetween =>
    obtain ⟨receiver, low, high, split⟩ := fits
    simp only [Method.next, Method.segments, Method.kept, split, List.forall_mem_map] at next ⊢
    exact tells_between (c := ⟨.call target _ args, s, key⟩) _ next
  | higherOrder f =>
    obtain ⟨collection, rest, split, lambda⟩ := fits
    simp only [Method.next, Method.kept, split, List.forall_mem_map, List.forall_mem_cons] at next ⊢
    exact tells_higherOrder (c := ⟨.call target _ args, s, key⟩) rfl split next.1 next.2
  | cast type =>
    obtain ⟨e, rest, split, named⟩ := fits
    simp only [Method.next, split, List.take_succ_cons, List.take_zero, List.map_cons, List.map_nil,
      List.forall_mem_singleton] at next
    rw [split]
    exact tells_cast (c := ⟨.call target _ args, s, key⟩) rfl split named next

theorem text_cast {type : CastType} {e : Expr} {rest : List Expr}
    (split : target.toList ++ args = e :: rest) :
    (Visit.mk (.call target (.cast type) args) s key).text =
      (Visit.mk (.call none (.cast type) ((Method.cast type).kept (e :: rest))) s key).text := by
  have kept : ∃ rest', (Method.cast type).kept (e :: rest) = e :: rest' ∧
      type.text (rest.map (Expr.part (keyText key))) =
        type.text (rest'.map (Expr.part (keyText key))) := by
    cases type with
    | decimal => exact ⟨rest, rfl, rfl⟩
    | _ => exact ⟨[], rfl, rfl⟩
  obtain ⟨rest', kept, named⟩ := kept
  have alone : splitReceiver .cast none ((e :: rest').map (Expr.part (keyText key))) =
      .ok (e.part (keyText key), rest'.map (Expr.part (keyText key))) := rfl
  simp only [text, Expr.compile, Expr.targetPart_eq_map, Expr.parts_eq_map, kept, Method.text,
    splitReceiver_eq _ _ split, Option.map_none, alone, Compiled.ok_bind, named]

end Visit
end StreamSql
