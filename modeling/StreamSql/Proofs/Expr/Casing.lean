import StreamSql.Proofs.Expr.Descent
import StreamSql.Proofs.Text.Renaming

namespace StreamSql

open Segment (concat separated enclosed called)
open Text (StartsAlike Template)

namespace Text

def boolWord (low : Bool) : Bool → String := LiteralStyle.boolText ⟨low, false, '.'⟩

/-- A text that is the same in both cases, but for the places of its boolean literals. -/
def Cased (t : Bool → String) : Prop := ∃ T : Template Bool, ∀ low, t low = T.fill (boolWord low)

theorem startsAlike_boolWord (low low' b : Bool) : StartsAlike (boolWord low b) (boolWord low' b) := by
  cases low <;> cases low' <;> cases b <;>
    exact ⟨by decide, by simp [StartsSigned, boolWord, LiteralStyle.boolText]⟩

namespace Cased

variable {t u : Bool → String}

theorem const (t : String) : Cased fun _ => t := ⟨[.inl t], fun low => by simp [Template.fill]⟩

theorem bool (b : Bool) : Cased fun low => boolWord low b := ⟨[.inr b], fun low => by simp [Template.fill]⟩

theorem congr (h : Cased t) (same : ∀ low, u low = t low) : Cased u := funext same ▸ h

theorem append (ht : Cased t) (hu : Cased u) : Cased fun low => t low ++ u low := by
  obtain ⟨T, fillT⟩ := ht
  obtain ⟨U, fillU⟩ := hu
  exact ⟨T ++ U, fun low => by simp only [fillT, fillU, Template.fill_append]⟩

theorem join {α : Type} (sep : String) {xs : List α} {t : α → Bool → String}
    (h : ∀ x ∈ xs, Cased (t x)) : Cased fun low => Text.join sep (xs.map fun x => t x low) :=
  Text.map_join_induction (const "") (fun ht hu => (ht.append (const sep)).append hu) h

theorem startsAlike (h : Cased t) (low low' : Bool) : StartsAlike (t low) (t low') := by
  obtain ⟨T, fill⟩ := h
  rw [fill, fill]
  clear fill
  induction T with
  | nil => exact .refl _
  | cons part T ih =>
    cases part with
    | inl w => exact (StartsAlike.refl w).append ih
    | inr b => exact (startsAlike_boolWord low low' b).append ih

end Cased
end Text

open Text (Cased)

namespace Value

mutual
theorem cased_literal (s : LiteralStyle) : ∀ v : Value,
    Cased fun low => v.literal { s with lowerBools := low }
  | .bool b => .bool b
  | .array items => by
    have parts := Cased.join ", " (cased_literals s.nested items)
    simp only [literal, literals_eq_map, List.isEmpty_map]
    cases s.membership with
    | true => exact parts
    | false =>
      cases items.isEmpty with
      | true => exact .const _
      | false => exact ((Cased.const "ARRAY[").append parts).append (.const "]")
  | .map entries => by
    simp only [literal, entryLiterals_eq_map]
    exact ((Cased.const "MAP(").append (.join ", " (cased_entries s.nested entries))).append (.const ")")
  | .struct fields => by
    simp only [literal, fieldLiterals_eq_map]
    exact ((Cased.const "STRUCT(").append (.join ", " (cased_fields s.nested fields))).append (.const ")")
  | .float x => .const (withSeparator s.separator (x.text LiteralStyle.digits))
  | .decimal d => .const (withSeparator s.separator d.text)
  | .null | .int _ | .string _ | .enum _ | .bytes _ | .date _ | .time _
  | .timestamp _ => .const _
termination_by structural v => v
theorem cased_literals (s : LiteralStyle) : ∀ vs : List Value, ∀ v ∈ vs,
    Cased fun low => v.literal { s with lowerBools := low }
  | [] => List.forall_mem_nil _
  | v :: vs => List.forall_mem_cons.2 ⟨cased_literal s v, cased_literals s vs⟩
termination_by structural vs => vs
theorem cased_entries (s : LiteralStyle) : ∀ es : List (Value × Value), ∀ e ∈ es,
    Cased fun low => e.1.literal { s with lowerBools := low } ++ " := " ++
      e.2.literal { s with lowerBools := low }
  | [] => List.forall_mem_nil _
  | (k, v) :: es => List.forall_mem_cons.2
    ⟨((cased_literal s k).append (.const " := ")).append (cased_literal s v), cased_entries s es⟩
termination_by structural es => es
theorem cased_fields (s : LiteralStyle) : ∀ fs : List (String × Value), ∀ f ∈ fs,
    Cased fun low => f.1 ++ " := " ++ f.2.literal { s with lowerBools := low }
  | [] => List.forall_mem_nil _
  | (_, v) :: fs => List.forall_mem_cons.2
    ⟨(Cased.const _).append (cased_literal s v), cased_fields s fs⟩
termination_by structural fs => fs
end

end Value

def Scope.cased (s : Scope) (low : Bool) : Scope := { s with lowerBools := low }

theorem Expr.kind?_cased (s : Scope) (low : Bool) (e : Expr) : e.kind? (s.cased low) = e.kind? s := by
  induction e using ind with
  | member target name rename ih =>
    cases target with
    | parameter p => rfl
    | _ => simp only [kind?, ih]
  | array items ih =>
    cases items with
    | nil => rfl
    | cons e es => simp only [kind?, ih e List.mem_cons_self]
  | _ => rfl

theorem UnaryOp.needsParens_startsAlike (op : UnaryOp) (e : Expr) {t u : String}
    (alike : StartsAlike t u) : op.needsParens e t = op.needsParens e u := by
  have sign : t.toList.head? = some '-' ↔ u.toList.head? = some '-' := alike.sign
  cases e with
  | binary => rfl
  | unary => rfl
  | _ => simp [needsParens, sign]

namespace Visit

def cased (v : Visit) (low : Bool) : Visit := { v with scope := v.scope.cased low }

section

variable (key : Option GroupKey) (s : Scope) (low : Bool)

theorem bound_cased (bindings : List Binding) (e : Expr) :
    bound key bindings (s.cased low) e = (bound key bindings s e).cased low := by
  cases e with
  | lambda params body =>
    simp only [bound]
    split <;> rfl
  | _ => rfl

theorem ofItem_cased (kind : Option TypeKind) (e : Expr) :
    ofItem key kind (s.cased low) e = (ofItem key kind s e).cased low := by
  cases e with
  | lambda params body =>
    simp only [ofItem]
    cases params.getLast? <;> cases kind <;> rfl
  | _ => rfl

theorem ofKey_cased (use : KeyUse) :
    ofKey key use (s.cased low) = (ofKey key use s).map (·.cased low) := by
  cases key with
  | none => rfl
  | some k => simp only [ofKey, List.map_map]; rfl

theorem access_cased (target : Expr) (name : String) (rename : Option String) :
    access (s.cased low) target name rename = access s target name rename := rfl

theorem isSubstringTest_cased (receiver item : Part) :
    isSubstringTest (s.cased low) receiver item = isSubstringTest s receiver item := by
  simp only [isSubstringTest, Expr.kind?_cased]

theorem methodNext_cased (method : Method) (target : Option Expr) (args : List Expr) :
    method.next key (s.cased low) target args = (method.next key s target args).map (·.cased low) := by
  cases method with
  | aggregate f =>
    have group : (s.cased low).group? target = s.group? target := rfl
    simp only [Method.next, group]
    cases s.group? target with
    | none => rfl
    | some i =>
      rw [List.map_map]
      exact List.map_congr_left fun e _ => bound_cased key s low [.source i] e
  | higherOrder f =>
    simp only [Method.next]
    cases target.toList ++ args with
    | nil => rfl
    | cons collection rest =>
      simp only [List.map_cons, List.map_map, Expr.kind?_cased]
      congr 1
      exact List.map_congr_left fun e _ => ofItem_cased key s low _ e
  | other name => rfl
  | _ => simp only [Method.next, List.map_map]; rfl

theorem methodFits_cased (method : Method) (target : Option Expr) (args : List Expr) :
    method.Fits (s.cased low) target args ↔ method.Fits s target args := by
  cases method with
  | contains => simp only [Method.Fits, Expr.Holds, isSubstringTest_cased]
  | _ => exact Iff.rfl

end

variable (v : Visit) (low : Bool)

theorem next_cased : (v.cased low).next = v.next.map (·.cased low) := by
  obtain ⟨e, s, key⟩ := v
  cases e with
  | member target name rename =>
    simp only [cased, next, access_cased]
    cases access s target name rename with
    | key use => exact ofKey_cased key s low use
    | _ => rfl
  | binary op left right =>
    simp only [cased, next]
    cases op.nullTest? left right with
    | none => rfl
    | some onRight => cases onRight <;> rfl
  | call target method args => exact methodNext_cased key s low method target args
  | new typeName members => simp only [cased, next, List.map_map]; rfl
  | array items => simp only [cased, next, List.map_map]; rfl
  | map entries => simp only [cased, next, List.map_flatMap]; rfl
  | _ => rfl

theorem fits_cased : (v.cased low).Fits ↔ v.Fits := by
  obtain ⟨e, s, key⟩ := v
  cases e with
  | call target method args => exact methodFits_cased s low method target args
  | _ => exact Iff.rfl

theorem accepted_cased {v : Visit} (h : v.Accepted) (low : Bool) : (v.cased low).Accepted := by
  induction v using enters_wf.induction with
  | _ v ih =>
    obtain ⟨fits, next⟩ := (accepted_iff v).1 h
    refine (accepted_iff _).2 ⟨(fits_cased v low).2 fits, fun w step => ?_⟩
    rw [next_cased] at step
    obtain ⟨u, mem, rfl⟩ := List.mem_map.1 step
    exact ih u (.single mem) (next u mem)

section

variable {key : Option GroupKey} {s : Scope}

abbrev CasedText (w : Visit) : Prop := Cased fun low => (w.cased low).written

theorem cased_visit {w : Visit} (h : w.CasedText) : Cased fun low => concat [.visit (w.cased low)] := by
  simpa only [Segment.concat_visit] using h

theorem cased_separated (visits : List Visit) (h : ∀ w ∈ visits, w.CasedText) :
    Cased fun low => concat (separated (visits.map fun w => [.visit (w.cased low)])) := by
  simp only [Segment.concat_separated, Segment.map_concat_visits]
  exact .join ", " h

theorem cased_called (name : String) {parts : List (Bool → List Segment)}
    (h : ∀ part ∈ parts, Cased fun low => concat (part low)) :
    Cased fun low => concat (called name (parts.map fun part => part low)) := by
  simp only [Segment.concat_called, List.map_map, callText]
  exact ((Cased.const _).append (.join ", " h)).append (.const ")")

theorem cased_enclosed (wrap : Bool) {w : Visit} (h : w.CasedText) :
    Cased fun low => concat (enclosed wrap [.visit (w.cased low)]) := by
  simp only [Segment.concat_enclosed]
  cases wrap with
  | true => exact ((Cased.const "(").append (cased_visit h)).append (.const ")")
  | false => exact cased_visit h

theorem cased_operand (parent : BinaryOp) (right : Bool) {w : Visit} (h : w.CasedText) :
    Cased fun low => concat ((w.cased low).operandSegments parent right) :=
  cased_enclosed (parent.needsParens right w.expr) h

theorem cased_unary (op : UnaryOp) {w : Visit} (h : w.CasedText) : Cased fun low =>
    concat (enclosed (op.needsParens w.expr (w.cased low).written) [.visit (w.cased low)]) := by
  have wrap (low : Bool) : op.needsParens w.expr (w.cased low).written =
      op.needsParens w.expr (w.cased false).written :=
    op.needsParens_startsAlike w.expr (h.startsAlike low false)
  simp only [wrap]
  exact cased_enclosed _ h

theorem cased_member {w : Visit} (name : String) (rename : Option String) (h : w.CasedText) :
    Cased fun low => concat ((w.cased low).memberSegments name rename) := by
  have lengthName (low : Bool) :
      (w.cased low).scope.lengthName (w.cased low).expr = w.scope.lengthName w.expr := by
    simp only [Scope.lengthName, cased, Expr.kind?_cased]
  have wire (low : Bool) : (w.cased low).scope.fieldWire (w.cased low).expr name rename =
      w.scope.fieldWire w.expr name rename := by
    simp only [Scope.fieldWire, cased, Expr.kind?_cased]
  unfold memberSegments
  split
  · simp only [lengthName]
    exact cased_called _ (List.forall_mem_singleton.2 (cased_visit h))
  · have arrow (low : Bool) : (if (w.cased low).written.isEmpty then "" else "->") =
        if (w.cased false).written.isEmpty then "" else "->" := by
      have empty := (h.startsAlike low false).empty
      simp only [String.isEmpty_iff, empty]
    simp only [arrow, wire, concat, Segment.text]
    exact h.append (.const _)

theorem cased_list {receiver : Visit} (whole : receiver.CasedText)
    (items : ∀ w ∈ receiver.next, w.CasedText) :
    Cased fun low => concat (receiver.cased low).listSegments := by
  obtain ⟨e, s, key⟩ := receiver
  cases e with
  | array es =>
    simp only [next, List.forall_mem_map] at items
    simp only [cased, listSegments, Segment.concat_separated, Segment.map_concat_visits]
    exact .join ", " items
  | constant x | captured name x =>
    exact (Value.cased_literal { s.style with membership := true } x).append (.const "")
  | _ => exact cased_visit whole

theorem cased_like (receiver : Visit) (needle : Expr) (pattern : String → String)
    (h : receiver.CasedText) :
    Cased fun low => concat ((receiver.cased low).likeSegments needle pattern) :=
  h.append (.const _)

theorem cased_between (keyword : String) (receiver low high : Visit) (hr : receiver.CasedText)
    (hl : low.CasedText) (hh : high.CasedText) : Cased fun lower => concat
      (betweenSegments keyword (receiver.cased lower) (low.cased lower) (high.cased lower)) := by
  simp only [betweenSegments, concat, Segment.text]
  exact hr.append ((Cased.const _).append (hl.append ((Cased.const _).append (hh.append (.const "")))))

theorem cased_contains (receiver item : Visit) (hr : receiver.CasedText)
    (items : ∀ w ∈ receiver.next, w.CasedText) (hi : item.CasedText) :
    Cased fun low => concat ((receiver.cased low).containsSegments (item.cased low)) := by
  have test (low : Bool) := isSubstringTest_cased receiver.scope low (receiver.expr.part noKey)
    (item.expr.part noKey)
  simp only [containsSegments, cased, test]
  cases (receiver.expr.part noKey).listLength? with
  | some n =>
    simp only [List.cons_append, concat, Segment.concat_append, Segment.text]
    exact hi.append ((Cased.const _).append ((cased_list hr items).append (.const _)))
  | none =>
    simp only
    split
    · exact cased_like receiver item.expr _ hr
    · exact cased_called _ (List.forall_mem_cons.2
        ⟨cased_visit hr, List.forall_mem_singleton.2 (cased_visit hi)⟩)

theorem cased_item {kind : Option TypeKind} {e : Expr} (h : (ofItem key kind s e).CasedText) :
    Cased fun low => concat (itemSegments key kind (s.cased low) e) := by
  cases e with
  | lambda params body =>
    simp only [concat_itemSegments_lambda, ofItem_cased]
    exact (Cased.const _).append h
  | _ =>
    simp only [itemSegments, ofItem_cased]
    exact cased_visit h

theorem cased_plainCall (name : String) {es : List Expr}
    (h : ∀ e ∈ es, (Visit.mk e s key).CasedText) :
    Cased fun low => concat (called name (es.map fun e => [.visit ⟨e, s.cased low, key⟩])) := by
  have parts : ∀ part ∈ es.map fun e low => [Segment.visit ⟨e, s.cased low, key⟩],
      Cased fun low => concat (part low) :=
    List.forall_mem_map.2 fun e mem => cased_visit (h e mem)
  refine (cased_called name parts).congr fun low => ?_
  rw [List.map_map]
  rfl

theorem cased_aggregate {f : AggregateFn} {target : Option Expr} {args : List Expr}
    (next : ∀ w ∈ Method.next (.aggregate f) key s target args, w.CasedText) :
    Cased fun low => concat (Method.segments (.aggregate f) key (s.cased low) target args) := by
  have group (low : Bool) : (s.cased low).group? target = s.group? target := rfl
  simp only [Method.next] at next
  simp only [Method.segments, group]
  cases found : s.group? target with
  | none => exact .const ""
  | some i =>
    simp only [found, List.forall_mem_map] at next
    simp only
    split
    · exact .const _
    · let selectors := args.map fun e low => [Segment.visit ((bound key [.source i] s e).cased low)]
      let flags := f.ignoresNulls?.toList.map fun b (_ : Bool) =>
        [Segment.word (if b then "True" else "False")]
      have parts : ∀ part ∈ selectors ++ flags, Cased fun low => concat (part low) :=
        List.forall_mem_append.2 ⟨List.forall_mem_map.2 fun e mem => cased_visit (next e mem),
          List.forall_mem_map.2 fun b _ => .const _⟩
      refine (cased_called f.name parts).congr fun low => ?_
      simp only [selectors, flags, List.map_append, List.map_map, Function.comp_def, bound_cased]

theorem cased_higherOrder {f : HigherOrderFn} {target : Option Expr} {args : List Expr}
    (next : ∀ w ∈ Method.next (.higherOrder f) key s target args, w.CasedText) :
    Cased fun low => concat (Method.segments (.higherOrder f) key (s.cased low) target args) := by
  simp only [Method.next] at next
  simp only [Method.segments]
  cases split : target.toList ++ args with
  | nil => exact .const ""
  | cons collection rest =>
    simp only [split, List.forall_mem_cons, List.forall_mem_map] at next
    have parts : ∀ part ∈ (fun low => [Segment.visit ((Visit.mk collection s key).cased low)]) ::
        rest.map fun e low => itemSegments key ((collection.kind? s).bind TypeKind.element?)
          (s.cased low) e, Cased fun low => concat (part low) :=
      List.forall_mem_cons.2 ⟨cased_visit next.1,
        List.forall_mem_map.2 fun e mem => cased_item (next.2 e mem)⟩
    refine (cased_called f.name parts).congr fun low => ?_
    simp only [List.map_cons, List.map_map, Function.comp_def, Expr.kind?_cased]
    rfl

theorem cased_call {method : Method} {target : Option Expr} {args : List Expr}
    (fits : method.Fits s target args) (next : ∀ w ∈ method.next key s target args, w.CasedText)
    (below : ∀ w ∈ method.next key s target args, ∀ u ∈ w.next, u.CasedText) :
    Cased fun low => concat (method.segments key (s.cased low) target args) := by
  cases method with
  | scalar f | udf name externalName => exact cased_plainCall _ (List.forall_mem_map.1 next)
  | aggregate f => exact cased_aggregate next
  | higherOrder f => exact cased_higherOrder next
  | cast type =>
    obtain ⟨e, rest, split, -⟩ := fits
    simp only [Method.next, split] at next
    simp only [Method.segments, split, concat, Segment.text]
    exact (Cased.const _).append ((next _ List.mem_cons_self).append (.const _))
  | contains =>
    obtain ⟨receiver, item, split, -⟩ := fits
    simp only [Method.next, split, List.map_cons, List.forall_mem_cons] at next below
    simp only [Method.segments, split]
    exact cased_contains ⟨receiver, s, key⟩ ⟨item, s, key⟩ next.1 below.1 next.2.1
  | startsWith | endsWith =>
    obtain ⟨receiver, needle, split, -⟩ := fits
    simp only [Method.next, split, List.map_cons, List.forall_mem_cons] at next
    simp only [Method.segments, split]
    exact cased_like ⟨receiver, s, key⟩ needle _ next.1
  | between | notBetween =>
    obtain ⟨receiver, low, high, split⟩ := fits
    simp only [Method.next, split, List.map_cons, List.forall_mem_cons] at next
    simp only [Method.segments, split]
    exact cased_between _ ⟨receiver, s, key⟩ ⟨low, s, key⟩ ⟨high, s, key⟩ next.1 next.2.1 next.2.2.1
  | other name => exact fits.elim

theorem cased_binary (op : BinaryOp) (left right : Expr)
    (operands : ∀ w ∈ next ⟨.binary op left right, s, key⟩, w.CasedText) :
    Cased fun low => concat (segments ((Visit.mk (.binary op left right) s key).cased low)) := by
  simp only [Visit.next] at operands
  simp only [cased, segments]
  cases test : op.nullTest? left right with
  | some onRight =>
    simp only [test] at operands
    cases onRight with
    | false =>
      have operand := cased_operand op false (operands ⟨left, s, key⟩ List.mem_cons_self)
      simp only [Segment.concat_append]
      exact operand.append (.const _)
    | true =>
      have operand := cased_operand op false (operands ⟨right, s, key⟩ List.mem_cons_self)
      simp only [Segment.concat_append]
      exact operand.append (.const _)
  | none =>
    simp only [test, List.forall_mem_cons] at operands
    obtain ⟨lhs, rhs, -⟩ := operands
    simp only
    split
    · simp only [Segment.concat_append, concat, Segment.text]
      exact (cased_operand op false lhs).append ((Cased.const _).append (rhs.append (.const _)))
    · simp only [Segment.concat_append, concat, Segment.text]
      exact (cased_operand op false lhs).append
        ((Cased.const _).append (cased_operand op true rhs))

theorem cased_new (typeName : Option String) (members : List (String × Expr))
    (values : ∀ m ∈ members, (Visit.mk m.2 s key).CasedText) :
    Cased fun low => concat (segments ((Visit.mk (.new typeName members) s key).cased low)) := by
  have parts : ∀ part ∈ members.map fun m low =>
      [Segment.word (m.1 ++ " := "), .visit ((Visit.mk m.2 s key).cased low)],
      Cased fun low => concat (part low) :=
    List.forall_mem_map.2 fun m mem => (Cased.const _).append (cased_visit (values m mem))
  refine (cased_called "STRUCT" parts).congr fun low => ?_
  simp only [cased, segments, List.map_map, Function.comp_def]

theorem cased_map (entries : List (Expr × Expr))
    (keys : ∀ e ∈ entries, (Visit.mk e.1 s key).CasedText)
    (values : ∀ e ∈ entries, (Visit.mk e.2 s key).CasedText) :
    Cased fun low => concat (segments ((Visit.mk (.map entries) s key).cased low)) := by
  have parts : ∀ part ∈ entries.map fun e low =>
      [Segment.visit ((Visit.mk e.1 s key).cased low), .word " := ",
        .visit ((Visit.mk e.2 s key).cased low)], Cased fun low => concat (part low) :=
    List.forall_mem_map.2 fun e mem =>
      (keys e mem).append ((Cased.const _).append (cased_visit (values e mem)))
  refine (cased_called "MAP" parts).congr fun low => ?_
  simp only [cased, segments, List.map_map, Function.comp_def]

end

theorem casedText {v : Visit} (h : v.Accepted) : v.CasedText := by
  induction v using enters_wf.induction with
  | _ v ih =>
    obtain ⟨fits, next⟩ := (accepted_iff v).1 h
    have step {w : Visit} (mem : w ∈ v.next) : w.CasedText := ih w (.single mem) (next w mem)
    have below {w u : Visit} (mem : w ∈ v.next) (inside : u ∈ w.next) : u.CasedText :=
      ih u (.tail (.single mem) inside) (((accepted_iff w).1 (next w mem)).2 u inside)
    refine Cased.congr ?_ fun low => written_eq _ (accepted_cased h low)
    clear ih next
    obtain ⟨e, s, key⟩ := v
    cases e with
    | constant x | captured name x => exact (Value.cased_literal s.style x).append (.const "")
    | parameter p =>
      refine (Cased.const (concat (segments ⟨.parameter p, s, key⟩))).congr fun low => rfl
    | member target name rename =>
      simp only [Visit.next] at step
      simp only [cased, segments, access_cased]
      cases found : access s target name rename with
      | text t =>
        exact (Cased.const t).congr fun low => concat_accessSegments (s := s.cased low) found
      | key use =>
        simp only [found] at step
        simp only [ofKey_cased, List.map_map]
        exact cased_separated _ fun w mem => step mem
      | fault u => exact .const ""
      | member =>
        simp only [found] at step
        exact cased_member (w := ⟨target, s, key⟩) name rename (step List.mem_cons_self)
    | binary op left right => exact cased_binary op left right fun w mem => step mem
    | unary op operand =>
      have inner : (Visit.mk operand s key).CasedText := step List.mem_cons_self
      simp only [cased, segments, concat, Segment.text]
      exact (Cased.const _).append (cased_unary op inner)
    | call target method args =>
      exact cased_call fits (fun w mem => step mem) fun w mem u inside => below mem inside
    | new typeName members =>
      exact cased_new typeName members fun m mem => step (List.mem_map_of_mem mem)
    | array items =>
      simp only [cased, segments]
      split
      · exact .const _
      · simp only [List.cons_append, concat, Segment.concat_append, Segment.text]
        refine (Cased.const _).append (.append ?_ (.const _))
        have parts := cased_separated (items.map (⟨·, s, key⟩)) fun w mem => step mem
        simp only [List.map_map] at parts
        exact parts
    | map entries =>
      exact cased_map entries (fun e mem => step (List.mem_flatMap.2 ⟨e, mem, by simp⟩))
        fun e mem => step (List.mem_flatMap.2 ⟨e, mem, by simp⟩)
    | lambda params body => exact fits.elim

end Visit
end StreamSql
