import StreamSql.Expr.Compile

/-!
What an expression is written from. A visit is an expression that is written in a scope; it goes on to
the visits of the expressions that its text is made of, each in its own scope. It has a text if it is
well-formed by itself and all that it goes on to have one.
-/

namespace StreamSql

def Compiled.Accepted {α : Type} (x : Compiled α) : Prop := ∃ a, x = .ok a

namespace Compiled

variable {α β γ : Type} {x : Compiled α} {y : Compiled β} {f : α → Compiled β} {p : Prop}

@[simp] theorem accepted_ok (a : α) : Accepted (.ok a) := ⟨a, rfl⟩

@[simp] theorem not_accepted_error (e : Error) : ¬ Accepted (α := α) (.error e) := by
  rintro ⟨a, h⟩
  cases h

@[simp] theorem not_accepted_unsupported (u : Unsupported) : ¬ Accepted (α := α) (unsupported u) :=
  not_accepted_error _

@[simp] theorem not_accepted_invalid (i : Invalid) : ¬ Accepted (α := α) (invalid i) :=
  not_accepted_error _

theorem accepted_bind (h : ∀ a, (f a).Accepted ↔ p) : (x >>= f).Accepted ↔ x.Accepted ∧ p := by
  cases x with
  | error e => simp [bind, Except.bind]
  | ok a => exact (h a).trans (by simp)

@[simp] theorem accepted_bind_ok (g : α → β) : (x >>= fun a => .ok (g a)).Accepted ↔ x.Accepted :=
  (accepted_bind fun _ => iff_of_true (accepted_ok _) trivial).trans (and_iff_left trivial)

theorem accepted_map (g : α → β) : Accepted (x.map g) ↔ x.Accepted := by
  cases x <;> simp [Except.map]

theorem accepted_bind_bind (g : α → β → γ) :
    (x >>= fun a => y >>= fun b => .ok (g a b)).Accepted ↔ x.Accepted ∧ y.Accepted :=
  accepted_bind fun _ => accepted_bind_ok _

end Compiled

/-- An expression in a scope, where a group may be asked for the key. -/
structure Visit where
  expr : Expr
  scope : Scope
  key : Option GroupKey

namespace Visit

def keyText : Option GroupKey → KeyText
  | some k => k.text
  | none => noKey

def text (v : Visit) : Compiled := v.expr.compile (keyText v.key) v.scope

def Accepted (v : Visit) : Prop := v.text.Accepted

/-- A lambda is visited in its body, unless the bindings are too few. -/
def bound (key : Option GroupKey) (bindings : List Binding) (s : Scope) : Expr → Visit
  | .lambda params body =>
    if bindings.length < params.length then ⟨.lambda params body, s, key⟩
    else ⟨body, s.bind (params.zip bindings), key⟩
  | e => ⟨e, s, key⟩

def ofItem (key : Option GroupKey) (kind : Option TypeKind) (s : Scope) : Expr → Visit
  | .lambda params body =>
    let s := match params.getLast? with
      | some last => s.withItemKind last kind
      | none => s
    ⟨body, s.bind (params.map (·, .item)), key⟩
  | e => ⟨e, s, key⟩

end Visit

def Expr.keyParts : Expr → List Expr
  | .new _ members => members.map Prod.snd
  | e => [e]

def GroupKey.exprs? (k : GroupKey) : KeyUse → Option (List Expr)
  | .whole => some k.body.keyParts
  | .part name =>
    match k.body with
    | .new _ members => (findMember? name members).map ([·])
    | _ => none

def Visit.ofKey (key : Option GroupKey) (use : KeyUse) (s : Scope) : List Visit :=
  match key with
  | some k => ((k.exprs? use).getD []).map (⟨·, s.bind k.bindings, none⟩)
  | none => []

/-- The source whose rows the receiver of a call holds, if it is a group. -/
def Scope.group? (s : Scope) : Option Expr → Option Nat
  | some (.parameter p) =>
    match s.lookup? p with
    | some (.grouping i) => some i
    | _ => none
  | _ => none

def Method.next (method : Method) (key : Option GroupKey) (s : Scope) (target : Option Expr)
    (args : List Expr) : List Visit :=
  let positional := target.toList ++ args
  match method with
  -- The receiver of an aggregate is not written itself, nor is the type of a conversion.
  | .aggregate _ =>
    match s.group? target with
    | some i => args.map (Visit.bound key [.source i] s)
    | none => []
  | .higherOrder _ =>
    match positional with
    | collection :: rest =>
      ⟨collection, s, key⟩ ::
        rest.map (Visit.ofItem key ((collection.kind? s).bind TypeKind.element?) s)
    | [] => []
  | .cast _ => (positional.take 1).map (⟨·, s, key⟩)
  | .other _ => []
  | _ => positional.map (⟨·, s, key⟩)

def Expr.Holds (receiver : Expr) (s : Scope) (item : Expr) : Prop :=
  (receiver.part noKey).listLength? ≠ some 0 ∧
    ((receiver.part noKey).listLength? = none →
      isSubstringTest s (receiver.part noKey) (item.part noKey) → (item.part noKey).string?.isSome)

def Method.Fits (method : Method) (s : Scope) (target : Option Expr) (args : List Expr) : Prop :=
  let positional := target.toList ++ args
  match method with
  | .scalar f => f.accepts positional.length
  | .udf _ _ => True
  | .aggregate f => (s.group? target).isSome ∧ (args = [] → f = .count)
  | .contains => ∃ receiver item, positional = [receiver, item] ∧ receiver.Holds s item
  | .startsWith | .endsWith =>
    ∃ receiver needle, positional = [receiver, needle] ∧ (needle.part noKey).string?.isSome
  | .between | .notBetween => ∃ receiver low high, positional = [receiver, low, high]
  | .higherOrder _ =>
    ∃ collection rest, positional = collection :: rest ∧
      (rest.map (Expr.part noKey)).any Part.isLambda
  | .cast type =>
    ∃ e rest, positional = e :: rest ∧ (type.text (rest.map (Expr.part noKey))).Accepted
  | .other _ => False

namespace Visit

def next (v : Visit) : List Visit :=
  let here e := Visit.mk e v.scope v.key
  match v.expr with
  | .member target name rename =>
    match access v.scope target name rename with
    | .key use => ofKey v.key use v.scope
    | .member => [here target]
    | _ => []
  | .binary op left right =>
    match op.nullTest? left right with
    | some false => [here left]
    | some true => [here right]
    | none => [here left, here right]
  | .unary _ operand => [here operand]
  | .call target method args => method.next v.key v.scope target args
  | .new _ members => members.map fun m => here m.2
  | .array items => items.map here
  | .map entries => entries.flatMap fun e => [here e.1, here e.2]
  | _ => []

def Fits (v : Visit) : Prop :=
  match v.expr with
  | .parameter p => v.scope.lookup? p = some .item ∨ ∃ i, v.scope.lookup? p = some (.source i)
  | .member target name rename =>
    match access v.scope target name rename with
    | .key use => ∃ k es, v.key = some k ∧ k.exprs? use = some es
    | .fault _ => False
    | _ => True
  | .call target method args => method.Fits v.scope target args
  | .lambda _ _ => False
  | _ => True

variable {key : Option GroupKey} {s : Scope} {es : List Expr}

theorem accepted_itemTexts :
    (Expr.itemTexts (keyText key) es s).Accepted ↔ ∀ e ∈ es, (Visit.mk e s key).Accepted := by
  induction es with
  | nil => simp [Expr.itemTexts]
  | cons e es ih =>
    rw [List.forall_mem_cons, ← ih]
    exact Compiled.accepted_bind_bind _

theorem accepted_memberTexts (members : List (String × Expr)) :
    (Expr.memberTexts (keyText key) members s).Accepted ↔
      ∀ m ∈ members, (Visit.mk m.2 s key).Accepted := by
  induction members with
  | nil => simp [Expr.memberTexts]
  | cons m members ih =>
    rw [List.forall_mem_cons, ← ih]
    exact Compiled.accepted_bind_bind _

theorem accepted_entryTexts (entries : List (Expr × Expr)) :
    (Expr.entryTexts (keyText key) entries s).Accepted ↔
      ∀ e ∈ entries, (Visit.mk e.1 s key).Accepted ∧ (Visit.mk e.2 s key).Accepted := by
  induction entries with
  | nil => simp [Expr.entryTexts]
  | cons e entries ih =>
    rw [List.forall_mem_cons, ← ih, and_assoc]
    exact Compiled.accepted_bind fun k => Compiled.accepted_bind_bind _

theorem accepted_texts :
    (Part.texts s (es.map (Expr.part (keyText key)))).Accepted ↔
      ∀ e ∈ es, (Visit.mk e s key).Accepted := by
  induction es with
  | nil => simp [Part.texts]
  | cons e es ih =>
    rw [List.forall_mem_cons, ← ih]
    exact Compiled.accepted_bind_bind _

theorem not_accepted_lambda (params : List String) (body : Expr) :
    ¬ (Visit.mk (.lambda params body) s key).Accepted :=
  Compiled.not_accepted_unsupported _

theorem accepted_boundText (bindings : List Binding) (e : Expr) :
    ((e.part (keyText key)).boundText bindings s).Accepted ↔ (bound key bindings s e).Accepted := by
  cases e with
  | lambda params body =>
    simp only [Expr.part, Part.boundText, bound]
    split
    · simp [not_accepted_lambda]
    · exact Iff.rfl
  | _ => exact Iff.rfl

theorem accepted_boundTexts (bindings : List Binding) :
    (Part.boundTexts bindings s (es.map (Expr.part (keyText key)))).Accepted ↔
      ∀ e ∈ es, (bound key bindings s e).Accepted := by
  induction es with
  | nil => simp [Part.boundTexts]
  | cons e es ih =>
    rw [List.forall_mem_cons, ← ih, ← accepted_boundText]
    exact Compiled.accepted_bind_bind _

theorem accepted_partItemTexts (kind : Option TypeKind) :
    (Part.itemTexts kind s (es.map (Expr.part (keyText key)))).Accepted ↔
      ∀ e ∈ es, (ofItem key kind s e).Accepted := by
  induction es with
  | nil => simp [Part.itemTexts]
  | cons e es ih =>
    rw [List.forall_mem_cons, ← ih]
    cases e with
    | lambda params body =>
      exact (Compiled.accepted_bind_bind _).trans (and_congr_left' (Compiled.accepted_bind_ok _))
    | _ => exact Compiled.accepted_bind_bind _

theorem accepted_listText (e : Expr) :
    ((e.part (keyText key)).listText s).Accepted ↔ (Visit.mk e s key).Accepted := by
  cases e with
  | constant v => exact iff_of_true (Compiled.accepted_ok _) (Compiled.accepted_ok _)
  | captured name v => exact iff_of_true (Compiled.accepted_ok _) (Compiled.accepted_ok _)
  | array items =>
    exact (Compiled.accepted_bind_ok _).trans (Compiled.accepted_bind_ok arrayText).symm
  | _ => exact Iff.rfl

theorem accepted_string? {e : Expr} (h : (e.part noKey).string?.isSome) :
    (Visit.mk e s key).Accepted := by
  cases e with
  | constant v => exact Compiled.accepted_ok _
  | _ => cases h

theorem accepted_likeText (receiver needle : Expr) (pattern : String → String) :
    (likeText s (receiver.part (keyText key)) (needle.part (keyText key)) pattern).Accepted ↔
      (needle.part noKey).string?.isSome ∧ (Visit.mk receiver s key).Accepted ∧
        (Visit.mk needle s key).Accepted := by
  have same : (needle.part (keyText key)).string? = (needle.part noKey).string? := rfl
  rw [likeText, same]
  cases h : (needle.part noKey).string? with
  | none => simp
  | some t =>
    have needle : (Visit.mk needle s key).Accepted := accepted_string? (by rw [h]; rfl)
    simp only [Option.isSome_some, needle, true_and, and_true]
    exact Compiled.accepted_bind_ok _

theorem accepted_containsText (receiver item : Expr) :
    (containsText s (receiver.part (keyText key)) (item.part (keyText key))).Accepted ↔
      receiver.Holds s item ∧ (Visit.mk receiver s key).Accepted ∧ (Visit.mk item s key).Accepted := by
  have length : (receiver.part (keyText key)).listLength? = (receiver.part noKey).listLength? := rfl
  have substring : isSubstringTest s (receiver.part (keyText key)) (item.part (keyText key)) =
    isSubstringTest s (receiver.part noKey) (item.part noKey) := rfl
  rw [containsText, Expr.Holds, length, substring]
  match (receiver.part noKey).listLength? with
  | some 0 => simp
  | some (n + 1) =>
    -- A list that is written out has a text exactly if its items have one.
    simp only [ne_eq, Option.some.injEq, Nat.add_one_ne_zero, not_false_eq_true, reduceCtorEq,
      false_implies, and_self, true_and]
    refine (Compiled.accepted_bind_bind _).trans ?_
    rw [accepted_listText]
    exact and_comm
  | none =>
    cases isSubstringTest s (receiver.part noKey) (item.part noKey) with
    | true => simp [accepted_likeText]
    | false =>
      simp only [Bool.false_eq_true, if_false, false_implies, implies_true, ne_eq, reduceCtorEq,
        not_false_eq_true, and_self, true_and]
      exact Compiled.accepted_bind_bind _

theorem accepted_splitReceiver {α : Type} (f : Callee) {k : KeyText} {target : Option Expr}
    {args : List Expr} {g : Part × List Part → Compiled α} :
    (splitReceiver f (target.map (Expr.part k)) (args.map (Expr.part k)) >>= g).Accepted ↔
      ∃ e es, target.toList ++ args = e :: es ∧ (g (e.part k, es.map (Expr.part k))).Accepted := by
  cases target with
  | some e => simp [splitReceiver, Compiled.ok_bind, and_assoc]
  | none =>
    cases args with
    | nil => simp [splitReceiver, unsupported, bind, Except.bind]
    | cons e es => simp [splitReceiver, Compiled.ok_bind, and_assoc]

theorem accepted_oneArgument {α : Type} (f : Callee) {k : KeyText} {target : Option Expr}
    {args : List Expr} {g : Part × Part → Compiled α} :
    (f.oneArgument (target.map (Expr.part k)) (args.map (Expr.part k)) >>= g).Accepted ↔
      ∃ e e', target.toList ++ args = [e, e'] ∧ (g (e.part k, e'.part k)).Accepted := by
  simp only [Callee.oneArgument, bind_assoc, accepted_splitReceiver]
  constructor
  · rintro ⟨e, es, split, accepted⟩
    match es, accepted with
    | [e'], accepted => exact ⟨e, e', split, accepted⟩
    | [], accepted | _ :: _ :: _, accepted => exact (Compiled.not_accepted_error _ accepted).elim
  · rintro ⟨e, e', split, accepted⟩
    exact ⟨e, [e'], split, accepted⟩

theorem accepted_pair {p : Expr → Expr → Prop} :
    (∃ e e', es = [e, e'] ∧ p e e' ∧ (Visit.mk e s key).Accepted ∧ (Visit.mk e' s key).Accepted) ↔
      (∃ e e', es = [e, e'] ∧ p e e') ∧ ∀ e ∈ es, (Visit.mk e s key).Accepted := by
  constructor
  · rintro ⟨e, e', rfl, fits, first, second⟩
    exact ⟨⟨e, e', rfl, fits⟩, by simp [first, second]⟩
  · rintro ⟨⟨e, e', rfl, fits⟩, all⟩
    exact ⟨e, e', rfl, fits, all _ (by simp), all _ (by simp)⟩

theorem accepted_betweenText (keyword : String) (target : Option Expr) (args : List Expr) :
    (betweenText keyword (target.map (Expr.part (keyText key))) (args.map (Expr.part (keyText key)))
        s).Accepted ↔
      (∃ receiver low high, target.toList ++ args = [receiver, low, high]) ∧
        ∀ e ∈ target.toList ++ args, (Visit.mk e s key).Accepted := by
  have texts (receiver low high : Expr) :
      (do let r ← (receiver.part (keyText key)).text s
          let l ← (low.part (keyText key)).text s
          let h ← (high.part (keyText key)).text s
          .ok (r ++ " " ++ keyword ++ " " ++ l ++ " AND " ++ h) : Compiled).Accepted ↔
        ∀ e ∈ [receiver, low, high], (Visit.mk e s key).Accepted := by
    simp only [List.forall_mem_cons, List.not_mem_nil, false_implies, implies_true, and_true]
    exact Compiled.accepted_bind fun r => Compiled.accepted_bind_bind _
  rw [betweenText, accepted_splitReceiver]
  constructor
  · rintro ⟨receiver, rest, split, accepted⟩
    match rest, accepted with
    | [low, high], accepted =>
      rw [split]
      exact ⟨⟨receiver, low, high, rfl⟩, (texts receiver low high).1 accepted⟩
    | [], accepted | [_], accepted | _ :: _ :: _ :: _, accepted =>
      exact (Compiled.not_accepted_error _ accepted).elim
  · rintro ⟨⟨receiver, low, high, split⟩, all⟩
    rw [split] at all
    exact ⟨receiver, [low, high], split, (texts receiver low high).2 all⟩

theorem element_eq (f : AggregateFn) (k : KeyText) (target : Option Expr) :
    (∃ i, s.group? target = some i ∧ f.element (target.map (Expr.part k)) s = .ok (.source i)) ∨
      ∃ u, s.group? target = none ∧ f.element (target.map (Expr.part k)) s = unsupported u := by
  cases target with
  | none => exact .inr ⟨_, rfl, rfl⟩
  | some e =>
    cases e with
    | parameter p =>
      simp only [Scope.group?, Option.map_some, Expr.part, AggregateFn.element]
      rcases s.lookup? p with _ | (_ | i | _)
      · exact .inr ⟨_, rfl, rfl⟩
      · exact .inr ⟨_, rfl, rfl⟩
      · exact .inl ⟨i, rfl, rfl⟩
      · exact .inr ⟨_, rfl, rfl⟩
    | _ => exact .inr ⟨_, rfl, rfl⟩

theorem accepted_aggregateText (f : AggregateFn) (target : Option Expr) (args : List Expr) :
    (f.text (target.map (Expr.part (keyText key))) (args.map (Expr.part (keyText key))) s).Accepted ↔
      Method.Fits (.aggregate f) s target args ∧
        ∀ v ∈ Method.next (.aggregate f) key s target args, v.Accepted := by
  rw [AggregateFn.text, Method.Fits, Method.next]
  rcases element_eq (s := s) f (keyText key) target with ⟨i, group, element⟩ | ⟨u, group, element⟩
  · simp only [element, group, Compiled.ok_bind, Option.isSome_some, true_and, List.forall_mem_map]
    rw [← accepted_boundTexts]
    cases args with
    | nil =>
      simp only [List.map_nil, Part.boundTexts, Compiled.ok_bind, List.isEmpty_nil, if_true]
      split <;> simp [*]
    | cons e es =>
      simp only [List.map_cons, Part.boundTexts, bind_assoc, Compiled.ok_bind, List.isEmpty_cons,
        Bool.false_eq_true, if_false, reduceCtorEq, false_implies, true_and]
      rw [Compiled.accepted_bind_bind, Compiled.accepted_bind_bind]
  · simp only [element, group, Option.isSome_none, Bool.false_eq_true, false_and, iff_false]
    exact Compiled.not_accepted_error _

theorem accepted_higherOrderText (f : HigherOrderFn) (target : Option Expr) (args : List Expr) :
    (f.text (target.map (Expr.part (keyText key))) (args.map (Expr.part (keyText key))) s).Accepted ↔
      Method.Fits (.higherOrder f) s target args ∧
        ∀ v ∈ Method.next (.higherOrder f) key s target args, v.Accepted := by
  have lambda (es : List Expr) : (es.map (Expr.part (keyText key))).any Part.isLambda =
      (es.map (Expr.part noKey)).any Part.isLambda := by
    rw [List.any_map, List.any_map]
    rfl
  rw [HigherOrderFn.text, accepted_splitReceiver, Method.Fits, Method.next]
  generalize target.toList ++ args = es
  cases es with
  | nil => simp
  | cons collection rest =>
    simp only [List.cons.injEq, lambda, List.forall_mem_cons, List.forall_mem_map, and_assoc,
      exists_and_left, exists_eq_left']
    split
    · rename_i any
      simp only [any, true_and]
      refine (Compiled.accepted_bind_bind _).trans (and_congr_right' ?_)
      exact accepted_partItemTexts _
    · simp [*]

theorem accepted_castText (type : CastType) (target : Option Expr) (args : List Expr) :
    ((Method.cast type).text (target.map (Expr.part (keyText key)))
        (args.map (Expr.part (keyText key))) s).Accepted ↔
      Method.Fits (.cast type) s target args ∧
        ∀ v ∈ Method.next (.cast type) key s target args, v.Accepted := by
  -- The type is made of constants, which are alike under every key.
  have name (es : List Expr) : type.text (es.map (Expr.part (keyText key))) =
      type.text (es.map (Expr.part noKey)) := by
    cases type with
    | decimal => match es with | [] | [_] | [_, _] | _ :: _ :: _ :: _ => rfl
    | _ => rfl
  rw [Method.text, accepted_splitReceiver, Method.Fits, Method.next]
  generalize target.toList ++ args = es
  cases es with
  | nil => simp
  | cons e rest =>
    simp only [List.cons.injEq, name, and_assoc, exists_and_left, exists_eq_left', List.take_succ_cons,
      List.take_zero, List.map_cons, List.map_nil, List.forall_mem_cons, List.not_mem_nil,
      false_implies, implies_true, and_true]
    rw [Compiled.accepted_bind_bind, and_comm]
    exact Iff.rfl

theorem accepted_call (method : Method) (target : Option Expr) (args : List Expr) :
    (method.text (target.map (Expr.part (keyText key))) (args.map (Expr.part (keyText key)))
        s).Accepted ↔
      method.Fits s target args ∧ ∀ v ∈ method.next key s target args, v.Accepted := by
  cases method with
  | scalar f =>
    simp only [Method.text, Method.Fits, Method.next, Expr.positional_parts, List.length_map,
      List.forall_mem_map]
    split
    · rename_i accepts
      rw [Compiled.accepted_bind_ok, accepted_texts, and_iff_right accepts]
    · rename_i refuses
      exact iff_of_false (Compiled.not_accepted_error _) fun h => refuses h.1
  | udf =>
    simp only [Method.text, Method.Fits, Method.next, Expr.positional_parts, true_and,
      List.forall_mem_map]
    rw [Compiled.accepted_bind_ok, accepted_texts]
  | contains =>
    simp only [Method.text, Method.next, List.forall_mem_map, accepted_oneArgument,
      accepted_containsText]
    exact accepted_pair
  | startsWith | endsWith =>
    simp only [Method.text, Method.next, List.forall_mem_map, accepted_oneArgument,
      accepted_likeText]
    exact accepted_pair
  | between | notBetween =>
    simp only [Method.next, List.forall_mem_map]
    exact accepted_betweenText _ target args
  | aggregate f => exact accepted_aggregateText f target args
  | higherOrder f => exact accepted_higherOrderText f target args
  | cast type => exact accepted_castText type target args
  | other name => simp [Method.text, Method.Fits]

theorem accepted_keyListText (body : Expr) :
    (keyListText body s).Accepted ↔ ∀ e ∈ body.keyParts, (Visit.mk e s none).Accepted := by
  cases body with
  | new typeName members =>
    exact (Compiled.accepted_bind_ok _).trans (@accepted_itemTexts none s (members.map Prod.snd))
  | _ =>
    simp only [Expr.keyParts, List.forall_mem_singleton]
    exact Iff.rfl

theorem accepted_keyText (use : KeyUse) :
    (keyText key use s).Accepted ↔
      (∃ k es, key = some k ∧ k.exprs? use = some es) ∧ ∀ v ∈ ofKey key use s, v.Accepted := by
  cases key with
  | none => simp [keyText, noKey]
  | some k =>
    obtain ⟨bindings, body⟩ := k
    cases use with
    | whole => simp [keyText, GroupKey.text, accepted_keyListText, GroupKey.exprs?, ofKey]
    | part name =>
      cases body with
      | new typeName members =>
        simp only [keyText, GroupKey.text, GroupKey.exprs?, ofKey]
        cases found : findMember? name members with
        | none => simp [found]
        | some e => simp [found, Accepted, text, keyText]
      | _ => simp [keyText, GroupKey.text, GroupKey.exprs?]

/-- An expression has a text if it has the form of one and all that it goes on to has a text. -/
theorem accepted_iff (v : Visit) : v.Accepted ↔ v.Fits ∧ ∀ w ∈ v.next, w.Accepted := by
  obtain ⟨e, s, key⟩ := v
  cases e with
  | constant v => exact iff_of_true (Compiled.accepted_ok _) (by simp [Fits, next])
  | captured name v => exact iff_of_true (Compiled.accepted_ok _) (by simp [Fits, next])
  | lambda params body => exact iff_of_false (not_accepted_lambda params body) fun h => h.1
  | parameter p =>
    simp only [Accepted, text, Expr.compile, parameterText, Fits, next]
    rcases s.lookup? p with _ | _ | _ <;> simp
  | member target name rename =>
    simp only [Accepted, text, Expr.compile, Fits, next]
    cases access s target name rename with
    | text t => simp
    | key use => exact accepted_keyText use
    | fault u => simp
    | member =>
      simp only [true_and, List.forall_mem_singleton]
      exact Compiled.accepted_bind_ok _
  | binary op left right =>
    simp only [Accepted, text, Expr.compile, Fits, next, true_and]
    cases op.nullTest? left right with
    | some right =>
      cases right <;> simp only [List.forall_mem_singleton] <;> exact Compiled.accepted_bind_ok _
    | none =>
      simp only [List.forall_mem_cons, List.not_mem_nil, false_implies, implies_true, and_true]
      exact Compiled.accepted_bind_bind _
  | unary op operand =>
    simp only [Fits, next, true_and, List.forall_mem_singleton]
    exact Compiled.accepted_bind_ok _
  | call target method args =>
    simp only [Accepted, text, Expr.compile, Expr.targetPart_eq_map, Expr.parts_eq_map]
    exact accepted_call method target args
  | new typeName members =>
    simp only [Fits, next, true_and, List.forall_mem_map]
    exact (Compiled.accepted_bind_ok _).trans (accepted_memberTexts members)
  | array items =>
    simp only [Fits, next, true_and, List.forall_mem_map]
    exact (Compiled.accepted_bind_ok _).trans accepted_itemTexts
  | map entries =>
    simp only [Fits, next, true_and, List.forall_mem_flatMap]
    refine (Compiled.accepted_bind_ok _).trans ((accepted_entryTexts entries).trans ?_)
    simp

end Visit
end StreamSql
