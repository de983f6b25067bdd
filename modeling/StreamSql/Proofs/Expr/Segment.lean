import StreamSql.Proofs.Expr.Reach

/-!
The text of an expression as a list of segments: fixed words, names of parameters, and the texts of
the visits that it is written from. Every visit has its segments by itself; that its text is made of
them is said once here, for all forms of expressions and calls.
-/

namespace StreamSql

namespace Visit

def written (v : Visit) : String :=
  match v.text with
  | .ok t => t
  | .error _ => ""

theorem written_of_text {v : Visit} {t : String} (h : v.text = .ok t) : v.written = t := by
  rw [written, h]

theorem Accepted.text_eq {v : Visit} (h : v.Accepted) : v.text = .ok v.written := by
  obtain ⟨t, ok⟩ := h
  rw [written_of_text ok, ok]

end Visit

inductive Segment
  | word (t : String)
  | name (p : String)
  | visit (v : Visit)

namespace Segment

def text : Segment → String
  | .word t => t
  | .name p => p
  | .visit v => v.written

def concat : List Segment → String
  | [] => ""
  | g :: gs => g.text ++ concat gs

theorem concat_append (gs hs : List Segment) : concat (gs ++ hs) = concat gs ++ concat hs := by
  induction gs with
  | nil => simp [concat]
  | cons g gs ih => simp [concat, ih, String.append_assoc]

theorem text_infix {g : Segment} {gs : List Segment} (h : g ∈ gs) :
    g.text.toList <:+: (concat gs).toList := by
  obtain ⟨before, after, rfl⟩ := List.append_of_mem h
  rw [concat_append, concat, String.toList_append, String.toList_append, ← List.append_assoc]
  exact List.infix_append _ _ _

theorem written_eq_empty {v : Visit} {gs : List Segment} (h : .visit v ∈ gs) (empty : concat gs = "") :
    v.written = "" := by
  have inside := text_infix h
  rw [empty, String.toList_empty, List.infix_nil] at inside
  exact String.toList_eq_nil_iff.1 inside

def joined (sep : String) (parts : List (List Segment)) : List Segment :=
  [.word sep].intercalate parts

theorem joined_cons_cons (sep : String) (gs hs : List Segment) (parts : List (List Segment)) :
    joined sep (gs :: hs :: parts) = gs ++ .word sep :: joined sep (hs :: parts) := by
  rw [joined, List.intercalate_cons_cons, List.append_assoc]
  rfl

theorem concat_joined (sep : String) (parts : List (List Segment)) :
    concat (joined sep parts) = Text.join sep (parts.map concat) := by
  induction parts with
  | nil => rfl
  | cons gs parts ih =>
    cases parts with
    | nil => simp [joined, Text.join]
    | cons hs parts =>
      rw [joined_cons_cons, concat_append, concat, ih, List.map_cons, List.map_cons, List.map_cons,
        Text.join_cons_cons, String.append_assoc]
      rfl

def separated (parts : List (List Segment)) : List Segment := joined ", " parts

theorem concat_separated (parts : List (List Segment)) :
    concat (separated parts) = Text.join ", " (parts.map concat) := concat_joined ", " parts

def enclosed (wrap : Bool) (gs : List Segment) : List Segment :=
  if wrap then .word "(" :: gs ++ [.word ")"] else gs

theorem concat_enclosed (wrap : Bool) (gs : List Segment) :
    concat (enclosed wrap gs) = if wrap then parens (concat gs) else concat gs := by
  cases wrap
  · rfl
  · simp [enclosed, concat, concat_append, text, parens, String.append_assoc]

def called (name : String) (args : List (List Segment)) : List Segment :=
  .word (name ++ "(") :: separated args ++ [.word ")"]

theorem concat_called (name : String) (args : List (List Segment)) :
    concat (called name args) = callText name (args.map concat) := by
  simp [called, concat, concat_append, concat_separated, text, callText, String.append_assoc]

theorem concat_visit (v : Visit) : concat [.visit v] = v.written := by
  simp [concat, text]

theorem map_concat_visits {α : Type} (f : α → Visit) (xs : List α) :
    (xs.map fun x => [Segment.visit (f x)]).map concat = xs.map fun x => (f x).written := by
  simp [concat_visit]

end Segment

open Segment (concat separated enclosed called)

def Scope.fieldWire (s : Scope) (target : Expr) (name : String) (rename : Option String) : String :=
  rename.getD (((((target.kind? s).bind TypeKind.fields?).bind (Column.find? name)).map
    Column.wireName).getD name)

def Scope.lengthName (s : Scope) (target : Expr) : String :=
  match target.kind? s with
  | some .string => "LEN"
  | _ => "ARRAY_LENGTH"

namespace Visit

def accessSegments (s : Scope) (target : Expr) (name : String) (rename : Option String)
    (t : String) : List Segment :=
  match target with
  | .parameter p =>
    if s.lookup? p = some .item then [.name p, .word ("->" ++ rename.getD name)] else [.word t]
  | _ => [.word t]

def memberSegments (v : Visit) (name : String) (rename : Option String) : List Segment :=
  if name = "Length" then called (v.scope.lengthName v.expr) [[.visit v]]
  else
    [.visit v,
      .word ((if v.written.isEmpty then "" else "->") ++ v.scope.fieldWire v.expr name rename)]

theorem concat_memberSegments (v : Visit) (name : String) (rename : Option String) :
    concat (v.memberSegments name rename) =
      memberText v.scope v.expr name rename v.written := by
  unfold memberSegments memberText
  split
  · rw [Segment.concat_called, Scope.lengthName]
    split <;> simp [*, Segment.concat_visit]
  · simp only [concat, Segment.text, Scope.fieldWire, String.append_empty]
    split
    · rename_i empty
      rw [String.isEmpty_iff.1 empty, String.empty_append, String.empty_append]
    · rw [String.append_assoc]

def operandSegments (parent : BinaryOp) (right : Bool) (v : Visit) : List Segment :=
  enclosed (parent.needsParens right v.expr) [.visit v]

theorem concat_operandSegments (parent : BinaryOp) (right : Bool) (v : Visit) :
    concat (v.operandSegments parent right) = parent.operandText right v.expr v.written := by
  rw [operandSegments, Segment.concat_enclosed, Segment.concat_visit]
  rfl

def itemSegments (key : Option GroupKey) (kind : Option TypeKind) (s : Scope) (e : Expr) :
    List Segment :=
  match e with
  | .lambda params _ =>
    .word "(" :: separated (params.map fun p => [.name p]) ++
      [.word ") => ", .visit (ofItem key kind s e)]
  | e => [.visit (ofItem key kind s e)]

def listSegments (v : Visit) : List Segment :=
  match v.expr with
  | .array items => separated (items.map fun e => [.visit ⟨e, v.scope, v.key⟩])
  | .constant x | .captured _ x => [.word (x.literal { v.scope.style with membership := true })]
  | _ => [.visit v]

def likeSegments (v : Visit) (needle : Expr) (pattern : String → String) : List Segment :=
  [.visit v, .word (" LIKE " ++ quoted (pattern ((needle.part noKey).string?.getD "")))]

def containsSegments (receiver item : Visit) : List Segment :=
  match (receiver.expr.part noKey).listLength? with
  | some _ => .visit item :: .word " IN (" :: receiver.listSegments ++ [.word ")"]
  | none =>
    if isSubstringTest receiver.scope (receiver.expr.part noKey) (item.expr.part noKey) then
      receiver.likeSegments item.expr fun t => "%" ++ t ++ "%"
    else called "ARRAY_CONTAINS" [[.visit receiver], [.visit item]]

def betweenSegments (keyword : String) (receiver low high : Visit) : List Segment :=
  [.visit receiver, .word (" " ++ keyword ++ " "), .visit low, .word " AND ", .visit high]

end Visit

def CastType.written (type : CastType) (rest : List Expr) : String :=
  match type.text (rest.map (Expr.part noKey)) with
  | .ok t => t
  | .error _ => ""

def Method.segments (method : Method) (key : Option GroupKey) (s : Scope) (target : Option Expr)
    (args : List Expr) : List Segment :=
  let positional := target.toList ++ args
  let here e := Visit.mk e s key
  match method with
  | .scalar f => called f.name (positional.map fun e => [.visit (here e)])
  | .udf name externalName =>
    called (externalName.getD name) (positional.map fun e => [.visit (here e)])
  | .aggregate f =>
    match s.group? target with
    | some i =>
      if args.isEmpty then [.word "COUNT(*)"]
      else
        called f.name ((args.map fun e => [.visit (Visit.bound key [.source i] s e)]) ++
          f.ignoresNulls?.toList.map fun b => [.word (if b then "True" else "False")])
    | none => []
  | .contains =>
    match positional with
    | [receiver, item] => (here receiver).containsSegments (here item)
    | _ => []
  | .startsWith =>
    match positional with
    | [receiver, needle] => (here receiver).likeSegments needle fun t => t ++ "%"
    | _ => []
  | .endsWith =>
    match positional with
    | [receiver, needle] => (here receiver).likeSegments needle fun t => "%" ++ t
    | _ => []
  | .between =>
    match positional with
    | [receiver, low, high] => (here receiver).betweenSegments "BETWEEN" (here low) (here high)
    | _ => []
  | .notBetween =>
    match positional with
    | [receiver, low, high] => (here receiver).betweenSegments "NOT BETWEEN" (here low) (here high)
    | _ => []
  | .higherOrder f =>
    match positional with
    | collection :: rest =>
      called f.name ([.visit (here collection)] ::
        rest.map (Visit.itemSegments key ((collection.kind? s).bind TypeKind.element?) s))
    | [] => []
  | .cast type =>
    match positional with
    | e :: rest =>
      [.word "CAST(", .visit (here e), .word (" AS " ++ type.written rest ++ ")")]
    | [] => []
  | .other _ => []

namespace Visit

def segments (v : Visit) : List Segment :=
  let here e := Visit.mk e v.scope v.key
  match v.expr with
  | .constant x | .captured _ x => [.word (x.literal v.scope.style)]
  | .parameter p => if v.scope.lookup? p = some .item then [.name p] else []
  | .member target name rename =>
    match access v.scope target name rename with
    | .text t => accessSegments v.scope target name rename t
    | .key use => separated ((ofKey v.key use v.scope).map fun w => [.visit w])
    | .fault _ => []
    | .member => (here target).memberSegments name rename
  | .binary op left right =>
    match op.nullTest? left right with
    | some false => (here left).operandSegments op false ++ [.word (op.nullText "")]
    | some true => (here right).operandSegments op false ++ [.word (op.nullText "")]
    | none =>
      if op = .index then
        (here left).operandSegments op false ++ [.word "[", .visit (here right), .word "]"]
      else
        (here left).operandSegments op false ++ .word (" " ++ op.text ++ " ") ::
          (here right).operandSegments op true
  | .unary op operand =>
    .word (match op with | .not => "NOT " | .negate => "-") ::
      enclosed (op.needsParens operand (here operand).written) [.visit (here operand)]
  | .call target method args => method.segments v.key v.scope target args
  | .new _ members =>
    called "STRUCT" (members.map fun m => [.word (m.1 ++ " := "), .visit (here m.2)])
  | .array items =>
    if items.isEmpty then [.word (emptyArray none)]
    else .word "ARRAY[" :: separated (items.map fun e => [.visit (here e)]) ++ [.word "]"]
  | .map entries =>
    called "MAP" (entries.map fun e => [.visit (here e.1), .word " := ", .visit (here e.2)])
  | .lambda _ _ => []

variable {key : Option GroupKey} {s : Scope} {es : List Expr}

theorem itemTexts_eq (h : ∀ e ∈ es, (Visit.mk e s key).Accepted) :
    Expr.itemTexts (keyText key) es s = .ok (es.map fun e => (Visit.mk e s key).written) := by
  induction es with
  | nil => rfl
  | cons e es ih =>
    have first : e.compile (keyText key) s = _ := (h e (by simp)).text_eq
    rw [Expr.itemTexts, first, ih fun d mem => h d (by simp [mem])]
    rfl

theorem memberTexts_eq {members : List (String × Expr)}
    (h : ∀ m ∈ members, (Visit.mk m.2 s key).Accepted) :
    Expr.memberTexts (keyText key) members s =
      .ok (members.map fun m => m.1 ++ " := " ++ (Visit.mk m.2 s key).written) := by
  induction members with
  | nil => rfl
  | cons m ms ih =>
    have first : m.2.compile (keyText key) s = _ := (h m (by simp)).text_eq
    rw [Expr.memberTexts, first, ih fun d mem => h d (by simp [mem])]
    rfl

theorem entryTexts_eq {entries : List (Expr × Expr)}
    (h : ∀ e ∈ entries, (Visit.mk e.1 s key).Accepted ∧ (Visit.mk e.2 s key).Accepted) :
    Expr.entryTexts (keyText key) entries s =
      .ok (entries.map fun e =>
        (Visit.mk e.1 s key).written ++ " := " ++ (Visit.mk e.2 s key).written) := by
  induction entries with
  | nil => rfl
  | cons e es ih =>
    have first : e.1.compile (keyText key) s = _ := (h e (by simp)).1.text_eq
    have second : e.2.compile (keyText key) s = _ := (h e (by simp)).2.text_eq
    rw [Expr.entryTexts, first, second, ih fun d mem => h d (by simp [mem])]
    rfl

theorem texts_eq (h : ∀ e ∈ es, (Visit.mk e s key).Accepted) :
    Part.texts s (es.map (Expr.part (keyText key))) =
      .ok (es.map fun e => (Visit.mk e s key).written) := by
  induction es with
  | nil => rfl
  | cons e es ih =>
    have first : (e.part (keyText key)).text s = _ := (h e (by simp)).text_eq
    rw [List.map_cons, Part.texts, first, ih fun d mem => h d (by simp [mem])]
    rfl

theorem boundText_eq (bindings : List Binding) (e : Expr) (h : (bound key bindings s e).Accepted) :
    (e.part (keyText key)).boundText bindings s = .ok (bound key bindings s e).written := by
  cases e with
  | lambda params body =>
    simp only [bound] at h ⊢
    split at h
    · exact (not_accepted_lambda _ _ h).elim
    · rename_i enough
      simp only [Expr.part, Part.boundText, enough, if_false]
      exact h.text_eq
  | _ => exact h.text_eq

theorem boundTexts_eq {bindings : List Binding} (h : ∀ e ∈ es, (bound key bindings s e).Accepted) :
    Part.boundTexts bindings s (es.map (Expr.part (keyText key))) =
      .ok (es.map fun e => (bound key bindings s e).written) := by
  induction es with
  | nil => rfl
  | cons e es ih =>
    rw [List.map_cons, Part.boundTexts, boundText_eq bindings e (h e (by simp)),
      ih fun d mem => h d (by simp [mem])]
    rfl

theorem concat_accessSegments {target : Expr} {name t : String} {rename : Option String}
    (found : access s target name rename = .text t) :
    concat (accessSegments s target name rename t) = t := by
  obtain ⟨p, b, rfl, bound, text⟩ := text_of_access found
  cases b with
  | source | grouping => simp [accessSegments, bound, concat, Segment.text]
  | item => simp [accessSegments, bound, concat, Segment.text, text, String.append_assoc]

theorem concat_names (params : List String) :
    concat (separated (params.map fun p => [.name p])) = Text.join ", " params := by
  rw [Segment.concat_separated, List.map_map]
  congr 1
  exact (List.map_congr_left fun p _ => by simp [concat, Segment.text]).trans (List.map_id params)

theorem concat_itemSegments_lambda (kind : Option TypeKind) (params : List String) (body : Expr) :
    concat (itemSegments key kind s (.lambda params body)) =
      "(" ++ Text.join ", " params ++ ") => " ++
        (ofItem key kind s (.lambda params body)).written := by
  simp [itemSegments, concat, Segment.concat_append, concat_names, Segment.text,
    String.append_assoc]

theorem lambdaText_eq {kind : Option TypeKind} {params : List String} {body : Expr}
    (h : (ofItem key kind s (.lambda params body)).Accepted) :
    (Expr.part (keyText key) (.lambda params body)).lambdaText params kind s =
      .ok (concat (itemSegments key kind s (.lambda params body))) := by
  have body : text (ofItem key kind s (.lambda params body)) = _ := h.text_eq
  rw [concat_itemSegments_lambda, Part.lambdaText]
  exact congrArg (· >>= fun t => .ok ("(" ++ Text.join ", " params ++ ") => " ++ t)) body

theorem itemText_eq {kind : Option TypeKind} {e : Expr} (h : (ofItem key kind s e).Accepted) :
    (e.part (keyText key)).itemText kind s = .ok (concat (itemSegments key kind s e)) := by
  cases e with
  | lambda params body => exact lambdaText_eq h
  | _ => exact h.text_eq.trans (congrArg Except.ok (Segment.concat_visit _).symm)

theorem partItemTexts_eq {kind : Option TypeKind} (h : ∀ e ∈ es, (ofItem key kind s e).Accepted) :
    Part.itemTexts kind s (es.map (Expr.part (keyText key))) =
      .ok (es.map fun e => concat (itemSegments key kind s e)) := by
  induction es with
  | nil => rfl
  | cons e es ih =>
    rw [List.map_cons, Part.itemTexts_cons, itemText_eq (h e (by simp)),
      ih fun d mem => h d (by simp [mem])]
    rfl

theorem listText_eq (v : Visit) (h : v.Accepted) :
    (v.expr.part (keyText v.key)).listText v.scope = .ok (concat v.listSegments) := by
  obtain ⟨e, s, key⟩ := v
  cases e with
  | array items =>
    have accepted : ∀ e ∈ items, (Visit.mk e s key).Accepted := by
      simpa [next] using ((accepted_iff _).1 h).2
    have texts : (Expr.part (keyText key) (.array items)).items s = _ := itemTexts_eq accepted
    simp only [Part.listText, listSegments, Segment.concat_separated, Segment.map_concat_visits]
    exact congrArg (· >>= fun ts => .ok (Text.join ", " ts)) texts
  | constant | captured => simp [listSegments, concat, Segment.text, Expr.part, Part.listText]
  | _ =>
    simp only [listSegments, Segment.concat_visit]
    exact h.text_eq

theorem likeText_eq (v : Visit) (needle : Expr) (pattern : String → String) (h : v.Accepted)
    (string : (needle.part noKey).string?.isSome) :
    likeText v.scope (v.expr.part (keyText v.key)) (needle.part (keyText v.key)) pattern =
      .ok (concat (v.likeSegments needle pattern)) := by
  obtain ⟨t, found⟩ := Option.isSome_iff_exists.1 string
  have same : (needle.part (keyText v.key)).string? = some t := found
  have receiver : (v.expr.part (keyText v.key)).text v.scope = _ := h.text_eq
  rw [likeText, same, receiver]
  simp [likeSegments, found, concat, Segment.text, Compiled.ok_bind, String.append_assoc]

theorem containsText_eq (receiver item : Expr) (holds : receiver.Holds s item)
    (hr : (Visit.mk receiver s key).Accepted) (hi : (Visit.mk item s key).Accepted) :
    containsText s (receiver.part (keyText key)) (item.part (keyText key)) =
      .ok (concat ((Visit.mk receiver s key).containsSegments ⟨item, s, key⟩)) := by
  have length : (receiver.part (keyText key)).listLength? = (receiver.part noKey).listLength? := rfl
  have substring : isSubstringTest s (receiver.part (keyText key)) (item.part (keyText key)) =
    isSubstringTest s (receiver.part noKey) (item.part noKey) := rfl
  have itemText : (item.part (keyText key)).text s = _ := hi.text_eq
  have receiverText : (receiver.part (keyText key)).text s = _ := hr.text_eq
  rw [containsText, containsSegments, length, substring]
  obtain ⟨nonempty, string⟩ := holds
  cases found : (receiver.part noKey).listLength? with
  | some n =>
    cases n with
    | zero => exact (nonempty found).elim
    | succ n =>
      have list := listText_eq _ hr
      simp only at list
      simp only [itemText, list, Compiled.ok_bind, parens]
      simp only [concat, Segment.concat_append, Segment.text, String.append_assoc,
        String.append_empty]
      rw [show " IN (" = " IN " ++ "(" from rfl, String.append_assoc]
  | none =>
    cases test : isSubstringTest s (receiver.part noKey) (item.part noKey) with
    | true =>
      simp only [if_true]
      exact likeText_eq _ item _ hr (string found test)
    | false =>
      simp [itemText, receiverText, Compiled.ok_bind, Segment.concat_called, Segment.concat_visit]

theorem splitReceiver_eq (f : Callee) (k : KeyText) {target : Option Expr} {args : List Expr}
    {e : Expr} {rest : List Expr} (h : target.toList ++ args = e :: rest) :
    splitReceiver f (target.map (Expr.part k)) (args.map (Expr.part k)) =
      .ok (e.part k, rest.map (Expr.part k)) := by
  cases target with
  | some d =>
    obtain ⟨rfl, rfl⟩ : d = e ∧ args = rest := by simpa using h
    rfl
  | none =>
    obtain rfl : args = e :: rest := by simpa using h
    rfl

theorem betweenText_eq (keyword : String) {target : Option Expr} {args : List Expr}
    {receiver low high : Expr} (split : target.toList ++ args = [receiver, low, high])
    (hr : (Visit.mk receiver s key).Accepted) (hl : (Visit.mk low s key).Accepted)
    (hh : (Visit.mk high s key).Accepted) :
    betweenText keyword (target.map (Expr.part (keyText key))) (args.map (Expr.part (keyText key))) s =
      .ok (concat (betweenSegments keyword ⟨receiver, s, key⟩ ⟨low, s, key⟩ ⟨high, s, key⟩)) := by
  have receiverText : (receiver.part (keyText key)).text s = _ := hr.text_eq
  have lowText : (low.part (keyText key)).text s = _ := hl.text_eq
  have highText : (high.part (keyText key)).text s = _ := hh.text_eq
  simp [betweenText, splitReceiver_eq _ _ split, Compiled.ok_bind, receiverText, lowText, highText,
    betweenSegments, concat, Segment.text, String.append_assoc]

theorem aggregateText_eq (f : AggregateFn) (target : Option Expr) (args : List Expr)
    (fits : Method.Fits (.aggregate f) s target args)
    (h : ∀ v ∈ Method.next (.aggregate f) key s target args, v.Accepted) :
    f.text (target.map (Expr.part (keyText key))) (args.map (Expr.part (keyText key))) s =
      .ok (concat (Method.segments (.aggregate f) key s target args)) := by
  rcases element_eq (s := s) f (keyText key) target with ⟨i, group, element⟩ | ⟨u, group, -⟩
  · simp only [Method.next, group, List.forall_mem_map] at h
    simp only [AggregateFn.text, element, Compiled.ok_bind, boundTexts_eq h, Method.segments, group]
    cases args with
    | nil => simp [fits.2 rfl, concat, Segment.text]
    | cons e es =>
      rw [if_neg (by simp), if_neg (by simp), Segment.concat_called, List.map_append,
        Segment.map_concat_visits, AggregateFn.argumentTexts]
      cases f.ignoresNulls? <;> simp [concat, Segment.text]
  · rw [Method.Fits, group] at fits
    cases fits.1

theorem call_eq (method : Method) (target : Option Expr) (args : List Expr)
    (fits : method.Fits s target args) (h : ∀ v ∈ method.next key s target args, v.Accepted) :
    method.text (target.map (Expr.part (keyText key))) (args.map (Expr.part (keyText key))) s =
      .ok (concat (method.segments key s target args)) := by
  cases method with
  | scalar f =>
    simp only [Method.next, List.forall_mem_map] at h
    simp only [Method.text, Expr.positional_parts, List.length_map, Method.segments,
      Segment.concat_called, Segment.map_concat_visits]
    rw [if_pos (show f.accepts _ = true from fits), texts_eq h]
    rfl
  | udf =>
    simp only [Method.next, List.forall_mem_map] at h
    simp only [Method.text, Expr.positional_parts, Method.segments, Segment.concat_called,
      Segment.map_concat_visits]
    rw [texts_eq h]
    rfl
  | contains =>
    obtain ⟨receiver, item, split, holds⟩ := fits
    simp only [Method.next, split, List.forall_mem_map, List.forall_mem_cons] at h
    simp only [Method.text, Callee.oneArgument, splitReceiver_eq _ _ split, Method.segments, split]
    exact containsText_eq receiver item holds h.1 h.2.1
  | startsWith | endsWith =>
    obtain ⟨receiver, needle, split, string⟩ := fits
    simp only [Method.next, split, List.forall_mem_map, List.forall_mem_cons] at h
    simp only [Method.text, Callee.oneArgument, splitReceiver_eq _ _ split, Method.segments, split]
    exact likeText_eq _ needle _ h.1 string
  | between | notBetween =>
    obtain ⟨receiver, low, high, split⟩ := fits
    simp only [Method.next, split, List.forall_mem_map, List.forall_mem_cons] at h
    simp only [Method.segments, split]
    exact betweenText_eq _ split h.1 h.2.1 h.2.2.1
  | aggregate f => exact aggregateText_eq f target args fits h
  | higherOrder f =>
    obtain ⟨collection, rest, split, lambda⟩ := fits
    simp only [Method.next, split, List.forall_mem_map, List.forall_mem_cons] at h
    have any : (rest.map (Expr.part (keyText key))).any Part.isLambda = true := by
      rwa [List.any_map] at lambda ⊢
    have first : (collection.part (keyText key)).text s = _ := h.1.text_eq
    simp only [Method.text, HigherOrderFn.text, splitReceiver_eq _ _ split, Compiled.ok_bind, any,
      if_true, first, Method.segments, split, Segment.concat_called, List.map_cons,
      Segment.concat_visit, List.map_map]
    rw [show (collection.part (keyText key)).expr = collection from rfl, partItemTexts_eq h.2]
    rfl
  | cast type =>
    obtain ⟨e, rest, split, accepted⟩ := fits
    simp only [Method.next, split, List.take_succ_cons, List.take_zero, List.map_cons, List.map_nil,
      List.forall_mem_singleton] at h
    have first : (e.part (keyText key)).text s = _ := h.text_eq
    obtain ⟨name, named⟩ := accepted
    simp [Method.text, splitReceiver_eq _ _ split, Compiled.ok_bind, first,
      CastType.text_part (keyText key) noKey, named, Method.segments, split, CastType.written, concat,
      Segment.text, String.append_assoc]
  | other name => exact fits.elim

theorem keyListText_eq (body : Expr) (h : ∀ e ∈ body.keyParts, (Visit.mk e s none).Accepted) :
    keyListText body s =
      .ok (concat (separated (body.keyParts.map fun e => [.visit ⟨e, s, none⟩]))) := by
  cases body with
  | new typeName members =>
    have texts : Expr.itemTexts noKey (members.map Prod.snd) s = _ := itemTexts_eq h
    simp only [Expr.keyParts, Segment.concat_separated, Segment.map_concat_visits]
    exact congrArg (· >>= fun ts => .ok (Text.join ", " ts)) texts
  | _ => exact (h _ (List.mem_singleton.2 rfl)).text_eq.trans (by
      simp [Expr.keyParts, separated, Segment.joined, Segment.concat_visit])

theorem keyText_eq {use : KeyUse} {k : GroupKey} {es : List Expr} (found : key = some k)
    (exprs : k.exprs? use = some es) (h : ∀ v ∈ ofKey key use s, v.Accepted) :
    keyText key use s = .ok (concat (separated ((ofKey key use s).map fun w => [.visit w]))) := by
  subst found
  simp only [ofKey, exprs, Option.getD_some, List.forall_mem_map, List.map_map] at h ⊢
  obtain ⟨bindings, body⟩ := k
  cases use with
  | whole =>
    obtain rfl := Option.some.inj exprs
    exact keyListText_eq body h
  | part name =>
    cases body with
    | new typeName members =>
      obtain ⟨e, member, rfl⟩ := Option.map_eq_some_iff.1 exprs
      have text := (h e (List.mem_singleton.2 rfl)).text_eq
      simp only [keyText, GroupKey.text, member]
      exact text.trans (by simp [separated, Segment.joined, Segment.concat_visit])
    | _ => cases exprs

theorem binary_eq (op : BinaryOp) (left right : Expr)
    (h : ∀ w ∈ next ⟨.binary op left right, s, key⟩, w.Accepted) :
    (Visit.mk (.binary op left right) s key).text =
      .ok (concat (segments ⟨.binary op left right, s, key⟩)) := by
  simp only [Visit.next] at h
  simp only [text, Expr.compile, segments]
  cases found : op.nullTest? left right with
  | some onRight =>
    cases onRight with
    | false =>
      simp only [found, List.forall_mem_singleton] at h
      have operand : left.compile (keyText key) s = _ := h.text_eq
      simp [operand, Compiled.ok_bind, Segment.concat_append, concat_operandSegments, concat,
        Segment.text, BinaryOp.nullText]
    | true =>
      simp only [found, List.forall_mem_singleton] at h
      have operand : right.compile (keyText key) s = _ := h.text_eq
      simp [operand, Compiled.ok_bind, Segment.concat_append, concat_operandSegments, concat,
        Segment.text, BinaryOp.nullText]
  | none =>
    simp only [found, List.forall_mem_cons] at h
    have lhs : left.compile (keyText key) s = _ := h.1.text_eq
    have rhs : right.compile (keyText key) s = _ := h.2.1.text_eq
    simp only [lhs, rhs, Compiled.ok_bind, BinaryOp.joinText]
    split
    · simp [Segment.concat_append, concat_operandSegments, concat, Segment.text,
        String.append_assoc]
    · simp [Segment.concat_append, concat_operandSegments, concat, Segment.text,
        String.append_assoc]

theorem written_eq (v : Visit) (h : v.Accepted) : v.written = concat v.segments := by
  obtain ⟨fits, next⟩ := (accepted_iff v).1 h
  obtain ⟨e, s, key⟩ := v
  refine written_of_text ?_
  cases e with
  | constant x => simp [text, Expr.compile, segments, concat, Segment.text]
  | captured name x => simp [text, Expr.compile, segments, concat, Segment.text]
  | lambda => exact fits.elim
  | parameter p =>
    simp only [text, Expr.compile, parameterText, segments]
    rcases fits with found | ⟨i, found⟩ <;> simp only at found <;> simp [found, concat, Segment.text]
  | member target name rename =>
    simp only [Fits, Visit.next] at fits next
    simp only [text, Expr.compile, segments]
    cases found : access s target name rename with
    | text t => rw [concat_accessSegments found]
    | key use =>
      simp only [found] at fits next
      obtain ⟨k, es, key, exprs⟩ := fits
      exact keyText_eq key exprs next
    | fault u => simp [found] at fits
    | member =>
      simp only [found, List.forall_mem_singleton] at next
      have target : target.compile (keyText key) s = _ := next.text_eq
      simp [target, Compiled.ok_bind, concat_memberSegments]
  | binary op left right => exact binary_eq op left right next
  | unary op operand =>
    simp only [Visit.next, List.forall_mem_singleton] at next
    have operandText : operand.compile (keyText key) s = _ := next.text_eq
    simp only [text, Expr.compile, operandText, Compiled.ok_bind, UnaryOp.text, segments, concat,
      Segment.concat_enclosed]
    cases op <;> simp [Segment.text]
  | call target method args =>
    simp only [text, Expr.compile, Expr.targetPart_eq_map, Expr.parts_eq_map]
    exact call_eq method target args fits next
  | new typeName members =>
    simp only [Visit.next, List.forall_mem_map] at next
    simp only [text, Expr.compile, memberTexts_eq next, Compiled.ok_bind, segments,
      Segment.concat_called, List.map_map]
    congr 2
    exact List.map_congr_left fun m _ => by simp [concat, Segment.text]
  | array items =>
    simp only [Visit.next, List.forall_mem_map] at next
    simp only [text, Expr.compile, itemTexts_eq next, Compiled.ok_bind, segments, arrayText,
      List.isEmpty_map]
    split
    · simp [concat, Segment.text]
    · simp only [concat, Segment.text, Segment.concat_append, Segment.concat_separated,
        Segment.map_concat_visits, String.append_empty, String.append_assoc]
  | map entries =>
    simp only [Visit.next, List.forall_mem_flatMap, List.forall_mem_cons] at next
    simp only [text, Expr.compile, entryTexts_eq fun e mem => ⟨(next e mem).1, (next e mem).2.1⟩,
      Compiled.ok_bind, segments, Segment.concat_called, List.map_map]
    congr 2
    exact List.map_congr_left fun m _ => by simp [concat, Segment.text, String.append_assoc]

end Visit

end StreamSql
