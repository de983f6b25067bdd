import StreamSql.Error
import StreamSql.Expr.Scope

/-!
Expressions as text. Which parentheses, separators and function names are written is decided by
functions on texts that have been made already; `Expr.compile` puts them together along the
expression. A call sees its receiver and arguments as parts: an argument may be written as it is, as
the body of a lambda, or as the bare items of a list.
-/

namespace StreamSql

abbrev Compiled (α : Type := String) := Except Error α

theorem Compiled.ok_bind {α β : Type} (a : α) (f : α → Compiled β) : (Except.ok a >>= f) = f a := rfl

theorem Compiled.bind_eq_ok {α β : Type} {x : Compiled α} {f : α → Compiled β} {b : β} :
    (x >>= f) = .ok b ↔ ∃ a, x = .ok a ∧ f a = .ok b := by
  cases x <;> simp [bind, Except.bind]

def unsupported {α : Type} (u : Unsupported) : Compiled α := .error (.unsupported u)

def invalid {α : Type} (i : Invalid) : Compiled α := .error (.invalid i)

inductive KeyUse
  | whole
  | part (name : String)

abbrev KeyText := KeyUse → Scope → Compiled

def parens (t : String) : String := "(" ++ t ++ ")"

def Expr.isNull : Expr → Bool
  | .constant .null => true
  | _ => false

/-- Whether a child of an operator would bind otherwise without parentheses. -/
def BinaryOp.needsParens (parent : BinaryOp) (right : Bool) : Expr → Bool
  | .binary op _ _ =>
    op.precedence < parent.precedence ||
      (right && op.precedence = parent.precedence &&
        (parent = .sub || parent = .div || parent = .rem))
  | _ => false

def BinaryOp.operandText (parent : BinaryOp) (right : Bool) (child : Expr) (t : String) : String :=
  if parent.needsParens right child then parens t else t

/-- A minus sign is not written before another one, since two of them open a comment. -/
def UnaryOp.needsParens (op : UnaryOp) (operand : Expr) (t : String) : Bool :=
  match operand with
  | .binary inner _ _ => inner ≠ .index
  | .unary _ _ => op = .negate
  | _ => op = .negate && t.toList.head? = some '-'

def UnaryOp.text (op : UnaryOp) (operand : Expr) (t : String) : String :=
  let t := if op.needsParens operand t then parens t else t
  match op with
  | .not => "NOT " ++ t
  | .negate => "-" ++ t

/-- The comparison with null, if the operator and one side make one: the other side. -/
def BinaryOp.nullTest? (op : BinaryOp) (left right : Expr) : Option Bool :=
  if op = .eq || op = .ne then
    if right.isNull then some false else if left.isNull then some true else none
  else none

theorem BinaryOp.of_nullTest? {op : BinaryOp} {l r : Expr} {left : Bool}
    (h : op.nullTest? l r = some left) :
    (op = .eq ∨ op = .ne) ∧ (if left then l else r).isNull = true := by
  unfold nullTest? at h
  split at h
  · next hop =>
    refine ⟨by simpa using hop, ?_⟩
    split at h
    · cases h
      assumption
    · split at h
      · cases h
        assumption
      · cases h
  · cases h

def BinaryOp.nullText (op : BinaryOp) (t : String) : String :=
  t ++ if op = .eq then " IS NULL" else " IS NOT NULL"

def BinaryOp.joinText (op : BinaryOp) (left right : Expr) (l r : String) : String :=
  if op = .index then op.operandText false left l ++ "[" ++ r ++ "]"
  else op.operandText false left l ++ " " ++ op.text ++ " " ++ op.operandText true right r

def arrayText (items : List String) : String :=
  if items.isEmpty then emptyArray none else "ARRAY[" ++ Text.join ", " items ++ "]"

def callText (name : String) (args : List String) : String :=
  name ++ "(" ++ Text.join ", " args ++ ")"

/-- A row by itself is written as nothing: an empty projection stands for all columns. -/
def parameterText (s : Scope) (p : String) : Compiled :=
  match s.lookup? p with
  | some (.source _) => .ok ""
  | some .item => .ok p
  | some (.grouping _) => unsupported (.bareGrouping p)
  | none => unsupported (.unbound p)

inductive Access
  | text (t : String)
  | key (use : KeyUse)
  | fault (u : Unsupported)
  | member

def groupingAccess : String → Access
  | "WindowStart" => .text "WINDOWSTART"
  | "WindowEnd" => .text "WINDOWEND"
  | "Key" => .key .whole
  | name => .fault (.groupingMember name)

def access (s : Scope) (target : Expr) (name : String) (rename : Option String) : Access :=
  match target with
  | .parameter p =>
    match s.lookup? p with
    | some (.source i) => .text (s.columnText i name rename)
    | some (.grouping _) => groupingAccess name
    | some .item => if name ≠ "Length" then .text (p ++ "->" ++ rename.getD name) else .member
    | none => .member
  | .member inner "Key" _ => if s.isGrouping inner then .key (.part name) else .member
  | _ => .member

theorem text_of_access {s : Scope} {target : Expr} {name t : String} {rename : Option String}
    (h : access s target name rename = .text t) :
    ∃ p b, target = .parameter p ∧ s.lookup? p = some b ∧
      match b with
      | .source i => t = s.columnText i name rename
      | .grouping _ => t = "WINDOWSTART" ∨ t = "WINDOWEND"
      | .item => t = p ++ "->" ++ rename.getD name := by
  unfold access at h
  split at h
  · next p =>
    split at h
    · next found => exact ⟨p, _, rfl, found, (Access.text.inj h).symm⟩
    · next found =>
      refine ⟨p, _, rfl, found, ?_⟩
      unfold groupingAccess at h
      split at h
      · exact .inl (Access.text.inj h).symm
      · exact .inr (Access.text.inj h).symm
      · cases h
      · cases h
    · next found =>
      split at h
      · exact ⟨p, _, rfl, found, (Access.text.inj h).symm⟩
      · cases h
    · cases h
  · split at h <;> cases h
  · cases h

def memberText (s : Scope) (target : Expr) (name : String) (rename : Option String)
    (t : String) : String :=
  let kind := target.kind? s
  if name = "Length" then
    match kind with
    | some .string => callText "LEN" [t]
    | _ => callText "ARRAY_LENGTH" [t]
  else
    let field := (kind.bind TypeKind.fields?).bind (Column.find? name)
    let wire := rename.getD ((field.map Column.wireName).getD name)
    if t.isEmpty then wire else t ++ "->" ++ wire

/-- A receiver or an argument, with the texts it can have in a scope. -/
structure Part where
  expr : Expr
  text : Scope → Compiled
  body : Scope → Compiled
  items : Scope → Compiled (List String)

namespace Part

def texts (s : Scope) : List Part → Compiled (List String)
  | [] => .ok []
  | p :: ps => do
    let t ← p.text s
    let ts ← texts s ps
    .ok (t :: ts)

/-- A lambda stands for its body, with its parameters bound in order; anything else for itself. -/
def boundText (bindings : List Binding) (s : Scope) (p : Part) : Compiled :=
  match p.expr with
  | .lambda params _ =>
    if bindings.length < params.length then
      invalid (.lambdaParameters params.length bindings.length)
    else p.body (s.bind (params.zip bindings))
  | _ => p.text s

def boundTexts (bindings : List Binding) (s : Scope) : List Part → Compiled (List String)
  | [] => .ok []
  | p :: ps => do
    let t ← p.boundText bindings s
    let ts ← boundTexts bindings s ps
    .ok (t :: ts)

def lambdaText (params : List String) (kind : Option TypeKind) (s : Scope) (p : Part) : Compiled := do
  let s := match params.getLast? with
    | some last => s.withItemKind last kind
    | none => s
  let t ← p.body (s.bind (params.map (·, .item)))
  .ok ("(" ++ Text.join ", " params ++ ") => " ++ t)

def itemTexts (kind : Option TypeKind) (s : Scope) : List Part → Compiled (List String)
  | [] => .ok []
  | p :: ps => do
    let t ← match p.expr with
      | .lambda params _ => p.lambdaText params kind s
      | _ => p.text s
    let ts ← itemTexts kind s ps
    .ok (t :: ts)

def isLambda (p : Part) : Bool :=
  match p.expr with
  | .lambda _ _ => true
  | _ => false

def listLength? (p : Part) : Option Nat :=
  match p.expr with
  | .array items => some items.length
  | .constant (.array items) => some items.length
  | .captured _ (.array items) => some items.length
  | _ => none

def listText (s : Scope) (p : Part) : Compiled :=
  match p.expr with
  | .constant v => .ok (v.literal { s.style with membership := true })
  | .captured _ v => .ok (v.literal { s.style with membership := true })
  | .array _ => do .ok (Text.join ", " (← p.items s))
  | _ => p.text s

def string? (p : Part) : Option String :=
  match p.expr with
  | .constant (.string t) => some t
  | _ => none

def int? (p : Part) : Option Int64 :=
  match p.expr with
  | .constant (.int n) => some n
  | _ => none

end Part

/-- `x.f(a)` and `f(x, a)` are the same call. -/
def splitReceiver (f : Callee) : Option Part → List Part → Compiled (Part × List Part)
  | some p, ps => .ok (p, ps)
  | none, p :: ps => .ok (p, ps)
  | none, [] => unsupported (.noReceiver f)

def likeText (s : Scope) (receiver needle : Part) (pattern : String → String) : Compiled :=
  match needle.string? with
  | none => unsupported .computedPattern
  | some t => do .ok ((← receiver.text s) ++ " LIKE " ++ quoted (pattern t))

def Callee.oneArgument (f : Callee) (target : Option Part) (args : List Part) :
    Compiled (Part × Part) := do
  match ← splitReceiver f target args with
  | (receiver, [p]) => .ok (receiver, p)
  | _ => unsupported (.notOneArgument f)

def isSubstringTest (s : Scope) (receiver item : Part) : Bool :=
  match receiver.expr.kind? s with
  | some .string => true
  | some _ => false
  | none => item.string?.isSome

def containsText (s : Scope) (receiver item : Part) : Compiled :=
  match receiver.listLength? with
  | some 0 => unsupported .emptyMembership
  | some _ => do
    let i ← item.text s
    let l ← receiver.listText s
    .ok (i ++ " IN " ++ parens l)
  | none =>
    if isSubstringTest s receiver item then
      likeText s receiver item fun t => "%" ++ t ++ "%"
    else do
      let r ← receiver.text s
      let i ← item.text s
      .ok (callText "ARRAY_CONTAINS" [r, i])

def betweenText (keyword : String) (target : Option Part) (args : List Part) (s : Scope) :
    Compiled := do
  match ← splitReceiver .between target args with
  | (receiver, [low, high]) =>
    let r ← receiver.text s
    let l ← low.text s
    let h ← high.text s
    .ok (r ++ " " ++ keyword ++ " " ++ l ++ " AND " ++ h)
  | _ => unsupported .notTwoBounds

def AggregateFn.element (f : AggregateFn) (target : Option Part) (s : Scope) : Compiled Binding :=
  match target with
  | some { expr := .parameter p, .. } =>
    match s.lookup? p with
    | some (.grouping i) => .ok (.source i)
    | _ => unsupported (.notAGrouping f p)
  | _ => unsupported (.noGrouping f)

def AggregateFn.argumentTexts (f : AggregateFn) (ts : List String) : List String :=
  match f.ignoresNulls? with
  | some b => ts ++ [if b then "True" else "False"]
  | none => ts

def AggregateFn.text (f : AggregateFn) (target : Option Part) (args : List Part) (s : Scope) :
    Compiled := do
  let element ← f.element target s
  let ts ← Part.boundTexts [element] s args
  if ts.isEmpty then
    if f = .count then .ok "COUNT(*)" else unsupported (.noSelector f)
  else .ok (callText f.name (f.argumentTexts ts))

def HigherOrderFn.text (f : HigherOrderFn) (target : Option Part) (args : List Part) (s : Scope) :
    Compiled := do
  let (collection, rest) ← splitReceiver (.higherOrder f) target args
  if rest.any Part.isLambda then
    let c ← collection.text s
    let ts ← Part.itemTexts ((collection.expr.kind? s).bind TypeKind.element?) s rest
    .ok (callText f.name (c :: ts))
  else unsupported (.noLambda f)

def CastType.text (type : CastType) (rest : List Part) : Compiled :=
  match type with
  | .decimal =>
    match rest with
    | [p, q] =>
      match p.int?, q.int? with
      | some precision, some scale =>
        .ok (callText type.name [toString precision.toInt, toString scale.toInt])
      | _, _ => unsupported .computedDecimalCast
    | _ => unsupported .computedDecimalCast
  | type => .ok type.name

def Method.text (method : Method) (target : Option Part) (args : List Part) (s : Scope) : Compiled :=
  let positional := target.toList ++ args
  match method with
  | .scalar f =>
    if f.accepts positional.length then do .ok (callText f.name (← Part.texts s positional))
    else unsupported (.argumentCount f positional.length)
  | .udf name externalName => do
    .ok (callText (externalName.getD name) (← Part.texts s positional))
  | .aggregate f => f.text target args s
  | .contains => do
    let (receiver, item) ← Callee.contains.oneArgument target args
    containsText s receiver item
  | .startsWith => do
    let (receiver, needle) ← Callee.startsWith.oneArgument target args
    likeText s receiver needle fun t => t ++ "%"
  | .endsWith => do
    let (receiver, needle) ← Callee.endsWith.oneArgument target args
    likeText s receiver needle fun t => "%" ++ t
  | .between => betweenText "BETWEEN" target args s
  | .notBetween => betweenText "NOT BETWEEN" target args s
  | .higherOrder f => f.text target args s
  | .cast type => do
    let (v, rest) ← splitReceiver .cast target args
    let t ← v.text s
    let name ← type.text rest
    .ok ("CAST(" ++ t ++ " AS " ++ name ++ ")")
  | .other name => unsupported (.method name)

namespace Expr

mutual
/-- The text of an expression in a scope; `key` writes the key of a group. -/
def compile (key : KeyText) : Expr → Scope → Compiled
  | .constant v, s => .ok (v.literal s.style)
  | .captured _ v, s => .ok (v.literal s.style)
  | .parameter p, s => parameterText s p
  | .member target name rename, s =>
    match access s target name rename with
    | .text t => .ok t
    | .key use => key use s
    | .fault u => unsupported u
    | .member => do .ok (memberText s target name rename (← target.compile key s))
  | .binary op left right, s =>
    match op.nullTest? left right with
    | some false => do .ok (op.nullText (op.operandText false left (← left.compile key s)))
    | some true => do .ok (op.nullText (op.operandText false right (← right.compile key s)))
    | none => do
      let l ← left.compile key s
      let r ← right.compile key s
      .ok (op.joinText left right l r)
  | .unary op operand, s => do .ok (op.text operand (← operand.compile key s))
  | .call target method args, s => method.text (targetPart key target) (parts key args) s
  | .new _ members, s => do .ok (callText "STRUCT" (← memberTexts key members s))
  | .array items, s => do .ok (arrayText (← itemTexts key items s))
  | .map entries, s => do .ok (callText "MAP" (← entryTexts key entries s))
  | .lambda _ _, _ => unsupported .strayLambda
termination_by structural e => e

def bodyText (key : KeyText) : Expr → Scope → Compiled
  | .lambda _ body, s => body.compile key s
  | _, _ => unsupported .strayLambda
termination_by structural e => e

def listTexts (key : KeyText) : Expr → Scope → Compiled (List String)
  | .array items, s => itemTexts key items s
  | _, _ => .ok []
termination_by structural e => e

def targetPart (key : KeyText) : Option Expr → Option Part
  | none => none
  | some e => some ⟨e, compile key e, bodyText key e, listTexts key e⟩
termination_by structural e => e

def parts (key : KeyText) : List Expr → List Part
  | [] => []
  | e :: es => ⟨e, compile key e, bodyText key e, listTexts key e⟩ :: parts key es
termination_by structural es => es

def itemTexts (key : KeyText) : List Expr → Scope → Compiled (List String)
  | [], _ => .ok []
  | e :: es, s => do
    let t ← e.compile key s
    let ts ← itemTexts key es s
    .ok (t :: ts)
termination_by structural es => es

def memberTexts (key : KeyText) : List (String × Expr) → Scope → Compiled (List String)
  | [], _ => .ok []
  | (n, e) :: ms, s => do
    let t ← e.compile key s
    let ts ← memberTexts key ms s
    .ok ((n ++ " := " ++ t) :: ts)
termination_by structural ms => ms

def entryTexts (key : KeyText) : List (Expr × Expr) → Scope → Compiled (List String)
  | [], _ => .ok []
  | (k, v) :: es, s => do
    let kt ← k.compile key s
    let vt ← v.compile key s
    let ts ← entryTexts key es s
    .ok ((kt ++ " := " ++ vt) :: ts)
termination_by structural es => es
end

def part (key : KeyText) (e : Expr) : Part := ⟨e, compile key e, bodyText key e, listTexts key e⟩

theorem parts_eq_map (key : KeyText) (es : List Expr) : parts key es = es.map (part key) := by
  induction es with
  | nil => rfl
  | cons e es ih => simp [parts, part, ih]

theorem targetPart_eq_map (key : KeyText) (e : Option Expr) :
    targetPart key e = e.map (part key) := by
  cases e <;> rfl

theorem positional_parts (key : KeyText) (target : Option Expr) (args : List Expr) :
    (target.map (part key)).toList ++ args.map (part key) = (target.toList ++ args).map (part key) := by
  cases target <;> rfl

end Expr

structure GroupKey where
  bindings : List (String × Binding)
  body : Expr

/-- A key is not written in terms of itself. -/
def noKey : KeyText := fun _ _ => invalid .keyBeforeGroupBy

def findMember? (name : String) : List (String × Expr) → Option Expr
  | [] => none
  | (n, e) :: ms => if n = name then some e else findMember? name ms

/-- A key of several parts is written as the list of them. -/
def keyListText (body : Expr) (s : Scope) : Compiled :=
  match body with
  | .new _ members => do .ok (Text.join ", " (← Expr.itemTexts noKey (members.map Prod.snd) s))
  | e => e.compile noKey s

/-- The key where a scope uses it: its parameters are bound over those of the scope. -/
def GroupKey.text (k : GroupKey) : KeyText
  | .whole, s => keyListText k.body (s.bind k.bindings)
  | .part name, s =>
    match k.body with
    | .new _ members =>
      match findMember? name members with
      | some e => e.compile noKey (s.bind k.bindings)
      | none => invalid (.noKeyMember name)
    | _ => unsupported (.simpleKeyMember name)

def Expr.compileBound (key : KeyText) (bindings : List Binding) (s : Scope) (e : Expr) : Compiled :=
  (e.part key).boundText bindings s

end StreamSql
