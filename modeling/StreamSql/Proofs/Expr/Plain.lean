import StreamSql.Proofs.Expr.Fold
import StreamSql.Proofs.Expr.Widen
import StreamSql.Proofs.Value.Plain

namespace StreamSql

open Text Reading

def Compiled.Gives {α : Type} (P : α → Prop) (x : Compiled α) : Prop := ∀ a, x = .ok a → P a

namespace Compiled.Gives

variable {α β : Type} {P : α → Prop} {Q : β → Prop} {x : Compiled α} {f : α → Compiled β}

theorem ok {a : α} (h : P a) : Gives P (.ok a) := by
  intro b given
  exact Except.ok.inj given ▸ h

theorem error {e : Error} : Gives P (.error e) := by
  intro a given
  cases given

theorem any : x.Gives fun _ => True := fun _ _ => trivial

theorem mono {R : α → Prop} (h : x.Gives P) (le : ∀ a, P a → R a) : x.Gives R :=
  fun a given => le a (h a given)

theorem bind (h : x.Gives P) (k : ∀ a, P a → (f a).Gives Q) : Gives Q (x >>= f) := by
  intro b given
  obtain ⟨a, first, given⟩ := bind_eq_ok.1 given
  exact k a (h a first) b given

theorem cons {g : α → β} {xs : Compiled (List β)} (h : x.Gives fun a => Q (g a))
    (k : xs.Gives fun bs => ∀ b ∈ bs, Q b) :
    Gives (fun bs => ∀ b ∈ bs, Q b) (do
      let a ← x
      let bs ← xs
      .ok (g a :: bs)) :=
  h.bind fun _ first => k.bind fun _ rest => .ok (List.forall_mem_cons.2 ⟨first, rest⟩)

theorem nil : Gives (fun bs => ∀ b ∈ bs, Q b) (.ok []) := .ok fun _ mem => nomatch mem

end Compiled.Gives

namespace TypeKind

mutual
def isPlain : TypeKind → Bool
  | .array element => element.isPlain
  | .map key value => key.isPlain && value.isPlain
  | .struct fields => areFieldsPlain fields
  | _ => true
termination_by structural k => k
def areFieldsPlain : List Column → Bool
  | [] => true
  | ⟨name, rename, kind, _, _⟩ :: cs =>
    decide (IsWord (rename.getD name)) && kind.isPlain && areFieldsPlain cs
termination_by structural cs => cs
end

theorem isPlain_find? {fields : List Column} (plain : areFieldsPlain fields = true) {name : String}
    {c : Column} (h : Column.find? name fields = some c) : IsWord c.wireName ∧ c.kind.isPlain = true := by
  induction fields with
  | nil => cases h
  | cons d ds ih =>
    obtain ⟨n, rename, kind, _, _⟩ := d
    simp only [areFieldsPlain, Bool.and_eq_true, decide_eq_true_eq] at plain
    rw [Column.find?] at h
    split at h
    · obtain rfl := Option.some.inj h
      exact plain.1
    · exact ih plain.2 h

theorem isPlain_element? {kind element : TypeKind} (plain : kind.isPlain = true)
    (h : kind.element? = some element) : element.isPlain = true := by
  cases kind with
  | array => exact Option.some.inj h ▸ plain
  | map =>
    simp only [isPlain, Bool.and_eq_true] at plain
    exact Option.some.inj h ▸ plain.2
  | _ => cases h

end TypeKind

structure Scope.Plain (s : Scope) : Prop where
  columns : ∀ i name c, s.column? i name = some c → IsWord c.wireName ∧ c.kind.isPlain = true
  aliases : ∀ (i : Nat) (a : String), s.sources[i]?.bind ScopeSource.alias? = some a →
    Lettered a.toList
  itemKinds : ∀ p k, s.itemKind? p = some k → k.isPlain = true
  separator : s.separator = '.'

namespace Scope.Plain

variable {s : Scope} (h : s.Plain)

include h

theorem bind (bs : List (String × Binding)) : (s.bind bs).Plain :=
  ⟨h.columns, h.aliases, h.itemKinds, h.separator⟩

theorem withItemKind (name : String) {kind : Option TypeKind}
    (plain : ∀ k, kind = some k → k.isPlain = true) : (s.withItemKind name kind).Plain := by
  cases kind with
  | none => exact h
  | some k =>
    refine ⟨h.columns, h.aliases, fun p l found => ?_, h.separator⟩
    simp only [Scope.withItemKind, itemKind?, List.lookup_cons] at found
    split at found
    · exact Option.some.inj found ▸ plain k rfl
    · exact h.itemKinds p l found

theorem lowerBools (b : Bool) : Scope.Plain { s with lowerBools := b } :=
  ⟨h.columns, h.aliases, h.itemKinds, h.separator⟩

end Scope.Plain

def Method.isPlain : Method → Bool
  | .udf name externalName => decide (IsWord (externalName.getD name))
  | _ => true

namespace Expr

mutual
def isPlain : Expr → Bool
  | .constant v | .captured _ v => v.isPlain
  | .parameter p => decide (IsWord p)
  | .member target name rename => target.isPlain && decide (IsWord (rename.getD name))
  | .binary _ left right => left.isPlain && right.isPlain
  | .unary _ operand => operand.isPlain
  | .call target method args => isTargetPlain target && method.isPlain && areItemsPlain args
  | .new _ members => areMembersPlain members
  | .array items => areItemsPlain items
  | .map entries => areEntriesPlain entries
  | .lambda params body => params.all (fun p => decide (IsWord p)) && body.isPlain
termination_by structural e => e
def isTargetPlain : Option Expr → Bool
  | none => true
  | some e => e.isPlain
termination_by structural e => e
def areItemsPlain : List Expr → Bool
  | [] => true
  | e :: es => e.isPlain && areItemsPlain es
termination_by structural es => es
def areMembersPlain : List (String × Expr) → Bool
  | [] => true
  | (n, e) :: ms => decide (IsWord n) && e.isPlain && areMembersPlain ms
termination_by structural ms => ms
def areEntriesPlain : List (Expr × Expr) → Bool
  | [] => true
  | (k, v) :: es => k.isPlain && v.isPlain && areEntriesPlain es
termination_by structural es => es
end

theorem isTargetPlain_iff {target : Option Expr} :
    isTargetPlain target = true ↔ ∀ e ∈ target, e.isPlain = true := by
  cases target <;> simp [isTargetPlain]

theorem areItemsPlain_iff {es : List Expr} :
    areItemsPlain es = true ↔ ∀ e ∈ es, e.isPlain = true := by
  induction es with
  | nil => simp [areItemsPlain]
  | cons e es ih => simp [areItemsPlain, ih]

theorem areMembersPlain_iff {ms : List (String × Expr)} :
    areMembersPlain ms = true ↔ ∀ m ∈ ms, IsWord m.1 ∧ m.2.isPlain = true := by
  induction ms with
  | nil => simp [areMembersPlain]
  | cons m ms ih => simp [areMembersPlain, ih, and_assoc]

theorem areEntriesPlain_iff {es : List (Expr × Expr)} :
    areEntriesPlain es = true ↔ ∀ m ∈ es, m.1.isPlain = true ∧ m.2.isPlain = true := by
  induction es with
  | nil => simp [areEntriesPlain]
  | cons m es ih => simp [areEntriesPlain, ih, and_assoc]

theorem isPlain_value? {e : Expr} {v : Value} (plain : e.isPlain = true) (h : e.value? = some v) :
    v.isPlain = true := by
  fun_induction value? e generalizing v with
  | case1 | case2 => exact Option.some.inj h ▸ plain
  | case3 target name rename ih =>
    simp only [isPlain, Bool.and_eq_true] at plain
    obtain ⟨u, value, field⟩ := Option.bind_eq_some_iff.1 h
    exact Value.isPlain_field? (ih plain.1 value) field
  | case4 base at' ihb iha =>
    simp only [isPlain, Bool.and_eq_true] at plain
    obtain ⟨b, value, h⟩ := Option.bind_eq_some_iff.1 h
    obtain ⟨i, -, item⟩ := Option.bind_eq_some_iff.1 h
    exact Value.isPlain_at? (ihb plain.1 value) item
  | case5 => cases h

theorem isPlain_constantOr {folded e : Expr} (plain : e.isPlain = true)
    (h : folded.isPlain = true) : (constantOr folded e).isPlain = true := by
  unfold constantOr
  split
  · exact isPlain_value? plain ‹_›
  · exact h

theorem isPlain_fold {e : Expr} (plain : e.isPlain = true) : e.fold.isPlain = true := by
  induction e using ind with
  | constant | captured | parameter => exact plain
  | member target name rename ih =>
    have parts := plain
    simp only [isPlain, Bool.and_eq_true] at parts
    exact isPlain_constantOr plain (by simpa only [isPlain, Bool.and_eq_true] using ⟨ih parts.1, parts.2⟩)
  | binary op left right ihl ihr =>
    have parts := plain
    simp only [isPlain, Bool.and_eq_true] at parts
    exact isPlain_constantOr plain
      (by simpa only [isPlain, Bool.and_eq_true] using ⟨ihl parts.1, ihr parts.2⟩)
  | unary op operand ih => exact ih plain
  | call target method args iht iha =>
    simp only [isPlain, Bool.and_eq_true, isTargetPlain_iff, areItemsPlain_iff, fold,
      foldTarget_eq_map, foldItems_eq_map, List.forall_mem_map] at plain ⊢
    refine ⟨⟨?_, plain.1.2⟩, fun e mem => iha e mem (plain.2 e mem)⟩
    intro e mem
    obtain ⟨d, found, rfl⟩ := Option.map_eq_some_iff.1 mem
    exact iht d found (plain.1.1 d found)
  | new typeName members ih =>
    simp only [isPlain, areMembersPlain_iff, fold, foldMembers_eq_map, List.forall_mem_map] at plain ⊢
    exact fun m mem => ⟨(plain m mem).1, ih m mem (plain m mem).2⟩
  | array items ih =>
    simp only [isPlain, areItemsPlain_iff, fold, foldItems_eq_map, List.forall_mem_map] at plain ⊢
    exact fun e mem => ih e mem (plain e mem)
  | map entries ih =>
    simp only [isPlain, areEntriesPlain_iff, fold, foldEntries_eq_map, List.forall_mem_map] at plain ⊢
    exact fun m mem => ⟨(ih m mem).1 (plain m mem).1, (ih m mem).2 (plain m mem).2⟩
  | lambda params body ih =>
    simp only [isPlain, Bool.and_eq_true, fold] at plain ⊢
    exact ⟨plain.1, ih plain.2⟩

end Expr

mutual
theorem Value.isPlain_kind? : ∀ (v : Value) (k : TypeKind), v.kind? = some k → k.isPlain = true
  | .array items, k, h => by
    simp only [Value.kind?, Option.some.injEq] at h
    exact h ▸ isPlain_itemKind items
  | .null, k, h | .bool _, k, h | .int _, k, h | .float _, k, h | .decimal _, k, h | .string _, k, h
  | .enum _, k, h | .bytes _, k, h | .date _, k, h | .time _, k, h | .timestamp _, k, h
  | .map _, k, h | .struct _, k, h => by
    cases h <;> rfl
termination_by structural v => v
theorem isPlain_itemKind : ∀ vs : List Value, (itemKind vs).isPlain = true
  | [] => rfl
  | v :: _ => by
    rw [itemKind]
    cases h : v.kind? with
    | none => rfl
    | some k => exact v.isPlain_kind? k h
termination_by structural vs => vs
end

theorem TypeKind.areFieldsPlain_of_fields? {kind : TypeKind} {fields : List Column}
    (plain : kind.isPlain = true) (h : kind.fields? = some fields) : areFieldsPlain fields = true := by
  cases kind with
  | struct => exact Option.some.inj h ▸ plain
  | _ => cases h

theorem Expr.isPlain_kind? {s : Scope} (hs : s.Plain) {e : Expr} {kind : TypeKind}
    (h : e.kind? s = some kind) : kind.isPlain = true := by
  fun_induction Expr.kind? s e generalizing kind with
  | case1 v => exact v.isPlain_kind? kind h
  | case2 name v => exact v.isPlain_kind? kind h
  | case3 p => exact hs.itemKinds p kind h
  | case4 | case8 | case10 => cases h
  | case5 => exact Option.some.inj h ▸ rfl
  | case6 e es ih =>
    obtain rfl := Option.some.inj h
    cases first : e.kind? s with
    | none => rfl
    | some k =>
      have element : k.isPlain = true := ih first
      exact element
  | case7 p name rename i =>
    obtain ⟨c, found, rfl⟩ := Option.map_eq_some_iff.1 h
    exact (hs.columns i name c found).2
  | case9 target name rename _ ih =>
    obtain ⟨k, ofTarget, h⟩ := Option.bind_eq_some_iff.1 h
    obtain ⟨fields, struct, h⟩ := Option.bind_eq_some_iff.1 h
    obtain ⟨c, found, rfl⟩ := Option.map_eq_some_iff.1 h
    exact (TypeKind.isPlain_find? (k.areFieldsPlain_of_fields? (ih ofTarget) struct) found).2

section

variable {s : Scope} (hs : s.Plain)

include hs

theorem Scope.Plain.solid_columnText (i : Nat) {name : String} {rename : Option String}
    (word : IsWord (rename.getD name)) : Solid (s.columnText i name rename) := by
  have wire : IsWord (rename.getD (((s.column? i name).map Column.wireName).getD name)) := by
    cases rename with
    | some r => exact word
    | none =>
      cases found : s.column? i name with
      | none => exact word
      | some c => exact (hs.columns i name c found).1
  simp only [columnText]
  split
  · next a aliased =>
    have qualifier : Sealed 0 (a ++ ".") :=
      .append (.of_unmarked (hs.aliases i a aliased).unmarked) (.of_unmarked (by decide))
    exact wire.solid.append_right qualifier
  · exact wire.solid

theorem Scope.Plain.solid_memberText (target : Expr) {name t : String} {rename : Option String}
    (word : IsWord (rename.getD name)) (h : Sealed 0 t) :
    Solid (memberText s target name rename t) := by
  have call {f : String} (free : Unmarked f.toList) : Solid (callText f [t]) :=
    .list rfl free (.inl rfl) (.inl rfl) (by simpa using h)
  have wire : IsWord (rename.getD
      ((((target.kind? s).bind TypeKind.fields?).bind (Column.find? name)).map
        Column.wireName |>.getD name)) := by
    cases rename with
    | some r => exact word
    | none =>
      cases found : ((target.kind? s).bind TypeKind.fields?).bind (Column.find? name) with
      | none => exact word
      | some c =>
        obtain ⟨fields, struct, found⟩ := Option.bind_eq_some_iff.1 found
        obtain ⟨k, ofTarget, struct⟩ := Option.bind_eq_some_iff.1 struct
        have plain := k.areFieldsPlain_of_fields? (Expr.isPlain_kind? hs ofTarget) struct
        exact (TypeKind.isPlain_find? plain found).1
  simp only [memberText]
  split
  · split <;> exact call (by decide)
  · split
    · exact wire.solid
    · exact wire.solid.append_right (h.append (.of_unmarked (by decide)))

end

theorem sealed_parens {t : String} (h : Sealed 0 t) : Solid (parens t) :=
  .brackets (.inl rfl) (.inl rfl) (h.mono (Nat.zero_le 1))

theorem sealed_operandText (op : BinaryOp) (right : Bool) (e : Expr) {t : String} (h : Sealed 0 t) :
    Sealed 0 (op.operandText right e t) := by
  unfold BinaryOp.operandText
  split
  · exact (sealed_parens h).toSealed
  · exact h

theorem solid_nullText (op : BinaryOp) {t : String} (h : Sealed 0 t) : Solid (op.nullText t) := by
  unfold BinaryOp.nullText
  split <;> exact Solid.append_right (.of_unmarked (by decide) (by decide)) h

theorem solid_joinText (op : BinaryOp) (left right : Expr) {l r : String} (hl : Sealed 0 l)
    (hr : Sealed 0 r) : Solid (op.joinText left right l r) := by
  have lhs := sealed_operandText op false left hl
  have rhs := sealed_operandText op true right hr
  unfold BinaryOp.joinText
  split
  · have subscript : Solid ("[" ++ r ++ "]") :=
      .brackets (.inr rfl) (.inr rfl) (hr.mono (Nat.zero_le 1))
    simpa only [String.append_assoc] using subscript.append_right lhs
  · next binary =>
    have sign : Sealed 0 op.text := by
      cases op <;> first | exact .of_unmarked (by decide) | exact absurd rfl binary
    have blank : Solid " " := .of_unmarked (by decide) (by decide)
    exact (((blank.append_right lhs).append_left sign).append_left blank.toSealed).append_left rhs

theorem solid_unaryText (op : UnaryOp) (operand : Expr) {t : String} (h : Sealed 0 t) :
    Solid (op.text operand t) := by
  have inner : Sealed 0 (if op.needsParens operand t then parens t else t) := by
    split
    · exact (sealed_parens h).toSealed
    · exact h
  unfold UnaryOp.text
  cases op <;> exact Solid.append_left (.of_unmarked (by decide) (by decide)) inner

structure Part.Plain (p : Part) : Prop where
  expr : p.expr.isPlain = true
  text : ∀ s : Scope, s.Plain →
    (p.text s).Gives fun t => Sealed 0 t ∧ (t = "" → ∃ x, p.expr = .parameter x)
  body : ∀ s : Scope, s.Plain → (p.body s).Gives (Sealed 0)
  items : ∀ s : Scope, s.Plain → (p.items s).Gives fun ts => ∀ t ∈ ts, Sealed 0 t

theorem callText_solid {f : String} {ts : List String} (free : Unmarked f.toList)
    (h : ∀ t ∈ ts, Sealed 0 t) : Solid (callText f ts) :=
  .list rfl free (.inl rfl) (.inl rfl) h

section

variable {s : Scope} (hs : s.Plain) {p : Part} {ps : List Part}

include hs

theorem Part.Plain.sealed (h : p.Plain) : (p.text s).Gives (Sealed 0) :=
  (h.text s hs).mono fun _ given => given.1

theorem Part.gives_texts (h : ∀ p ∈ ps, p.Plain) :
    (texts s ps).Gives fun ts => ∀ t ∈ ts, Sealed 0 t := by
  induction ps with
  | nil => exact .nil
  | cons p ps ih =>
    rw [List.forall_mem_cons] at h
    exact .cons (h.1.sealed hs) (ih h.2)

theorem Part.Plain.gives_boundText (h : p.Plain) (bindings : List Binding) :
    (p.boundText bindings s).Gives (Sealed 0) := by
  unfold boundText
  split
  · split
    · exact .error
    · exact h.body _ (hs.bind _)
  · exact h.sealed hs

theorem Part.gives_boundTexts (h : ∀ p ∈ ps, p.Plain) (bindings : List Binding) :
    (boundTexts bindings s ps).Gives fun ts => ∀ t ∈ ts, Sealed 0 t := by
  induction ps with
  | nil => exact .nil
  | cons p ps ih =>
    rw [List.forall_mem_cons] at h
    exact .cons (h.1.gives_boundText hs bindings) (ih h.2)

theorem Part.Plain.gives_lambdaText (h : p.Plain) {params : List String} {body : Expr}
    (lambda : p.expr = .lambda params body) {kind : Option TypeKind}
    (plain : ∀ k, kind = some k → k.isPlain = true) :
    (p.lambdaText params kind s).Gives (Sealed 0) := by
  have words := h.expr
  simp only [lambda, Expr.isPlain, Bool.and_eq_true, List.all_eq_true, decide_eq_true_eq] at words
  have head : Sealed 0 ("(" ++ join ", " params ++ ")") :=
    .brackets (.inl rfl) (.inl rfl) (.join fun q mem => (words.1 q mem).solid.mono (Nat.zero_le 1))
  have inner : ∀ s : Scope, s.Plain → (p.body (s.bind (params.map (·, .item)))).Gives (Sealed 0) :=
    fun s hs => h.body _ (hs.bind _)
  unfold lambdaText
  refine Compiled.Gives.bind (P := Sealed 0) ?_ fun t sealedBody => .ok ?_
  · cases params.getLast? with
    | none => exact inner s hs
    | some last => exact inner _ (hs.withItemKind last plain)
  · have text : "(" ++ join ", " params ++ ") => " ++ t =
        "(" ++ join ", " params ++ ")" ++ " => " ++ t := by
      rw [← String.toList_inj]
      simp
    rw [text]
    exact (head.append (.of_unmarked (by decide))).append sealedBody

theorem Part.Plain.gives_itemText (h : p.Plain) {kind : Option TypeKind}
    (plain : ∀ k, kind = some k → k.isPlain = true) : (p.itemText kind s).Gives (Sealed 0) := by
  unfold itemText
  split
  · exact h.gives_lambdaText hs ‹_› plain
  · exact h.sealed hs

theorem Part.gives_itemTexts (h : ∀ p ∈ ps, p.Plain) {kind : Option TypeKind}
    (plain : ∀ k, kind = some k → k.isPlain = true) :
    (itemTexts kind s ps).Gives fun ts => ∀ t ∈ ts, Sealed 0 t := by
  induction ps with
  | nil => exact .nil
  | cons p ps ih =>
    rw [List.forall_mem_cons] at h
    rw [itemTexts_cons]
    exact .cons (h.1.gives_itemText hs plain) (ih h.2)

theorem Part.Plain.gives_listText (h : p.Plain) : (p.listText s).Gives (Sealed 1) := by
  have plain := h.expr
  unfold listText
  split
  · next v constant =>
    rw [constant] at plain
    exact .ok (Value.sealed_literal v _ plain hs.separator).1
  · next v captured =>
    rw [captured] at plain
    exact .ok (Value.sealed_literal v _ plain hs.separator).1
  · exact (h.items s hs).bind fun ts given =>
      .ok (.join fun t mem => (given t mem).mono (Nat.zero_le 1))
  · exact (h.sealed hs).mono fun t given => given.mono (Nat.zero_le 1)

theorem gives_likeText {receiver needle : Part} (hr : receiver.Plain) (hn : needle.Plain)
    {pattern : String → String} (free : ∀ t : String, '\x27' ∉ t.toList → '\x27' ∉ (pattern t).toList) :
    (likeText s receiver needle pattern).Gives Solid := by
  unfold likeText
  split
  · exact .error
  · next t found =>
    have quoteless : '\x27' ∉ t.toList := by
      unfold Part.string? at found
      split at found
      · next u constant =>
        obtain rfl := Option.some.inj found
        simpa [constant, Expr.isPlain, Value.isPlain] using hn.expr
      · cases found
    refine (hr.sealed hs).bind fun r given => .ok ?_
    exact (Solid.quoted (free t quoteless)).append_right (given.append (.of_unmarked (by decide)))

theorem gives_containsText {receiver item : Part} (hr : receiver.Plain) (hi : item.Plain) :
    (containsText s receiver item).Gives Solid := by
  unfold containsText
  split
  · exact .error
  · refine (hi.sealed hs).bind fun i given => (hr.gives_listText hs).bind fun l list => .ok ?_
    have parens : Solid (parens l) := .brackets (.inl rfl) (.inl rfl) list
    exact parens.append_right (given.append (.of_unmarked (by decide)))
  · split
    · exact gives_likeText hs hr hi fun t free => by simp [free]
    · refine (hr.sealed hs).bind fun r hr => (hi.sealed hs).bind fun i hi => .ok ?_
      exact callText_solid (by decide) (by simp [hr, hi])

variable {target : Option Part} {args : List Part} (h : ∀ p ∈ target.toList ++ args, p.Plain)

include h

omit hs in
theorem gives_splitReceiver (f : Callee) :
    (splitReceiver f target args).Gives fun split => ∀ p ∈ split.1 :: split.2, p.Plain := by
  cases target with
  | some p => exact .ok h
  | none =>
    cases args with
    | nil => exact .error
    | cons p ps => exact .ok h

omit hs in
theorem gives_oneArgument (f : Callee) :
    (f.oneArgument target args).Gives fun split => split.1.Plain ∧ split.2.Plain := by
  refine (gives_splitReceiver h f).bind fun ⟨receiver, ps⟩ plain => ?_
  match ps with
  | [p] => exact .ok (by simpa using plain)
  | [] | _ :: _ :: _ => exact .error

theorem gives_betweenText {keyword : String} (free : Unmarked keyword.toList) :
    (betweenText keyword target args s).Gives Solid := by
  refine (gives_splitReceiver h .between).bind fun ⟨receiver, ps⟩ plain => ?_
  match ps with
  | [low, high] =>
    simp only [List.forall_mem_cons] at plain
    obtain ⟨receiver, low, high, -⟩ := plain
    refine (receiver.sealed hs).bind fun r hr => (low.sealed hs).bind fun l hl =>
      (high.sealed hs).bind fun h hh => .ok ?_
    have and : Solid " AND " := .of_unmarked (by decide) (by decide)
    have blank : Sealed 0 " " := .of_unmarked (by decide)
    have lower := (((hr.append blank).append (.of_unmarked free)).append blank).append hl
    exact (and.append_right lower).append_left hh
  | [] | [_] | _ :: _ :: _ :: _ => exact .error

theorem AggregateFn.gives_text (f : AggregateFn) : (f.text target args s).Gives Solid := by
  have plain : ∀ p ∈ args, p.Plain := fun p mem => h p (List.mem_append_right _ mem)
  have free : Unmarked f.name.toList := by cases f <;> decide
  refine Compiled.Gives.any.bind fun element _ =>
    (Part.gives_boundTexts hs plain [element]).bind fun ts given => ?_
  split
  · split
    · exact .ok (callText_solid (f := "COUNT") (by decide)
        (List.forall_mem_singleton.2 (Sealed.of_unmarked (t := "*") (by decide))))
    · exact .error
  · refine .ok (callText_solid free ?_)
    unfold argumentTexts
    split
    · next b _ =>
      have flag : Sealed 0 (if b then "True" else "False") := by
        cases b <;> exact .of_unmarked (by decide)
      exact List.forall_mem_append.2 ⟨given, by simpa using flag⟩
    · exact given

theorem HigherOrderFn.gives_text (f : HigherOrderFn) : (f.text target args s).Gives Solid := by
  have free : Unmarked f.name.toList := by cases f <;> decide
  refine (gives_splitReceiver h (.higherOrder f)).bind fun ⟨collection, rest⟩ plain => ?_
  rw [List.forall_mem_cons] at plain
  dsimp only
  split
  · have kind : ∀ k, (collection.expr.kind? s).bind TypeKind.element? = some k → k.isPlain = true := by
      intro k found
      obtain ⟨l, ofCollection, element⟩ := Option.bind_eq_some_iff.1 found
      exact TypeKind.isPlain_element? (Expr.isPlain_kind? hs ofCollection) element
    refine (plain.1.sealed hs).bind fun c hc =>
      (Part.gives_itemTexts hs plain.2 kind).bind fun ts given => .ok ?_
    exact callText_solid free (List.forall_mem_cons.2 ⟨hc, given⟩)
  · exact .error

omit hs h in
theorem CastType.gives_text (type : CastType) (rest : List Part) : (type.text rest).Gives Solid := by
  unfold CastType.text
  split
  · split
    · split
      · have int (n : Int) : Sealed 0 (toString n) := (solid_int n).toSealed
        exact .ok (callText_solid (by decide)
          (List.forall_mem_cons.2 ⟨int _, List.forall_mem_singleton.2 (int _)⟩))
      · exact .error
    · exact .error
  · refine .ok ?_
    cases type <;> exact .of_unmarked (by decide) (by decide)

theorem Method.gives_text {method : Method} (plain : method.isPlain = true) :
    (method.text target args s).Gives Solid := by
  unfold Method.text
  cases method with
  | scalar f =>
    have free : Unmarked f.name.toList := by cases f <;> decide
    dsimp only
    split
    · exact (Part.gives_texts hs h).bind fun ts given => .ok (callText_solid free given)
    · exact .error
  | udf name externalName =>
    have word : IsWord (externalName.getD name) := by simpa [isPlain] using plain
    exact (Part.gives_texts hs h).bind fun ts given =>
      .ok (callText_solid word.letters.unmarked given)
  | aggregate f => exact f.gives_text hs h
  | contains =>
    exact (gives_oneArgument h .contains).bind fun _ split => gives_containsText hs split.1 split.2
  | startsWith =>
    exact (gives_oneArgument h .startsWith).bind fun _ split =>
      gives_likeText hs split.1 split.2 fun t free => by simp [free]
  | endsWith =>
    exact (gives_oneArgument h .endsWith).bind fun _ split =>
      gives_likeText hs split.1 split.2 fun t free => by simp [free]
  | between => exact gives_betweenText hs h (by decide)
  | notBetween => exact gives_betweenText hs h (by decide)
  | higherOrder f => exact f.gives_text hs h
  | cast type =>
    refine (gives_splitReceiver h .cast).bind fun ⟨p, rest⟩ split => ?_
    refine ((split p List.mem_cons_self).sealed hs).bind fun t ht =>
      (type.gives_text rest).bind fun name hn => .ok ?_
    have conversion : Sealed 0 (t ++ " AS " ++ name) :=
      (ht.append (.of_unmarked (by decide))).append hn.toSealed
    have call : Solid ("CAST(" ++ join ", " [t ++ " AS " ++ name] ++ ")") :=
      .list (w := "CAST") rfl (by decide) (.inl rfl) (.inl rfl) (List.forall_mem_singleton.2 conversion)
    simpa only [join, String.append_assoc] using call
  | other name => exact .error

end

def KeyText.Plain (key : KeyText) : Prop := ∀ use s, Scope.Plain s → (key use s).Gives Solid

theorem noKey_plain : KeyText.Plain noKey := fun _ _ _ => .error

namespace Expr

variable {key : KeyText} {s : Scope}

theorem gives_itemTexts (hs : s.Plain) {es : List Expr} (h : ∀ e ∈ es, (e.part key).Plain) :
    (itemTexts key es s).Gives fun ts => ∀ t ∈ ts, Sealed 0 t := by
  induction es with
  | nil => exact .nil
  | cons e es ih =>
    rw [List.forall_mem_cons] at h
    exact .cons (h.1.sealed hs) (ih h.2)

theorem gives_memberTexts (hs : s.Plain) {ms : List (String × Expr)}
    (h : ∀ m ∈ ms, IsWord m.1 ∧ (m.2.part key).Plain) :
    (memberTexts key ms s).Gives fun ts => ∀ t ∈ ts, Sealed 0 t := by
  induction ms with
  | nil => exact .nil
  | cons m ms ih =>
    rw [List.forall_mem_cons] at h
    have name : Sealed 0 (m.1 ++ " := ") := h.1.1.solid.append (.of_unmarked (by decide))
    exact .cons ((h.1.2.sealed hs).mono fun t given => name.append given) (ih h.2)

theorem gives_entryTexts (hs : s.Plain) {es : List (Expr × Expr)}
    (h : ∀ m ∈ es, (m.1.part key).Plain ∧ (m.2.part key).Plain) :
    (entryTexts key es s).Gives fun ts => ∀ t ∈ ts, Sealed 0 t := by
  induction es with
  | nil => exact .nil
  | cons m es ih =>
    rw [List.forall_mem_cons] at h
    refine (h.1.1.sealed hs).bind fun k given => ?_
    have name : Sealed 0 (k ++ " := ") := given.append (.of_unmarked (by decide))
    exact .cons ((h.1.2.sealed hs).mono fun t given => name.append given) (ih h.2)

theorem gives_parameterText {p : String} (word : IsWord p) :
    (parameterText s p).Gives (Sealed 0) := by
  unfold parameterText
  split
  · exact .ok (.of_unmarked (by decide))
  · exact .ok word.solid.toSealed
  · exact .error
  · exact .error

theorem solid_of_access (hs : s.Plain) {target : Expr} (plain : target.isPlain = true) {name t : String}
    {rename : Option String} (word : IsWord (rename.getD name))
    (h : access s target name rename = .text t) : Solid t := by
  obtain ⟨p, b, rfl, -, text⟩ := text_of_access h
  have parameter : IsWord p := by simpa [isPlain] using plain
  cases b with
  | source i => exact text ▸ hs.solid_columnText i word
  | grouping => rcases text with rfl | rfl <;> exact .of_unmarked (by decide) (by decide)
  | item =>
    obtain rfl := text
    exact word.solid.append_right (parameter.solid.append (.of_unmarked (by decide)))

theorem gives_member (hk : key.Plain) (hs : s.Plain) {target : Expr} {name : String}
    {rename : Option String} (word : IsWord (rename.getD name)) (h : (target.part key).Plain) :
    ((member target name rename).compile key s).Gives Solid := by
  simp only [compile]
  split
  · exact .ok (solid_of_access hs h.expr word ‹_›)
  · exact hk _ s hs
  · exact .error
  · exact (h.sealed hs).bind fun t given => .ok (hs.solid_memberText target word given)

theorem gives_binary (hs : s.Plain) (op : BinaryOp) {left right : Expr}
    (hl : (left.part key).Plain) (hr : (right.part key).Plain) :
    ((binary op left right).compile key s).Gives Solid := by
  simp only [compile]
  split
  · exact (hl.sealed hs).bind fun l given => .ok (solid_nullText op (sealed_operandText _ _ _ given))
  · exact (hr.sealed hs).bind fun r given => .ok (solid_nullText op (sealed_operandText _ _ _ given))
  · exact (hl.sealed hs).bind fun l hl => (hr.sealed hs).bind fun r hr =>
      .ok (solid_joinText op left right hl hr)

theorem solid_arrayText {ts : List String} (h : ∀ t ∈ ts, Sealed 0 t) : Solid (arrayText ts) := by
  unfold arrayText
  split
  · exact Value.solid_emptyArray
  · exact .list (w := "ARRAY") rfl (by decide) (.inr rfl) (.inr rfl) h

theorem plain_part_of_solid {e : Expr} (plain : e.isPlain = true)
    (text : ∀ s : Scope, s.Plain → (e.compile key s).Gives Solid)
    (body : ∀ s, bodyText key e s = unsupported .strayLambda) (items : ∀ s, listTexts key e s = .ok []) :
    (e.part key).Plain where
  expr := plain
  text s hs := (text s hs).mono fun _ solid => ⟨solid.toSealed, fun none => absurd none solid.ne⟩
  body s _ := by
    simp only [part, body]
    exact .error
  items s _ := by
    simp only [part, items]
    exact .nil

theorem plain_part (hk : key.Plain) {e : Expr} (plain : e.isPlain = true) : (e.part key).Plain := by
  induction e using ind with
  | constant v | captured name v =>
    refine plain_part_of_solid plain (fun s hs => .ok ?_) (fun _ => rfl) fun _ => rfl
    exact Value.solid_literal plain hs.separator rfl
  | parameter p =>
    have word : IsWord p := by simpa [isPlain] using plain
    refine ⟨plain, fun s hs => ?_, fun _ _ => .error, fun _ _ => .nil⟩
    exact (gives_parameterText word).mono fun t given => ⟨given, fun _ => ⟨p, rfl⟩⟩
  | member target name rename ih =>
    have parts := plain
    simp only [isPlain, Bool.and_eq_true, decide_eq_true_eq] at parts
    exact plain_part_of_solid plain (fun s hs => gives_member hk hs parts.2 (ih parts.1))
      (fun _ => rfl) fun _ => rfl
  | binary op left right ihl ihr =>
    have parts := plain
    simp only [isPlain, Bool.and_eq_true] at parts
    exact plain_part_of_solid plain (fun s hs => gives_binary hs op (ihl parts.1) (ihr parts.2))
      (fun _ => rfl) fun _ => rfl
  | unary op operand ih =>
    refine plain_part_of_solid plain (fun s hs => ?_) (fun _ => rfl) fun _ => rfl
    exact ((ih plain).sealed hs).bind fun t given => .ok (solid_unaryText op operand given)
  | call target method args iht iha =>
    have parts := plain
    simp only [isPlain, Bool.and_eq_true, isTargetPlain_iff, areItemsPlain_iff] at parts
    have positional : ∀ p ∈ (target.map (part key)).toList ++ args.map (part key), p.Plain := by
      intro p mem
      simp only [List.mem_append, Option.mem_toList, Option.map_eq_some_iff, List.mem_map] at mem
      rcases mem with ⟨e, found, rfl⟩ | ⟨e, found, rfl⟩
      · exact iht e found (parts.1.1 e found)
      · exact iha e found (parts.2 e found)
    refine plain_part_of_solid plain (fun s hs => ?_) (fun _ => rfl) fun _ => rfl
    simp only [compile, targetPart_eq_map, parts_eq_map]
    exact Method.gives_text hs positional parts.1.2
  | new typeName members ih =>
    have parts := plain
    simp only [isPlain, areMembersPlain_iff] at parts
    refine plain_part_of_solid plain (fun s hs => ?_) (fun _ => rfl) fun _ => rfl
    exact (gives_memberTexts hs fun m mem => ⟨(parts m mem).1, ih m mem (parts m mem).2⟩).bind
      fun ts given => .ok (callText_solid (by decide) given)
  | array items ih =>
    have parts := plain
    simp only [isPlain, areItemsPlain_iff] at parts
    have texts (s : Scope) (hs : s.Plain) := gives_itemTexts hs fun e mem => ih e mem (parts e mem)
    refine ⟨plain, fun s hs => ?_, fun _ _ => .error, texts⟩
    refine (texts s hs).bind fun ts given => .ok ?_
    have solid := solid_arrayText given
    exact ⟨solid.toSealed, fun none => absurd none solid.ne⟩
  | map entries ih =>
    have parts := plain
    simp only [isPlain, areEntriesPlain_iff] at parts
    refine plain_part_of_solid plain (fun s hs => ?_) (fun _ => rfl) fun _ => rfl
    have both m mem := And.intro ((ih m mem).1 (parts m mem).1) ((ih m mem).2 (parts m mem).2)
    exact (gives_entryTexts hs both).bind fun ts given => .ok (callText_solid (by decide) given)
  | lambda params body ih =>
    have parts := plain
    simp only [isPlain, Bool.and_eq_true] at parts
    exact ⟨plain, fun _ _ => .error, fun s hs => (ih parts.2).sealed hs, fun _ _ => .nil⟩

theorem solid_of_compile (hk : key.Plain) (hs : s.Plain) {e : Expr} (plain : e.isPlain = true) {t : String}
    (ok : e.compile key s = .ok t) (h : ∀ p, e ≠ .parameter p) : Solid t := by
  obtain ⟨sealed, isParameter⟩ := (plain_part hk plain).text s hs t ok
  refine ⟨sealed, fun none => ?_⟩
  obtain ⟨p, rfl⟩ := isParameter none
  exact h p rfl

end Expr

end StreamSql
