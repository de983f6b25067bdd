import StreamSql.Expr.Compile
import StreamSql.Proofs.Expr.Induction

namespace StreamSql

/-- Where the first gives a result, so does the second, and the same one. -/
def Compiled.Le {α : Type} (x y : Compiled α) : Prop := ∀ a, x = .ok a → y = .ok a

namespace Compiled.Le

variable {α β : Type} {x y : Compiled α} {f g : α → Compiled β}

theorem refl (x : Compiled α) : x.Le x := fun _ h => h

theorem error {e : Error} : Le (.error e) x := by
  intro a h
  cases h

theorem bind (h : x.Le y) (k : ∀ a, x = .ok a → (f a).Le (g a)) : Le (x >>= f) (y >>= g) := by
  cases hx : x with
  | error e => exact error
  | ok a =>
    rw [h a hx]
    exact k a hx

end Compiled.Le

structure Scope.Within (s s' : Scope) : Prop where
  sources : s.sources = s'.sources
  itemKinds : s.itemKinds = s'.itemKinds
  lowerBools : s.lowerBools = s'.lowerBools
  separator : s.separator = s'.separator
  lookup : ∀ p b, s.lookup? p = some b → s'.lookup? p = some b

def Binding.Shown (shown : Nat → Prop) : Binding → Prop
  | .source i => shown i
  | .grouping i => shown i
  | .item => True

structure Scope.WithinOn (shown : Nat → Prop) (s s' : Scope) : Prop where
  sources : ∀ i, shown i → s.sources[i]? = s'.sources[i]?
  itemKinds : s.itemKinds = s'.itemKinds
  lowerBools : s.lowerBools = s'.lowerBools
  separator : s.separator = s'.separator
  lookup : ∀ p b, s.lookup? p = some b → s'.lookup? p = some b
  shown : ∀ p b, s.lookup? p = some b → b.Shown shown

theorem Binding.shown_all (b : Binding) : b.Shown fun _ => True := by
  cases b <;> trivial

theorem Scope.Within.on {s s' : Scope} (h : s.Within s') : s.WithinOn (fun _ => True) s' :=
  { h with
    sources := fun _ _ => by rw [h.sources]
    shown := fun _ b _ => b.shown_all }

def KeyText.Le (key key' : KeyText) : Prop :=
  ∀ use shown s s', Scope.WithinOn shown s s' → (key use s).Le (key' use s')

theorem noKey_le (key : KeyText) : KeyText.Le noKey key := by
  intro use shown s s' h
  exact .error

theorem Scope.lookup?_bind_eq_some {s : Scope} {bs : List (String × Binding)} {p : String}
    {b : Binding} (h : (s.bind bs).lookup? p = some b) : (p, b) ∈ bs ∨ s.lookup? p = some b := by
  simp only [bind, lookup?, List.lookup_append, Option.or_eq_some_iff] at h
  rcases h with found | ⟨-, found⟩
  · obtain ⟨l, r, hl, -⟩ := List.lookup_eq_some_iff.1 found
    exact .inl (List.mem_reverse.1 (by simp [hl]))
  · exact .inr found

namespace Scope.WithinOn

variable {shown : Nat → Prop} {s s' : Scope} (h : s.WithinOn shown s')

include h

theorem bind {bs : List (String × Binding)} (hbs : ∀ b ∈ bs, b.2.Shown shown) :
    (s.bind bs).WithinOn shown (s'.bind bs) where
  sources := h.sources
  itemKinds := h.itemKinds
  lowerBools := h.lowerBools
  separator := h.separator
  lookup p b hb := by
    simp only [Scope.bind, lookup?, List.lookup_append] at hb ⊢
    cases hp : bs.reverse.lookup p with
    | some => simpa [hp] using hb
    | none =>
      rw [hp] at hb
      exact h.lookup p b hb
  shown p b hb := by
    rcases lookup?_bind_eq_some hb with mem | found
    · exact hbs _ mem
    · exact h.shown p b found

theorem withItemKind (name : String) (kind : Option TypeKind) :
    (s.withItemKind name kind).WithinOn shown (s'.withItemKind name kind) := by
  cases kind with
  | none => exact h
  | some k => exact { h with itemKinds := congrArg ((name, k) :: ·) h.itemKinds }

theorem style : s.style = s'.style := by
  simp [Scope.style, h.lowerBools, h.separator]

theorem column? {i : Nat} (hi : shown i) (name : String) : s.column? i name = s'.column? i name := by
  simp [Scope.column?, h.sources i hi]

theorem columnText {i : Nat} (hi : shown i) (name : String) (rename : Option String) :
    s.columnText i name rename = s'.columnText i name rename := by
  simp [Scope.columnText, h.sources i hi, h.column? hi]

theorem isGrouping_eq_or (e : Expr) :
    s.isGrouping e = s'.isGrouping e ∨ ∃ p, e = .parameter p ∧ s.lookup? p = none := by
  cases e with
  | parameter p =>
    cases hp : s.lookup? p with
    | none => exact .inr ⟨p, rfl, hp⟩
    | some b => simp [Scope.isGrouping, hp, h.lookup p b hp]
  | _ => exact .inl rfl

end Scope.WithinOn

theorem Scope.Within.style {s s' : Scope} (h : s.Within s') : s.style = s'.style := h.on.style

namespace Expr

variable {shown : Nat → Prop} {s s' : Scope} {key : KeyText} {t : String}

theorem compile_parameter_of_unbound {p : String} (hp : s.lookup? p = none) :
    (Expr.parameter p).compile key s = unsupported (.unbound p) := by
  simp [compile, parameterText, hp]

theorem access_eq_or (key : KeyText) (h : s.WithinOn shown s') (target : Expr) (name : String)
    (rename : Option String) :
    access s target name rename = access s' target name rename ∨
      access s target name rename = .member ∧ ∀ t, target.compile key s ≠ .ok t := by
  cases target with
  | parameter p =>
    cases hp : s.lookup? p with
    | none =>
      refine .inr ⟨by simp [access, hp], ?_⟩
      simp [compile_parameter_of_unbound hp, unsupported]
    | some b =>
      left
      cases b with
      | source i => simp [access, hp, h.lookup p _ hp, h.columnText (h.shown p _ hp)]
      | _ => simp [access, hp, h.lookup p _ hp]
  | member inner name' rename' =>
    rcases h.isGrouping_eq_or inner with same | ⟨p, rfl, hp⟩
    · left
      unfold access
      split <;> simp_all
    · right
      constructor
      · simp only [access]
        split
        · next heq => cases heq
        · next heq =>
          cases heq
          simp [Scope.isGrouping, hp]
        · rfl
      · simp [compile, access, parameterText, hp, unsupported, bind, Except.bind]
  | _ => exact .inl rfl

theorem exists_compile_of_access {target : Expr} {name : String} {rename : Option String}
    (member : access s target name rename = .member)
    (ok : (Expr.member target name rename).compile key s = .ok t) :
    ∃ u, target.compile key s = .ok u := by
  cases hu : target.compile key s with
  | ok u => exact ⟨u, rfl⟩
  | error => simp [compile, member, hu, bind, Except.bind] at ok

theorem exists_compile_of_items {e : Expr} {items : List Expr}
    (ok : (Expr.array (e :: items)).compile key s = .ok t) : ∃ u, e.compile key s = .ok u := by
  cases he : e.compile key s with
  | ok u => exact ⟨u, rfl⟩
  | error => simp [compile, itemTexts, he, bind, Except.bind] at ok

theorem kind?_of_isGrouping {e : Expr} (h : s.WithinOn shown s') (grouping : s.isGrouping e = true)
    (name : String) (rename : Option String) :
    (Expr.member e name rename).kind? s = (Expr.member e name rename).kind? s' := by
  cases e with
  | parameter p =>
    simp only [Scope.isGrouping] at grouping
    split at grouping
    · next i hi => simp [kind?, hi, h.lookup p _ hi]
    · cases grouping
  | _ => cases grouping

theorem kind?_congr {e : Expr} (h : s.WithinOn shown s') (ok : e.compile key s = .ok t) :
    e.kind? s = e.kind? s' := by
  induction e using ind generalizing t with
  | parameter p =>
    cases hp : s.lookup? p with
    | none => simp [compile_parameter_of_unbound hp, unsupported] at ok
    | some b => simp [kind?, hp, h.lookup p b hp, Scope.itemKind?, h.itemKinds]
  | member target name rename ih =>
    have target_eq (access : access s target name rename = .member) :
        target.kind? s = target.kind? s' := by
      obtain ⟨u, hu⟩ := exists_compile_of_access access ok
      exact ih hu
    cases target with
    | parameter p =>
      cases hp : s.lookup? p with
      | none => simp [compile, access, parameterText, hp, unsupported, bind, Except.bind] at ok
      | some b =>
        cases b with
        | source i => simp [kind?, hp, h.lookup p _ hp, h.column? (h.shown p _ hp)]
        | _ => simp [kind?, hp, h.lookup p _ hp]
    | member inner name' rename' =>
      have inner_eq :
          (member inner name' rename').kind? s = (member inner name' rename').kind? s' := by
        by_cases hg : s.isGrouping inner = true
        · exact kind?_of_isGrouping h hg name' rename'
        · apply target_eq
          simp only [access]
          split <;> simp_all
      simp only [kind?, inner_eq]
    | _ => simp only [kind?, target_eq rfl]
  | array items ih =>
    cases items with
    | nil => rfl
    | cons e es =>
      obtain ⟨u, hu⟩ := exists_compile_of_items ok
      simp [kind?, ih e (by simp) hu]
  | _ => rfl

end Expr

structure Part.Le (p p' : Part) : Prop where
  expr : p.expr = p'.expr
  kind {shown : Nat → Prop} {s s' : Scope} {t : String} : s.WithinOn shown s' → p.text s = .ok t →
    p.expr.kind? s = p'.expr.kind? s'
  text {shown : Nat → Prop} {s s' : Scope} : s.WithinOn shown s' → (p.text s).Le (p'.text s')
  body {shown : Nat → Prop} {s s' : Scope} : s.WithinOn shown s' → (p.body s).Le (p'.body s')
  items {shown : Nat → Prop} {s s' : Scope} : s.WithinOn shown s' → (p.items s).Le (p'.items s')

section

variable {shown : Nat → Prop} {s s' : Scope} {p p' q q' r r' : Part}

theorem Part.Le.boundText_le (h : p.Le p') (within : s.WithinOn shown s') {bs : List Binding}
    (hbs : ∀ b ∈ bs, b.Shown shown) : (p.boundText bs s).Le (p'.boundText bs s') := by
  simp only [boundText, ← h.expr]
  split
  · split
    · exact .refl _
    · exact h.body (within.bind fun b hb => hbs _ (List.of_mem_zip hb).2)
  · exact h.text within

theorem Part.Le.lambdaText_le (h : p.Le p') (within : s.WithinOn shown s') (params : List String)
    (kind : Option TypeKind) : (p.lambdaText params kind s).Le (p'.lambdaText params kind s') := by
  have items : ∀ b ∈ params.map fun p => (p, Binding.item), b.2.Shown shown := by
    intro b hb
    obtain ⟨p, -, rfl⟩ := List.mem_map.1 hb
    trivial
  unfold lambdaText
  refine .bind ?_ fun t _ => .refl _
  split
  · exact h.body ((within.withItemKind _ _).bind items)
  · exact h.body (within.bind items)

theorem Part.Le.listText_le (h : p.Le p') (within : s.WithinOn shown s') :
    (p.listText s).Le (p'.listText s') := by
  simp only [listText, ← h.expr, within.style]
  split
  · exact .refl _
  · exact .refl _
  · exact .bind (h.items within) fun ts _ => .refl _
  · exact h.text within

theorem likeText_le (h : p.Le p') (hq : q.Le q') (within : s.WithinOn shown s')
    (pattern : String → String) :
    (likeText s p q pattern).Le (likeText s' p' q' pattern) := by
  simp only [likeText, Part.string?, ← hq.expr]
  split
  · exact .refl _
  · exact .bind (h.text within) fun t _ => .refl _

theorem isSubstringTest_congr (h : p.Le p') (hq : q.Le q') (within : s.WithinOn shown s') {t : String}
    (ok : p.text s = .ok t) : isSubstringTest s p q = isSubstringTest s' p' q' := by
  simp only [isSubstringTest, h.kind within ok, Part.string?, ← hq.expr]

theorem arrayTest_le (h : p.Le p') (hq : q.Le q') (within : s.WithinOn shown s')
    (pattern : String → String) (join : String → String → String) :
    Compiled.Le
      (if isSubstringTest s p q then likeText s p q pattern
        else do .ok (join (← p.text s) (← q.text s)))
      (if isSubstringTest s' p' q' then likeText s' p' q' pattern
        else do .ok (join (← p'.text s') (← q'.text s'))) := by
  cases ok : p.text s with
  | ok t =>
    rw [← isSubstringTest_congr h hq within ok, ← ok]
    split
    · exact likeText_le h hq within pattern
    · exact .bind (h.text within) fun r _ => .bind (hq.text within) fun i _ => .refl _
  | error e =>
    -- the kind may be another one here, but neither form has a text
    split
    · unfold likeText
      rw [ok]
      split <;> exact .error
    · exact .error

theorem containsText_le (h : p.Le p') (hq : q.Le q') (within : s.WithinOn shown s') :
    (containsText s p q).Le (containsText s' p' q') := by
  simp only [containsText, Part.listLength?, ← h.expr]
  split
  · exact .refl _
  · exact .bind (hq.text within) fun i _ => .bind (h.listText_le within) fun l _ => .refl _
  · exact arrayTest_le h hq within _ fun r i => callText "ARRAY_CONTAINS" [r, i]

end

section

open StreamSql.Expr (part)

variable {key key' : KeyText} {shown : Nat → Prop} {s s' : Scope} {es : List Expr}
  {target : Option Expr}

section

variable (h : ∀ e ∈ es, Part.Le (e.part key) (e.part key')) (within : s.WithinOn shown s')

include h within

theorem Part.texts_le :
    (texts s (es.map (part key))).Le (texts s' (es.map (part key'))) := by
  induction es with
  | nil => exact .refl _
  | cons e es ih =>
    simp only [List.map_cons, texts]
    refine .bind ((h e (by simp)).text within) fun t _ => ?_
    exact .bind (ih fun d hd => h d (by simp [hd])) fun ts _ => .refl _

theorem Part.boundTexts_le {bs : List Binding} (hbs : ∀ b ∈ bs, b.Shown shown) :
    (boundTexts bs s (es.map (part key))).Le (boundTexts bs s' (es.map (part key'))) := by
  induction es with
  | nil => exact .refl _
  | cons e es ih =>
    simp only [List.map_cons, boundTexts]
    refine .bind ((h e (by simp)).boundText_le within hbs) fun t _ => ?_
    exact .bind (ih fun d hd => h d (by simp [hd])) fun ts _ => .refl _

theorem Part.itemTexts_le (kind : Option TypeKind) :
    (itemTexts kind s (es.map (part key))).Le (itemTexts kind s' (es.map (part key'))) := by
  induction es with
  | nil => exact .refl _
  | cons e es ih =>
    have he := h e (by simp)
    have rest := ih fun d hd => h d (by simp [hd])
    simp only [List.map_cons, itemTexts, ← he.expr]
    split
    · exact .bind (he.lambdaText_le within _ kind) fun t _ => .bind rest fun ts _ => .refl _
    · exact .bind (he.text within) fun t _ => .bind rest fun ts _ => .refl _

end

def Part.itemText (kind : Option TypeKind) (s : Scope) (p : Part) : Compiled :=
  match p.expr with
  | .lambda params _ => p.lambdaText params kind s
  | _ => p.text s

theorem Part.itemTexts_cons (kind : Option TypeKind) (s : Scope) (p : Part) (ps : List Part) :
    itemTexts kind s (p :: ps) = (do
      let t ← p.itemText kind s
      let ts ← itemTexts kind s ps
      .ok (t :: ts)) := by
  obtain ⟨expr, -, -, -⟩ := p
  cases expr <;> rfl

theorem splitReceiver_part (f : Callee) (target : Option Expr) (es : List Expr) :
    (∃ d ds, d :: ds = target.toList ++ es ∧
      ∀ key, splitReceiver f (target.map (part key)) (es.map (part key)) =
        .ok (d.part key, ds.map (part key))) ∨
      ∀ key, splitReceiver f (target.map (part key)) (es.map (part key)) =
        unsupported (.noReceiver f) := by
  cases target with
  | some d => exact .inl ⟨d, es, rfl, fun key => rfl⟩
  | none =>
    cases es with
    | cons d ds => exact .inl ⟨d, ds, rfl, fun key => rfl⟩
    | nil => exact .inr fun key => rfl

theorem AggregateFn.element_le (f : AggregateFn) (within : s.WithinOn shown s') :
    (f.element (target.map (part key)) s).Le (f.element (target.map (part key')) s') := by
  cases target with
  | none => exact .refl _
  | some d =>
    cases d with
    | parameter p =>
      cases hp : s.lookup? p with
      | none =>
        simp only [element, Option.map_some, part, hp]
        exact .error
      | some b =>
        simp only [element, Option.map_some, part, hp, within.lookup p b hp]
        exact .refl _
    | _ => exact .refl _

theorem AggregateFn.shown_element (f : AggregateFn) (within : s.WithinOn shown s') {b : Binding}
    (h : f.element (target.map (part key)) s = .ok b) : b.Shown shown := by
  unfold element at h
  split at h
  · next p _ _ _ _ =>
    split at h
    · next i hi =>
      obtain rfl := Except.ok.inj h
      have group : (Binding.grouping i).Shown shown := within.shown p _ hi
      exact group
    · cases h
  · cases h

theorem AggregateFn.text_le (f : AggregateFn)
    (h : ∀ e ∈ es, Part.Le (e.part key) (e.part key')) (within : s.WithinOn shown s') :
    (f.text (target.map (part key)) (es.map (part key)) s).Le
      (f.text (target.map (part key')) (es.map (part key')) s') := by
  unfold AggregateFn.text
  refine .bind (f.element_le within) fun b hb => ?_
  have shown : ∀ c ∈ [b], c.Shown shown := by
    simpa using f.shown_element within hb
  exact .bind (Part.boundTexts_le h within shown) fun ts _ => .refl _

section

variable (ht : ∀ e ∈ target, Part.Le (e.part key) (e.part key'))
  (h : ∀ e ∈ es, Part.Le (e.part key) (e.part key'))

include ht h

theorem splitReceiver_bind_le (f : Callee) {make make' : Part × List Part → Compiled}
    (k : ∀ d ds, (∀ e ∈ d :: ds, Part.Le (e.part key) (e.part key')) →
      (make (d.part key, ds.map (part key))).Le (make' (d.part key', ds.map (part key')))) :
    Compiled.Le (splitReceiver f (target.map (part key)) (es.map (part key)) >>= make)
      (splitReceiver f (target.map (part key')) (es.map (part key')) >>= make') := by
  rcases splitReceiver_part f target es with ⟨d, ds, hd, split⟩ | split
  · rw [split, split]
    apply k d ds
    intro e he
    rw [hd] at he
    rcases List.mem_append.1 he with he | he
    · exact ht e (by simpa using he)
    · exact h e he
  · rw [split, split]
    exact .error

theorem oneArgument_bind_le (f : Callee) {make make' : Part × Part → Compiled}
    (k : ∀ d e, Part.Le (part key d) (part key' d) → Part.Le (part key e) (part key' e) →
      (make (d.part key, e.part key)).Le (make' (d.part key', e.part key'))) :
    Compiled.Le (f.oneArgument (target.map (part key)) (es.map (part key)) >>= make)
      (f.oneArgument (target.map (part key')) (es.map (part key')) >>= make') := by
  unfold Callee.oneArgument
  simp only [bind_assoc]
  apply splitReceiver_bind_le ht h
  intro d ds hds
  match ds with
  | [e] => exact k d e (hds d (by simp)) (hds e (by simp))
  | [] => exact .error
  | _ :: _ :: _ => exact .error

variable (within : s.WithinOn shown s')

include within

theorem betweenText_le (keyword : String) :
    (betweenText keyword (target.map (part key)) (es.map (part key)) s).Le
      (betweenText keyword (target.map (part key')) (es.map (part key')) s') := by
  unfold betweenText
  apply splitReceiver_bind_le ht h
  intro d ds hds
  match ds with
  | [low, high] =>
    refine .bind ((hds d (by simp)).text within) fun r _ => ?_
    refine .bind ((hds low (by simp)).text within) fun l _ => ?_
    exact .bind ((hds high (by simp)).text within) fun h _ => .refl _
  | [] => exact .error
  | [_] => exact .error
  | _ :: _ :: _ :: _ => exact .error

theorem HigherOrderFn.text_le (f : HigherOrderFn) :
    (f.text (target.map (part key)) (es.map (part key)) s).Le
      (f.text (target.map (part key')) (es.map (part key')) s') := by
  unfold HigherOrderFn.text
  apply splitReceiver_bind_le ht h
  intro d ds hds
  have lambdas :
      (ds.map (part key)).any Part.isLambda = (ds.map (part key')).any Part.isLambda := by
    simp [List.any_map, Function.comp_def, Part.isLambda, part]
  simp only [lambdas]
  split
  · refine .bind ((hds d (by simp)).text within) fun c hc => ?_
    rw [(hds d (by simp)).kind within hc]
    exact .bind (Part.itemTexts_le (fun e he => hds e (by simp [he])) within _) fun ts _ => .refl _
  · exact .refl _

end

theorem CastType.text_part (key key' : KeyText) (type : CastType) :
    type.text (es.map (part key)) = type.text (es.map (part key')) := by
  cases type with
  | decimal =>
    match es with
    | [] => rfl
    | [_] => rfl
    | [_, _] => rfl
    | _ :: _ :: _ :: _ => rfl
  | _ => rfl

theorem Method.text_le (ht : ∀ e ∈ target, Part.Le (e.part key) (e.part key'))
    (h : ∀ e ∈ es, Part.Le (e.part key) (e.part key')) (within : s.WithinOn shown s') (method : Method) :
    (method.text (target.map (part key)) (es.map (part key)) s).Le
      (method.text (target.map (part key')) (es.map (part key')) s') := by
  have all : ∀ e ∈ target.toList ++ es, Part.Le (e.part key) (e.part key') := by
    intro e he
    rcases List.mem_append.1 he with he | he
    · exact ht e (by simpa using he)
    · exact h e he
  unfold Method.text
  cases method with
  | scalar f =>
    simp only [Expr.positional_parts, List.length_map]
    split
    · exact .bind (Part.texts_le all within) fun ts _ => .refl _
    · exact .refl _
  | udf name externalName =>
    simp only [Expr.positional_parts]
    exact .bind (Part.texts_le all within) fun ts _ => .refl _
  | aggregate f => exact f.text_le h within
  | contains => exact oneArgument_bind_le ht h _ fun d e hd he => containsText_le hd he within
  | startsWith => exact oneArgument_bind_le ht h _ fun d e hd he => likeText_le hd he within _
  | endsWith => exact oneArgument_bind_le ht h _ fun d e hd he => likeText_le hd he within _
  | between => exact betweenText_le ht h within _
  | notBetween => exact betweenText_le ht h within _
  | higherOrder f => exact f.text_le ht h within
  | cast type =>
    apply splitReceiver_bind_le ht h
    intro d ds hds
    refine .bind ((hds d (by simp)).text within) fun t _ => ?_
    rw [CastType.text_part key key']
    exact .refl _
  | other name => exact .refl _

end

namespace Expr

variable {key key' : KeyText} {shown : Nat → Prop} {s s' : Scope}

theorem itemTexts_le {es : List Expr} (h : ∀ e ∈ es, Part.Le (e.part key) (e.part key'))
    (within : s.WithinOn shown s') : (itemTexts key es s).Le (itemTexts key' es s') := by
  induction es with
  | nil => exact .refl _
  | cons e es ih =>
    refine .bind ((h e (by simp)).text within) fun t _ => ?_
    exact .bind (ih fun d hd => h d (by simp [hd])) fun ts _ => .refl _

theorem memberTexts_le {ms : List (String × Expr)}
    (h : ∀ m ∈ ms, Part.Le (m.2.part key) (m.2.part key')) (within : s.WithinOn shown s') :
    (memberTexts key ms s).Le (memberTexts key' ms s') := by
  induction ms with
  | nil => exact .refl _
  | cons m ms ih =>
    refine .bind ((h m (by simp)).text within) fun t _ => ?_
    exact .bind (ih fun d hd => h d (by simp [hd])) fun ts _ => .refl _

theorem entryTexts_le {ms : List (Expr × Expr)}
    (h : ∀ m ∈ ms, Part.Le (m.1.part key) (m.1.part key') ∧ Part.Le (m.2.part key) (m.2.part key'))
    (within : s.WithinOn shown s') : (entryTexts key ms s).Le (entryTexts key' ms s') := by
  induction ms with
  | nil => exact .refl _
  | cons m ms ih =>
    refine .bind ((h m (by simp)).1.text within) fun k _ => ?_
    refine .bind ((h m (by simp)).2.text within) fun v _ => ?_
    exact .bind (ih fun d hd => h d (by simp [hd])) fun ts _ => .refl _

theorem binary_le {op : BinaryOp} {left right : Expr}
    (hl : Part.Le (left.part key) (left.part key'))
    (hr : Part.Le (right.part key) (right.part key')) (within : s.WithinOn shown s') :
    ((binary op left right).compile key s).Le ((binary op left right).compile key' s') := by
  simp only [compile]
  split
  · exact .bind (hl.text within) fun l _ => .refl _
  · exact .bind (hr.text within) fun r _ => .refl _
  · exact .bind (hl.text within) fun l _ => .bind (hr.text within) fun r _ => .refl _

theorem member_le (hk : key.Le key') {target : Expr}
    (ht : Part.Le (target.part key) (target.part key')) (name : String) (rename : Option String)
    (within : s.WithinOn shown s') :
    ((member target name rename).compile key s).Le
      ((member target name rename).compile key' s') := by
  simp only [compile]
  rcases access_eq_or key within target name rename with same | ⟨member, unbound⟩
  · rw [← same]
    split
    · exact .refl _
    · exact hk _ _ _ _ within
    · exact .refl _
    · refine .bind (ht.text within) fun t ok => ?_
      simp only [memberText, kind?_congr within ok]
      exact .refl _
  · rw [member]
    intro t ok
    cases hu : target.compile key s with
    | ok u => exact absurd hu (unbound u)
    | error => simp [hu, bind, Except.bind] at ok

theorem part_le (hk : key.Le key') (e : Expr) : Part.Le (e.part key) (e.part key') := by
  induction e using ind with
  | constant v =>
    refine ⟨rfl, kind?_congr, fun h => ?_, fun _ => .refl _, fun _ => .refl _⟩
    simp only [part, compile, h.style]
    exact .refl _
  | captured name v =>
    refine ⟨rfl, kind?_congr, fun h => ?_, fun _ => .refl _, fun _ => .refl _⟩
    simp only [part, compile, h.style]
    exact .refl _
  | parameter p =>
    refine ⟨rfl, kind?_congr, fun {shown s s'} h => ?_, fun _ => .refl _, fun _ => .refl _⟩
    simp only [part, compile, parameterText]
    cases hp : s.lookup? p with
    | none => exact .error
    | some b =>
      rw [h.lookup p b hp]
      exact .refl _
  | member target name rename ih =>
    exact ⟨rfl, kind?_congr, member_le hk ih name rename, fun _ => .refl _, fun _ => .refl _⟩
  | binary op left right ihl ihr =>
    exact ⟨rfl, kind?_congr, binary_le ihl ihr, fun _ => .refl _, fun _ => .refl _⟩
  | unary op operand ih =>
    refine ⟨rfl, kind?_congr, fun h => ?_, fun _ => .refl _, fun _ => .refl _⟩
    exact .bind (ih.text h) fun t _ => .refl _
  | call target method args iht iha =>
    refine ⟨rfl, kind?_congr, fun h => ?_, fun _ => .refl _, fun _ => .refl _⟩
    simp only [part, compile, targetPart_eq_map, parts_eq_map]
    exact Method.text_le iht iha h method
  | new typeName members ih =>
    refine ⟨rfl, kind?_congr, fun h => ?_, fun _ => .refl _, fun _ => .refl _⟩
    exact .bind (memberTexts_le ih h) fun ts _ => .refl _
  | array items ih =>
    refine ⟨rfl, kind?_congr, fun h => ?_, fun _ => .refl _, itemTexts_le ih⟩
    exact .bind (itemTexts_le ih h) fun ts _ => .refl _
  | map entries ih =>
    refine ⟨rfl, kind?_congr, fun h => ?_, fun _ => .refl _, fun _ => .refl _⟩
    exact .bind (entryTexts_le ih h) fun ts _ => .refl _
  | lambda params body ih =>
    exact ⟨rfl, kind?_congr, fun _ => .refl _, ih.text, fun _ => .refl _⟩

theorem compile_le (hk : key.Le key') (h : s.WithinOn shown s') (e : Expr) :
    (e.compile key s).Le (e.compile key' s') :=
  (e.part_le hk).text h

end Expr
end StreamSql
