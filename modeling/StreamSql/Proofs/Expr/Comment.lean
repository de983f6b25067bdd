import StreamSql.Proofs.Expr.Descent
import StreamSql.Proofs.Expr.Plain
import StreamSql.Proofs.Text.Comment

namespace StreamSql

open Text

open Segment (concat separated enclosed called)

def Segment.Spaced (gs : List Segment) : Prop :=
  HasComment (concat gs) ↔ ∃ v, .visit v ∈ gs ∧ HasComment v.written

namespace Segment.Spaced

variable {gs hs : List Segment} {w : String}

theorem none : Spaced [] :=
  iff_of_false (Signless.not_hasComment (t := "") (by decide)) (by simp)

theorem word (h : ¬ HasComment w) : Spaced [.word w] :=
  iff_of_false (by simpa [concat, text] using h) (by simp)

theorem name (h : Signless w) : Spaced [.name w] :=
  iff_of_false (by simpa [concat, text] using h.not_hasComment) (by simp)

theorem visit (v : Visit) : Spaced [.visit v] := by simp [Spaced, concat_visit]

theorem join (hg : Spaced gs) (hw : Firm w) (hh : Spaced hs) : Spaced (gs ++ .word w :: hs) := by
  have text : concat (gs ++ .word w :: hs) = concat gs ++ w ++ concat hs := by
    simp [concat_append, concat, Segment.text, String.append_assoc]
  unfold Spaced at *
  rw [text, hw.hasComment_between, hg, hh]
  simp [or_and_right, exists_or]

theorem behind (hw : Firm w) (hg : Spaced gs) : Spaced (.word w :: gs) := none.join hw hg

theorem before (hg : Spaced gs) (hw : Firm w) : Spaced (gs ++ [.word w]) := hg.join hw none

theorem behind_visit (v : Visit) (hw : Firm w) (hg : Spaced gs) :
    Spaced (.visit v :: .word w :: gs) :=
  (visit v).join hw hg

theorem between {l r : String} (hl : Firm l) (hg : Spaced gs) (hr : Firm r) :
    Spaced (.word l :: gs ++ [.word r]) :=
  (behind hl hg).before hr

theorem separated {parts : List (List Segment)} (h : ∀ gs ∈ parts, Spaced gs) :
    Spaced (Segment.separated parts) := by
  induction parts with
  | nil => exact none
  | cons gs parts ih =>
    have first := h gs List.mem_cons_self
    have rest := ih fun hs mem => h hs (List.mem_cons_of_mem gs mem)
    cases parts with
    | nil => simpa [Segment.separated, Segment.joined] using first
    | cons hs parts =>
      rw [Segment.separated, Segment.joined_cons_cons]
      exact first.join firm_comma rest

theorem separated_map {α : Type} {f : α → List Segment} {xs : List α} (h : ∀ x ∈ xs, Spaced (f x)) :
    Spaced (Segment.separated (xs.map f)) :=
  separated (List.forall_mem_map.2 h)

theorem visits {α : Type} (f : α → Visit) (xs : List α) :
    Spaced (Segment.separated (xs.map fun x => [.visit (f x)])) :=
  separated_map fun x _ => visit (f x)

theorem enclosed {wrap : Bool} (h : Spaced gs) : Spaced (Segment.enclosed wrap gs) := by
  cases wrap
  · exact h
  · exact between (.of_signless (by decide) (by decide)) h (.of_signless (by decide) (by decide))

theorem called {f : String} (hf : Signless f) {parts : List (List Segment)}
    (h : ∀ gs ∈ parts, Spaced gs) : Spaced (Segment.called f parts) :=
  between (.of_signless (hf.append (by decide)) (by simp)) (separated h)
    (.of_signless (by decide) (by decide))

end Segment.Spaced

def Method.isSignless : Method → Bool
  | .udf name externalName => decide (Signless (externalName.getD name))
  | _ => true

namespace Expr

mutual
def isSignless : Expr → Bool
  | .constant v | .captured _ v => v.isSignless
  | .parameter p => decide (Signless p)
  | .member target name rename => target.isSignless && decide (Signless (rename.getD name))
  | .binary _ left right => left.isSignless && right.isSignless
  | .unary _ operand => operand.isSignless
  | .call target method args => isTargetSignless target && method.isSignless && areItemsSignless args
  | .new _ members => areMembersSignless members
  | .array items => areItemsSignless items
  | .map entries => areEntriesSignless entries
  | .lambda params body => params.all (fun p => decide (Signless p)) && body.isSignless
termination_by structural e => e
def isTargetSignless : Option Expr → Bool
  | none => true
  | some e => e.isSignless
termination_by structural e => e
def areItemsSignless : List Expr → Bool
  | [] => true
  | e :: es => e.isSignless && areItemsSignless es
termination_by structural es => es
def areMembersSignless : List (String × Expr) → Bool
  | [] => true
  | (n, e) :: ms => decide (Signless n) && e.isSignless && areMembersSignless ms
termination_by structural ms => ms
def areEntriesSignless : List (Expr × Expr) → Bool
  | [] => true
  | (k, v) :: es => k.isSignless && v.isSignless && areEntriesSignless es
termination_by structural es => es
end

theorem areItemsSignless_iff {es : List Expr} :
    areItemsSignless es = true ↔ ∀ e ∈ es, e.isSignless = true := by
  induction es with
  | nil => simp [areItemsSignless]
  | cons e es ih => simp [areItemsSignless, ih]

theorem areMembersSignless_iff {ms : List (String × Expr)} :
    areMembersSignless ms = true ↔ ∀ m ∈ ms, Signless m.1 ∧ m.2.isSignless = true := by
  induction ms with
  | nil => simp [areMembersSignless]
  | cons m ms ih => simp [areMembersSignless, ih, and_assoc]

theorem areEntriesSignless_iff {es : List (Expr × Expr)} :
    areEntriesSignless es = true ↔ ∀ m ∈ es, m.1.isSignless = true ∧ m.2.isSignless = true := by
  induction es with
  | nil => simp [areEntriesSignless]
  | cons m es ih => simp [areEntriesSignless, ih, and_assoc]

theorem isSignless_children {e d : Expr} (h : e.isSignless = true) (below : d ∈ e.children) :
    d.isSignless = true := by
  cases e with
  | constant | captured | parameter => cases below
  | member target name rename =>
    simp only [isSignless, Bool.and_eq_true] at h
    exact List.mem_singleton.1 below ▸ h.1
  | binary op left right =>
    simp only [isSignless, Bool.and_eq_true] at h
    obtain rfl | rfl : d = left ∨ d = right := by simpa [children] using below
    · exact h.1
    · exact h.2
  | unary op operand => exact List.mem_singleton.1 below ▸ h
  | call target method args =>
    simp only [isSignless, Bool.and_eq_true, areItemsSignless_iff] at h
    rcases List.mem_append.1 below with mem | mem
    · obtain rfl := Option.mem_toList.1 mem
      exact h.1.1
    · exact h.2 d mem
  | new typeName members =>
    obtain ⟨m, mem, rfl⟩ := List.mem_map.1 below
    exact (areMembersSignless_iff.1 h m mem).2
  | array items => exact areItemsSignless_iff.1 h d below
  | map entries =>
    obtain ⟨m, mem, below⟩ := List.mem_flatMap.1 below
    have entry := areEntriesSignless_iff.1 h m mem
    obtain rfl | rfl : d = m.1 ∨ d = m.2 := by simpa using below
    · exact entry.1
    · exact entry.2
  | lambda params body =>
    simp only [isSignless, Bool.and_eq_true] at h
    exact List.mem_singleton.1 below ▸ h.2

theorem isSignless_string? {e : Expr} {t : String} (h : e.isSignless = true)
    (found : (e.part noKey).string? = some t) : Signless t := by
  cases e with
  | constant v =>
    cases v with
    | string u => exact Option.some.inj found ▸ of_decide_eq_true h
    | _ => cases found
  | _ => cases found

theorem isSignless_keyParts {body e : Expr} (h : body.isSignless = true) (mem : e ∈ body.keyParts) :
    e.isSignless = true := by
  cases body with
  | new typeName members =>
    simp only [isSignless, areMembersSignless_iff] at h
    obtain ⟨m, member, rfl⟩ := List.mem_map.1 mem
    exact (h m member).2
  | _ => exact List.mem_singleton.1 mem ▸ h

end Expr

namespace Scope.Plain

variable {s : Scope} (hs : s.Plain)

include hs

theorem signless_columnText (i : Nat) {name : String} {rename : Option String}
    (h : Signless (rename.getD name)) : Signless (s.columnText i name rename) := by
  have wire : Signless (rename.getD (((s.column? i name).map Column.wireName).getD name)) := by
    cases rename with
    | some r => exact h
    | none =>
      cases found : s.column? i name with
      | none => exact h
      | some c => exact (hs.columns i name c found).1.signless
  simp only [columnText]
  split
  · next a aliased =>
    exact ((signless_of_lettered (hs.aliases i a aliased)).append (by decide)).append wire
  · exact wire

theorem signless_fieldWire (target : Expr) {name : String} {rename : Option String}
    (h : Signless (rename.getD name)) : Signless (s.fieldWire target name rename) := by
  unfold fieldWire
  cases rename with
  | some r => exact h
  | none =>
    cases found : ((target.kind? s).bind TypeKind.fields?).bind (Column.find? name) with
    | none => exact h
    | some c =>
      obtain ⟨fields, struct, found⟩ := Option.bind_eq_some_iff.1 found
      obtain ⟨k, ofTarget, struct⟩ := Option.bind_eq_some_iff.1 struct
      have plain := k.areFieldsPlain_of_fields? (Expr.isPlain_kind? hs ofTarget) struct
      exact (TypeKind.isPlain_find? plain found).1.signless

end Scope.Plain

namespace Visit

structure Signless (v : Visit) : Prop where
  scope : v.scope.Plain
  expr : v.expr.isSignless = true
  key : ∀ k, v.key = some k → k.body.isSignless = true

namespace Signless

variable {v w : Visit} {key : Option GroupKey} {s : Scope}

theorem here (h : v.Signless) {e : Expr} (he : e.isSignless = true) :
    Signless ⟨e, v.scope, v.key⟩ :=
  ⟨h.scope, he, h.key⟩

theorem bound (h : v.Signless) (bindings : List Binding) {e : Expr} (he : e.isSignless = true) :
    (Visit.bound v.key bindings v.scope e).Signless := by
  cases e with
  | lambda params body =>
    simp only [Visit.bound]
    split
    · exact h.here he
    · exact ⟨h.scope.bind _, Expr.isSignless_children he List.mem_cons_self, h.key⟩
  | _ => exact h.here he

theorem ofItem (h : v.Signless) {kind : Option TypeKind}
    (plain : ∀ k, kind = some k → k.isPlain = true) {e : Expr} (he : e.isSignless = true) :
    (Visit.ofItem v.key kind v.scope e).Signless := by
  cases e with
  | lambda params body =>
    refine ⟨Scope.Plain.bind ?_ _, Expr.isSignless_children he List.mem_cons_self, h.key⟩
    cases params.getLast? with
    | none => exact h.scope
    | some last => exact h.scope.withItemKind last plain
  | _ => exact h.here he

theorem next (h : v.Signless) (step : w ∈ v.next) : w.Signless := by
  cases Step.of_next step with
  | child below => exact h.here (Expr.isSignless_children h.expr below)
  | bound below i => exact h.bound _ (Expr.isSignless_children h.expr below)
  | ofItem below =>
    refine h.ofItem (fun k found => ?_) (Expr.isSignless_children h.expr below)
    obtain ⟨l, ofCollection, element⟩ := Option.bind_eq_some_iff.1 found
    exact TypeKind.isPlain_element? (Expr.isPlain_kind? h.scope ofCollection) element
  | key found part =>
    exact ⟨h.scope.bind _, Expr.isSignless_keyParts (h.key _ found) part, nofun⟩

theorem reaches (h : v.Signless) (reaches : v.Reaches w) : w.Signless := by
  induction reaches with
  | refl => exact h
  | tail _ step ih => exact ih.next step

end Signless

/-- A minus sign is put before a subscript that starts with another one, or the arrow of a member
after a target that ends with a minus sign. -/
def OpensComment (v : Visit) : Prop :=
  match v.expr with
  | .unary .negate (.binary .index base i) =>
    StartsSigned (Visit.mk (.binary .index base i) v.scope v.key).written
  | .member target name rename =>
    access v.scope target name rename = .member ∧ name ≠ "Length" ∧
      EndsSigned (Visit.mk target v.scope v.key).written
  | _ => False

section

variable {v w : Visit} {key : Option GroupKey} {s : Scope}

theorem spaced_itemSegments (kind : Option TypeKind) {e : Expr} (h : e.isSignless = true) :
    Segment.Spaced (itemSegments key kind s e) := by
  cases e with
  | lambda params body =>
    simp only [Expr.isSignless, Bool.and_eq_true, List.all_eq_true, decide_eq_true_eq] at h
    have names := Segment.Spaced.separated_map fun p mem => .name (h.1 p mem)
    exact (names.behind (.of_signless (by decide) (by decide))).join
      (.of_signless (by decide) (by decide)) (.visit _)
  | _ => exact .visit _

theorem spaced_operandSegments (op : BinaryOp) (right : Bool) (v : Visit) :
    Segment.Spaced (v.operandSegments op right) := .enclosed (.visit v)

theorem spaced_listSegments (h : v.Signless) : Segment.Spaced v.listSegments := by
  have expr := h.expr
  obtain ⟨e, s, key⟩ := v
  have literal {x : Value} (hx : x.isSignless = true) :=
    x.not_hasComment_literal { s.style with membership := true } hx h.scope.separator
  cases e with
  | array items => exact .visits _ items
  | constant => exact .word (literal expr)
  | captured => exact .word (literal expr)
  | _ => exact .visit _

theorem spaced_likeSegments (v : Visit) {needle : Expr} {pattern : String → String}
    (h : needle.isSignless = true) (string : (needle.part noKey).string?.isSome)
    (free : ∀ t, Text.Signless t → Text.Signless (pattern t)) :
    Segment.Spaced (v.likeSegments needle pattern) := by
  obtain ⟨t, found⟩ := Option.isSome_iff_exists.1 string
  have pattern_free : Text.Signless (pattern t) := free t (Expr.isSignless_string? h found)
  have word : Firm (" LIKE " ++ quoted (pattern t)) :=
    .of_signless (.append (by decide) (.append (.append (by decide) pattern_free) (by decide))) (by simp)
  rw [likeSegments, found]
  exact (Segment.Spaced.visit v).before word

theorem spaced_containsSegments {receiver item : Visit} (hr : receiver.Signless)
    (hi : item.Signless) (holds : receiver.expr.Holds receiver.scope item.expr) :
    Segment.Spaced (receiver.containsSegments item) := by
  unfold containsSegments
  cases length : (receiver.expr.part noKey).listLength? with
  | some n =>
    exact .behind_visit item (.of_signless (by decide) (by decide))
      ((spaced_listSegments hr).before (.of_signless (by decide) (by decide)))
  | none =>
    simp only
    split
    · next test =>
      exact spaced_likeSegments receiver hi.expr (holds.2 length test) fun t free =>
        (Text.Signless.append (t := "%") (by decide) free).append (by decide)
    · exact .called (by decide) (by simp [Segment.Spaced.visit])

theorem firm_castName {type : CastType} {rest : List Expr}
    (h : (type.text (rest.map (Expr.part noKey))).Accepted) :
    Firm (" AS " ++ type.written rest ++ ")") := by
  have between {t : String} (free : ¬ HasComment t) : Firm (" AS " ++ t ++ ")") := by
    have left : Firm " AS " := .of_signless (by decide) (by decide)
    have right : Firm ")" := .of_signless (by decide) (by decide)
    refine ⟨by simp, ?_, right.not_endsSigned_append _, ?_⟩
    · rw [String.append_assoc]
      exact left.not_startsSigned_append _
    · rwa [right.hasComment_right, left.hasComment_left]
  obtain ⟨t, named⟩ := h
  rw [CastType.written, named]
  refine between ?_
  unfold CastType.text at named
  split at named
  · split at named
    · split at named
      · obtain rfl := Except.ok.inj named
        refine Value.hasComment_list (l := "DECIMAL(") (by decide) (by decide) ?_ (by decide)
          (by decide)
        exact List.forall_mem_cons.2 ⟨not_hasComment_int _,
          List.forall_mem_singleton.2 (not_hasComment_int _)⟩
      · cases named
    · cases named
  · obtain rfl := Except.ok.inj named
    refine Text.Signless.not_hasComment ?_
    cases type <;> decide

theorem spaced_callSegments {method : Method} {target : Option Expr} {args : List Expr}
    (scope : s.Plain) (body : ∀ k, key = some k → k.body.isSignless = true)
    (name : method.isSignless = true)
    (positional : ∀ e ∈ target.toList ++ args, e.isSignless = true)
    (fits : method.Fits s target args) :
    Segment.Spaced (method.segments key s target args) := by
  have here {e : Expr} (he : e.isSignless = true) : Signless ⟨e, s, key⟩ := ⟨scope, he, body⟩
  have visits {f : String} (hf : Text.Signless f) :
      Segment.Spaced (called f ((target.toList ++ args).map fun e => [.visit ⟨e, s, key⟩])) :=
    .called hf (List.forall_mem_map.2 fun e _ => .visit _)
  cases method with
  | other name => exact .none
  | scalar f => exact visits (by cases f <;> decide)
  | udf f external => exact visits (of_decide_eq_true name)
  | aggregate f =>
    simp only [Method.segments]
    cases s.group? target with
    | none => exact .none
    | some i =>
      simp only
      split
      · exact .word (Text.Signless.not_hasComment (t := "COUNT(*)") (by decide))
      · refine .called (by cases f <;> decide) fun gs mem => ?_
        rcases List.mem_append.1 mem with mem | mem
        · obtain ⟨e, -, rfl⟩ := List.mem_map.1 mem
          exact .visit _
        · obtain ⟨b, -, rfl⟩ := List.mem_map.1 mem
          exact .word (Text.Signless.not_hasComment (by cases b <;> decide))
  | contains =>
    obtain ⟨receiver, item, split, holds⟩ := fits
    simp only [split, List.forall_mem_cons] at positional
    simp only [Method.segments, split]
    exact spaced_containsSegments (here positional.1) (here positional.2.1) holds
  | startsWith | endsWith =>
    obtain ⟨receiver, needle, split, string⟩ := fits
    simp only [split, List.forall_mem_cons] at positional
    simp only [Method.segments, split]
    exact spaced_likeSegments _ positional.2.1 string fun t free =>
      Text.Signless.append (by first | exact free | decide) (by first | exact free | decide)
  | between | notBetween =>
    obtain ⟨receiver, low, high, split⟩ := fits
    simp only [Method.segments, split]
    exact (Segment.Spaced.visit _).join (.of_signless (by decide) (by decide))
      ((Segment.Spaced.visit _).join (.of_signless (by decide) (by decide)) (.visit _))
  | higherOrder f =>
    simp only [Method.segments]
    generalize target.toList ++ args = es at positional
    cases es with
    | nil => exact .none
    | cons collection rest =>
      rw [List.forall_mem_cons] at positional
      refine .called (by cases f <;> decide) (List.forall_mem_cons.2 ⟨.visit _, ?_⟩)
      exact List.forall_mem_map.2 fun e mem => spaced_itemSegments _ (positional.2 e mem)
  | cast type =>
    obtain ⟨e, rest, split, accepted⟩ := fits
    simp only [Method.segments, split]
    exact (Segment.Spaced.before (.visit _) (firm_castName accepted)).behind
      (.of_signless (by decide) (by decide))

theorem spaced_accessSegments {target : Expr} {name t : String} {rename : Option String}
    (scope : s.Plain) (htarget : target.isSignless = true) (hname : Text.Signless (rename.getD name))
    (found : access s target name rename = .text t) :
    Segment.Spaced (accessSegments s target name rename t) := by
  have none (w : Visit) : .visit w ∉ accessSegments s target name rename t := by
    unfold accessSegments
    split
    · split <;> simp
    · simp
  have free : ¬ HasComment t := by
    obtain ⟨p, b, rfl, -, text⟩ := text_of_access found
    have parameter : Text.Signless p := of_decide_eq_true htarget
    cases b with
    | source i => exact text ▸ (scope.signless_columnText i hname).not_hasComment
    | grouping => rcases text with rfl | rfl <;> exact Text.Signless.not_hasComment (by decide)
    | item =>
      rw [text, String.append_assoc, hasComment_append]
      simp [parameter.not_hasComment, parameter.not_endsSigned, hname.not_hasComment_arrow]
  refine iff_of_false ?_ fun ⟨w, mem, _⟩ => none w mem
  rw [concat_accessSegments found]
  exact free

theorem hasComment_memberSegments {name : String} {rename : Option String} (scope : v.scope.Plain)
    (hname : Text.Signless (rename.getD name)) :
    HasComment (concat (v.memberSegments name rename)) ↔
      HasComment v.written ∨ (name ≠ "Length" ∧ EndsSigned v.written) := by
  unfold memberSegments
  split
  · next length =>
    have call : Segment.Spaced (called (v.scope.lengthName v.expr) [[.visit v]]) := by
      refine .called ?_ (List.forall_mem_singleton.2 (.visit v))
      unfold Scope.lengthName
      split <;> decide
    rw [Segment.Spaced] at call
    rw [call]
    simp [visit_mem_called, length]
  · next other =>
    have wire := scope.signless_fieldWire v.expr hname
    simp only [concat, Segment.text, String.append_empty]
    split
    · next empty =>
      rw [String.isEmpty_iff] at empty
      simp [empty, EndsSigned, wire.not_hasComment,
        Text.Signless.not_hasComment (t := "") (by decide)]
    · have arrow : StartsSigned ("->" ++ v.scope.fieldWire v.expr name rename) := by
        simp [StartsSigned]
      simp [hasComment_append, arrow, wire.not_hasComment_arrow, other]

theorem not_opensComment_negate {operand : Expr} {t : String}
    (wrap : UnaryOp.negate.needsParens operand t = true) :
    ¬ OpensComment ⟨.unary .negate operand, s, key⟩ := by
  intro opens
  unfold OpensComment at opens
  split at opens
  · next same =>
    cases same
    cases wrap
  · next same => cases same
  · exact opens

theorem opensComment_negate {operand : Expr}
    (bare : UnaryOp.negate.needsParens operand (Visit.mk operand s key).written = false) :
    OpensComment ⟨.unary .negate operand, s, key⟩ ↔
      StartsSigned (Visit.mk operand s key).written := by
  cases operand with
  | binary op left right =>
    by_cases subscript : op = .index
    · subst subscript
      exact Iff.rfl
    · simp [UnaryOp.needsParens, subscript] at bare
  | unary => simp [UnaryOp.needsParens] at bare
  | _ =>
    refine iff_of_false id fun sign => ?_
    have first : _ = some '-' := sign
    simp [UnaryOp.needsParens, first] at bare

theorem spaced_binarySegments (op : BinaryOp) (left right : Expr) :
    Segment.Spaced (segments ⟨.binary op left right, s, key⟩) := by
  have nullText : Firm (op.nullText "") := by
    unfold BinaryOp.nullText
    split <;> exact .of_signless (by decide) (by decide)
  simp only [segments]
  split
  · exact (spaced_operandSegments op false _).before nullText
  · exact (spaced_operandSegments op false _).before nullText
  · split
    · exact (spaced_operandSegments op false _).join (.of_signless (by decide) (by decide))
        (.behind_visit _ (.of_signless (by decide) (by decide)) .none)
    · refine (spaced_operandSegments op false _).join ?_ (spaced_operandSegments op true _)
      have blank : Firm " " := .of_signless (by decide) (by decide)
      refine ⟨by simp, ?_, blank.not_endsSigned_append _, ?_⟩
      · rw [String.append_assoc]
        exact blank.not_startsSigned_append _
      · rw [blank.hasComment_right, blank.hasComment_left]
        -- Of all operators only the difference is written with a minus sign.
        by_cases difference : op = .sub
        · exact difference ▸ not_hasComment_sign
        · exact Text.Signless.not_hasComment (by cases op <;> first | decide | contradiction)

/-- The text has a comment if one opens right here, and else only if it has one inside. -/
theorem hasComment_segments (h : v.Signless) (fits : v.Fits) :
    HasComment (concat v.segments) ↔
      v.OpensComment ∨ ∃ w, .visit w ∈ v.segments ∧ HasComment w.written := by
  -- Only a minus sign and the arrow of a member stand right next to the text of a part.
  have spaced (closed : ¬ v.OpensComment) (h : Segment.Spaced v.segments) :
      HasComment (concat v.segments) ↔
        v.OpensComment ∨ ∃ w, .visit w ∈ v.segments ∧ HasComment w.written := by
    rw [Segment.Spaced] at h
    simp [closed, h]
  have expr := h.expr
  have scope := h.scope
  obtain ⟨e, s, key⟩ := v
  have literal {x : Value} (hx : x.isSignless = true) :=
    x.not_hasComment_literal s.style hx scope.separator
  cases e with
  | constant x => exact spaced id (.word (literal expr))
  | captured name x => exact spaced id (.word (literal expr))
  | lambda => exact fits.elim
  | parameter p =>
    refine spaced id ?_
    simp only [segments]
    split
    · exact .name (of_decide_eq_true expr)
    · exact .none
  | member target name rename =>
    simp only [Expr.isSignless, Bool.and_eq_true, decide_eq_true_eq] at expr
    simp only [Fits] at fits
    cases found : access s target name rename with
    | text t =>
      refine spaced (by simp [OpensComment, found]) ?_
      simp only [segments, found]
      exact spaced_accessSegments scope expr.1 expr.2 found
    | key use =>
      refine spaced (by simp [OpensComment, found]) ?_
      simp only [segments, found]
      exact .visits id _
    | fault u => simp [found] at fits
    | member =>
      simp only [segments, found, OpensComment, true_and]
      rw [hasComment_memberSegments (v := ⟨target, s, key⟩) scope expr.2, or_comm]
      refine or_congr_right ?_
      unfold memberSegments
      split <;> simp [visit_mem_called]
  | binary op left right => exact spaced id (spaced_binarySegments op left right)
  | unary op operand =>
    have signed : Segment.Spaced [.word "-"] := .word not_hasComment_sign
    cases op with
    | not => exact spaced id (.behind (.of_signless (by decide) (by decide)) (.enclosed (.visit _)))
    | negate =>
      cases wrap : UnaryOp.negate.needsParens operand (Visit.mk operand s key).written with
      | true =>
        refine spaced (not_opensComment_negate wrap) ?_
        simp only [segments, wrap]
        exact signed.join (.of_signless (by decide) (by decide))
          (.behind_visit _ (.of_signless (by decide) (by decide)) .none)
      | false =>
        rw [opensComment_negate wrap]
        simp only [segments, wrap, enclosed, concat, Segment.text]
        simp [hasComment_append, not_hasComment_sign, EndsSigned, Segment.concat_visit, or_comm]
  | call target method args =>
    refine spaced id ?_
    simp only [Expr.isSignless, Bool.and_eq_true] at expr
    exact spaced_callSegments scope h.key expr.1.2
      (fun e mem => Expr.isSignless_children h.expr mem) fits
  | new typeName members =>
    refine spaced id (.called (by decide) (List.forall_mem_map.2 fun m mem => ?_))
    have name := (Expr.areMembersSignless_iff.1 expr m mem).1
    exact .behind (.of_signless (name.append (by decide)) (by simp)) (.visit _)
  | array items =>
    refine spaced id ?_
    simp only [segments]
    split
    · exact .word (Text.Signless.not_hasComment (t := emptyArray none) (by decide))
    · exact .between (.of_signless (by decide) (by decide)) (.visits _ items)
        (.of_signless (by decide) (by decide))
  | map entries =>
    refine spaced id (.called (by decide) (List.forall_mem_map.2 fun e mem => ?_))
    exact .behind_visit _ (.of_signless (by decide) (by decide)) (.visit _)

theorem hasComment_written (h : v.Signless) (accepted : v.Accepted) :
    HasComment v.written ↔
      v.OpensComment ∨ ∃ w, .visit w ∈ v.segments ∧ HasComment w.written := by
  rw [written_eq v accepted]
  exact hasComment_segments h ((accepted_iff v).1 accepted).1

theorem not_opensComment_of_isWrittenOut (h : v.IsWrittenOut) : ¬ v.OpensComment := by
  obtain ⟨e, s, key⟩ := v
  cases e with
  | constant | captured | array => exact id
  | _ => exact h.elim

theorem hasComment_of_next (h : v.Signless) (accepted : v.Accepted) (step : w ∈ v.next)
    (inside : HasComment w.written) : HasComment v.written := by
  obtain ⟨fits, next⟩ := (accepted_iff v).1 accepted
  refine (hasComment_written h accepted).2 (.inr ?_)
  rcases segment_of_next fits step with segment | ⟨out, items⟩
  · exact ⟨w, segment, inside⟩
  · rcases (hasComment_written (h.next step) (next w step)).1 inside with opens | ⟨u, segment, inside⟩
    · exact absurd opens (not_opensComment_of_isWrittenOut out)
    · exact ⟨u, items u (out.next_of_segment segment), inside⟩

/-- Where no name and no text has a minus sign, an expression is written with a comment exactly if it
reaches a negated subscript that starts with a minus sign itself, or a member whose target ends with
one. -/
theorem hasComment_iff {t : String} (h : v.Signless) (ok : v.text = .ok t) :
    HasComment t ↔ ∃ w, v.Reaches w ∧ w.OpensComment := by
  have accepted : v.Accepted := ⟨t, ok⟩
  rw [← written_of_text ok]
  clear ok
  constructor
  · induction v using enters_wf.induction with
    | _ v ih =>
      intro comment
      rcases (hasComment_written h accepted).1 comment with opens | ⟨u, segment, inside⟩
      · exact ⟨v, .refl, opens⟩
      · have enters := Enters.of_segment segment
        have reaches : v.Reaches u := enters.to_reflTransGen
        obtain ⟨w, further, opens⟩ :=
          ih u enters (h.reaches reaches) (accepted.of_reaches reaches) inside
        exact ⟨w, reaches.trans further, opens⟩
  · rintro ⟨w, reaches, opens⟩
    induction reaches using Relation.ReflTransGen.head_induction_on with
    | refl => exact (hasComment_written h accepted).2 (.inl opens)
    | head step _ ih =>
      have inside := ih (h.next step) (((accepted_iff _).1 accepted).2 _ step)
      exact hasComment_of_next h accepted step inside

end

def negatedSubscript : Visit :=
  ⟨.unary .negate
      (.binary .index (.unary .negate (.member (.parameter "l") "X" none)) (.constant (.int 0))),
    ⟨[⟨"Locations", none, none⟩], [("l", .source 0)], [], false, '.'⟩, none⟩

theorem text_negatedSubscript : negatedSubscript.text = .ok "--X[0]" := by rfl

theorem signless_negatedSubscript : negatedSubscript.Signless := by
  refine ⟨⟨fun i name c found => ?_, fun i a found => ?_, nofun, rfl⟩, by decide, nofun⟩
  · match i with
    | 0 => cases found
    | _ + 1 => cases found
  · match i with
    | 0 => cases found
    | _ + 1 => cases found

theorem hasComment_negatedSubscript : HasComment "--X[0]" := ⟨[], "X[0]".toList, by decide⟩

theorem opensComment_negatedSubscript : ∃ w, negatedSubscript.Reaches w ∧ w.OpensComment :=
  (hasComment_iff signless_negatedSubscript text_negatedSubscript).1 hasComment_negatedSubscript

theorem not_hasComment_free : ¬ ∀ (v : Visit) (t : String), v.Signless → v.text = .ok t →
    ¬ HasComment t :=
  fun free => free _ _ signless_negatedSubscript text_negatedSubscript hasComment_negatedSubscript

end Visit
end StreamSql
