import StreamSql.Proofs.Expr.Descent
import StreamSql.Proofs.Text.Template
import StreamSql.Proofs.Value.Plain

namespace StreamSql

open Segment (concat separated enclosed called)

namespace Segment

theorem concat_eq_empty {gs : List Segment} : concat gs = "" ↔ ∀ g ∈ gs, g.text = "" := by
  induction gs with
  | nil => simp [concat]
  | cons g gs ih => simp [concat, ih]

theorem concat_ne_empty {gs : List Segment} {t : String} (mem : .word t ∈ gs) (ne : t ≠ "") :
    concat gs ≠ "" :=
  fun empty => ne (concat_eq_empty.1 empty _ mem)

theorem concat_separated_visits {vs : List Visit} :
    concat (separated (vs.map fun v => [.visit v])) = "" ↔
      vs.length ≤ 1 ∧ ∀ v ∈ vs, v.written = "" := by
  match vs with
  | [] => simp [separated, joined, concat]
  | [v] => simp [separated, joined, concat, text]
  | v :: w :: vs =>
    refine iff_of_false (concat_ne_empty (t := ", ") ?_ (by decide)) (by simp)
    simp [separated, joined_cons_cons]

end Segment

theorem withSeparator_ne_empty {c : Char} {t : String} (ne : t ≠ "") : withSeparator c t ≠ "" := by
  intro empty
  have chars := congrArg String.toList empty
  simp only [withSeparator, Text.replaceChar, String.toList_ofList, String.toList_empty,
    List.map_eq_nil_iff] at chars
  exact ne (String.toList_eq_nil_iff.1 chars)

theorem signedText_ne_empty {negative : Bool} {cs : List Char} (ne : cs ≠ []) :
    signedText negative cs ≠ "" := by
  simp [signedText, ne]

theorem Value.literal_ne_empty (v : Value) {s : LiteralStyle} (h : s.membership = false) :
    v.literal s ≠ "" := by
  cases v with
  | bool b =>
    simp only [literal, LiteralStyle.boolText]
    cases s.lowerBools <;> cases b <;> decide
  | int n =>
    rw [literal, toString_eq_signedText]
    exact signedText_ne_empty Nat.toDigits_ne_nil
  | float x =>
    obtain ⟨cs, numeral, text⟩ := x.text_eq_signedText
    rw [literal, text]
    exact withSeparator_ne_empty (signedText_ne_empty numeral.ne)
  | decimal d =>
    obtain ⟨cs, numeral, text⟩ := d.text_eq_signedText
    rw [literal, text]
    exact withSeparator_ne_empty (signedText_ne_empty numeral.ne)
  | array items =>
    simp only [literal, h, Bool.false_eq_true, if_false]
    split
    · decide
    · simp
  | _ => simp [literal, quoted, bytesLiteral]

namespace Visit

/-- What is written as nothing: a row by itself, what comes down to nothing but one, and what is
nothing but an empty name. -/
inductive Blank : Visit → Prop
  | row {p : String} {s : Scope} {key : Option GroupKey} {i : Nat}
    (found : s.lookup? p = some (.source i)) : Blank ⟨.parameter p, s, key⟩
  | item {s : Scope} {key : Option GroupKey} (found : s.lookup? "" = some .item) :
    Blank ⟨.parameter "", s, key⟩
  | column {target : Expr} {name : String} {rename : Option String} {s : Scope}
    {key : Option GroupKey} (found : access s target name rename = .text "") :
    Blank ⟨.member target name rename, s, key⟩
  | key {target : Expr} {name : String} {rename : Option String} {s : Scope}
    {key : Option GroupKey} {use : KeyUse} (found : access s target name rename = .key use)
    (one : (ofKey key use s).length ≤ 1) (parts : ∀ w ∈ ofKey key use s, Blank w) :
    Blank ⟨.member target name rename, s, key⟩
  | field {target : Expr} {name : String} {rename : Option String} {s : Scope}
    {key : Option GroupKey} (found : access s target name rename = .member) (ne : name ≠ "Length")
    (wire : s.fieldWire target name rename = "") (blank : Blank ⟨target, s, key⟩) :
    Blank ⟨.member target name rename, s, key⟩

section

variable {v w : Visit} {key : Option GroupKey} {s : Scope}

section

variable {target : Expr} {name t : String} {rename : Option String}

theorem blank_item_iff {p : String} (found : s.lookup? p = some .item) :
    Blank ⟨.parameter p, s, key⟩ ↔ p = "" := by
  constructor
  · intro blank
    cases blank with
    | row source => cases found.symm.trans source
    | item => rfl
  · rintro rfl
    exact .item found

theorem blank_column_iff (found : access s target name rename = .text t) :
    Blank ⟨.member target name rename, s, key⟩ ↔ t = "" := by
  constructor
  · intro blank
    cases blank with
    | column empty => exact Access.text.inj (found.symm.trans empty)
    | key other => cases found.symm.trans other
    | field other => cases found.symm.trans other
  · rintro rfl
    exact .column found

theorem blank_key_iff {use : KeyUse} (found : access s target name rename = .key use) :
    Blank ⟨.member target name rename, s, key⟩ ↔
      (ofKey key use s).length ≤ 1 ∧ ∀ w ∈ ofKey key use s, Blank w := by
  constructor
  · intro blank
    cases blank with
    | column other => cases found.symm.trans other
    | key same one parts =>
      obtain rfl := Access.key.inj (found.symm.trans same)
      exact ⟨one, parts⟩
    | field other => cases found.symm.trans other
  · rintro ⟨one, parts⟩
    exact .key found one parts

theorem blank_field_iff (found : access s target name rename = .member) :
    Blank ⟨.member target name rename, s, key⟩ ↔
      name ≠ "Length" ∧ s.fieldWire target name rename = "" ∧ Blank ⟨target, s, key⟩ := by
  constructor
  · intro blank
    cases blank with
    | column other => cases found.symm.trans other
    | key other => cases found.symm.trans other
    | field _ ne wire blank => exact ⟨ne, wire, blank⟩
  · rintro ⟨ne, wire, blank⟩
    exact .field found ne wire blank

end

theorem concat_memberSegments_eq_empty {name : String} {rename : Option String} :
    concat (v.memberSegments name rename) = "" ↔
      name ≠ "Length" ∧ v.scope.fieldWire v.expr name rename = "" ∧ v.written = "" := by
  unfold memberSegments
  split
  · next length =>
    have bracket : .word ")" ∈ called (v.scope.lengthName v.expr) [[.visit v]] := by simp [called]
    exact iff_of_false (Segment.concat_ne_empty bracket (by decide)) fun h => h.1 length
  · next other =>
    by_cases empty : v.written = "" <;> simp [concat, Segment.text, empty, other]

theorem concat_eq_empty_of_word {t : String} (h : .word t ∈ v.segments) (ne : t ≠ "")
    (other : ∀ target name rename, v.expr ≠ .member target name rename)
    (other' : ∀ p, v.expr ≠ .parameter p) : concat v.segments = "" ↔ v.Blank := by
  refine iff_of_false (Segment.concat_ne_empty h ne) fun blank => ?_
  cases blank with
  | row => exact other' _ rfl
  | item => exact other' _ rfl
  | _ => exact other _ _ _ rfl

theorem exists_word_binary (op : BinaryOp) (left right : Expr) :
    ∃ t, .word t ∈ segments ⟨.binary op left right, s, key⟩ ∧ t ≠ "" := by
  have null : op.nullText "" ≠ "" := by
    unfold BinaryOp.nullText
    split <;> decide
  simp only [segments]
  split
  · exact ⟨_, by simp, null⟩
  · exact ⟨_, by simp, null⟩
  · split
    · exact ⟨"[", by simp, by decide⟩
    · exact ⟨" " ++ op.text ++ " ", by simp, by simp⟩

theorem exists_word_array (items : List Expr) :
    ∃ t, .word t ∈ segments ⟨.array items, s, key⟩ ∧ t ≠ "" := by
  simp only [segments]
  split
  · exact ⟨_, List.mem_cons_self, by decide⟩
  · exact ⟨"ARRAY[", List.mem_cons_self, by decide⟩

theorem exists_word_call {method : Method} {target : Option Expr} {args : List Expr}
    (fits : method.Fits s target args) :
    ∃ t, .word t ∈ method.segments key s target args ∧ t ≠ "" := by
  have bracket (f : String) (parts : List (List Segment)) :
      ∃ t, .word t ∈ called f parts ∧ t ≠ "" := ⟨")", by simp [called], by decide⟩
  have like (v : Visit) (needle : Expr) (pattern : String → String) :
      ∃ t, .word t ∈ v.likeSegments needle pattern ∧ t ≠ "" :=
    ⟨_, by simp only [likeSegments]; exact List.mem_cons_of_mem _ List.mem_cons_self, by simp⟩
  cases method with
  | other name => exact fits.elim
  | scalar f => exact bracket _ _
  | udf => exact bracket _ _
  | aggregate f =>
    obtain ⟨i, group⟩ := Option.isSome_iff_exists.1 fits.1
    simp only [Method.segments, group]
    split
    · exact ⟨"COUNT(*)", List.mem_cons_self, by decide⟩
    · exact bracket _ _
  | contains =>
    obtain ⟨receiver, item, split, -⟩ := fits
    simp only [Method.segments, split, containsSegments]
    split
    · exact ⟨")", by simp, by decide⟩
    · split
      · exact like _ _ _
      · exact bracket _ _
  | startsWith | endsWith =>
    obtain ⟨receiver, needle, split, -⟩ := fits
    simp only [Method.segments, split]
    exact like _ _ _
  | between | notBetween =>
    obtain ⟨receiver, low, high, split⟩ := fits
    simp only [Method.segments, split]
    exact ⟨" AND ", by simp [betweenSegments], by decide⟩
  | higherOrder f =>
    obtain ⟨collection, rest, split, -⟩ := fits
    simp only [Method.segments, split]
    exact bracket _ _
  | cast type =>
    obtain ⟨e, rest, split, -⟩ := fits
    simp only [Method.segments, split]
    exact ⟨"CAST(", List.mem_cons_self, by decide⟩

theorem written_eq_empty_iff (accepted : v.Accepted) : v.written = "" ↔ v.Blank := by
  induction v using enters_wf.induction with
  | _ v ih =>
    obtain ⟨fits, next⟩ := (accepted_iff v).1 accepted
    have step {w : Visit} (mem : w ∈ v.next) : w.written = "" ↔ w.Blank :=
      ih w (.single mem) (next w mem)
    rw [written_eq v accepted]
    obtain ⟨e, s, key⟩ := v
    cases e with
    | constant x =>
      exact concat_eq_empty_of_word List.mem_cons_self (x.literal_ne_empty rfl) (by simp) (by simp)
    | captured name x =>
      exact concat_eq_empty_of_word List.mem_cons_self (x.literal_ne_empty rfl) (by simp) (by simp)
    | lambda => exact fits.elim
    | parameter p =>
      simp only [segments]
      rcases fits with found | ⟨i, found⟩
      · simp only [found, if_true, concat, Segment.text, String.append_empty]
        exact (blank_item_iff found).symm
      · simp only [found, reduceCtorEq, if_false, concat, true_iff, Option.some.injEq]
        exact .row found
    | member target name rename =>
      simp only [segments]
      cases found : access s target name rename with
      | text t => rw [concat_accessSegments found, blank_column_iff found]
      | key use =>
        rw [Segment.concat_separated_visits, blank_key_iff found]
        exact and_congr_right fun _ => forall₂_congr fun w mem =>
          step (by simpa [Visit.next, found] using mem)
      | fault u => simp [Fits, found] at fits
      | member =>
        have below := step (w := ⟨target, s, key⟩) (by simp [Visit.next, found])
        rw [concat_memberSegments_eq_empty, below, blank_field_iff found]
    | binary op left right =>
      obtain ⟨t, mem, ne⟩ := exists_word_binary op left right
      exact concat_eq_empty_of_word mem ne (by simp) (by simp)
    | unary op operand =>
      exact concat_eq_empty_of_word List.mem_cons_self (by cases op <;> decide) (by simp) (by simp)
    | call target method args =>
      obtain ⟨t, mem, ne⟩ := exists_word_call fits
      exact concat_eq_empty_of_word mem ne (by simp) (by simp)
    | new typeName members =>
      exact concat_eq_empty_of_word (t := ")") (by simp [segments, called]) (by decide) (by simp) (by simp)
    | array items =>
      obtain ⟨t, mem, ne⟩ := exists_word_array items
      exact concat_eq_empty_of_word mem ne (by simp) (by simp)
    | map entries =>
      exact concat_eq_empty_of_word (t := ")") (by simp [segments, called]) (by decide) (by simp) (by simp)

end
end Visit
end StreamSql
