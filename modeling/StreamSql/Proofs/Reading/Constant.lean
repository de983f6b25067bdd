import StreamSql.Proofs.Reading.Literal
import StreamSql.Proofs.Reading.Meaning

namespace StreamSql

open Reading Formula

/-- A constant whose text has no quote, whose fields have names, and whose numbers have a separator
that is none of the signs of a statement. -/
inductive Value.IsReadable (separator : Char) : Value → Prop
  | scalar {v : Value} : v.IsScalar separator → IsReadable separator v
  | array {vs : List Value} : (∀ v ∈ vs, IsReadable separator v) → IsReadable separator (.array vs)
  | map {es : List (Value × Value)} : (∀ e ∈ es, IsReadable separator e.1) →
    (∀ e ∈ es, IsReadable separator e.2) → IsReadable separator (.map es)
  | struct {fs : List (String × Value)} :
    (∀ f ∈ fs, f.1 ≠ "" ∧ ∀ c ∈ f.1.toList, CharClass.of c = .letter) →
    (∀ f ∈ fs, IsReadable separator f.2) → IsReadable separator (.struct fs)

namespace Reading.Formula

inductive IsLiteral : List Token → Prop
  | single {t : Token} : isAtom t = true → IsLiteral [t]
  | minus {t : Token} : isAtom t = true → IsLiteral [.sign ['-'], t]
  | enclosed {cs : List Char} {o c : Token} {ts : List Token} : isAtom (.word cs) = true →
    isOpening o = true → isOpening c = false → isClosing c = true → Passes ts →
    IsLiteral (.word cs :: o :: (ts ++ [c]))

def ofTokens : List Token → Formula
  | .sign ['-'] :: ts => .unary .negate (.atom ts)
  | ts => .atom ts

variable {ts : List Token} {t : Token}

theorem ofTokens_of_isAtom (h : isAtom t = true) (ts : List Token) :
    ofTokens (t :: ts) = .atom (t :: ts) := by
  cases t with
  | sign => cases h
  | _ => rfl

theorem IsLiteral.reads (h : IsLiteral ts) : ReadsAlone (signLevel .negate) ts (ofTokens ts) := by
  cases h with
  | single free =>
    rw [ofTokens_of_isAtom free]
    exact (ReadsAlone.atom free).mono (by decide)
  | minus free => exact (ReadsAlone.atom free).unary rfl (by decide)
  | enclosed free opening other closing passes =>
    rw [ofTokens_of_isAtom free]
    exact (ReadsAlone.enclosed rfl free opening other closing passes).mono (by decide)

theorem Passes.atom (h : isAtom t = true) : Passes [t] := by
  cases t with
  | sign => cases h
  | _ => exact .single rfl rfl

theorem IsLiteral.passes (h : IsLiteral ts) : Passes ts := by
  cases h with
  | single free => exact .atom free
  | minus free => exact .cons rfl rfl (.atom free)
  | enclosed free opening other closing passes =>
    exact (Passes.atom free).append (passes.enclosed opening other closing)

theorem isAtom_of_isConstantWord {cs : List Char} (h : isConstantWord cs = true) :
    isAtom (.word cs) = true := by
  have apart : ∀ k ∈ keywords, k.toList.head?.all (!·.isDigit) = true ∧
      constantWords.all (fun t => !isKeyword k t.toList) = true := by decide
  refine List.all_eq_true.2 fun k mem => ?_
  simp [isKeyword_of_isConstantWord (apart k mem).1 (apart k mem).2 h]

theorem isLiteral_of_scalarTokens (h : ScalarTokens ts) : IsLiteral ts := by
  cases h with
  | word constant => exact .single (isAtom_of_isConstantWord constant)
  | minus constant => exact .minus (isAtom_of_isConstantWord constant)
  | text => exact .single rfl
  | @bytes cs =>
    have passes : Passes [.text cs, .sign [','], .text "hex".toList] :=
      .cons rfl rfl (.cons rfl rfl (.single rfl rfl))
    exact .enclosed (o := .sign ['(']) (c := .sign [')']) (by decide) rfl rfl rfl passes

def PassesText (t : String) : Prop := ∃ ts, Lexes t.toList ts ∧ Passes ts

theorem PassesText.join {texts : List String} (h : ∀ t ∈ texts, PassesText t) :
    PassesText (Text.join ", " texts) := by
  refine Text.join_induction ⟨[], .nil, .nil⟩ ?_ h
  rintro t u ⟨ts, lexes, passes⟩ ⟨us, lexes', passes'⟩
  refine ⟨_, ?_, passes.append (.cons (t := .sign [',']) rfl rfl passes')⟩
  simpa using lexes.item lexes'

theorem PassesText.entry {k v : String} (hk : PassesText k) (hv : PassesText v) :
    PassesText (k ++ " := " ++ v) := by
  obtain ⟨ts, lexesK, passesK⟩ := hk
  obtain ⟨us, lexesV, passesV⟩ := hv
  have assign : Lexes [':', '='] [.word [':'], .sign ['=']] := fun rest hrest => by
    have sign := lex_sign_end ['='] rest hrest.not_operator
    have colon : CharClass.of ':' = .letter := by decide
    have equals : CharClass.of '=' = .operator := by decide
    simp [lex, Pending.step, Pending.start, colon, equals, sign, Function.comp_def]
  refine ⟨ts ++ .word [':'] :: .sign ['='] :: us, ?_,
    passesK.append (.cons rfl rfl (.cons rfl rfl passesV))⟩
  simpa using lexesK.spaced (assign.spaced lexesV)

theorem lexes_enclosed {w t : String} {o c : Char} (ne : w ≠ "")
    (letters : w.toList.all (fun c => CharClass.of c = .letter) = true)
    (free : isAtom (.word w.toList) = true) (brackets : [o, c] = ['(', ')'] ∨ [o, c] = ['[', ']'])
    (h : PassesText t) :
    ∃ ts, Lexes (w.toList ++ o :: (t.toList ++ [c])) ts ∧ IsLiteral ts := by
  obtain ⟨ts, lexes, passes⟩ := h
  have word : Lexes w.toList [.word w.toList] :=
    .word (by simpa using ne) (CharClass.forall_of_all letters)
  obtain ⟨classO, classC, opening, other, closing⟩ : CharClass.of o = .bracket ∧
      CharClass.of c = .bracket ∧ isOpening (.sign [o]) = true ∧ isOpening (.sign [c]) = false ∧
      isClosing (.sign [c]) = true := by
    rcases brackets with same | same <;> cases same <;> decide
  have inner := lexes.append (.bracket classC .nil) (by simp) (.cons (.inr classC))
  exact ⟨_, word.append (.bracket classO inner) (by simp) (.cons (.inr classO)),
    .enclosed free opening other closing passes⟩

theorem lexes_array {t : String} (h : PassesText t) :
    ∃ ts, Lexes ("ARRAY[" ++ t ++ "]").toList ts ∧ IsLiteral ts := by
  simpa using lexes_enclosed (w := "ARRAY") (o := '[') (c := ']') (by decide) (by decide) (by decide)
    (.inr rfl) h

theorem lexes_emptyArray : ∃ ts, Lexes (emptyArray none).toList ts ∧ IsLiteral ts := by
  have zero : PassesText "0" := ⟨_, .word (by decide) (CharClass.forall_of_all (by decide)),
    .single rfl rfl⟩
  obtain ⟨ts, lexes, literal⟩ := lexes_array zero
  have items : PassesText (Text.join ", " ["ARRAY[" ++ "0" ++ "]", "0"]) := by
    refine .join fun t mem => ?_
    obtain rfl | mem := List.mem_cons.1 mem
    · exact ⟨ts, lexes, literal.passes⟩
    · exact List.mem_singleton.1 mem ▸ zero
  have enclosed := lexes_enclosed (w := "ARRAY_REMOVE") (o := '(') (c := ')') (by decide) (by decide)
    (by decide) (.inl rfl) items
  have text : (emptyArray none).toList = "ARRAY_REMOVE".toList ++
      '(' :: ((Text.join ", " ["ARRAY[" ++ "0" ++ "]", "0"]).toList ++ [')']) := by decide
  rwa [text]

end Reading.Formula

def Value.formula (s : LiteralStyle) (v : Value) : Formula :=
  ofTokens ((tokens (v.literal s)).getD [])

variable {s : LiteralStyle} {v : Value}

theorem Value.IsReadable.lexes (h : v.IsReadable s.separator) (plain : s.membership = false) :
    ∃ ts, Lexes (v.literal s).toList ts ∧ IsLiteral ts := by
  have nested : s.nested = s := by
    cases s
    cases plain
    rfl
  have passes {v : Value} (h : ∃ ts, Lexes (v.literal s).toList ts ∧ IsLiteral ts) :
      PassesText (v.literal s) := by
    obtain ⟨ts, lexes, literal⟩ := h
    exact ⟨ts, lexes, literal.passes⟩
  induction h with
  | scalar h =>
    obtain ⟨ts, lexes, scalar⟩ := h.lexes
    exact ⟨ts, lexes, isLiteral_of_scalarTokens scalar⟩
  | @array vs _ ih =>
    have items : PassesText (Text.join ", " (literals s vs)) := by
      refine .join fun t mem => ?_
      rw [literals_eq_map] at mem
      obtain ⟨v, item, rfl⟩ := List.mem_map.1 mem
      exact passes (ih v item)
    have enclosed := lexes_array items
    simp only [literal, plain, nested, Bool.false_eq_true, if_false]
    split
    · exact lexes_emptyArray
    · simpa using enclosed
  | @map es _ _ ihk ihv =>
    have entries : PassesText (Text.join ", " (entryLiterals s es)) := by
      refine .join fun t mem => ?_
      rw [entryLiterals_eq_map] at mem
      obtain ⟨e, entry, rfl⟩ := List.mem_map.1 mem
      exact (passes (ihk e entry)).entry (passes (ihv e entry))
    have enclosed := lexes_enclosed (w := "MAP") (o := '(') (c := ')') (by decide) (by decide)
      (by decide) (.inl rfl) entries
    simpa [literal, nested] using enclosed
  | @struct fs names _ ih =>
    have fields : PassesText (Text.join ", " (fieldLiterals s fs)) := by
      refine .join fun t mem => ?_
      rw [fieldLiterals_eq_map] at mem
      obtain ⟨f, field, rfl⟩ := List.mem_map.1 mem
      obtain ⟨ne, letters⟩ := names f field
      have name : PassesText f.1 := ⟨_, .word (by simpa using ne) letters, .single rfl rfl⟩
      exact name.entry (passes (ih f field))
    have enclosed := lexes_enclosed (w := "STRUCT") (o := '(') (c := ')') (by decide) (by decide)
      (by decide) (.inl rfl) fields
    simpa [literal, nested] using enclosed

theorem Value.IsReadable.exists_reads (h : v.IsReadable s.separator) (plain : s.membership = false) :
    ∃ ts, Lexes (v.literal s).toList ts ∧ ReadsAlone (signLevel .negate) ts (v.formula s) := by
  obtain ⟨ts, lexes, literal⟩ := h.lexes plain
  refine ⟨ts, lexes, ?_⟩
  rw [Value.formula, lexes.tokens]
  exact literal.reads

theorem Value.IsReadable.reads (h : v.IsReadable s.separator) (plain : s.membership = false) :
    Formula.Reads (signLevel .negate) (v.literal s) (v.formula s) := by
  obtain ⟨ts, lexes, reads⟩ := h.exists_reads plain
  exact ⟨ts, _, lexes, reads, .refl _⟩

theorem readsList_literals {vs : List Value} (ne : vs ≠ [])
    (h : ∀ v ∈ vs, v.IsReadable s.separator) (plain : s.membership = false) :
    ReadsList (Text.join ", " (vs.map (Value.literal s))) (vs.map (Value.formula s)) := by
  induction vs with
  | nil => exact absurd rfl ne
  | cons v vs ih =>
    obtain ⟨ts, lexes, reads⟩ := (h v (by simp)).exists_reads plain
    cases vs with
    | nil => exact ⟨ts, lexes, .one reads⟩
    | cons w ws =>
      obtain ⟨us, lexes', items⟩ := ih (by simp) fun u mem => h u (by simp [mem])
      refine ⟨_, ?_, .cons reads items⟩
      simpa [Text.join_cons_cons] using lexes.item lexes'

end StreamSql
