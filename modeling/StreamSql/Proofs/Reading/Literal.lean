import StreamSql.Proofs.Reading.Reads
import StreamSql.Proofs.Value.Numeral

namespace StreamSql

open Reading

def IsSeparator (c : Char) : Prop := CharClass.of c = .letter ∨ c = ','

inductive Value.IsScalar (separator : Char) : Value → Prop
  | null : IsScalar separator .null
  | bool {b : Bool} : IsScalar separator (.bool b)
  | int {n : Int64} : IsScalar separator (.int n)
  | float {x : Double} : IsSeparator separator → IsScalar separator (.float x)
  | decimal {d : Decimal} : IsSeparator separator → IsScalar separator (.decimal d)
  | string {t : String} : '\x27' ∉ t.toList → IsScalar separator (.string t)
  | enum {t : String} : '\x27' ∉ t.toList → IsScalar separator (.enum t)
  | bytes {bs : List UInt8} : IsScalar separator (.bytes bs)
  | date {d : Date} : IsScalar separator (.date d)
  | time {t : ClockTime} : IsScalar separator (.time t)
  | timestamp {t : Timestamp} : IsScalar separator (.timestamp t)

namespace Reading

variable {separator : Char} {cs : List Char}

theorem not_point_of_isDigit {c : Char} (h : c.isDigit = true) : c ≠ '.' := by
  rintro rfl
  simp at h

theorem map_separator_of_digits (h : ∀ c ∈ cs, c.isDigit = true) :
    cs.map (fun c => if c = '.' then separator else c) = cs := by
  rw [List.map_congr_left fun c hc => if_neg (not_point_of_isDigit (h c hc)), List.map_id']

theorem lexes_numeral (hs : IsSeparator separator) (h : IsNumeral cs) :
    ∃ d ds, d.isDigit = true ∧ Lexes (cs.map fun c => if c = '.' then separator else c)
      [.word (d :: ds)] ∧ (cs.map fun c => if c = '.' then separator else c) = d :: ds := by
  cases h with
  | whole ne digits =>
    obtain ⟨d, ds, rfl⟩ := List.exists_cons_of_ne_nil ne
    rw [map_separator_of_digits digits]
    exact ⟨d, ds, digits d (by simp), .word ne fun c hc => letter_of_isDigit (digits c hc), rfl⟩
  | @fraction ds es left right digits =>
    have text : (ds ++ '.' :: es).map (fun c => if c = '.' then separator else c) =
        ds ++ separator :: es := by
      simp only [List.map_append, List.map_cons, if_true]
      rw [map_separator_of_digits fun c hc => digits c (by simp [hc]),
        map_separator_of_digits fun c hc => digits c (by simp [hc])]
    rw [text]
    obtain ⟨d, ds, rfl⟩ := List.exists_cons_of_ne_nil left
    refine ⟨d, ds ++ separator :: es, digits d (by simp), ?_, rfl⟩
    rcases hs with letter | rfl
    · refine .word (by simp) fun c hc => ?_
      simp only [List.cons_append, List.mem_cons, List.mem_append] at hc
      rcases hc with rfl | hc | rfl | hc
      · exact letter_of_isDigit (digits _ (by simp))
      · exact letter_of_isDigit (digits _ (by simp [hc]))
      · exact letter
      · exact letter_of_isDigit (digits _ (by simp [hc]))
    · exact .fraction digits left right

theorem withSeparator_signedText (negative : Bool) (cs : List Char) :
    withSeparator separator (signedText negative cs) = (if negative then "-" else "") ++
      .ofList (cs.map fun c => if c = '.' then separator else c) := by
  cases negative <;> simp [withSeparator, Text.replaceChar, signedText]

def constantWords : List String := ["NULL", "True", "False", "true", "false"]

def isConstantWord (cs : List Char) : Bool :=
  cs.head?.any Char.isDigit || constantWords.any fun t => cs = t.toList

theorem isKeyword_of_isConstantWord {k : String} (letter : k.toList.head?.all (!·.isDigit) = true)
    (other : constantWords.all (fun t => !isKeyword k t.toList) = true)
    (h : isConstantWord cs = true) : isKeyword k cs = false := by
  rw [isConstantWord, Bool.or_eq_true] at h
  rcases h with digit | named
  · cases cs with
    | nil => cases digit
    | cons c cs => exact isKeyword_of_isDigit letter digit cs
  · obtain ⟨t, mem, same⟩ := List.any_eq_true.1 named
    rw [of_decide_eq_true same]
    simpa using List.all_eq_true.1 other t mem

inductive ScalarTokens : List Token → Prop
  | word {cs : List Char} : isConstantWord cs = true → ScalarTokens [.word cs]
  | minus {cs : List Char} : isConstantWord cs = true → ScalarTokens [.sign ['-'], .word cs]
  | text {cs : List Char} : ScalarTokens [.text cs]
  | bytes {cs : List Char} : ScalarTokens (.word "TO_BYTES".toList :: .sign ['('] ::
    ([.text cs] ++ .sign [','] :: ([.text "hex".toList] ++ [.sign [')']])))

theorem lexes_sign (negative : Bool) {d : Char} {ds : List Char} (digit : d.isDigit = true)
    (lexes : Lexes (d :: ds) [.word (d :: ds)]) :
    ∃ ts, Lexes (signedText negative (d :: ds)).toList ts ∧ ScalarTokens ts := by
  have constant : isConstantWord (d :: ds) = true := by simp [isConstantWord, digit]
  cases negative with
  | false => exact ⟨_, by simpa [signedText] using lexes, .word constant⟩
  | true =>
    have head : ∀ c ∈ (d :: ds).head?, CharClass.of c ≠ .operator := by
      simp [letter_of_isDigit digit]
    exact ⟨_, by simpa [signedText] using lexes.minus (by simp) head, .minus constant⟩

theorem lexes_signedText (hs : IsSeparator separator) (negative : Bool) (h : IsNumeral cs) :
    ∃ ts, Lexes (withSeparator separator (signedText negative cs)).toList ts ∧ ScalarTokens ts := by
  obtain ⟨d, ds, digit, lexes, text⟩ := lexes_numeral hs h
  rw [withSeparator_signedText, text]
  exact lexes_sign negative digit (text ▸ lexes)

theorem lexes_int (n : Int) : ∃ ts, Lexes (toString n).toList ts ∧ ScalarTokens ts := by
  have digits {c : Char} (hc : c ∈ Nat.toDigits 10 n.natAbs) : c.isDigit = true :=
    isDigit_of_mem_toDigits hc
  rw [toString_eq_signedText]
  obtain ⟨d, ds, h⟩ := List.exists_cons_of_ne_nil (Nat.toDigits_ne_nil (n := n.natAbs) (b := 10))
  rw [h] at digits ⊢
  exact lexes_sign _ (digits List.mem_cons_self)
    (.word (by simp) fun c hc => letter_of_isDigit (digits hc))

theorem not_quote_of_isDigit {c : Char} (h : c.isDigit = true) : c ≠ '\x27' := by
  rintro rfl
  simp at h

theorem padNat_free (width n : Nat) : '\x27' ∉ (Text.padNat width n).toList := fun h =>
  not_quote_of_isDigit (Text.isDigit_of_mem_padNat h) rfl

theorem date_free (d : Date) : '\x27' ∉ d.text.toList := by
  have year : '\x27' ∉ (yearText d.year).toList := by
    unfold yearText
    split
    · exact padNat_free _ _
    · split <;> simp [padNat_free]
  simp [Date.text, year, padNat_free]

theorem hms_free (t : ClockTime) : '\x27' ∉ t.hms.toList := by
  simp [ClockTime.hms, padNat_free]

theorem textMillis_free (t : Timestamp) : '\x27' ∉ t.textMillis.toList := by
  simp [Timestamp.textMillis, date_free, hms_free, padNat_free]

theorem hex_free (bs : List UInt8) : '\x27' ∉ bs.flatMap hexPair := by simp [hexPair]

theorem lexes_bytes (bs : List UInt8) :
    ∃ ts, Lexes (bytesLiteral bs).toList ts ∧ ScalarTokens ts := by
  have hex : Lexes ('\x27' :: ("hex".toList ++ '\x27' :: [')']))
      [.text "hex".toList, .sign [')']] :=
    .text_append (by decide) (.bracket rfl .nil)
  have word : ∀ c ∈ "TO_BYTES".toList, CharClass.of c = .letter :=
    CharClass.forall_of_all (by decide)
  have lexes := Lexes.append (.word (by decide) word) (.bracket (c := '(') rfl
    (.text_append (hex_free bs) (.comma (.blank hex)))) (by simp) (.cons (.inr rfl))
    (a := "TO_BYTES".toList)
  exact ⟨_, by simpa [bytesLiteral] using lexes, .bytes⟩

theorem lexes_constantWord {t : String} (constant : isConstantWord t.toList = true)
    (ne : t ≠ "") (letters : t.toList.all (fun c => CharClass.of c = .letter) = true) :
    ∃ ts, Lexes t.toList ts ∧ ScalarTokens ts :=
  ⟨_, .word (by simpa using ne) (CharClass.forall_of_all letters), .word constant⟩

theorem ScalarTokens.reads {ts : List Token} (h : ScalarTokens ts) :
    ∃ x, ReadsTokens (signLevel .negate) ts x x.closed := by
  have word {cs : List Char} (constant : isConstantWord cs = true) :
      ReadsTokens closedLevel [.word cs] (.leaf (.word cs)) (Term.leaf (.word cs)).closed := by
    refine .leaf ?_
    have other {k : String} (letter : k.toList.head?.all (!·.isDigit) = true)
        (free : constantWords.all (fun t => !isKeyword k t.toList) = true) :=
      isKeyword_of_isConstantWord letter free constant
    rw [isLeaf, isReserved, other (by decide) (by decide), other (by decide) (by decide),
      other (by decide) (by decide)]
    rfl
  cases h with
  | word constant => exact ⟨_, (word constant).mono (by decide)⟩
  | minus constant => exact ⟨_, (word constant).unary rfl (by decide)⟩
  | text => exact ⟨_, (ReadsTokens.leaf rfl).mono (by decide)⟩
  | bytes => exact ⟨_, (ReadsTokens.call (by decide) (.leaf rfl) (.leaf rfl)).mono (by decide)⟩

end Reading

theorem Value.IsScalar.lexes {v : Value} {s : LiteralStyle} (h : v.IsScalar s.separator) :
    ∃ ts, Lexes (v.literal s).toList ts ∧ ScalarTokens ts := by
  have text {t : String} (free : '\x27' ∉ t.toList) :
      ∃ ts, Lexes (quoted t).toList ts ∧ ScalarTokens ts :=
    ⟨_, by simpa [quoted] using Lexes.text free, .text⟩
  cases h with
  | null => exact lexes_constantWord (t := "NULL") (by decide) (by decide) (by decide)
  | @bool b =>
    simp only [literal, LiteralStyle.boolText]
    split <;> cases b <;> exact lexes_constantWord (by decide) (by decide) (by decide)
  | @int n => exact lexes_int n.toInt
  | @float x hs =>
    obtain ⟨cs, numeral, text⟩ := x.text_eq_signedText
    simp only [literal, text]
    exact lexes_signedText hs x.negative numeral
  | @decimal d hs =>
    obtain ⟨cs, numeral, text⟩ := d.text_eq_signedText
    simp only [literal, text]
    exact lexes_signedText hs d.negative numeral
  | string free => exact text free
  | enum free => exact text free
  | bytes => exact lexes_bytes _
  | date => exact text (date_free _)
  | time => exact text (hms_free _)
  | timestamp => exact text (textMillis_free _)

theorem Value.IsScalar.reads {v : Value} {s : LiteralStyle} (h : v.IsScalar s.separator) :
    ∃ x, Reads (signLevel .negate) (v.literal s) x x.closed := by
  obtain ⟨ts, lexes, scalar⟩ := h.lexes
  obtain ⟨x, reads⟩ := scalar.reads
  exact ⟨x, ts, lexes, reads⟩

end StreamSql
