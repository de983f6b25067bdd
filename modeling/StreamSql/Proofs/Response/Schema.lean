import StreamSql.Proofs.Schema.TypeText

/-!
Headers as one text: the columns are read back from what was written exactly where the brackets in the
names of the columns leave it in one piece. The names stand in marks, but it is cut into columns before
the marks are looked at.
-/

namespace StreamSql.Header

variable {c : String × String} {cs : List (String × String)} {bs name rest : List Char}

def columnText (c : String × String) : String := "\x60" ++ c.1 ++ "\x60 " ++ c.2

def schemaText (cs : List (String × String)) : String := Text.join ", " (cs.map columnText)

structure IsWritten (c : String × String) : Prop where
  nameMark_not_mem : nameMark ∉ c.1.toList
  isTypeText : IsTypeText c.2

theorem toList_columnText (c : String × String) :
    (columnText c).toList = nameMark :: (c.1.toList ++ nameMark :: ' ' :: c.2.toList) := by
  simp [columnText, nameMark]

theorem toList_schemaText_cons_cons (c d : String × String) (cs : List (String × String)) :
    (schemaText (c :: d :: cs)).toList =
      (columnText c).toList ++ ',' :: ' ' :: (schemaText (d :: cs)).toList := by
  simp [schemaText, Text.join_cons_cons]

theorem exists_schemaText_cons (c : String × String) (cs : List (String × String)) :
    ∃ rest, (schemaText (c :: cs)).toList = nameMark :: rest := by
  cases cs with
  | nil => exact ⟨_, toList_columnText c⟩
  | cons d ds => exact ⟨_, by rw [toList_schemaText_cons_cons, toList_columnText]; rfl⟩

theorem column_named (blank : ∀ c ∈ bs, Text.isBlank c = true) (free : nameMark ∉ name) :
    column (bs ++ nameMark :: (name ++ nameMark :: rest)) =
      .ok (.ofList name, .ofList (Text.trim (Text.trimEnd rest))) := by
  have trimmed : Text.trim (bs ++ nameMark :: (name ++ nameMark :: rest)) =
      nameMark :: (name ++ nameMark :: Text.trimEnd rest) := by
    rw [Text.trim_append_cons blank (by decide), Text.trimEnd_append_cons (by decide)]
  simp only [column, trimmed, Text.afterFirst?, if_true, Text.cutAt?_append free]

theorem column_unterminated (blank : ∀ c ∈ bs, Text.isBlank c = true) (free : nameMark ∉ name) :
    ∃ e, column (bs ++ nameMark :: name) = .error e := by
  have none : Text.cutAt? nameMark (Text.trimEnd name) = none :=
    Text.cutAt?_eq_none fun mem => free (Text.mem_of_mem_trimEnd mem)
  have trimmed : Text.trim (bs ++ nameMark :: name) = nameMark :: Text.trimEnd name :=
    Text.trim_append_cons blank (by decide)
  simp only [column, trimmed, Text.afterFirst?, if_true, none]
  exact ⟨_, rfl⟩

theorem column_columnText (blank : ∀ c ∈ bs, Text.isBlank c = true) (h : IsWritten c) :
    column (bs ++ (columnText c).toList) = .ok c := by
  have type : Text.trim (Text.trimEnd (' ' :: c.2.toList)) = c.2.toList :=
    h.isTypeText.isTrimmed.trim_trimEnd_blank (by decide)
  rw [toList_columnText, column_named blank h.nameMark_not_mem, type]
  simp

theorem depthBehind_columnText (h : IsWritten c) :
    depthBehind 0 (columnText c).toList = depthBehind 0 c.1.toList := by
  rw [toList_columnText, depthBehind_cons, depthBehind_append, depthBehind_cons, depthBehind_cons]
  exact h.isTypeText.inert.depthBehind_eq _ (Nat.zero_le _)

theorem commasInside_columnText (h : IsWritten c) :
    CommasInside 0 (columnText c).toList ↔ CommasInside 0 c.1.toList := by
  have type := h.isTypeText.inert.commasInside (depthBehind 0 c.1.toList) (Nat.zero_le _)
  have mark : nameMark ≠ ',' := by decide
  rw [toList_columnText]
  constructor
  · rintro ⟨-, inside⟩
    exact (commasInside_append.1 inside).1
  · intro inside
    have space : ' ' ≠ ',' := by decide
    exact ⟨fun hc => absurd hc mark,
      commasInside_append.2 ⟨inside, fun hc => absurd hc mark, fun hc => absurd hc space, type⟩⟩

theorem columns_cons_eq_ok {text : List Char} {texts : List (List Char)} :
    columns (text :: texts) = .ok (c :: cs) ↔ column text = .ok c ∧ columns texts = .ok cs := by
  rw [columns]
  cases column text with
  | error e => simp [bind, Except.bind]
  | ok d => cases columns texts <;> simp [bind, Except.bind]

theorem columns_cons_error {text : List Char} {texts : List (List Char)} {e : HeaderFault}
    (h : column text = .error e) : columns (text :: texts) = .error e := by
  simp only [columns, h]
  rfl

theorem columns_parts_of_comma {lead : List Char} (blank : ∀ c ∈ lead, Text.isBlank c = true)
    (h : IsWritten c) (outside : ¬ CommasInside 0 c.1.toList) (rest : List Char) :
    ∃ e, columns (parts 0 lead ((columnText c).toList ++ rest)) = .error e := by
  obtain ⟨xs, ys, eq, inside, out⟩ := exists_comma outside
  have free : nameMark ∉ xs := fun mem => h.nameMark_not_mem (by simp [eq, mem])
  have front : CommasInside 0 (nameMark :: xs) := ⟨by decide, inside⟩
  have text : (columnText c).toList ++ rest =
      nameMark :: xs ++ ',' :: (ys ++ nameMark :: ' ' :: c.2.toList ++ rest) := by
    simp [toList_columnText, eq]
  have blank : ∀ c ∈ lead.reverse, Text.isBlank c = true := by simpa using blank
  obtain ⟨e, he⟩ := column_unterminated blank free
  refine ⟨e, ?_⟩
  rw [text, parts_append front, depthBehind_cons, show depthAfter 0 nameMark = 0 from rfl, out,
    parts_comma]
  exact columns_cons_error (by simpa using he)

theorem parts_columnText {lead : List Char} (h : IsWritten c)
    (inside : CommasInside 0 c.1.toList) (rest : List Char) :
    parts 0 lead ((columnText c).toList ++ rest) =
      parts (depthBehind 0 c.1.toList) ((columnText c).toList.reverse ++ lead) rest := by
  rw [parts_append ((commasInside_columnText h).2 inside), depthBehind_columnText h]

theorem columns_parts_of_open {lead : List Char} (blank : ∀ c ∈ lead, Text.isBlank c = true)
    (h : IsWritten c) (inside : CommasInside 0 c.1.toList) (deep : depthBehind 0 c.1.toList ≠ 0)
    (rest : List Char) (ds : List (String × String)) :
    columns (parts 0 lead ((columnText c).toList ++ ([',', ' ', nameMark] ++ rest))) ≠
      .ok (c :: ds) := by
  have space : ' ' ≠ ',' := by decide
  have mark : nameMark ≠ ',' := by decide
  have next : CommasInside (depthBehind 0 c.1.toList) [',', ' ', nameMark] :=
    ⟨fun _ => deep, fun hc => absurd hc space, fun hc => absurd hc mark, trivial⟩
  have begun : ([',', ' ', nameMark].reverse ++ ((columnText c).toList.reverse ++ lead)).all
      Text.isBlank = false := rfl
  rw [parts_columnText h inside, parts_append next]
  generalize depthBehind (depthBehind 0 c.1.toList) [',', ' ', nameMark] = depth
  obtain ⟨more, ps, cut⟩ := exists_parts_cons depth rest begun
  have first : ([',', ' ', nameMark].reverse ++ ((columnText c).toList.reverse ++ lead)).reverse ++
      more = lead.reverse ++ nameMark :: (c.1.toList ++ nameMark ::
        (' ' :: c.2.toList ++ ',' :: ' ' :: nameMark :: more)) := by
    simp [toList_columnText]
  rw [cut, first]
  intro all
  have type := (columns_cons_eq_ok.1 all).1
  rw [column_named (by simpa using blank) h.nameMark_not_mem] at type
  have type := congrArg String.toList (congrArg Prod.snd (Except.ok.inj type))
  have mem : nameMark ∈ c.2.toList := by
    rw [← type, String.toList_ofList]
    exact Text.mem_trim (Text.mem_trimEnd (by simp) (by decide)) (by decide)
  exact h.isTypeText.inert.nameMark_not_mem mem

theorem columns_parts_iff {lead : List Char} (blank : ∀ c ∈ lead, Text.isBlank c = true)
    (h : ∀ d ∈ c :: cs, IsWritten d) :
    columns (parts 0 lead (schemaText (c :: cs)).toList) = .ok (c :: cs) ↔
      (∀ d ∈ c :: cs, CommasInside 0 d.1.toList) ∧
        ∀ d ∈ (c :: cs).dropLast, depthBehind 0 d.1.toList = 0 := by
  induction cs generalizing c lead with
  | nil =>
    have hc := h c (by simp)
    have text : (schemaText [c]).toList = (columnText c).toList ++ [] := by
      simp [schemaText, Text.join]
    rw [text]
    by_cases inside : CommasInside 0 c.1.toList
    · have last : ((columnText c).toList.reverse ++ lead).all Text.isBlank = false := by
        simp [toList_columnText, show Text.isBlank nameMark = false by decide]
      rw [parts_columnText hc inside, parts, last, if_neg (by decide), columns_cons_eq_ok]
      simp [column_columnText (show ∀ c ∈ lead.reverse, _ by simpa using blank) hc, inside, columns]
    · obtain ⟨e, he⟩ := columns_parts_of_comma blank hc inside []
      rw [he]
      simp [inside]
  | cons d ds ih =>
    have hc := h c (by simp)
    have hds : ∀ e ∈ d :: ds, IsWritten e := fun e he => h e (List.mem_cons_of_mem _ he)
    have rest := ih (show ∀ c ∈ [' '], Text.isBlank c = true by simp [Text.isBlank]) hds
    rw [toList_schemaText_cons_cons]
    by_cases inside : CommasInside 0 c.1.toList
    · by_cases deep : depthBehind 0 c.1.toList = 0
      · have next : parts 0 [] (' ' :: (schemaText (d :: ds)).toList) =
            parts 0 [' '] (schemaText (d :: ds)).toList := by
          rw [parts, if_neg (by decide)]
          rfl
        rw [parts_columnText hc inside, deep, parts_comma, columns_cons_eq_ok, next, rest]
        simp [column_columnText (show ∀ c ∈ lead.reverse, _ by simpa using blank) hc, inside, deep]
      · obtain ⟨more, text⟩ := exists_schemaText_cons d ds
        -- The next column goes into the type of this one.
        have never := columns_parts_of_open blank hc inside deep more (d :: ds)
        rw [text]
        exact iff_of_false never fun all => deep (all.2 c (by simp))
    · obtain ⟨e, he⟩ := columns_parts_of_comma blank hc inside
        (',' :: ' ' :: (schemaText (d :: ds)).toList)
      rw [he]
      simp [inside]

theorem ofSchema_eq_ok_iff (queryId : Option String) (schema : String) (ne : cs ≠ []) :
    ofSchema queryId schema = .ok ⟨queryId, cs.map (·.1), cs.map (·.2)⟩ ↔
      columns (parts 0 [] schema.toList) = .ok cs := by
  rw [ofSchema]
  cases columns (parts 0 [] schema.toList) with
  | error e => simp [bind, Except.bind]
  | ok ds =>
    constructor
    · intro same
      cases ds with
      | nil => cases same
      | cons d ds =>
        obtain ⟨names, types⟩ : (d :: ds).map (·.1) = cs.map (·.1) ∧
            (d :: ds).map (·.2) = cs.map (·.2) := by
          simpa using Except.ok.inj same
        rw [List.zip_of_prod names types, ← List.zip_of_prod rfl rfl]
    · intro same
      obtain rfl := Except.ok.inj same
      simp [bind, Except.bind, ne]

theorem ofSchema_schemaText (queryId : Option String) (ne : cs ≠ [])
    (names : ∀ c ∈ cs, IsPlainName c.1) (types : ∀ c ∈ cs, IsTypeText c.2) :
    ofSchema queryId (schemaText cs) = .ok ⟨queryId, cs.map (·.1), cs.map (·.2)⟩ := by
  have inert {c : String × String} (hc : c ∈ cs) : Inert 0 c.1.toList := (names c hc).inert 0
  rw [ofSchema_eq_ok_iff queryId _ ne]
  obtain ⟨c, cs, rfl⟩ := List.exists_cons_of_ne_nil ne
  refine (columns_parts_iff (by simp) fun d hd => ⟨(inert hd).nameMark_not_mem, types d hd⟩).2
    ⟨fun d hd => (inert hd).commasInside 0 (Nat.le_refl 0), fun d hd => ?_⟩
  exact (inert (List.dropLast_subset _ hd)).depthBehind_eq 0 (Nat.le_refl 0)

inductive IsScalarType : String → Prop
  | word {w : String} : w ≠ "" → (∀ c ∈ w.toList, c.isAlphanum = true) → IsScalarType w
  | sized {w : String} {sizes : List Nat} : w ≠ "" → (∀ c ∈ w.toList, c.isAlphanum = true) →
    IsScalarType (w ++ "(" ++ Text.join ", " (sizes.map toString) ++ ")")

theorem IsScalarType.isTypeText {t : String} (h : IsScalarType t) : IsTypeText t := by
  have head {w : String} (ne : w ≠ "") (letters : ∀ c ∈ w.toList, c.isAlphanum = true)
      (rest : List Char) : ∀ c ∈ (w.toList ++ rest).head?, Text.isBlank c = false := by
    obtain ⟨d, ds, hw⟩ := List.exists_cons_of_ne_nil (show w.toList ≠ [] by simpa using ne)
    rw [hw] at letters ⊢
    intro c hc
    obtain rfl : d = c := by simpa using hc
    exact Text.not_isBlank_of_isAlphanum (letters d (by simp))
  cases h with
  | word ne letters =>
    refine ⟨inert_word letters, by simpa using head ne letters [], fun c hc => ?_⟩
    exact Text.not_isBlank_of_isAlphanum (letters c (List.mem_of_getLast? hc))
  | @sized w sizes ne letters =>
    have inner : Inert 1 (Text.join ", " (sizes.map toString)).toList :=
      .join [',', ' '] inert_separator fun t ht => by
        obtain ⟨n, -, rfl⟩ := List.mem_map.1 ht
        exact inert_toString 1 n
    have whole := (inert_word letters).append (.brackets (l := '(') (r := ')') rfl rfl inner)
    refine ⟨by simpa using whole, ?_, ?_⟩
    · simpa using head ne letters ('(' :: ((Text.join ", " (sizes.map toString)).toList ++ [')']))
    · simp [List.getLast?_cons, Text.isBlank]

/-- Columns of scalar types are read back as they were written if and only if every comma in a name
is in brackets of that name, and all names but the last close theirs. -/
theorem ofSchema_schemaText_iff (queryId : Option String) {cs : List (String × String)}
    (ne : cs ≠ []) (names : ∀ c ∈ cs, nameMark ∉ c.1.toList)
    (types : ∀ c ∈ cs, IsScalarType c.2) :
    ofSchema queryId (schemaText cs) = .ok ⟨queryId, cs.map (·.1), cs.map (·.2)⟩ ↔
      (∀ c ∈ cs, CommasInside 0 c.1.toList) ∧
        ∀ c ∈ cs.dropLast, depthBehind 0 c.1.toList = 0 := by
  rw [ofSchema_eq_ok_iff queryId _ ne]
  obtain ⟨c, cs, rfl⟩ := List.exists_cons_of_ne_nil ne
  exact columns_parts_iff (by simp) fun d hd => ⟨names d hd, (types d hd).isTypeText⟩

private theorem isScalarType_integer : IsScalarType "INTEGER" :=
  .word (by decide) (List.all_eq_true.1 (by decide))

private theorem isScalarType_decimal : IsScalarType "DECIMAL(10, 2)" :=
  show IsScalarType ("DECIMAL" ++ "(" ++ Text.join ", " ([10, 2].map toString) ++ ")") from
    .sized (by decide) (List.all_eq_true.1 (by decide))

theorem ofSchema_schemaText_brackets :
    (∀ c ∈ [("A(,)", "INTEGER"), ("B<", "DECIMAL(10, 2)")], nameMark ∉ c.1.toList) ∧
      (∀ c ∈ [("A(,)", "INTEGER"), ("B<", "DECIMAL(10, 2)")], IsScalarType c.2) ∧
      ofSchema none (schemaText [("A(,)", "INTEGER"), ("B<", "DECIMAL(10, 2)")]) =
        .ok ⟨none, ["A(,)", "B<"], ["INTEGER", "DECIMAL(10, 2)"]⟩ := by
  have names : ∀ c ∈ [("A(,)", "INTEGER"), ("B<", "DECIMAL(10, 2)")], nameMark ∉ c.1.toList := by
    decide
  have types : ∀ c ∈ [("A(,)", "INTEGER"), ("B<", "DECIMAL(10, 2)")], IsScalarType c.2 := by
    simp [isScalarType_integer, isScalarType_decimal]
  refine ⟨names, types, (ofSchema_schemaText_iff none (by simp) names types).2 ?_⟩
  simp [CommasInside, depthBehind, depthAfter, opens, closes]

theorem not_ofSchema_schemaText :
    (∀ c ∈ [("A,B", "INTEGER")], c.1 ≠ "" ∧ nameMark ∉ c.1.toList ∧ IsScalarType c.2) ∧
      ofSchema none (schemaText [("A,B", "INTEGER")]) ≠ .ok ⟨none, ["A,B"], ["INTEGER"]⟩ ∧
      ofSchema none (schemaText [("A<", "INTEGER"), ("B", "INTEGER")]) =
        .ok ⟨none, ["A<"], ["INTEGER, \x60B\x60 INTEGER"]⟩ := by
  refine ⟨?_, ?_, ?_⟩
  · simp [isScalarType_integer, nameMark]
  · have fault : ofSchema none (schemaText [("A,B", "INTEGER")]) =
        .error (.unterminatedName "\x60A") := by rfl
    simp [fault]
  · rfl

end StreamSql.Header
