import StreamSql.Proofs.Expr.Condition

/-!
Operands side by side. Where an operand is a chain of signs, subscripts and comparisons, and stands
without parentheses, the reader does not see where it begins and ends: a sign goes to the first operand
of all that follows, and comparisons are taken from left to right. A chain is all that a reader knows of
such a text.
-/

namespace StreamSql.Reading

/-- `NOT`s, perhaps a minus sign, an operand, and what it is compared with in turn. -/
structure Chain where
  nots : Nat
  minus : Bool
  first : Term
  rest : List (BinaryOp × Term)

def Term.negated (x : Term) : Nat → Term
  | 0 => x
  | n + 1 => .unary .not (x.negated n)

def Term.compared (x : Term) (ds : List (BinaryOp × Term)) : Term :=
  ds.foldl (fun y d => .binary d.1 y d.2) x

namespace Chain

def head (c : Chain) : Term := if c.minus then .unary .negate c.first else c.first

def term (c : Chain) : Term := (c.head.compared c.rest).negated c.nots

def single (x : Term) : Chain := ⟨0, false, x, []⟩

def encloseIf (c : Chain) (wrap : Bool) : Chain := if wrap then single c.term else c

def not (c : Chain) : Chain := { c with nots := c.nots + 1 }

def negate? (c : Chain) : Option Chain :=
  if c.nots = 0 ∧ c.minus = false then some { c with minus := true } else none

def index (c : Chain) (i : Term) : Chain := { c with first := .binary .index c.first i }

def compare? (op : BinaryOp) (c d : Chain) : Option Chain :=
  if d.nots = 0 then some { c with rest := c.rest ++ (op, d.head) :: d.rest } else none

section

variable {c d e : Chain} {op : BinaryOp}

theorem negate?_eq_some_iff :
    c.negate? = some d ↔ (c.nots = 0 ∧ c.minus = false) ∧ { c with minus := true } = d := by
  simp [negate?]

theorem negate?_eq_none_iff : c.negate? = none ↔ (c.nots = 0 → c.minus = true) := by
  simp [negate?]

theorem compare?_eq_some_iff : c.compare? op d = some e ↔
    d.nots = 0 ∧ { c with rest := c.rest ++ (op, d.head) :: d.rest } = e := by
  simp [compare?]

theorem compare?_eq_none_iff : c.compare? op d = none ↔ d.nots ≠ 0 := by
  simp [compare?]

end

end Chain

/-- Wherever the tokens stand, reading stops at them or goes on behind an operand. -/
def Arrives (ts : List Token) : Prop :=
  ∀ st rest, operand st (ts ++ rest) = none ∨
    ∃ x st', operand st (ts ++ rest) = operator x st' rest

def Fails (ts : List Token) : Prop := ∀ st rest, operand st (ts ++ rest) = none

variable {ts us : List Token} {t : Token} {u : UnaryOp} {op : BinaryOp}

theorem operand_sign (ht : signOf? t = some u) (st : List Frame) (ts : List Token) :
    operand st (t :: ts) = if tightness st ≤ signLevel u then operand (.sign u :: st) ts else none := by
  simp [operand, ht]

theorem operator_operator (ht : Follow.of t = .operator op) (x : Term) (st : List Frame)
    (ts : List Token) : operator x st (t :: ts) =
      operand (.left (reduce (level op) x st).1 op :: (reduce (level op) x st).2) ts := by
  simp [operator, ht]

theorem operator_bracket {c : Char} (hc : c = ')' ∨ c = ']') (x : Term) (st : List Frame)
    (rest : List Token) :
    operator x st (.sign [c] :: rest) = none ∨
      ∃ y st', operator x st (.sign [c] :: rest) = operator y st' rest := by
  have close : Follow.of (.sign [')']) = .close := rfl
  have closeSubscript : Follow.of (.sign [']']) = .closeSubscript := rfl
  rcases hc with rfl | rfl
  all_goals
    simp only [operator, close, closeSubscript]
    split
  all_goals first
    | exact .inr ⟨_, _, rfl⟩
    | exact .inl rfl

namespace Arrives

theorem leaf (ht : isLeaf t = true) : Arrives [t] := by
  intro st rest
  have sign : signOf? t = none := by cases t <;> grind [isLeaf, isReserved, signOf?]
  have paren : t ≠ .sign ['('] := by
    rintro rfl
    simp [isLeaf] at ht
  exact .inr ⟨.leaf t, st, by simp [operand, sign, paren, ht]⟩

theorem signed (ht : signOf? t = some u) (h : Arrives ts) : Arrives (t :: ts) := by
  intro st rest
  rw [List.cons_append, operand_sign ht]
  split
  · exact h _ rest
  · exact .inl rfl

theorem of_fails (h : Fails ts) : Arrives ts := fun st rest => .inl (h st rest)

theorem parenthesized (h : Arrives ts) : Arrives (.sign ['('] :: (ts ++ [.sign [')']])) := by
  intro st rest
  simp only [List.cons_append, List.append_assoc, List.nil_append]
  change operand (.group :: st) (ts ++ .sign [')'] :: rest) = none ∨
    ∃ x st', operand (.group :: st) (ts ++ .sign [')'] :: rest) = operator x st' rest
  rcases h (.group :: st) (.sign [')'] :: rest) with fails | ⟨x, st', arrives⟩
  · exact .inl fails
  · rw [arrives]
    exact operator_bracket (.inl rfl) x st' rest

theorem index (hb : Arrives ts) (hi : Arrives us) :
    Arrives (ts ++ .sign ['['] :: (us ++ [.sign [']']])) := by
  intro st rest
  simp only [List.cons_append, List.append_assoc, List.nil_append]
  rcases hb st (.sign ['['] :: (us ++ .sign [']'] :: rest)) with fails | ⟨x, st', arrives⟩
  · exact .inl fails
  · rw [arrives]
    change operand _ (us ++ .sign [']'] :: rest) = none ∨
      ∃ y st'', operand _ (us ++ .sign [']'] :: rest) = operator y st'' rest
    rcases hi _ (.sign [']'] :: rest) with fails | ⟨y, st'', arrives⟩
    · exact .inl fails
    · rw [arrives]
      exact operator_bracket (.inr rfl) y st'' rest

theorem binary (ht : Follow.of t = .operator op) (hl : Arrives ts) (hr : Arrives us) :
    Arrives (ts ++ t :: us) := by
  intro st rest
  simp only [List.cons_append, List.append_assoc]
  rcases hl st (t :: (us ++ rest)) with fails | ⟨x, st', arrives⟩
  · exact .inl fails
  · rw [arrives, operator_operator ht]
    exact hr _ rest

end Arrives

namespace Fails

theorem append (h : Fails ts) (us : List Token) : Fails (ts ++ us) := by
  intro st rest
  rw [List.append_assoc]
  exact h st _

theorem signed (ht : signOf? t = some u) (h : Fails ts) : Fails (t :: ts) := by
  intro st rest
  rw [List.cons_append, operand_sign ht, h, ite_self]

theorem parenthesized (h : Fails ts) : Fails (.sign ['('] :: (ts ++ [.sign [')']])) := by
  intro st rest
  simp only [List.cons_append, List.append_assoc, List.nil_append]
  exact h (.group :: st) _

theorem subscript (hb : Arrives ts) (hi : Fails us) (vs : List Token) :
    Fails (ts ++ .sign ['['] :: (us ++ vs)) := by
  intro st rest
  simp only [List.cons_append, List.append_assoc]
  rcases hb st (.sign ['['] :: (us ++ (vs ++ rest))) with fails | ⟨x, st', arrives⟩
  · exact fails
  · rw [arrives]
    exact hi _ _

theorem binary (ht : Follow.of t = .operator op) (hl : Arrives ts) (hr : Fails us) :
    Fails (ts ++ t :: us) := by
  intro st rest
  simp only [List.cons_append, List.append_assoc]
  rcases hl st (t :: (us ++ rest)) with fails | ⟨x, st', arrives⟩
  · exact fails
  · rw [arrives, operator_operator ht]
    exact hr _ rest

theorem sign_behind {t' : Token} (ht : Follow.of t = .operator op) (ht' : signOf? t' = some u)
    (tight : signLevel u < level op) (hl : Arrives ts) (us : List Token) :
    Fails (ts ++ t :: t' :: us) := by
  intro st rest
  simp only [List.cons_append, List.append_assoc]
  rcases hl st (t :: t' :: (us ++ rest)) with fails | ⟨x, st', arrives⟩
  · exact fails
  · rw [arrives, operator_operator ht, operand_sign ht', if_neg]
    exact Nat.not_le.2 tight

theorem sign_sign {t' : Token} {u' : UnaryOp} (ht : signOf? t = some u) (ht' : signOf? t' = some u')
    (tight : signLevel u' < signLevel u) (us : List Token) : Fails (t :: t' :: us) := by
  intro st rest
  simp only [List.cons_append]
  rw [operand_sign ht]
  split
  · rw [operand_sign ht', if_neg]
    exact Nat.not_le.2 tight
  · rfl

theorem minuses {w : List Char} (ne : w ≠ []) (us : List Token) : Fails (.sign ('-' :: w) :: us) := by
  intro st rest
  obtain ⟨c, cs, rfl⟩ := List.exists_cons_of_ne_nil ne
  rfl

end Fails

theorem ReadsTokens.index {n : Nat} {x y : Term} {f g : Term → BinaryOp → Term}
    (hb : ReadsTokens (level .index) ts x f) (hi : ReadsTokens n us y g) :
    ReadsTokens (level .index) (ts ++ .sign ['['] :: (us ++ [.sign [']']])) (.binary .index x y)
      (fun z o => .binary .index (f z o) y) where
  alone st rest hst hrest := by
    have opened : Resumes (level .index) (.sign ['['] :: (us ++ .sign [']'] :: rest)) := Nat.le_refl _
    have closed : Resumes n (.sign [']'] :: rest) := trivial
    have follow : Follow.of (.sign ['[']) = .openSubscript := rfl
    simp only [List.cons_append, List.append_assoc, List.nil_append]
    rw [hb.alone _ _ hst opened]
    simp only [operator, follow, hst.reduce_eq]
    rw [hi.alone (.subscript x :: st) _ trivial closed]
    rfl
  behind z o st rest ho hst hrest := by
    have opened : Resumes (level .index) (.sign ['['] :: (us ++ .sign [']'] :: rest)) := Nat.le_refl _
    have closed : Resumes n (.sign [']'] :: rest) := trivial
    have follow : Follow.of (.sign ['[']) = .openSubscript := rfl
    simp only [List.cons_append, List.append_assoc, List.nil_append]
    rw [hb.behind _ _ _ _ ho hst opened]
    simp only [operator, follow, hst.reduce_eq]
    rw [hi.alone (.subscript (f z o) :: st) _ trivial closed]
    rfl

inductive Compared : List (BinaryOp × Term) → List Token → Prop
  | nil : Compared [] []
  | cons {op : BinaryOp} {x : Term} {f : Term → BinaryOp → Term} {t : Token} {us ts : List Token}
    {ds : List (BinaryOp × Term)} : op.isComparison = true → Follow.of t = .operator op →
    ReadsTokens (signLevel .negate) us x f → Compared ds ts → Compared ((op, x) :: ds) (t :: (us ++ ts))

theorem Compared.append {ds es : List (BinaryOp × Term)} (hd : Compared ds ts) (he : Compared es us) :
    Compared (ds ++ es) (ts ++ us) := by
  induction hd with
  | nil => exact he
  | cons hop ht hx _ ih =>
    rw [List.cons_append, List.cons_append, List.append_assoc]
    exact .cons hop ht hx ih

theorem level_of_isComparison (h : op.isComparison = true) : level op = level .eq := by
  cases op <;> first | rfl | cases h

theorem Compared.reads {ds : List (BinaryOp × Term)} (h : Compared ds us) {x : Term}
    {f : Term → BinaryOp → Term} (hx : ReadsTokens (level .eq) ts x f) :
    ∃ g, ReadsTokens (level .eq) (ts ++ us) (x.compared ds) g := by
  induction h generalizing ts x f with
  | nil =>
    rw [List.append_nil]
    exact ⟨f, hx⟩
  | @cons op y g t vs ws ds hop ht hy _ ih =>
    have same := level_of_isComparison hop
    have side : ReadsTokens (level op) vs y y.closed := hy.mono (by rw [same]; decide)
    rw [← same] at hx
    have next := hx.binary ht side
    rw [same] at next
    obtain ⟨g', reads⟩ := ih next
    rw [List.append_assoc, List.cons_append] at reads
    exact ⟨g', reads⟩

abbrev notToken : Token := .word "NOT".toList

abbrev minusToken : Token := .sign ['-']

namespace Chain

def minusTokens (c : Chain) : List Token := if c.minus then [minusToken] else []

inductive Spells (c : Chain) : List Token → Prop
  | mk {us vs : List Token} {f : Term → BinaryOp → Term} : ReadsTokens (level .index) us c.first f →
    Compared c.rest vs → Spells c (List.replicate c.nots notToken ++ (c.minusTokens ++ (us ++ vs)))

variable {c d : Chain}

theorem reads_head {f : Term → BinaryOp → Term} (h : ReadsTokens (level .index) ts c.first f) :
    ReadsTokens (signLevel .negate) (c.minusTokens ++ ts) c.head c.head.closed := by
  unfold minusTokens head
  split
  · exact h.unary rfl (by decide)
  · exact h.mono (by decide)

theorem Spells.reads (h : c.Spells ts) : ∃ f, ReadsTokens (signLevel .not) ts c.term f := by
  obtain ⟨first, rest⟩ := h
  obtain ⟨f, compared⟩ := rest.reads ((reads_head first).mono (by decide : level .eq < _))
  rw [List.append_assoc] at compared
  have loose := compared.mono (by decide : signLevel .not < _)
  unfold term
  clear compared first rest
  induction c.nots with
  | zero => exact ⟨_, loose⟩
  | succ n ih =>
    obtain ⟨g, reads⟩ := ih
    exact ⟨_, reads.unary (by decide) (Nat.le_refl _)⟩

theorem Spells.single {n : Nat} {x : Term} {f : Term → BinaryOp → Term} (h : ReadsTokens n ts x f)
    (closed : level .index < n) : (single x).Spells ts := by
  have reads := h.mono closed
  simpa [minusTokens, Chain.single] using Spells.mk (c := Chain.single x) reads .nil

theorem Spells.not (h : c.Spells ts) : c.not.Spells (notToken :: ts) := by
  obtain ⟨first, rest⟩ := h
  exact Spells.mk (c := c.not) first rest

theorem Spells.negate? (h : c.Spells ts) (done : c.negate? = some d) :
    d.Spells (minusToken :: ts) := by
  obtain ⟨bare, rfl⟩ := negate?_eq_some_iff.1 done
  obtain ⟨first, rest⟩ := h
  simpa [minusTokens, bare] using Spells.mk (c := { c with minus := true }) first rest

theorem Spells.index {n : Nat} {y : Term} {g : Term → BinaryOp → Term} (h : c.Spells ts)
    (alone : c.rest = []) (hi : ReadsTokens n us y g) :
    (c.index y).Spells (ts ++ .sign ['['] :: (us ++ [.sign [']']])) := by
  obtain ⟨first, rest⟩ := h
  have none : Compared (c.index y).rest [] := by
    rw [Chain.index, alone]
    exact .nil
  rw [alone] at rest
  cases rest
  have reads := Spells.mk (first.index hi) none
  have nots : (c.index y).nots = c.nots := rfl
  have minus : (c.index y).minusTokens = c.minusTokens := rfl
  simpa [nots, minus] using reads

theorem Spells.compare? {op : BinaryOp} {t : Token} (hop : op.isComparison = true)
    (ht : Follow.of t = .operator op) (hc : c.Spells ts) (hd : d.Spells us) {e : Chain}
    (done : c.compare? op d = some e) : e.Spells (ts ++ t :: us) := by
  obtain ⟨bare, rfl⟩ := compare?_eq_some_iff.1 done
  obtain ⟨first, rest⟩ := hc
  obtain ⟨first', rest'⟩ := hd
  have more := rest.append (.cons hop ht (reads_head first') rest')
  have spells := Spells.mk (c := { c with rest := c.rest ++ (op, d.head) :: d.rest }) first more
  simpa [bare, minusTokens] using spells

end Chain

def lengthen (w : List Char) : List Token → List Token
  | .sign v :: ts => .sign (w ++ v) :: ts
  | ts => ts

theorem lex_sign_append (w v cs : List Char) :
    lex (.sign (w ++ v)) cs = (lex (.sign v) cs).map (lengthen w) := by
  induction cs generalizing v with
  | nil => rfl
  | cons c cs ih =>
    simp only [lex, Pending.step]
    split
    · rw [List.append_assoc, ih, Option.map_map, Option.map_map]
      rfl
    · rw [Option.map_map]
      rfl

theorem exists_sign_of_lex {v cs : List Char} (ne : v ≠ []) (h : lex (.sign v) cs = some ts) :
    ∃ w us, w ≠ [] ∧ ts = .sign w :: us := by
  induction cs generalizing v ts with
  | nil =>
    obtain rfl := Option.some.inj h
    exact ⟨v, [], ne, rfl⟩
  | cons c cs ih =>
    simp only [lex, Pending.step] at h
    split at h
    · obtain ⟨us, found, rfl⟩ := Option.map_eq_some_iff.1 h
      exact ih (by simp) found
    · obtain ⟨us, -, rfl⟩ := Option.map_eq_some_iff.1 h
      exact ⟨v, _, ne, rfl⟩

theorem Lexes.minus_operator {c : Char} {cs : List Char} (hc : CharClass.of c = .operator)
    (h : Lexes (c :: cs) ts) :
    ∃ w us, w ≠ [] ∧ Lexes ('-' :: c :: cs) (.sign ('-' :: w) :: us) := by
  have start (rest : List Char) : lex .none (c :: cs ++ rest) = lex (.sign [c]) (cs ++ rest) := by
    simp [lex, Pending.step, Pending.start, hc]
  have first := h [] Breaks.nil
  rw [start, List.append_nil] at first
  obtain ⟨w, us, ne, tokens⟩ := exists_sign_of_lex (by simp) first
  obtain rfl : ts = .sign w :: us := by simpa using tokens
  refine ⟨w, us, ne, fun rest hr => ?_⟩
  have behind : lex (.sign ['-']) (c :: cs ++ rest) = lex (.sign (['-'] ++ [c])) (cs ++ rest) := by
    simp [lex, Pending.step, hc]
  change (lex (.sign ['-']) (c :: cs ++ rest)).map ([] ++ ·) = _
  rw [behind, lex_sign_append, ← start, h rest hr, Option.map_map, Option.map_map]
  rfl

def BeginsSigned (t : String) : Prop := ∃ c ∈ t.toList.head?, CharClass.of c = .operator

structure ShowsTokens (t : String) (ts : List Token) (c? : Option Chain) : Prop where
  ne : t ≠ ""
  lexes : Lexes t.toList ts
  arrives : Arrives ts
  fails : c? = none → Fails ts
  spells : ∀ c, c? = some c → c.Spells ts
  signed : ∀ c, c? = some c → c.nots = 0 → (c.minus = true ↔ BeginsSigned t)

def Shows (t : String) (c? : Option Chain) : Prop := ∃ ts, ShowsTokens t ts c?

namespace Shows

variable {t t' : String} {c? d? : Option Chain}

theorem read_eq (h : Shows t c?) : read t = c?.map Chain.term := by
  obtain ⟨ts, shows⟩ := h
  cases c? with
  | none =>
    have fails := shows.fails rfl [] []
    rw [List.append_nil] at fails
    simp [read, shows.lexes.tokens, fails]
  | some c =>
    obtain ⟨f, reads⟩ := (shows.spells c rfl).reads
    exact Reads.read_eq ⟨ts, shows.lexes, reads⟩

theorem word (ne : t ≠ "") (letters : ∀ c ∈ t.toList, CharClass.of c = .letter)
    (free : isReserved t.toList = false) : Shows t (some (.single (.leaf (.word t.toList)))) := by
  have isLeaf : isLeaf (.word t.toList) = true := by simp [Reading.isLeaf, free]
  refine ⟨[.word t.toList], ne, .word (by simpa using ne) letters, .leaf isLeaf, by simp, ?_, ?_⟩
  · rintro c ⟨⟩
    exact .single (.leaf isLeaf) (by decide)
  · rintro c ⟨⟩ -
    refine iff_of_false Bool.false_ne_true ?_
    rintro ⟨d, mem, operator⟩
    cases (letters d (List.mem_of_mem_head? mem)).symm.trans operator

theorem parenthesized (h : Shows t c?) : Shows (parens t) (c?.map fun c => .single c.term) := by
  obtain ⟨ts, shows⟩ := h
  refine ⟨.sign ['('] :: (ts ++ [.sign [')']]), by simp [parens], ?_, shows.arrives.parenthesized,
    ?_, ?_, ?_⟩
  · simpa [parens] using shows.lexes.parenthesized
  · rintro none
    exact (shows.fails (Option.map_eq_none_iff.1 none)).parenthesized
  · intro c found
    obtain ⟨d, rfl, rfl⟩ := Option.map_eq_some_iff.1 found
    obtain ⟨f, reads⟩ := (shows.spells d rfl).reads
    exact .single reads.parenthesized (by decide)
  · intro c found _
    obtain ⟨d, rfl, rfl⟩ := Option.map_eq_some_iff.1 found
    refine iff_of_false Bool.false_ne_true ?_
    simp [BeginsSigned, parens, CharClass.of, brackets]

theorem encloseIf (h : Shows t c?) (wrap : Bool) :
    Shows (if wrap then parens t else t) (c?.map (·.encloseIf wrap)) := by
  cases wrap with
  | true => exact h.parenthesized
  | false =>
    have same : (fun c : Chain => c.encloseIf false) = id := rfl
    simpa [same] using h

theorem not (h : Shows t c?) : Shows ("NOT " ++ t) (c?.map Chain.not) := by
  obtain ⟨ts, shows⟩ := h
  have keyword : Lexes "NOT".toList [notToken] :=
    .word (by decide) (CharClass.forall_of_all (by decide))
  have sign : signOf? notToken = some .not := by decide
  refine ⟨notToken :: ts, by simp, by simpa using keyword.spaced shows.lexes,
    shows.arrives.signed sign, ?_, ?_, ?_⟩
  · intro none
    exact (shows.fails (Option.map_eq_none_iff.1 none)).signed sign
  · intro c found
    obtain ⟨d, rfl, rfl⟩ := Option.map_eq_some_iff.1 found
    exact (shows.spells d rfl).not
  · intro c found none
    obtain ⟨d, rfl, rfl⟩ := Option.map_eq_some_iff.1 found
    cases none

theorem negate (h : Shows t c?) : Shows ("-" ++ t) (c?.bind Chain.negate?) := by
  obtain ⟨ts, shows⟩ := h
  have sign : signOf? minusToken = some .negate := rfl
  have begins : BeginsSigned ("-" ++ t) := ⟨'-', by simp, by decide⟩
  by_cases signed : BeginsSigned t
  · -- The two are one token, so nothing is read.
    have none : c?.bind Chain.negate? = none := Option.bind_eq_none_iff.2 fun d found =>
      Chain.negate?_eq_none_iff.2 fun nots => (shows.signed d found nots).2 signed
    obtain ⟨c, mem, operator⟩ := signed
    obtain ⟨cs, split⟩ : ∃ cs, t.toList = c :: cs := List.head?_eq_some_iff.1 mem
    have lexes := shows.lexes
    rw [split] at lexes
    obtain ⟨w, us, ne, lexes'⟩ := lexes.minus_operator operator
    have fails := Fails.minuses ne us
    refine ⟨.sign ('-' :: w) :: us, by simp, by simpa [split] using lexes', .of_fails fails,
      fun _ => fails, ?_, ?_⟩
    · intro d found
      cases none.symm.trans found
    · intro d found
      cases none.symm.trans found
  · have head : ∀ c ∈ t.toList.head?, CharClass.of c ≠ .operator :=
      fun c mem operator => signed ⟨c, mem, operator⟩
    refine ⟨minusToken :: ts, by simp, by simpa using shows.lexes.minus (by simpa using shows.ne) head,
      shows.arrives.signed sign, ?_, ?_, ?_⟩
    · intro none
      rw [Option.bind_eq_none_iff] at none
      cases c? with
      | none => exact (shows.fails rfl).signed sign
      | some c =>
        -- What is read begins with a `NOT`.
        have nots : c.nots ≠ 0 := fun nots =>
          signed ((shows.signed c rfl nots).1 (Chain.negate?_eq_none_iff.1 (none c rfl) nots))
        obtain ⟨n, succ⟩ := Nat.exists_eq_succ_of_ne_zero nots
        obtain ⟨first, rest⟩ := shows.spells c rfl
        rw [succ, List.replicate_succ, List.cons_append]
        have keyword : signOf? notToken = some .not := by decide
        exact .sign_sign sign keyword (by decide) _
    · intro d found
      obtain ⟨c, rfl, done⟩ := Option.bind_eq_some_iff.1 found
      exact (shows.spells c rfl).negate? done
    · intro d found _
      obtain ⟨c, rfl, done⟩ := Option.bind_eq_some_iff.1 found
      obtain ⟨-, rfl⟩ := Chain.negate?_eq_some_iff.1 done
      exact iff_of_true rfl begins

theorem beginsSigned_append (ne : t ≠ "") (u : String) :
    BeginsSigned (t ++ u) ↔ BeginsSigned t := by
  have nonempty : t.toList ≠ [] := fun empty => ne (String.toList_eq_nil_iff.1 empty)
  obtain ⟨c, cs, split⟩ := List.exists_cons_of_ne_nil nonempty
  simp [BeginsSigned, split]

theorem index (hb : Shows t c?) (hi : Shows t' d?) (alone : ∀ c, c? = some c → c.rest = []) :
    Shows (t ++ "[" ++ t' ++ "]") (c?.bind fun c => d?.map fun d => c.index d.term) := by
  obtain ⟨ts, base⟩ := hb
  obtain ⟨us, subscript⟩ := hi
  have text : (t ++ "[" ++ t' ++ "]").toList = t.toList ++ '[' :: (t'.toList ++ [']']) := by simp
  refine ⟨ts ++ .sign ['['] :: (us ++ [.sign [']']]), ?_, ?_, base.arrives.index subscript.arrives,
    ?_, ?_, ?_⟩
  · exact fun empty => base.ne (by simp at empty)
  · rw [text]
    exact base.lexes.append (.bracket (by decide) (subscript.lexes.append (.bracket (by decide) .nil)
      (by simp) (.cons (.inr (by decide))))) (by simp) (.cons (.inr (by decide)))
  · intro none
    cases c? with
    | none => exact (base.fails rfl).append _
    | some c =>
      cases d? with
      | none => exact Fails.subscript base.arrives (subscript.fails rfl) _
      | some d => cases none
  · intro e found
    obtain ⟨c, rfl, behind⟩ := Option.bind_eq_some_iff.1 found
    obtain ⟨d, rfl, rfl⟩ := Option.map_eq_some_iff.1 behind
    obtain ⟨f, reads⟩ := (subscript.spells d rfl).reads
    exact (base.spells c rfl).index (alone c rfl) reads
  · intro e found none
    obtain ⟨c, rfl, behind⟩ := Option.bind_eq_some_iff.1 found
    obtain ⟨d, rfl, rfl⟩ := Option.map_eq_some_iff.1 behind
    rw [String.append_assoc, String.append_assoc, beginsSigned_append base.ne]
    exact base.signed c rfl none

theorem compare {op : BinaryOp} (hop : op.isComparison = true) (hl : Shows t c?) (hr : Shows t' d?) :
    Shows (t ++ " " ++ op.text ++ " " ++ t') (c?.bind fun c => d?.bind (c.compare? op)) := by
  obtain ⟨ts, left⟩ := hl
  obtain ⟨us, right⟩ := hr
  have other : op ≠ .index := by
    rintro rfl
    cases hop
  obtain ⟨sign, lexes, follow⟩ := Reads.lexes_operator other
  have tight : signLevel .not < level op := by
    rw [level_of_isComparison hop]
    decide
  refine ⟨ts ++ sign :: us, ?_, ?_, left.arrives.binary follow right.arrives, ?_, ?_, ?_⟩
  · exact fun empty => left.ne (by simp at empty)
  · simpa using left.lexes.spaced (lexes.spaced right.lexes)
  · intro none
    cases c? with
    | none => exact (left.fails rfl).append _
    | some c =>
      cases d? with
      | none => exact Fails.binary follow left.arrives (right.fails rfl)
      | some d =>
        obtain ⟨n, succ⟩ := Nat.exists_eq_succ_of_ne_zero (Chain.compare?_eq_none_iff.1 none)
        obtain ⟨first, rest⟩ := right.spells d rfl
        rw [succ, List.replicate_succ, List.cons_append]
        have keyword : signOf? notToken = some .not := by decide
        exact Fails.sign_behind follow keyword tight left.arrives _
  · intro e found
    obtain ⟨c, rfl, behind⟩ := Option.bind_eq_some_iff.1 found
    obtain ⟨d, rfl, done⟩ := Option.bind_eq_some_iff.1 behind
    exact (left.spells c rfl).compare? hop follow (right.spells d rfl) done
  · intro e found none
    obtain ⟨c, rfl, behind⟩ := Option.bind_eq_some_iff.1 found
    obtain ⟨d, rfl, done⟩ := Option.bind_eq_some_iff.1 behind
    obtain ⟨-, rfl⟩ := Chain.compare?_eq_some_iff.1 done
    rw [String.append_assoc, String.append_assoc, String.append_assoc, beginsSigned_append left.ne]
    exact left.signed c rfl none

end Shows
end StreamSql.Reading
