import StreamSql.Text

/-!
The tokens of an expression's text, as someone sees them who knows the language and not how the text
was made: words, quoted text, and signs. A run of operator characters is one sign, so that `--` is
not two minus signs. A comma between two digits belongs to the number; behind an argument of a call
a blank follows it.
-/

namespace StreamSql.Reading

inductive Token
  | word (cs : List Char)
  | text (cs : List Char)
  | sign (cs : List Char)
deriving DecidableEq

inductive CharClass
  | letter
  | operator
  | bracket
  | comma
  | blank
  | quote
deriving DecidableEq

def operators : List Char := ['+', '-', '*', '/', '%', '=', '<', '>', '!']

def brackets : List Char := ['(', ')', '[', ']']

/-- Letters are all characters that have no other part; digits and points are among them. -/
def CharClass.of (c : Char) : CharClass :=
  if c = '\x27' then .quote
  else if c = ' ' || c = '\n' then .blank
  else if c = ',' then .comma
  else if brackets.contains c then .bracket
  else if operators.contains c then .operator
  else .letter

theorem CharClass.forall_of_all {k : CharClass} {cs : List Char}
    (h : cs.all (fun c => CharClass.of c = k) = true) : ∀ c ∈ cs, CharClass.of c = k := by
  simpa using h

theorem letter_of_isDigit {c : Char} (h : c.isDigit = true) : CharClass.of c = .letter := by
  have hc : 48 ≤ c.toNat ∧ c.toNat ≤ 57 := Char.isDigit_iff_toNat.1 h
  have ne (d : Char) (hd : d.toNat < 48 ∨ 57 < d.toNat) : c ≠ d := by
    rintro rfl
    omega
  simp [CharClass.of, brackets, operators, ne]

inductive Pending
  | none
  | word (cs : List Char)
  | comma (cs : List Char)
  | sign (cs : List Char)
  | quoted (cs : List Char)

namespace Pending

def start (c : Char) : List Token × Pending :=
  match CharClass.of c with
  | .letter => ([], .word [c])
  | .operator => ([], .sign [c])
  | .bracket | .comma => ([.sign [c]], .none)
  | .blank => ([], .none)
  | .quote => ([], .quoted [])

def step : Pending → Char → List Token × Pending
  | .none, c => start c
  | .word cs, c =>
    if CharClass.of c = .letter then ([], .word (cs ++ [c]))
    else if c = ',' && cs.getLast?.any Char.isDigit then ([], .comma cs)
    else (.word cs :: (start c).1, (start c).2)
  | .comma cs, c =>
    if c.isDigit then ([], .word (cs ++ [',', c]))
    else (.word cs :: .sign [','] :: (start c).1, (start c).2)
  | .sign cs, c =>
    if CharClass.of c = .operator then ([], .sign (cs ++ [c]))
    else (.sign cs :: (start c).1, (start c).2)
  | .quoted cs, c => if c = '\x27' then ([.text cs], .none) else ([], .quoted (cs ++ [c]))

def finish : Pending → Option (List Token)
  | .none => some []
  | .word cs => some [.word cs]
  | .comma cs => some [.word cs, .sign [',']]
  | .sign cs => some [.sign cs]
  | .quoted _ => Option.none

end Pending

def lex (p : Pending) : List Char → Option (List Token)
  | [] => p.finish
  | c :: cs => (lex (p.step c).2 cs).map ((p.step c).1 ++ ·)

def tokens (t : String) : Option (List Token) := lex .none t.toList

def Breaks (rest : List Char) : Prop :=
  ∀ c ∈ rest.head?, CharClass.of c = .blank ∨ CharClass.of c = .bracket ∨
    c = ',' ∧ rest.tail.head? = some ' '

theorem Breaks.nil : Breaks [] := by simp [Breaks]

theorem Breaks.cons {c : Char} {cs : List Char}
    (h : CharClass.of c = .blank ∨ CharClass.of c = .bracket) : Breaks (c :: cs) := by
  simpa [Breaks] using h.imp_right .inl

theorem Breaks.comma (cs : List Char) : Breaks (',' :: ' ' :: cs) := by simp [Breaks]

theorem Breaks.append {cs : List Char} (h : Breaks cs) (ne : cs ≠ []) (rest : List Char) :
    Breaks (cs ++ rest) := by
  obtain ⟨c, cs, rfl⟩ := List.exists_cons_of_ne_nil ne
  cases cs with
  | nil => exact .cons (by simpa [Breaks] using h)
  | cons d ds => simpa [Breaks] using h

def Lexes (cs : List Char) (ts : List Token) : Prop :=
  ∀ rest, Breaks rest → lex .none (cs ++ rest) = (lex .none rest).map (ts ++ ·)

theorem Lexes.tokens {t : String} {ts : List Token} (h : Lexes t.toList ts) :
    tokens t = some ts := by
  have := h [] Breaks.nil
  simpa [Reading.tokens, lex, Pending.finish] using this

theorem lex_word (w cs rest : List Char) (h : ∀ c ∈ cs, CharClass.of c = .letter) :
    lex (.word w) (cs ++ rest) = lex (.word (w ++ cs)) rest := by
  induction cs generalizing w with
  | nil => simp
  | cons c cs ih =>
    have hc := h c (by simp)
    have := ih (w ++ [c]) (fun d hd => h d (by simp [hd]))
    simpa [lex, Pending.step, hc] using this

theorem lex_quoted (w cs rest : List Char) (h : '\x27' ∉ cs) :
    lex (.quoted w) (cs ++ rest) = lex (.quoted (w ++ cs)) rest := by
  induction cs generalizing w with
  | nil => simp
  | cons c cs ih =>
    have hc : c ≠ '\x27' := fun e => h (by simp [e])
    have := ih (w ++ [c]) (fun hd => h (by simp [hd]))
    simpa [lex, Pending.step, hc] using this

theorem lex_word_end (w : List Char) {rest : List Char} (h : Breaks rest) :
    lex (.word w) rest = (lex .none rest).map (.word w :: ·) := by
  cases rest with
  | nil => simp [lex, Pending.finish]
  | cons c cs =>
    by_cases comma : c = ','
    · -- Behind a digit the comma may go on with the number, and the blank says that it does not.
      obtain ⟨ds, rfl⟩ : ∃ ds, cs = ' ' :: ds := by
        have := h c (by simp)
        simpa [comma, CharClass.of, List.head?_eq_some_iff] using this
      have class' : CharClass.of ',' = .comma := by decide
      have blank : CharClass.of ' ' = .blank := by decide
      cases digit : w.getLast?.any Char.isDigit <;>
        simp [comma, lex, Pending.step, Pending.start, class', blank, digit, Function.comp_def]
    · have letter : CharClass.of c ≠ .letter := by
        rcases h c (by simp) with hc | hc | ⟨hc, -⟩
        · simp [hc]
        · simp [hc]
        · exact absurd hc comma
      simp [lex, Pending.step, letter, comma, Function.comp_def]

theorem lex_sign_end (w rest : List Char)
    (h : ∀ c ∈ rest.head?, CharClass.of c ≠ .operator) :
    lex (.sign w) rest = (lex .none rest).map (.sign w :: ·) := by
  cases rest with
  | nil => simp [lex, Pending.finish]
  | cons c cs =>
    have hc : CharClass.of c ≠ .operator := h c (by simp)
    simp [lex, Pending.step, hc, Function.comp_def]

theorem Breaks.not_operator {rest : List Char} (h : Breaks rest) :
    ∀ c ∈ rest.head?, CharClass.of c ≠ .operator := by
  intro c hc e
  rcases h c hc with h | h | ⟨rfl, -⟩
  · simp [h] at e
  · simp [h] at e
  · exact absurd e (by decide)

namespace Lexes

theorem word {cs : List Char} (ne : cs ≠ []) (h : ∀ c ∈ cs, CharClass.of c = .letter) :
    Lexes cs [.word cs] := by
  intro rest hr
  obtain ⟨c, cs, rfl⟩ := List.exists_cons_of_ne_nil ne
  have hc := h c (by simp)
  have := lex_word [c] cs rest (fun d hd => h d (by simp [hd]))
  simp only [List.cons_append, lex, Pending.step, Pending.start, hc, List.nil_append,
    Option.map_id']
  rw [this, lex_word_end _ hr]
  rfl

theorem sign {c : Char} {cs : List Char} (hc : CharClass.of c = .operator)
    (h : ∀ d ∈ cs, CharClass.of d = .operator) : Lexes (c :: cs) [.sign (c :: cs)] := by
  intro rest hr
  have run : ∀ w, lex (.sign w) (cs ++ rest) = lex (.sign (w ++ cs)) rest := by
    clear hc
    induction cs with
    | nil => simp
    | cons d ds ih =>
      intro w
      have hd := h d (by simp)
      have := ih (fun e he => h e (by simp [he])) (w ++ [d])
      simpa [lex, Pending.step, hd] using this
  simp only [List.cons_append, lex, Pending.step, Pending.start, hc, List.nil_append,
    Option.map_id']
  rw [run, lex_sign_end _ _ hr.not_operator]
  rfl

theorem fraction {ds es : List Char} (digits : ∀ c ∈ ds ++ es, c.isDigit = true) (left : ds ≠ [])
    (right : es ≠ []) : Lexes (ds ++ ',' :: es) [.word (ds ++ ',' :: es)] := by
  intro rest hr
  obtain ⟨d, ds, rfl⟩ := List.exists_cons_of_ne_nil left
  obtain ⟨e, es, rfl⟩ := List.exists_cons_of_ne_nil right
  have letter {c : Char} (hc : c ∈ d :: ds ++ e :: es) : CharClass.of c = .letter :=
    letter_of_isDigit (digits c hc)
  have point : (d :: ds).getLast?.any Char.isDigit = true := by
    rw [List.getLast?_eq_some_getLast (by simp)]
    exact digits _ (List.mem_append_left _ (List.getLast_mem _))
  have next : e.isDigit = true := digits e (by simp)
  calc lex .none (d :: ds ++ ',' :: e :: es ++ rest)
      = lex (.word [d]) (ds ++ ',' :: e :: (es ++ rest)) := by
        simp [lex, Pending.step, Pending.start, letter]
    _ = lex (.word (d :: ds)) (',' :: e :: (es ++ rest)) :=
        lex_word [d] ds _ fun c hc => letter (by simp [hc])
    _ = lex (.comma (d :: ds)) (e :: (es ++ rest)) := by
        have comma : CharClass.of ',' ≠ .letter := by decide
        change (lex (Pending.step (.word (d :: ds)) ',').2 _).map _ = _
        simp [Pending.step, comma, point]
    _ = lex (.word (d :: ds ++ [',', e])) (es ++ rest) := by
        simp [lex, Pending.step, next]
    _ = lex (.word (d :: ds ++ [',', e] ++ es)) rest :=
        lex_word _ es _ fun c hc => letter (by simp [hc])
    _ = (lex .none rest).map ([.word (d :: ds ++ ',' :: e :: es)] ++ ·) := by
        rw [lex_word_end _ hr]
        simp

theorem nil : Lexes [] [] := by
  intro rest _
  simp

theorem text_append {cs ds : List Char} {ts : List Token} (h : '\x27' ∉ cs) (hd : Lexes ds ts) :
    Lexes ('\x27' :: (cs ++ '\x27' :: ds)) (.text cs :: ts) := by
  intro rest hr
  have := lex_quoted [] cs ('\x27' :: (ds ++ rest)) h
  simp only [List.nil_append] at this
  simp only [List.append_assoc, List.cons_append, lex]
  rw [show Pending.none.step '\x27' = ([], .quoted []) from rfl]
  simp only [List.nil_append, Option.map_id']
  rw [this]
  change (lex .none (ds ++ rest)).map ([.text cs] ++ ·) = _
  rw [hd _ hr]
  simp [Function.comp_def]

theorem text {cs : List Char} (h : '\x27' ∉ cs) : Lexes ('\x27' :: cs ++ ['\x27']) [.text cs] :=
  text_append h .nil

theorem append {a b : List Char} {as bs : List Token} (ha : Lexes a as) (hb : Lexes b bs)
    (ne : b ≠ []) (breaks : Breaks b) : Lexes (a ++ b) (as ++ bs) := by
  intro rest hr
  rw [List.append_assoc, ha _ (breaks.append ne rest), hb _ hr]
  simp [Function.comp_def]

theorem blank {cs : List Char} {ts : List Token} (h : Lexes cs ts) : Lexes (' ' :: cs) ts := by
  intro rest hr
  change (lex .none (cs ++ rest)).map ([] ++ ·) = _
  rw [h _ hr]
  simp [Function.comp_def]

theorem bracket {c : Char} {cs : List Char} {ts : List Token} (hc : CharClass.of c = .bracket)
    (h : Lexes cs ts) : Lexes (c :: cs) (.sign [c] :: ts) := by
  intro rest hr
  simp only [List.cons_append, lex, Pending.step, Pending.start, hc]
  rw [h _ hr]
  simp [Function.comp_def]

theorem comma {cs : List Char} {ts : List Token} (h : Lexes cs ts) :
    Lexes (',' :: cs) (.sign [','] :: ts) := by
  intro rest hr
  change (lex .none (cs ++ rest)).map ([.sign [',']] ++ ·) = _
  rw [h _ hr]
  simp [Function.comp_def]

theorem item {a b : List Char} {as bs : List Token} (ha : Lexes a as) (hb : Lexes b bs) :
    Lexes (a ++ ',' :: ' ' :: b) (as ++ .sign [','] :: bs) :=
  ha.append (.comma hb.blank) (by simp) (.comma b)

theorem spaced {a b : List Char} {as bs : List Token} (ha : Lexes a as) (hb : Lexes b bs) :
    Lexes (a ++ ' ' :: b) (as ++ bs) :=
  ha.append hb.blank (by simp) (.cons (.inl rfl))

theorem parenthesized {cs : List Char} {ts : List Token} (h : Lexes cs ts) :
    Lexes ('(' :: (cs ++ [')'])) (.sign ['('] :: (ts ++ [.sign [')']])) :=
  .bracket rfl (h.append (.bracket rfl .nil) (by simp) (.cons (.inr rfl)))

theorem minus {cs : List Char} {ts : List Token} (h : Lexes cs ts) (ne : cs ≠ [])
    (head : ∀ c ∈ cs.head?, CharClass.of c ≠ .operator) :
    Lexes ('-' :: cs) (.sign ['-'] :: ts) := by
  intro rest hr
  obtain ⟨c, cs, rfl⟩ := List.exists_cons_of_ne_nil ne
  have hc : ∀ d ∈ (c :: cs ++ rest).head?, CharClass.of d ≠ .operator := by simpa using head
  change (lex (.sign ['-']) (c :: cs ++ rest)).map ([] ++ ·) = _
  rw [lex_sign_end _ _ hc, h _ hr]
  simp [Function.comp_def]

end Lexes
end StreamSql.Reading
