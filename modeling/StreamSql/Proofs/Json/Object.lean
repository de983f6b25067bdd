import StreamSql.Json.Parser
import StreamSql.Proofs.Text.Trim

namespace StreamSql.Json

def Token.isScalar : Token → Bool
  | .null | .bool _ | .number _ | .string _ => true
  | _ => false

theorem Token.not_brace_of_isScalar {t : Token} (h : t.isScalar = true) :
    t ≠ .openObject ∧ t ≠ .closeObject := by
  cases t <;> simp [isScalar] at h ⊢

namespace Mode

variable {m m' : Mode} {c : Char} {cs : List Char} {ts : List Token}

theorem begin?_eq_some (h : begin? c = some (ts, m)) :
    ts = [] ∧ m ≠ .between ∨ m = .between ∧ (isSpace c = true ∧ ts = [] ∨
      ∃ t, ts = [t] ∧ (t = .openObject → c = '\x7b') ∧ (t = .closeObject → c = '\x7d')) := by
  unfold begin? at h
  split at h
  · next space =>
    cases h
    exact .inr ⟨rfl, .inl ⟨space, rfl⟩⟩
  -- brackets, braces, the comma and the colon
  iterate 6
    split at h
    · next sign =>
      cases h
      exact .inr ⟨rfl, .inr ⟨_, rfl, by simp [sign], by simp [sign]⟩⟩
  -- texts, numbers and words
  iterate 3
    split at h
    · cases h
      exact .inl ⟨rfl, by simp⟩
  cases h

theorem isScalar_of_finishWord? {seen : List Char} {t : Token} (h : finishWord? seen = some t) :
    t.isScalar = true := by
  unfold finishWord? word? at h
  split at h <;> cases h <;> rfl

theorem isScalar_of_finishNumber? {seen : List Char} {t : Token} (h : finishNumber? seen = some t) :
    t.isScalar = true := by
  obtain ⟨l, -, rfl⟩ := Option.map_eq_some_iff.1 h
  rfl

theorem ofUnit_ne_between (seen : Seen) (lead : Option Nat) (unit : Nat) :
    ofUnit seen lead unit ≠ .between := by
  simp only [ofUnit]
  split
  · split <;> simp
  · split
    · simp
    · split <;> simp

theorem stepText?_eq_some {seen : Seen} (h : stepText? seen c = some (ts, m)) :
    ts = [] ∧ m ≠ .between ∨ ∃ t, ts = [t] ∧ t.isScalar = true := by
  unfold stepText? at h
  split at h
  · cases h
    exact .inr ⟨_, rfl, rfl⟩
  · split at h
    · cases h
      exact .inl ⟨rfl, by simp⟩
    · split at h
      · cases h
      · cases h
        exact .inl ⟨rfl, by simp⟩

theorem stepEscape?_eq_some {seen : Seen} (h : stepEscape? seen c = some (ts, m)) :
    ts = [] ∧ m ≠ .between := by
  unfold stepEscape? at h
  split at h
  · cases h
    exact ⟨rfl, by simp⟩
  · obtain ⟨d, -, same⟩ := Option.map_eq_some_iff.1 h
    cases same
    exact ⟨rfl, by simp⟩

theorem step?_of_begun (begun : m ≠ .between) (h : m.step? c = some (ts, m')) :
    ts = [] ∧ m' ≠ .between ∨ ∃ t us, ts = t :: us ∧ t.isScalar = true ∧
      (us = [] ∨ begin? c = some (us, m')) := by
  have scalar {first : Option Token} (all : ∀ t, first = some t → t.isScalar = true)
      (h : (first.bind fun t => (begin? c).bind fun p => some (t :: p.1, p.2)) = some (ts, m')) :
      ∃ t us, ts = t :: us ∧ t.isScalar = true ∧ (us = [] ∨ begin? c = some (us, m')) := by
    obtain ⟨t, ended, h⟩ := Option.bind_eq_some_iff.1 h
    obtain ⟨⟨us, m⟩, next, same⟩ := Option.bind_eq_some_iff.1 h
    cases same
    exact ⟨t, us, rfl, all t ended, .inr next⟩
  cases m with
  | between => exact absurd rfl begun
  | word seen =>
    rw [step?] at h
    split at h
    · cases h
      exact .inl ⟨rfl, by simp⟩
    · exact .inr (scalar (fun _ => isScalar_of_finishWord?) h)
  | number seen =>
    rw [step?] at h
    split at h
    · cases h
      exact .inl ⟨rfl, by simp⟩
    · exact .inr (scalar (fun _ => isScalar_of_finishNumber?) h)
  | text seen =>
    exact (stepText?_eq_some h).imp_right fun ⟨t, one, scalar⟩ => ⟨t, [], one, scalar, .inl rfl⟩
  | escape seen => exact .inl (stepEscape?_eq_some h)
  | hex seen lead value left =>
    obtain ⟨d, -, same⟩ := Option.map_eq_some_iff.1 h
    split at same <;> cases same
    · exact .inl ⟨rfl, ofUnit_ne_between _ _ _⟩
    · exact .inl ⟨rfl, by simp⟩
  | pair seen lead =>
    rw [step?] at h
    split at h
    · cases h
      exact .inl ⟨rfl, by simp⟩
    · exact (stepText?_eq_some h).imp_right fun ⟨t, one, scalar⟩ => ⟨t, [], one, scalar, .inl rfl⟩
  | pairEscape seen lead =>
    rw [step?] at h
    split at h
    · cases h
      exact .inl ⟨rfl, by simp⟩
    · exact .inl (stepEscape?_eq_some h)

theorem step?_of_visible (visible : isSpace c = false) (h : m.step? c = some (ts, m')) :
    m' ≠ .between ∨ m' = .between ∧
      ∃ us t, ts = us ++ [t] ∧ (t = .closeObject → c = '\x7d') := by
  have begins {us : List Token} (h : begin? c = some (us, m')) :
      m' ≠ .between ∨ m' = .between ∧ ∃ t, us = [t] ∧ (t = .closeObject → c = '\x7d') := by
    rcases begin?_eq_some h with ⟨-, begun⟩ | ⟨rfl, ⟨space, -⟩ | ⟨t, rfl, -, closes⟩⟩
    · exact .inl begun
    · simp [visible] at space
    · exact .inr ⟨rfl, t, rfl, closes⟩
  by_cases between : m = .between
  · subst between
    exact (begins h).imp_right fun ⟨same, t, one, closes⟩ => ⟨same, [], t, one, closes⟩
  rcases step?_of_begun between h with ⟨-, begun⟩ | ⟨t, us, rfl, scalar, rfl | next⟩
  · exact .inl begun
  · by_cases same : m' = .between
    · exact .inr ⟨same, [], t, rfl, fun closes => absurd closes (Token.not_brace_of_isScalar scalar).2⟩
    · exact .inl same
  · exact (begins next).imp_right fun ⟨same, u, one, closes⟩ =>
      ⟨same, [t], u, by rw [one]; rfl, closes⟩

theorem finish?_of_begun (begun : m ≠ .between) (h : m.finish? = some ts) :
    ∃ t, ts = [t] ∧ t.isScalar = true := by
  cases m with
  | between => exact absurd rfl begun
  | word seen =>
    obtain ⟨t, word, rfl⟩ := Option.map_eq_some_iff.1 h
    exact ⟨t, rfl, isScalar_of_finishWord? word⟩
  | number seen =>
    obtain ⟨t, number, rfl⟩ := Option.map_eq_some_iff.1 h
    exact ⟨t, rfl, isScalar_of_finishNumber? number⟩
  | _ => cases h

end Mode

variable {m : Mode} {c : Char} {cs : List Char} {ts : List Token}

theorem tokensFrom?_eq_map (done : List Token) :
    tokensFrom? done m cs = (tokensFrom? [] m cs).map (done.reverse ++ ·) := by
  induction cs generalizing m done with
  | nil => cases h : m.finish? <;> simp [tokensFrom?, h]
  | cons c cs ih =>
    rw [tokensFrom?, tokensFrom?]
    cases m.step? c with
    | none => rfl
    | some step =>
      dsimp only
      rw [ih, ih (step.1.reverse ++ [])]
      cases tokensFrom? [] step.2 cs <;> simp

theorem tokensFrom?_cons_eq_some (h : tokensFrom? [] m (c :: cs) = some ts) :
    ∃ us m' vs, m.step? c = some (us, m') ∧ tokensFrom? [] m' cs = some vs ∧ ts = us ++ vs := by
  rw [tokensFrom?] at h
  split at h
  · next us m' step =>
    rw [tokensFrom?_eq_map] at h
    obtain ⟨vs, rest, rfl⟩ := Option.map_eq_some_iff.1 h
    exact ⟨us, m', vs, step, rest, by simp⟩
  · cases h

theorem exists_scalar_of_begun (begun : m ≠ .between) (h : tokensFrom? [] m cs = some ts) :
    ∃ t us, ts = t :: us ∧ t.isScalar = true := by
  induction cs generalizing m ts with
  | nil =>
    obtain ⟨us, finish, rfl⟩ := Option.map_eq_some_iff.1 h
    obtain ⟨t, rfl, scalar⟩ := m.finish?_of_begun begun finish
    exact ⟨t, [], rfl, scalar⟩
  | cons c cs ih =>
    obtain ⟨us, m', vs, step, rest, rfl⟩ := tokensFrom?_cons_eq_some h
    rcases Mode.step?_of_begun begun step with ⟨rfl, begun'⟩ | ⟨t, us, rfl, scalar, -⟩
    · exact ih begun' rest
    · exact ⟨t, us ++ vs, rfl, scalar⟩

theorem exists_first_token (visible : isSpace c = false) (h : tokens? (c :: cs) = some ts) :
    ∃ t us, ts = t :: us ∧ (t = .openObject → c = '\x7b') := by
  obtain ⟨us, m, vs, step, rest, rfl⟩ := tokensFrom?_cons_eq_some h
  rcases Mode.begin?_eq_some step with ⟨rfl, begun⟩ | ⟨rfl, ⟨space, -⟩ | ⟨t, rfl, opens, -⟩⟩
  · obtain ⟨t, us, rfl, scalar⟩ := exists_scalar_of_begun begun rest
    exact ⟨t, us, rfl, fun opens => absurd opens (Token.not_brace_of_isScalar scalar).1⟩
  · simp [visible] at space
  · exact ⟨t, vs, rfl, opens⟩

theorem exists_last_token (visible : isSpace c = false)
    (h : tokensFrom? [] m (cs ++ [c]) = some ts) :
    ∃ us t, ts = us ++ [t] ∧ (t = .closeObject → c = '\x7d') := by
  induction cs generalizing m ts with
  | nil =>
    obtain ⟨us, m', vs, step, rest, rfl⟩ := tokensFrom?_cons_eq_some h
    obtain ⟨vs, finish, rfl⟩ := Option.map_eq_some_iff.1 rest
    rcases Mode.step?_of_visible visible step with begun | ⟨rfl, us, t, rfl, closes⟩
    · obtain ⟨t, rfl, scalar⟩ := m'.finish?_of_begun begun finish
      exact ⟨us, t, rfl, fun closes => absurd closes (Token.not_brace_of_isScalar scalar).2⟩
    · cases finish
      exact ⟨us, t, by simp, closes⟩
  | cons d ds ih =>
    obtain ⟨us, m', vs, -, rest, rfl⟩ := tokensFrom?_cons_eq_some h
    obtain ⟨vs, t, rfl, closes⟩ := ih rest
    exact ⟨us ++ vs, t, by simp, closes⟩

namespace State

variable {s s' : State} {t : Token} {ts us : List Token} {fs : List Frame} {e : Expect} {j : Json}
  {ms : List (String × Json)}

theorem run?_append : s.run? (ts ++ us) = (s.run? ts).bind (·.run? us) := by
  induction ts generalizing s with
  | nil => rfl
  | cons t ts ih =>
    rw [List.cons_append, run?, run?]
    cases s.step? t with
    | none => rfl
    | some s' => exact ih

inductive Stepped (fs : List Frame) (e : Expect) : Token → State → Prop
  | scalar {t : Token} {j : Json} {s : State} : (∀ ms, j ≠ .object ms) → put? fs j = some s →
    Stepped fs e t s
  | openArray : Stepped fs e .openArray (.reading (.array [] :: fs) .itemOrClose)
  | openObject : Stepped fs e .openObject (.reading (.object [] none :: fs) .nameOrClose)
  | name {members : List (Option String × Json)} {n : Option String} {gs : List Frame} :
    fs = .object members none :: gs →
    Stepped fs e (.string n) (.reading (.object members (some n) :: gs) .colon)
  | colon : e = .colon → Stepped fs e .colon (.reading fs .value)
  | comma {e' : Expect} : fs ≠ [] → Stepped fs e .comma (.reading fs e')
  | closeArray {items : List Json} {gs : List Frame} {j : Json} {s : State} :
    fs = .array items :: gs → (∀ ms, j ≠ .object ms) → put? gs j = some s → Stepped fs e .closeArray s
  | closeObject {members : List (Option String × Json)} {gs : List Frame} {j : Json} {s : State} :
    fs = .object members none :: gs → put? gs j = some s → Stepped fs e .closeObject s

theorem stepped (h : (State.reading fs e).step? t = some s) : Stepped fs e t s := by
  have value {p : Bool} {j : Json} (other : ∀ ms, j ≠ .object ms)
      (h : (if p then put? fs j else none) = some s) : Stepped fs e t s :=
    .scalar other (Option.ite_none_right_eq_some.1 h).2
  cases t with
  | null | bool => exact value (by simp) h
  | number n => exact value (by cases n <;> simp) h
  | string n =>
    simp only [step?] at h
    split at h
    · exact .scalar (by cases n <;> simp) h
    · obtain ⟨-, named⟩ := Option.ite_none_right_eq_some.1 h
      split at named
      · exact Option.some.inj named ▸ .name rfl
      · cases named
  | openArray =>
    obtain ⟨-, opened⟩ := Option.ite_none_right_eq_some.1 h
    exact Option.some.inj opened ▸ .openArray
  | openObject =>
    obtain ⟨-, opened⟩ := Option.ite_none_right_eq_some.1 h
    exact Option.some.inj opened ▸ .openObject
  | colon =>
    obtain ⟨expected, next⟩ := Option.ite_none_right_eq_some.1 h
    exact Option.some.inj next ▸ .colon expected
  | comma =>
    obtain ⟨-, next⟩ := Option.ite_none_right_eq_some.1 h
    split at next
    · exact Option.some.inj next ▸ .comma (by simp)
    · exact Option.some.inj next ▸ .comma (by simp)
    · cases next
  | closeArray =>
    obtain ⟨-, closed⟩ := Option.ite_none_right_eq_some.1 h
    split at closed
    · exact .closeArray rfl (by split <;> simp) closed
    · cases closed
  | closeObject =>
    obtain ⟨-, closed⟩ := Option.ite_none_right_eq_some.1 h
    split at closed
    · exact .closeObject rfl closed
    · cases closed

theorem eq_of_put?_finished {j' : Json} (h : put? fs j = some (.finished j')) : j = j' := by
  cases fs with
  | nil => exact State.finished.inj (Option.some.inj h)
  | cons f fs =>
    cases f with
    | array => cases h
    | object _ name => cases name <;> cases h

theorem eq_closeObject_of_step? (h : s.step? t = some (.finished (.object ms))) : t = .closeObject := by
  cases s with
  | finished => cases h
  | reading fs e =>
    cases stepped h with
    | scalar other put | closeArray _ other put =>
      exact absurd (eq_of_put?_finished put) (other ms)
    | closeObject => rfl

inductive Based : List Frame → Prop
  | base {items : List Json} : Based [.array items]
  | cons {f : Frame} {fs : List Frame} : Based fs → Based (f :: fs)

inductive InArray : State → Prop
  | reading {fs : List Frame} {e : Expect} : Based fs → InArray (.reading fs e)
  | finished {j : Json} : (∀ ms, j ≠ .object ms) → InArray (.finished j)

theorem inArray_put? (h : put? fs j = some s) (based : Based fs ∨ fs = [] ∧ ∀ ms, j ≠ .object ms) :
    s.InArray := by
  cases fs with
  | nil =>
    obtain rfl := Option.some.inj h
    rcases based with based | ⟨-, other⟩
    · cases based
    · exact .finished other
  | cons f fs =>
    have based : Based (f :: fs) := by simpa using based
    cases f with
    | array items =>
      cases h
      cases based with
      | base => exact .reading .base
      | cons below => exact .reading (.cons below)
    | object members name =>
      cases name with
      | none => cases h
      | some k =>
        cases h
        cases based with
        | cons below => exact .reading (.cons below)

theorem InArray.step? (h : s.InArray) (step : s.step? t = some s') : s'.InArray := by
  cases h with
  | finished => cases step
  | @reading fs e based =>
    cases stepped step with
    | scalar _ put => exact inArray_put? put (.inl based)
    | openArray | openObject => exact .reading (.cons based)
    | colon | comma => exact .reading based
    | name opened =>
      subst opened
      cases based with
      | cons below => exact .reading (.cons below)
    | closeArray opened other put =>
      subst opened
      cases based with
      | base => exact inArray_put? put (.inr ⟨rfl, other⟩)
      | cons below => exact inArray_put? put (.inl below)
    | closeObject opened put =>
      subst opened
      cases based with
      | cons below => exact inArray_put? put (.inl below)

theorem InArray.run? (h : s.InArray) (run : s.run? ts = some s') : s'.InArray := by
  induction ts generalizing s with
  | nil => exact Option.some.inj run ▸ h
  | cons t ts ih =>
    obtain ⟨s', step, run⟩ := Option.bind_eq_some_iff.1 run
    exact ih (h.step? step) run

theorem eq_openObject_of_run?
    (h : (State.reading [] .value).run? (t :: ts) = some (.finished (.object ms))) :
    t = .openObject := by
  obtain ⟨s, step, run⟩ := Option.bind_eq_some_iff.1 h
  have other (inArray : s.InArray) : t = .openObject := by
    cases inArray.run? run with
    | finished none => exact absurd rfl (none ms)
  cases stepped step with
  | openObject => rfl
  | openArray => exact other (.reading .base)
  | scalar none put => exact other (inArray_put? put (.inr ⟨rfl, none⟩))
  | comma some => exact absurd rfl some
  | colon none | name none | closeArray none | closeObject none => cases none

theorem eq_closeObject_of_run? (h : s.run? (ts ++ [t]) = some (.finished (.object ms))) :
    t = .closeObject := by
  rw [run?_append] at h
  obtain ⟨s', -, last⟩ := Option.bind_eq_some_iff.1 h
  obtain ⟨s'', step, same⟩ := Option.bind_eq_some_iff.1 last
  exact eq_closeObject_of_step? (step.trans same)

end State

theorem isBlank_of_isSpace {c : Char} (h : isSpace c = true) : Text.isBlank c = true := by
  simp only [isSpace, Bool.or_eq_true, decide_eq_true_eq] at h
  rcases h with ((rfl | rfl) | rfl) | rfl <;> decide

theorem exists_braced_of_parse? {text : String} {ms : List (String × Json)}
    (trimmed : Text.IsTrimmed text.toList) (parsed : parse? text = some (.object ms)) :
    ∃ cs, text.toList = '\x7b' :: (cs ++ ['\x7d']) := by
  have visible {c : Char} (h : Text.isBlank c = false) : isSpace c = false := by
    by_contra space
    simp [isBlank_of_isSpace (by simpa using space)] at h
  obtain ⟨ts, lexed, read⟩ := Option.bind_eq_some_iff.1 parsed
  obtain ⟨s, run, finished⟩ := Option.bind_eq_some_iff.1 read
  obtain rfl : s = .finished (.object ms) := by
    cases s <;> cases finished
    rfl
  have first : ∀ c cs, text.toList = c :: cs → c = '\x7b' := by
    intro c cs split
    rw [split] at lexed trimmed
    obtain ⟨t, us, rfl, opens⟩ := exists_first_token (visible (trimmed.head c rfl)) lexed
    exact opens (State.eq_openObject_of_run? run)
  have last : ∀ cs c, text.toList = cs ++ [c] → c = '\x7d' := by
    intro cs c split
    rw [split] at lexed trimmed
    obtain ⟨us, t, rfl, closes⟩ := exists_last_token (visible (trimmed.last c (by simp))) lexed
    exact closes (State.eq_closeObject_of_run? run)
  cases split : text.toList with
  | nil =>
    rw [split] at lexed
    cases lexed
    cases run
  | cons c cs =>
    obtain rfl := first c cs split
    obtain rfl | ⟨ds, d, rfl⟩ := cs.eq_nil_or_concat
    · exact absurd (last [] _ split) (by decide)
    · rw [List.concat_eq_append] at split ⊢
      obtain rfl := last ('\x7b' :: ds) d split
      exact ⟨ds, rfl⟩

end StreamSql.Json
