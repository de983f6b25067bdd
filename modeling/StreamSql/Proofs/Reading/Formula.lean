import StreamSql.Proofs.Reading.Reads

/-!
Formulas read from their tokens. `BETWEEN`, `IN` and `LIKE` stand on the level of the comparisons, and
their operands are arithmetic: what binds looser is in parentheses. Comparisons and null tests go from
left to right. A word with brackets behind it is one operand with all that is in them: what it says is
not looked into.
-/

namespace StreamSql.Reading

inductive Formula
  | atom (ts : List Token)
  | binary (op : BinaryOp) (left right : Formula)
  | unary (op : UnaryOp) (operand : Formula)
  | isNull (negated : Bool) (operand : Formula)
  | between (negated : Bool) (operand low high : Formula)
  | isIn (operand : Formula) (items : List Formula)
  | like (operand pattern : Formula)

namespace Formula

abbrev testLevel : Nat := level .eq

abbrev sumLevel : Nat := level .add

def keywords : List String := ["AND", "OR", "NOT", "BETWEEN", "IN", "LIKE", "IS"]

def isAtom : Token → Bool
  | .word cs => keywords.all fun k => !isKeyword k cs
  | .text _ => true
  | .sign _ => false

def keyword (k : String) : Token := .word k.toList

def isOpening (t : Token) : Bool := t = .sign ['('] || t = .sign ['[']

def isClosing (t : Token) : Bool := t = .sign [')'] || t = .sign [']']

inductive Test
  | between
  | not
  | isIn
  | like
  | is
  | isNot
deriving DecidableEq

def Test.least : Test → Nat
  | .is | .isNot => testLevel
  | _ => sumLevel

inductive Mark
  | operator (op : BinaryOp)
  | test (k : Test)
  | opening
  | close
  | comma
  | other
deriving DecidableEq

def Mark.of : Token → Mark
  | .word cs =>
    if isKeyword "NOT" cs then .test .not
    else if isKeyword "BETWEEN" cs then .test .between
    else if isKeyword "IN" cs then .test .isIn
    else if isKeyword "LIKE" cs then .test .like
    else if isKeyword "IS" cs then .test .is
    else
      match Follow.of (.word cs) with
      | .operator op => .operator op
      | _ => .other
  | t =>
    match Follow.of t with
    | .operator op => .operator op
    | .openSubscript | .openCall => .opening
    | .close => .close
    | .comma => .comma
    | _ => .other

def word? : Formula → Option Token
  | .atom [.word w] => some (.word w)
  | _ => none

inductive Frame
  | left (x : Formula) (op : BinaryOp)
  | sign (op : UnaryOp)
  | group
  | lower (negated : Bool) (x : Formula)
  | upper (negated : Bool) (x low : Formula)
  | pattern (x : Formula)
  | items (x : Formula) (xs : List Formula)

def Frame.node? : Frame → Formula → Option (Nat × Formula)
  | .left y op, x => some (level op, .binary op y x)
  | .sign op, x => some (signLevel op, .unary op x)
  | .upper negated y low, x => some (testLevel, .between negated y low x)
  | .pattern y, x => some (testLevel, .like y x)
  | _, _ => none

def Test.frame? : Test → Formula → Option Frame
  | .between, x => some (.lower false x)
  | .like, x => some (.pattern x)
  | _, _ => none

def tightness : List Frame → Nat
  | .left _ op :: _ => level op
  | .sign op :: _ => signLevel op
  | .lower _ _ :: _ | .upper _ _ _ :: _ | .pattern _ :: _ => testLevel
  | _ => 0

/-- Builds the nodes on top of the stack that bind at least as tightly as level `n`. -/
def build (n : Nat) (x : Formula) : List Frame → Formula × List Frame
  | [] => (x, [])
  | f :: st =>
    match f.node? x with
    | some (m, y) => if n ≤ m then build n y st else (x, f :: st)
    | none => (x, f :: st)

mutual
def begin : List Frame → List Token → Option Formula
  | _, [] => none
  | st, t :: ts =>
    match signOf? t with
    | some op => if tightness st ≤ signLevel op then begin (.sign op :: st) ts else none
    | none =>
      if t = .sign ['('] then begin (.group :: st) ts
      else if isAtom t then resume closedLevel (.atom [t]) st ts
      else none
termination_by structural _ ts => ts
def resume : Nat → Formula → List Frame → List Token → Option Formula
  | _, x, st, [] =>
    match build 0 x st with
    | (y, []) => some y
    | _ => none
  | n, x, st, t :: ts =>
    match Mark.of t with
    | .operator op =>
      if n < level op then none
      else if tightness (build (level op) x st).2 < level op then
        begin (.left (build (level op) x st).1 op :: (build (level op) x st).2) ts
      else
        match op, build (level op) x st with
        | .and, (y, .lower negated z :: st) => begin (.upper negated z y :: st) ts
        | _, _ => none
    | .test k =>
      if k.least ≤ n ∧ tightness (build k.least x st).2 < testLevel then
        match k.frame? (build k.least x st).1 with
        | some f => begin (f :: (build k.least x st).2) ts
        | none => test k (build k.least x st).1 (build k.least x st).2 ts
      else none
    | .opening =>
      match word? x with
      | some w => inside [w, t] 0 st ts
      | none => none
    | .close =>
      match build 0 x st with
      | (y, .group :: st) => resume closedLevel y st ts
      | (y, .items z xs :: st) => resume testLevel (.isIn z (xs ++ [y])) st ts
      | _ => none
    | .comma =>
      match build 0 x st with
      | (y, .items z xs :: st) => begin (.items z (xs ++ [y]) :: st) ts
      | _ => none
    | .other => none
termination_by structural _ _ _ ts => ts
def test : Test → Formula → List Frame → List Token → Option Formula
  | _, _, _, [] => none
  | k, x, st, t :: ts =>
    match k with
    | .not => if Mark.of t = .test .between then begin (.lower true x :: st) ts else none
    | .isIn => if t = .sign ['('] then begin (.items x [] :: st) ts else none
    | .is =>
      if t = keyword "NULL" then resume testLevel (.isNull false x) st ts
      else if Mark.of t = .test .not then test .isNot x st ts
      else none
    | .isNot => if t = keyword "NULL" then resume testLevel (.isNull true x) st ts else none
    | _ => none
termination_by structural _ _ _ ts => ts
def inside : List Token → Nat → List Frame → List Token → Option Formula
  | _, _, _, [] => none
  | read, depth, st, t :: ts =>
    if isOpening t then inside (read ++ [t]) (depth + 1) st ts
    else if isClosing t then
      match depth with
      | 0 => resume closedLevel (.atom (read ++ [t])) st ts
      | depth + 1 => inside (read ++ [t]) depth st ts
    else inside (read ++ [t]) depth st ts
termination_by structural _ _ _ ts => ts
end

def read (t : String) : Option Formula := (tokens t).bind (begin [])

def Resumes (n : Nat) : List Token → Prop
  | [] => True
  | t :: _ =>
    match Mark.of t with
    | .operator op => level op ≤ n
    | .test k => k.least ≤ n
    | .close | .comma => True
    | .opening | .other => False

def Loose (n : Nat) : List Frame → Prop
  | .left _ op :: _ => level op < n
  | .sign op :: _ => signLevel op ≤ n
  | .lower _ _ :: _ | .upper _ _ _ :: _ | .pattern _ :: _ => testLevel < n
  | _ => True

variable {m n : Nat} {x y : Formula} {st : List Frame} {ts : List Token} {op : BinaryOp}

theorem Resumes.mono (h : m ≤ n) (hm : Resumes m ts) : Resumes n ts := by
  cases ts with
  | nil => trivial
  | cons t ts => cases e : Mark.of t <;> simp only [Resumes, e] at hm ⊢ <;> omega

theorem Resumes.test {k : Test} {t : Token} (ht : Mark.of t = .test k) (le : k.least ≤ n)
    (ts : List Token) : Resumes n (t :: ts) := by simp [Resumes, ht, le]

theorem Loose.mono (h : m ≤ n) (hm : Loose m st) : Loose n st := by
  cases st with
  | nil => trivial
  | cons f st => cases f <;> simp only [Loose] at hm ⊢ <;> omega

theorem Loose.tightness_le (h : Loose n st) : tightness st ≤ n := by
  cases st with
  | nil => simp [tightness]
  | cons f st => cases f <;> simp only [Loose] at h <;> simp only [tightness] <;> omega

theorem level_pos (op : BinaryOp) : 0 < level op := by cases op <;> decide

theorem Loose.tightness_lt (h : Loose (level op) st) : tightness st < level op := by
  have pos := level_pos op
  cases st with
  | nil => exact pos
  | cons f st =>
    cases f with
    | sign u => exact Nat.lt_of_le_of_ne h (signLevel_ne_level u op)
    | group | items => exact pos
    | _ => exact h

theorem Loose.build_eq (h : Loose (level op) st) (x : Formula) : build (level op) x st = (x, st) := by
  have lt := h.tightness_lt
  cases st with
  | nil => rfl
  | cons f st =>
    cases f <;> simp only [tightness] at lt <;> simp [build, Frame.node?, Nat.not_le.2 lt]

theorem resume_node {f : Frame} {k : Nat} (node : f.node? x = some (m, y)) (le : m ≤ k)
    (h : Resumes m ts) : resume k x (f :: st) ts = resume m y st ts := by
  have built {n : Nat} (le : n ≤ m) : build n x (f :: st) = build n y st := by
    simp [build, node, le]
  cases ts with
  | nil => simp [resume, built]
  | cons t ts =>
    simp only [Resumes] at h
    cases e : Mark.of t with
    | operator op =>
      rw [e] at h
      simp [resume, e, built h, Nat.not_lt.2 h, Nat.not_lt.2 (Nat.le_trans h le)]
    | test i =>
      rw [e] at h
      simp [resume, e, built h, h, Nat.le_trans h le]
    | close | comma => simp [resume, e, built]
    | opening | other => simp [e] at h

theorem resume_level (le : m ≤ n) (h : Resumes m ts) : resume n x st ts = resume m x st ts := by
  cases ts with
  | nil => simp [resume]
  | cons t ts =>
    simp only [Resumes] at h
    cases e : Mark.of t with
    | operator op =>
      rw [e] at h
      simp [resume, e, Nat.not_lt.2 h, Nat.not_lt.2 (Nat.le_trans h le)]
    | test i =>
      rw [e] at h
      simp [resume, e, h, Nat.le_trans h le]
    | close | comma => simp [resume, e]
    | opening | other => simp [e] at h

def ReadsAlone (n : Nat) (ts : List Token) (x : Formula) : Prop :=
  ∀ st rest, Loose n st → Resumes n rest → begin st (ts ++ rest) = resume n x st rest

def ReadsBehind (op : BinaryOp) (ts : List Token) (f : Formula → Formula) : Prop :=
  ∀ y st rest, Loose (level op) st → Resumes (level op) rest →
    begin (.left y op :: st) (ts ++ rest) = resume (level op) (f y) st rest

variable {us vs : List Token} {z : Formula} {f g : Formula → Formula} {t : Token}

theorem ReadsAlone.mono (h : ReadsAlone n ts x) (le : m ≤ n) : ReadsAlone m ts x := by
  intro st rest hst hrest
  rw [h _ _ (hst.mono le) (hrest.mono le), resume_level le hrest]

theorem ReadsAlone.behind (h : ReadsAlone n ts x) (lt : level op < n) :
    ReadsBehind op ts (fun y => .binary op y x) := by
  intro y st rest _ hrest
  have le := Nat.le_of_lt lt
  have loose : Loose n (.left y op :: st) := lt
  rw [h _ _ loose (hrest.mono le), resume_node rfl le hrest]

theorem resume_operator (ht : Mark.of t = .operator op) (h : Loose (level op) st) (x : Formula)
    (ts : List Token) : resume (level op) x st (t :: ts) = begin (.left x op :: st) ts := by
  simp [resume, ht, h.build_eq, h.tightness_lt]

theorem ReadsAlone.binary (ht : Mark.of t = .operator op) (hl : ReadsAlone (level op) ts x)
    (hr : ReadsBehind op us f) : ReadsAlone (level op) (ts ++ t :: us) (f x) := by
  intro st rest hst hrest
  have follows : Resumes (level op) (t :: (us ++ rest)) := by simp [Resumes, ht]
  rw [List.append_assoc, List.cons_append, hl _ _ hst follows, resume_operator ht hst]
  exact hr _ _ _ hst hrest

theorem ReadsBehind.binary {op' : BinaryOp} (ht : Mark.of t = .operator op)
    (same : level op' = level op) (hl : ReadsBehind op' ts f) (hr : ReadsBehind op us g) :
    ReadsBehind op' (ts ++ t :: us) (fun y => g (f y)) := by
  intro y st rest hst hrest
  have follows : Resumes (level op') (t :: (us ++ rest)) := by simp [Resumes, ht, same]
  rw [List.append_assoc, List.cons_append, hl _ _ _ hst follows]
  rw [same] at hst hrest ⊢
  rw [resume_operator ht hst]
  exact hr _ _ _ hst hrest

theorem ReadsAlone.unary {u : UnaryOp} (ht : signOf? t = some u) (le : signLevel u ≤ n)
    (h : ReadsAlone n ts x) : ReadsAlone (signLevel u) (t :: ts) (.unary u x) := by
  intro st rest hst hrest
  have loose : Loose n (.sign u :: st) := le
  simp only [List.cons_append, begin, ht, hst.tightness_le, if_true]
  rw [h _ _ loose (hrest.mono le), resume_node rfl le hrest]

theorem signOf?_of_isAtom (ht : isAtom t = true) : signOf? t = none := by
  cases t with
  | word cs => simp_all [isAtom, keywords, signOf?]
  | text cs => rfl
  | sign cs => cases ht

theorem begin_atom (ht : isAtom t = true) (st : List Frame) (ts : List Token) :
    begin st (t :: ts) = resume closedLevel (.atom [t]) st ts := by
  have paren : t ≠ .sign ['('] := by
    rintro rfl
    cases ht
  simp [begin, signOf?_of_isAtom ht, paren, ht]

theorem ReadsAlone.atom (ht : isAtom t = true) : ReadsAlone closedLevel [t] (.atom [t]) :=
  fun st rest _ _ => begin_atom ht st rest

theorem ReadsAlone.parenthesized (h : ReadsAlone n ts x) :
    ReadsAlone closedLevel (.sign ['('] :: (ts ++ [.sign [')']])) x := by
  intro st rest _ _
  have group : Loose n (.group :: st) := trivial
  have close : Resumes n (.sign [')'] :: rest) := trivial
  simp only [List.cons_append, List.append_assoc, List.nil_append]
  change begin (.group :: st) (ts ++ .sign [')'] :: rest) = _
  rw [h _ _ group close]
  rfl

/-- In brackets the tokens are passed over; they close what they open. -/
def Passes (ts : List Token) : Prop :=
  ∀ read depth st rest, inside read depth st (ts ++ rest) = inside (read ++ ts) depth st rest

namespace Passes

theorem nil : Passes [] := fun read depth st rest => by rw [List.nil_append, List.append_nil]

theorem append (ht : Passes ts) (hu : Passes us) : Passes (ts ++ us) := fun read depth st rest => by
  rw [List.append_assoc, ht, hu, List.append_assoc]

theorem single (opening : isOpening t = false) (closing : isClosing t = false) : Passes [t] :=
  fun read depth st rest => by simp [inside, opening, closing]

theorem cons (opening : isOpening t = false) (closing : isClosing t = false) (h : Passes ts) :
    Passes (t :: ts) :=
  (single opening closing).append h

theorem enclosed {o c : Token} (opening : isOpening o = true) (other : isOpening c = false)
    (closing : isClosing c = true) (h : Passes ts) : Passes (o :: (ts ++ [c])) := by
  intro read depth st rest
  simp [inside, opening, other, closing, h _ (depth + 1)]

end Passes

theorem Mark.of_opening {o : Token} (opening : isOpening o = true) : Mark.of o = .opening := by
  have : o = .sign ['('] ∨ o = .sign ['['] := by simpa [isOpening] using opening
  rcases this with rfl | rfl <;> rfl

theorem ReadsAlone.enclosed {w o c : Token} (word : word? (.atom [w]) = some w)
    (free : isAtom w = true) (opening : isOpening o = true) (other : isOpening c = false)
    (closing : isClosing c = true) (h : Passes ts) :
    ReadsAlone closedLevel (w :: o :: (ts ++ [c])) (.atom (w :: o :: (ts ++ [c]))) := by
  intro st rest _ _
  simp only [List.cons_append, List.append_assoc, List.nil_append]
  rw [begin_atom free]
  simp only [resume, Mark.of_opening opening, word]
  rw [h]
  simp [inside, other, closing]

theorem resume_test {k : Test} (ht : Mark.of t = .test k) (least : k.least = n)
    (hst : Loose testLevel st) (x : Formula) (ts : List Token) :
    resume n x st (t :: ts) =
      match k.frame? x with
      | some f => begin (f :: st) ts
      | none => test k x st ts := by
  obtain ⟨op, rfl, tests⟩ : ∃ op, n = level op ∧ testLevel ≤ level op := by
    rw [← least]
    cases k <;> first | exact ⟨.add, rfl, by decide⟩ | exact ⟨.eq, rfl, by decide⟩
  simp [resume, ht, least, (hst.mono tests).build_eq, hst.tightness_lt]

def betweenTokens (negated : Bool) : List Token :=
  if negated then [keyword "NOT", keyword "BETWEEN"] else [keyword "BETWEEN"]

def nullTokens (negated : Bool) : List Token :=
  if negated then [keyword "IS", keyword "NOT", keyword "NULL"] else [keyword "IS", keyword "NULL"]

theorem resume_between (negated : Bool) (hst : Loose testLevel st) (x : Formula) (ts : List Token) :
    resume sumLevel x st (betweenTokens negated ++ ts) = begin (.lower negated x :: st) ts := by
  have between : Mark.of (keyword "BETWEEN") = .test .between := by decide
  have not : Mark.of (keyword "NOT") = .test .not := by decide
  cases negated with
  | false => exact resume_test (n := sumLevel) between rfl hst x ts
  | true =>
    rw [betweenTokens, if_pos rfl, List.cons_append, resume_test (n := sumLevel) not rfl hst]
    simp [Test.frame?, test, between]

theorem resume_null (negated : Bool) (hst : Loose testLevel st) (x : Formula) (ts : List Token) :
    resume testLevel x st (nullTokens negated ++ ts) = resume testLevel (.isNull negated x) st ts := by
  have is : Mark.of (keyword "IS") = .test .is := by decide
  have not : Mark.of (keyword "NOT") = .test .not := by decide
  have other : keyword "NOT" ≠ keyword "NULL" := by decide
  cases negated with
  | false =>
    rw [nullTokens, if_neg Bool.false_ne_true, List.cons_append, resume_test (n := testLevel) is rfl hst]
    simp [Test.frame?, test]
  | true =>
    rw [nullTokens, if_pos rfl, List.cons_append, resume_test (n := testLevel) is rfl hst]
    simp [Test.frame?, test, other, not]

theorem ReadsAlone.isNull (negated : Bool) (h : ReadsAlone testLevel ts x) :
    ReadsAlone testLevel (ts ++ nullTokens negated) (.isNull negated x) := by
  intro st rest hst hrest
  have is : Mark.of (keyword "IS") = .test .is := by decide
  have follows : Resumes testLevel (nullTokens negated ++ rest) := by
    cases negated <;> exact .test is (Nat.le_refl _) _
  rw [List.append_assoc, h _ _ hst follows, resume_null negated hst]

theorem resume_lower (negated : Bool) (x y : Formula) (st : List Frame) (ts : List Token) :
    resume sumLevel y (.lower negated x :: st) (keyword "AND" :: ts) =
      begin (.upper negated x y :: st) ts := by
  have and : Mark.of (keyword "AND") = .operator .and := by decide
  have tight : ¬ sumLevel < level .and := by decide
  have loose : ¬ testLevel < level .and := by decide
  simp [resume, and, tight, build, Frame.node?, tightness, loose]

theorem ReadsAlone.between (negated : Bool) (hx : ReadsAlone sumLevel ts x)
    (hy : ReadsAlone sumLevel us y) (hz : ReadsAlone sumLevel vs z) :
    ReadsAlone testLevel (ts ++ (betweenTokens negated ++ (us ++ keyword "AND" :: vs)))
      (.between negated x y z) := by
  intro st rest hst hrest
  have tests : testLevel < sumLevel := by decide
  have between (ts : List Token) : Resumes sumLevel (betweenTokens negated ++ ts) := by
    have between : Mark.of (keyword "BETWEEN") = .test .between := by decide
    have not : Mark.of (keyword "NOT") = .test .not := by decide
    cases negated with
    | false => exact .test between (Nat.le_refl _) _
    | true => exact .test not (Nat.le_refl _) _
  have and : Resumes sumLevel (keyword "AND" :: (vs ++ rest)) := by
    have and : Mark.of (keyword "AND") = .operator .and := by decide
    have looser : level .and ≤ sumLevel := by decide
    simp [Resumes, and, looser]
  have lower : Loose sumLevel (.lower negated x :: st) := tests
  have upper : Loose sumLevel (.upper negated x y :: st) := tests
  simp only [List.append_assoc, List.cons_append]
  rw [hx _ _ (hst.mono (Nat.le_of_lt tests)) (between _), resume_between negated hst,
    hy _ _ lower and, resume_lower, hz _ _ upper (hrest.mono (Nat.le_of_lt tests))]
  exact resume_node rfl (Nat.le_of_lt tests) hrest

theorem ReadsAlone.like (hx : ReadsAlone sumLevel ts x) (hy : ReadsAlone sumLevel us y) :
    ReadsAlone testLevel (ts ++ keyword "LIKE" :: us) (.like x y) := by
  intro st rest hst hrest
  have tests : testLevel < sumLevel := by decide
  have like : Mark.of (keyword "LIKE") = .test .like := by decide
  have follows : Resumes sumLevel (keyword "LIKE" :: (us ++ rest)) := .test like (Nat.le_refl _) _
  have pattern : Loose sumLevel (.pattern x :: st) := tests
  rw [List.append_assoc, List.cons_append, hx _ _ (hst.mono (Nat.le_of_lt tests)) follows,
    resume_test (n := sumLevel) like rfl hst]
  change begin (.pattern x :: st) (us ++ rest) = _
  rw [hy _ _ pattern (hrest.mono (Nat.le_of_lt tests))]
  exact resume_node rfl (Nat.le_of_lt tests) hrest

inductive ReadsItems : List Token → List Formula → Prop
  | one {n : Nat} {ts : List Token} {x : Formula} : ReadsAlone n ts x → ReadsItems ts [x]
  | cons {n : Nat} {ts us : List Token} {x : Formula} {xs : List Formula} : ReadsAlone n ts x →
    ReadsItems us xs → ReadsItems (ts ++ .sign [','] :: us) (x :: xs)

theorem ReadsItems.begin_eq {xs : List Formula} (h : ReadsItems ts xs) (x : Formula)
    (ys : List Formula) (st : List Frame) (rest : List Token) :
    begin (.items x ys :: st) (ts ++ .sign [')'] :: rest) =
      resume testLevel (.isIn x (ys ++ xs)) st rest := by
  induction h generalizing ys with
  | @one n ts y hy =>
    have close : Resumes n (.sign [')'] :: rest) := trivial
    rw [hy (.items x ys :: st) _ trivial close]
    rfl
  | @cons n ts us y xs hy _ ih =>
    have comma : Resumes n (.sign [','] :: (us ++ .sign [')'] :: rest)) := trivial
    rw [List.append_assoc, List.cons_append, hy (.items x ys :: st) _ trivial comma]
    change begin (.items x (ys ++ [y]) :: st) (us ++ .sign [')'] :: rest) = _
    rw [ih, List.append_assoc, List.singleton_append]

theorem ReadsAlone.isIn {xs : List Formula} (hx : ReadsAlone sumLevel ts x)
    (hxs : ReadsItems us xs) :
    ReadsAlone testLevel (ts ++ keyword "IN" :: .sign ['('] :: (us ++ [.sign [')']])) (.isIn x xs) := by
  intro st rest hst hrest
  have tests : testLevel < sumLevel := by decide
  have isIn : Mark.of (keyword "IN") = .test .isIn := by decide
  have follows : Resumes sumLevel (keyword "IN" :: .sign ['('] :: (us ++ .sign [')'] :: rest)) :=
    .test isIn (Nat.le_refl _) _
  simp only [List.append_assoc, List.cons_append, List.nil_append]
  rw [hx _ _ (hst.mono (Nat.le_of_lt tests)) follows, resume_test (n := sumLevel) isIn rfl hst]
  change begin (.items x [] :: st) (us ++ .sign [')'] :: rest) = _
  exact hxs.begin_eq x [] st rest

end Formula
end StreamSql.Reading
