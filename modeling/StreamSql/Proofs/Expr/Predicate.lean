import StreamSql.Proofs.Expr.FactorOrder
import StreamSql.Proofs.Expr.StringTest
import StreamSql.Proofs.Reading.Constant

namespace StreamSql

open Reading Formula

namespace Expr

inductive IsConstants : List Value → Expr → Prop
  | constant {vs : List Value} : IsConstants vs (.constant (.array vs))
  | array {vs : List Value} : IsConstants vs (.array (vs.map .constant))

def betweenMethod (negated : Bool) : Method := if negated then .notBetween else .between

/-- An expression of columns and constants under operators, `NOT` and tests, and the formula that
it is. -/
inductive IsFormula (s : Scope) : Expr → Formula → Prop
  | column {e : Expr} {c : String} : e.column? s = some c → IsName c → isAtom (.word c.toList) = true →
    IsFormula s e (.atom [.word c.toList])
  | constant {v : Value} : v.IsReadable s.separator → IsFormula s (.constant v) (v.formula s.style)
  | binary {op : BinaryOp} {l r : Expr} {x y : Formula} : op ≠ .index → op.nullTest? l r = none →
    IsFormula s l x → IsFormula s r y → IsFormula s (.binary op l r) (.binary op x y)
  | nullRight {op : BinaryOp} {l r : Expr} {x : Formula} : op.nullTest? l r = some false →
    IsFormula s l x → IsFormula s (.binary op l r) (.isNull (op = .ne) x)
  | nullLeft {op : BinaryOp} {l r : Expr} {x : Formula} : op.nullTest? l r = some true →
    IsFormula s r x → IsFormula s (.binary op l r) (.isNull (op = .ne) x)
  | not {e : Expr} {x : Formula} : IsFormula s e x → IsFormula s (.unary .not e) (.unary .not x)
  | between {negated : Bool} {target : Option Expr} {args : List Expr} {e low high : Expr}
    {x y z : Formula} : target.toList ++ args = [e, low, high] → IsFormula s e x →
    IsFormula s low y → IsFormula s high z →
    IsFormula s (.call target (betweenMethod negated) args) (.between negated x y z)
  | isIn {target : Option Expr} {args : List Expr} {list e : Expr} {vs : List Value} {x : Formula} :
    target.toList ++ args = [list, e] → IsConstants vs list → vs ≠ [] →
    (∀ v ∈ vs, v.IsReadable s.separator) → IsFormula s e x →
    IsFormula s (.call target .contains args) (.isIn x (vs.map (Value.formula s.style)))
  | like {test : StringTest} {target : Option Expr} {args : List Expr} {e : Expr} {needle : String}
    {x : Formula} : target.toList ++ args = [e, .constant (.string needle)] → test.Suits s e →
    '\x27' ∉ needle.toList → IsFormula s e x →
    IsFormula s (.call target test.method args) (.like x (.atom [.text (test.pattern needle).toList]))

def formulaLevel : Expr → Nat
  | .binary op _ _ => Reading.level op
  | .unary op _ => signLevel op
  | .call _ _ _ => testLevel
  | _ => signLevel .negate

/-- Whether `e` may be regrouped as the right side of the operator. -/
def regroupsUnder (op : BinaryOp) : Expr → Bool
  | .binary op' l r => op.regroups op' && !(Expr.binary op' l r).startsInQuotient
  | _ => false

def holdsLeft (op : BinaryOp) (l : Expr) : Bool :=
  op.needsParens false l || Reading.level op ≤ l.formulaLevel

/-- Whether the right side of the operator has parentheses where it does not bind tighter, if that makes
a difference. -/
def holdsRight (op : BinaryOp) (r : Expr) : Bool :=
  op.needsParens true r || Reading.level op < r.formulaLevel || r.regroupsUnder op

mutual
def isBracketed : Expr → Bool
  | .binary op l r =>
    match op.nullTest? l r with
    | some false => l.holdsLeft op && l.isBracketed
    | some true => r.holdsLeft op && r.isBracketed
    | none => l.holdsLeft op && r.holdsRight op && l.isBracketed && r.isBracketed
  | .unary _ e => e.isBracketed
  | .call target _ args => isTargetBracketed target && areOperandsBracketed args
  | _ => true
termination_by structural e => e
def isTargetBracketed : Option Expr → Bool
  | none => true
  | some e => sumLevel ≤ e.formulaLevel && e.isBracketed
termination_by structural e => e
def areOperandsBracketed : List Expr → Bool
  | [] => true
  | e :: es => sumLevel ≤ e.formulaLevel && e.isBracketed && areOperandsBracketed es
termination_by structural es => es
end

variable {key : KeyText} {s : Scope} {e l r : Expr} {t tl tr : String} {x y : Formula}
  {op op' : BinaryOp}

theorem operands_of_isBracketed {target : Option Expr} {method : Method} {args : List Expr}
    (h : (Expr.call target method args).isBracketed = true) :
    ∀ e ∈ target.toList ++ args, sumLevel ≤ e.formulaLevel ∧ e.isBracketed = true := by
  have items : ∀ es, areOperandsBracketed es = true →
      ∀ e ∈ es, sumLevel ≤ e.formulaLevel ∧ e.isBracketed = true := by
    intro es h
    induction es with
    | nil => exact List.forall_mem_nil _
    | cons e es ih =>
      simp only [areOperandsBracketed, Bool.and_eq_true, decide_eq_true_eq] at h
      exact List.forall_mem_cons.2 ⟨h.1, ih h.2⟩
  simp only [isBracketed, Bool.and_eq_true] at h
  obtain ⟨receiver, rest⟩ := h
  cases target with
  | none => exact items args rest
  | some e =>
    simp only [isTargetBracketed, Bool.and_eq_true, decide_eq_true_eq] at receiver
    exact List.forall_mem_cons.2 ⟨receiver, items args rest⟩

theorem reads_left (holds : l.holdsLeft op = true) (h : Reads l.formulaLevel t x) :
    Reads (Reading.level op) (op.operandText false l t) x := by
  unfold BinaryOp.operandText
  split
  · exact h.parenthesized.mono (Nat.le_of_lt (level_lt_closedLevel op))
  · next parens =>
    simp only [holdsLeft, Bool.or_eq_true, decide_eq_true_eq, parens, Bool.false_eq_true,
      false_or] at holds
    exact h.mono holds

theorem reads_right (holds : r.holdsRight op = true) (h : Reads r.formulaLevel t x)
    (regroups : r.regroupsUnder op = true → ReadsRight op t x) :
    ReadsRight op (op.operandText true r t) x := by
  unfold BinaryOp.operandText
  split
  · exact h.parenthesized.right (level_lt_closedLevel op)
  · next parens =>
    simp only [holdsRight, Bool.or_eq_true, decide_eq_true_eq, parens, Bool.false_eq_true,
      false_or] at holds
    exact holds.elim h.right regroups

theorem level_of_regroupsUnder (regroups : (Expr.binary op l r).regroupsUnder op' = true) :
    op'.regroups op = true ∧ Reading.level op' = Reading.level op := by
  cases op' <;> cases op <;> simp_all [regroupsUnder, BinaryOp.regroups, Reading.level]

theorem regroupsUnder_left (regroups : (Expr.binary op l r).regroupsUnder op' = true)
    (same : l.formulaLevel = Reading.level op) : l.regroupsUnder op' = true := by
  cases l with
  | binary inner a b =>
    cases op' <;> cases op <;> cases inner <;>
      simp_all [regroupsUnder, BinaryOp.regroups, startsInQuotient, formulaLevel, Reading.level]
  | unary u => exact absurd same (signLevel_ne_level u op)
  | call =>
    obtain ⟨regroup, -⟩ := level_of_regroupsUnder regroups
    have same : testLevel = Reading.level op := same
    cases op' <;> cases op <;>
      first | exact absurd same (by decide) | exact absurd regroup (by decide)
  | _ => exact absurd same (signLevel_ne_level .negate op)

theorem reads_leftmost (holds : l.holdsLeft op = true) (h : Reads l.formulaLevel t x)
    (regroups : (Expr.binary op l r).regroupsUnder op' = true)
    (below : l.regroupsUnder op' = true → ReadsRight op' t x) :
    ReadsRight op' (op.operandText false l t) x := by
  obtain ⟨-, same⟩ := level_of_regroupsUnder regroups
  unfold BinaryOp.operandText
  split
  · exact h.parenthesized.right (level_lt_closedLevel op')
  · next parens =>
    simp only [holdsLeft, Bool.or_eq_true, decide_eq_true_eq, parens, Bool.false_eq_true,
      false_or] at holds
    rcases Nat.lt_or_eq_of_le holds with tighter | equal
    · exact h.right (same ▸ tighter)
    · exact below (regroupsUnder_left regroups equal.symm)

def ReadsFormula (key : KeyText) (s : Scope) (e : Expr) (x : Formula) : Prop :=
  ∃ t, e.compile key s = .ok t ∧ Reads e.formulaLevel t x ∧
    ∀ op, e.regroupsUnder op = true → ReadsRight op t x

theorem ReadsFormula.of_closed (text : e.compile key s = .ok t) (h : Reads e.formulaLevel t x)
    (closed : ∀ op, e.regroupsUnder op = false) : ReadsFormula key s e x :=
  ⟨t, text, h, fun op regroups => by rw [closed op] at regroups; cases regroups⟩

theorem ReadsFormula.binary (index : op ≠ .index) (test : op.nullTest? l r = none)
    (left : l.holdsLeft op = true) (right : r.holdsRight op = true) (hl : ReadsFormula key s l x)
    (hr : ReadsFormula key s r y) : ReadsFormula key s (.binary op l r) (.binary op x y) := by
  obtain ⟨tl, textL, readsL, regroupsL⟩ := hl
  obtain ⟨tr, textR, readsR, regroupsR⟩ := hr
  have sideR := reads_right right readsR (regroupsR op)
  refine ⟨_, compile_binary test index textL textR, .binary index (reads_left left readsL) sideR,
    fun op' regroups => ?_⟩
  obtain ⟨regroup, same⟩ := level_of_regroupsUnder regroups
  exact .binary index regroup same (reads_leftmost left readsL regroups (regroupsL op')) sideR

theorem reads_nullTest (comparison : op = .eq ∨ op = .ne) (left : e.holdsLeft op = true)
    (h : Reads e.formulaLevel t x) :
    Reads (Reading.level op) (op.nullText (op.operandText false e t)) (.isNull (op = .ne) x) := by
  have side := reads_left left h
  rcases comparison with rfl | rfl
  · exact side.isNull false
  · exact side.isNull true

theorem regroupsUnder_comparison (comparison : op = .eq ∨ op = .ne) (op' : BinaryOp) :
    (Expr.binary op l r).regroupsUnder op' = false := by
  rcases comparison with rfl | rfl <;> cases op' <;> rfl

theorem IsFormula.negated (h : e.IsFormula s x) (reads : Reads e.formulaLevel t x) :
    Reads (signLevel .not) (UnaryOp.not.text e t) (.unary .not x) := by
  have bare (level : signLevel .not ≤ e.formulaLevel) (wrap : UnaryOp.not.needsParens e t = false) :
      Reads (signLevel .not) (UnaryOp.not.text e t) (.unary .not x) := by
    simp only [UnaryOp.text, wrap, Bool.false_eq_true, if_false]
    exact reads.not level
  have wrapped (wrap : UnaryOp.not.needsParens e t = true) :
      Reads (signLevel .not) (UnaryOp.not.text e t) (.unary .not x) := by
    simp only [UnaryOp.text, wrap, if_true]
    exact reads.parenthesized.not (by decide)
  cases h with
  | column hc =>
    obtain ⟨p, name, rename, i, rfl, -, -⟩ := column?_eq_some hc
    exact bare (Nat.le_of_ble_eq_true rfl) rfl
  | binary index => exact wrapped (by simpa [UnaryOp.needsParens] using index)
  | nullRight test | nullLeft test =>
    refine wrapped ?_
    rcases (BinaryOp.of_nullTest? test).1 with rfl | rfl <;> rfl
  | _ => exact bare (Nat.le_of_ble_eq_true rfl) rfl

theorem compile_between {negated : Bool} {target : Option Expr} {args : List Expr} {low high : Expr}
    {tx tl th : String} (split : target.toList ++ args = [e, low, high])
    (textX : e.compile key s = .ok tx) (textL : low.compile key s = .ok tl)
    (textH : high.compile key s = .ok th) :
    (Expr.call target (betweenMethod negated) args).compile key s =
      .ok (tx ++ " " ++ (if negated then "NOT BETWEEN" else "BETWEEN") ++ " " ++ tl ++ " AND " ++ th) := by
  have textX : (e.part key).text s = .ok tx := textX
  have textL : (low.part key).text s = .ok tl := textL
  have textH : (high.part key).text s = .ok th := textH
  have method : (Expr.call target (betweenMethod negated) args).compile key s =
      betweenText (if negated then "NOT BETWEEN" else "BETWEEN") (target.map (Expr.part key))
        (args.map (Expr.part key)) s := by
    rw [compile, targetPart_eq_map, parts_eq_map]
    cases negated <;> rfl
  simp only [method, betweenText, Visit.splitReceiver_eq _ key split, Compiled.ok_bind, List.map_cons,
    List.map_nil, textX, textL, textH]

theorem IsConstants.listLength? {vs : List Value} {list : Expr} (h : IsConstants vs list) :
    (list.part key).listLength? = some vs.length := by
  cases h with
  | constant => rfl
  | array => simp [part, Part.listLength?]

theorem itemTexts_constants (key : KeyText) (s : Scope) (vs : List Value) :
    itemTexts key (vs.map .constant) s = .ok (vs.map (Value.literal s.style)) := by
  induction vs with
  | nil => rfl
  | cons v vs ih => simp only [List.map_cons, itemTexts, compile, ih, Compiled.ok_bind]

theorem IsConstants.listText {vs : List Value} {list : Expr} (h : IsConstants vs list) :
    Part.listText s (list.part key) = .ok (Text.join ", " (vs.map (Value.literal s.style))) := by
  cases h with
  | constant =>
    have nested : ({ s.style with membership := true } : LiteralStyle).nested = s.style := rfl
    simp only [part, Part.listText, Value.literal, if_true, nested, Value.literals_eq_map]
  | array =>
    have items : listTexts key (.array (vs.map .constant)) s = _ := itemTexts_constants key s vs
    simp only [part, Part.listText, items, Compiled.ok_bind]

theorem compile_isIn {target : Option Expr} {args : List Expr} {list : Expr} {vs : List Value}
    (split : target.toList ++ args = [list, e]) (constants : IsConstants vs list) (ne : vs ≠ [])
    (text : e.compile key s = .ok t) :
    (Expr.call target .contains args).compile key s =
      .ok (t ++ " IN " ++ parens (Text.join ", " (vs.map (Value.literal s.style)))) := by
  have text : (e.part key).text s = .ok t := text
  obtain ⟨n, length⟩ : ∃ n, vs.length = n + 1 :=
    Nat.exists_eq_succ_of_ne_zero fun empty => ne (List.eq_nil_of_length_eq_zero empty)
  simp only [compile, targetPart_eq_map, parts_eq_map, Method.text, Callee.oneArgument,
    Visit.splitReceiver_eq _ key split, Compiled.ok_bind, List.map_cons, List.map_nil, containsText,
    constants.listLength?, length, text, constants.listText]

theorem IsFormula.reads (key : KeyText) (h : e.IsFormula s x) (bracketed : e.isBracketed = true) :
    ReadsFormula key s e x := by
  induction h with
  | @column e c hc name free =>
    have level : e.formulaLevel ≤ closedLevel := by
      obtain ⟨p, name', rename, i, rfl, -, -⟩ := column?_eq_some hc
      exact Nat.le_of_ble_eq_true rfl
    have atom : Reads closedLevel c (.atom [.word c.toList]) :=
      ⟨_, _, .word (by simpa using name.ne) name.letters, .atom free, .refl _⟩
    refine .of_closed (compile_column key hc) (atom.mono level) fun op => ?_
    obtain ⟨p, name', rename, i, rfl, -, -⟩ := column?_eq_some hc
    rfl
  | @constant v readable => exact .of_closed rfl (readable.reads rfl) fun _ => rfl
  | @binary op l r x y index test _ _ ihl ihr =>
    simp only [isBracketed, test, Bool.and_eq_true] at bracketed
    obtain ⟨⟨⟨left, right⟩, bracketedL⟩, bracketedR⟩ := bracketed
    exact .binary index test left right (ihl bracketedL) (ihr bracketedR)
  | @nullRight op l r x test _ ih | @nullLeft op l r x test _ ih =>
    simp only [isBracketed, test, Bool.and_eq_true] at bracketed
    obtain ⟨t, text, reads, -⟩ := ih bracketed.2
    have comparison := (BinaryOp.of_nullTest? test).1
    exact .of_closed (by simp only [compile, test, text]; rfl)
      (reads_nullTest comparison bracketed.1 reads)
      (regroupsUnder_comparison comparison)
  | @not e x he ih =>
    obtain ⟨t, text, reads, -⟩ := ih bracketed
    exact .of_closed (by rw [compile, text]; rfl) (he.negated reads) fun _ => rfl
  | @between negated target args e low high x y z split _ _ _ ihx ihl ihh =>
    have operands := operands_of_isBracketed bracketed
    rw [split] at operands
    obtain ⟨levelX, bracketedX⟩ := operands e (by simp)
    obtain ⟨levelL, bracketedL⟩ := operands low (by simp)
    obtain ⟨levelH, bracketedH⟩ := operands high (by simp)
    obtain ⟨tx, textX, readsX, -⟩ := ihx bracketedX
    obtain ⟨tl, textL, readsL, -⟩ := ihl bracketedL
    obtain ⟨th, textH, readsH, -⟩ := ihh bracketedH
    exact .of_closed (compile_between split textX textL textH)
      (.between negated (readsX.mono levelX) (readsL.mono levelL) (readsH.mono levelH)) fun _ => rfl
  | @isIn target args list e vs x split constants ne readable _ ih =>
    have operands := operands_of_isBracketed bracketed
    rw [split] at operands
    obtain ⟨level, bracketed⟩ := operands e (by simp)
    obtain ⟨t, text, reads, -⟩ := ih bracketed
    exact .of_closed (compile_isIn split constants ne text)
      (.isIn (reads.mono level) (readsList_literals ne readable rfl)) fun _ => rfl
  | @like test target args e needle x split suits free _ ih =>
    have operands := operands_of_isBracketed bracketed
    rw [split] at operands
    obtain ⟨level, bracketed⟩ := operands e (by simp)
    obtain ⟨t, text, reads, -⟩ := ih bracketed
    have inside : '\x27' ∉ (test.pattern needle).toList := by
      cases test <;> simp [StringTest.pattern, free]
    exact .of_closed (StringTest.compile_method split suits text)
      (.like (reads.mono level) inside) fun _ => rfl

/-- Where no operand lacks parentheses the text is read as a formula that says what the expression
does. -/
theorem IsFormula.read_same (key : KeyText) (h : e.IsFormula s x) (bracketed : e.isBracketed = true) :
    ∃ t y, e.compile key s = .ok t ∧ Formula.read t = some y ∧ y.Same x := by
  obtain ⟨t, text, reads, -⟩ := h.reads key bracketed
  obtain ⟨y, read, same⟩ := reads.exists_read
  exact ⟨t, y, text, read, same⟩

private abbrev bookings : Scope := ⟨[⟨"BOOKINGS", none, none⟩], [("b", .source 0)], [], false, '.'⟩

private abbrev booked (name : String) : Expr := .member (.parameter "b") name none

private theorem isFormula_booked (name : String) (h : IsName name)
    (free : isAtom (.word name.toList) = true) :
    (booked name).IsFormula bookings (.atom [.word name.toList]) := .column rfl h free

private theorem isFormula_int (n : Int64) :
    (Expr.constant (.int n)).IsFormula bookings (Value.formula bookings.style (.int n)) :=
  .constant (.scalar .int)

private abbrev offers : Expr :=
  .binary .and
    (.unary .not (.call (some (.binary .add (booked "NIGHTS") (.constant (.int 1))))
      (betweenMethod false) [.constant (.int 2), .binary .mul (booked "GUESTS") (.constant (.int 3))]))
    (.binary .or
      (.call (some (.constant (.array [.int 1, .int 2]))) .contains [booked "GUESTS"])
      (.call (some (booked "HOTEL")) StringTest.startsWith.method [.constant (.string "A")]))

theorem IsFormula.read_same_offers : offers.isBracketed = true ∧
    ∃ x t y, offers.IsFormula bookings x ∧ offers.compile noKey bookings = .ok t ∧
      Formula.read t = some y ∧ y.Same x := by
  have nights := isFormula_booked "NIGHTS" (by decide) (by decide)
  have guests := isFormula_booked "GUESTS" (by decide) (by decide)
  have hotel := isFormula_booked "HOTEL" (by decide) (by decide)
  have formula : offers.IsFormula bookings _ :=
    .binary (by decide) rfl
      (.not (.between rfl (.binary (by decide) rfl nights (isFormula_int 1))
        (isFormula_int 2) (.binary (by decide) rfl guests (isFormula_int 3))))
      (.binary (by decide) rfl
        (.isIn rfl .constant (by simp) (by simpa using ⟨.scalar .int, .scalar .int⟩) guests)
        (.like rfl trivial (by decide) hotel))
  obtain ⟨t, y, text, read, same⟩ := formula.read_same noKey rfl
  exact ⟨rfl, _, t, y, formula, text, read, same⟩

def rootLevel : Meaning Nat where
  atom _ := closedLevel
  binary op _ _ := Reading.level op
  unary op _ := signLevel op
  isNull _ _ := testLevel
  between _ _ _ _ := testLevel
  isIn _ _ := testLevel
  like _ _ := testLevel
  regroup {op op'} h _ _ _ := by cases op <;> cases op' <;> first | rfl | cases h

theorem not_read_same :
    ¬ ∀ (s : Scope) (e : Expr) (x : Formula), e.IsFormula s x →
      ∃ t y, e.compile noKey s = .ok t ∧ Formula.read t = some y ∧ y.Same x := by
  intro claim
  have a := isFormula_booked "A" (by decide) (by decide)
  have b := isFormula_booked "B" (by decide) (by decide)
  have formula : (Expr.call (some (.constant (.array [.bool false]))) .contains
      [.binary .or (booked "A") (booked "B")]).IsFormula bookings _ :=
    .isIn rfl .constant (by simp) (by simpa using .scalar .bool) (.binary (by decide) rfl a b)
  obtain ⟨t, y, text, read, same⟩ := claim bookings _ _ formula
  obtain rfl : "A OR B IN (False)" = t := Except.ok.inj text
  obtain rfl : Formula.binary .or (.atom [.word "A".toList])
      (.isIn (.atom [.word "B".toList]) [.atom [.word "False".toList]]) = y := Option.some.inj read
  have level : Reading.level .or = testLevel := same Nat rootLevel
  revert level
  decide

end Expr
end StreamSql
