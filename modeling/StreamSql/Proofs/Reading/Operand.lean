import StreamSql.Proofs.Reading.Reads

namespace StreamSql

open Reading

structure IsName (t : String) : Prop where
  ne : t ≠ ""
  letters : ∀ c ∈ t.toList, CharClass.of c = .letter
  free : isReserved t.toList = false
  head : ∀ c ∈ t.toList.head?, c.isDigit = false

instance (t : String) : Decidable (IsName t) :=
  decidable_of_iff
    (t ≠ "" ∧ t.toList.all (fun c => CharClass.of c = .letter) = true ∧
      isReserved t.toList = false ∧ t.toList.head?.all (fun c => !c.isDigit) = true)
    ⟨fun ⟨ne, letters, free, head⟩ =>
        ⟨ne, by simpa using letters, free, by simpa [Option.all_eq_true] using head⟩,
      fun ⟨ne, letters, free, head⟩ =>
        ⟨ne, by simpa using letters, free, by simpa [Option.all_eq_true] using head⟩⟩

def Reading.numeral? (cs : List Char) : Option Nat :=
  if cs.all Char.isDigit then some (Nat.ofDigitChars 10 cs 0) else none

namespace Expr

variable {s : Scope} {e : Expr}

def column? (s : Scope) : Expr → Option String
  | .member (.parameter p) name rename =>
    match s.lookup? p with
    | some (.source i) => some (s.columnText i name rename)
    | _ => none
  | _ => none

theorem column?_eq_some {c : String} (h : e.column? s = some c) :
    ∃ p name rename i, e = .member (.parameter p) name rename ∧
      s.lookup? p = some (.source i) ∧ c = s.columnText i name rename := by
  unfold column? at h
  split at h
  · split at h
    · exact ⟨_, _, _, _, rfl, ‹_›, by simpa using h.symm⟩
    · simp at h
  · simp at h

theorem compile_column (key : KeyText) {c : String} (h : e.column? s = some c) :
    e.compile key s = .ok c := by
  obtain ⟨p, name, rename, i, rfl, hp, rfl⟩ := column?_eq_some h
  simp [compile, access, hp]

theorem numeral?_name {c : String} (h : IsName c) : numeral? c.toList = none := by
  obtain ⟨d, ds, hd⟩ := List.exists_cons_of_ne_nil (by simpa using h.ne : c.toList ≠ [])
  have : d.isDigit = false := h.head d (by simp [hd])
  simp [numeral?, hd, this]

theorem numeral?_toDigits (n : Nat) : numeral? (Nat.toDigits 10 n) = some n := by
  have digits : (Nat.toDigits 10 n).all Char.isDigit = true :=
    List.all_eq_true.2 fun _ hc => Nat.isDigit_of_mem_toDigits (by decide) (by decide) hc
  simp [numeral?, digits]

theorem toList_toString_of_nonneg {n : Int} (h : 0 ≤ n) :
    (toString n).toList = Nat.toDigits 10 n.toNat := by
  simp [Int.toString_eq_repr, Int.repr_eq_if, h]

theorem letters_number {n : Int} (h : 0 ≤ n) : toString n ≠ "" ∧
    (∀ c ∈ (toString n).toList, CharClass.of c = .letter) ∧ isReserved (toString n).toList = false := by
  have digits := toList_toString_of_nonneg h
  have isDigit {c : Char} (hc : c ∈ Nat.toDigits 10 n.toNat) : c.isDigit = true :=
    Nat.isDigit_of_mem_toDigits (by decide) (by decide) hc
  obtain ⟨d, ds, hd⟩ := List.exists_cons_of_ne_nil (Nat.toDigits_ne_nil (n := n.toNat) (b := 10))
  refine ⟨fun e => ?_, fun c hc => letter_of_isDigit (isDigit (digits ▸ hc)), ?_⟩
  · simp [e] at digits
  · rw [digits, hd]
    exact not_isReserved_of_isDigit (isDigit (hd ▸ List.mem_cons_self)) ds

theorem reads_number {n : Int} (h : 0 ≤ n) :
    ∃ cs, Reads closedLevel (toString n) (.leaf (.word cs)) (Term.leaf (.word cs)).closed ∧
      (numeral? cs).map Int.ofNat = some n := by
  obtain ⟨ne, letters, free⟩ := letters_number h
  have value : (numeral? (toString n).toList).map Int.ofNat = some n := by
    rw [toList_toString_of_nonneg h, numeral?_toDigits]
    exact congrArg some (Int.toNat_of_nonneg h)
  exact ⟨(toString n).toList, .word ne letters free, value⟩

def level : Expr → Nat
  | .binary op _ _ => Reading.level op
  | .unary op _ => signLevel op
  | _ => closedLevel

/-- An operator before the expression binds tighter than one of its parent would. -/
def SignsInside (parent : BinaryOp) (e : Expr) : Prop :=
  ∀ op d, e = .unary op d → Reading.level parent < signLevel op

theorem precedence_lt_iff {op parent : BinaryOp} :
    op.precedence < parent.precedence ↔ Reading.level op < Reading.level parent := by
  cases op <;> cases parent <;> decide

theorem precedence_eq_iff {op parent : BinaryOp} :
    op.precedence = parent.precedence ↔ Reading.level op = Reading.level parent := by
  cases op <;> cases parent <;> decide

theorem needsParens_iff {parent : BinaryOp} {right : Bool} (signs : e.SignsInside parent) :
    parent.needsParens right e = true ↔
      e.level < Reading.level parent ∨ (right = true ∧ e.level = Reading.level parent ∧
        (parent = .sub ∨ parent = .div ∨ parent = .rem)) := by
  cases e with
  | binary op l r =>
    simp [BinaryOp.needsParens, level, precedence_lt_iff, precedence_eq_iff, or_assoc, and_assoc]
  | unary op d =>
    have := signs op d rfl
    simp [BinaryOp.needsParens, level, Nat.not_lt.2 (Nat.le_of_lt this), Nat.ne_of_gt this]
  | _ =>
    have := level_lt_closedLevel parent
    simp [BinaryOp.needsParens, level, Nat.not_lt.2 (Nat.le_of_lt this), Nat.ne_of_gt this]

theorem operandText_reads {t : String} {x : Term} {f : Term → BinaryOp → Term} (op : BinaryOp)
    (right : Bool) (signs : e.SignsInside op) (h : Reads e.level t x f) :
    ((e.level = Reading.level op → op.needsParens right e = true) ∧
      Reads (Reading.level op) (op.operandText right e t) x x.closed) ∨
    (e.level = Reading.level op ∧ op.needsParens right e = false ∧
      Reads (Reading.level op) (op.operandText right e t) x f) := by
  unfold BinaryOp.operandText
  by_cases hp : op.needsParens right e = true
  · left
    simpa [hp] using h.parenthesized.mono (level_lt_closedLevel op)
  · simp only [hp, Bool.false_eq_true, if_false]
    rw [needsParens_iff signs] at hp
    by_cases he : e.level = Reading.level op
    · exact .inr ⟨he, trivial, he ▸ h⟩
    · exact .inl ⟨fun h => absurd h he, h.mono (by omega)⟩

theorem compile_binary {key : KeyText} {op : BinaryOp} {l r : Expr} {tl tr : String}
    (test : op.nullTest? l r = none) (index : op ≠ .index) (hl : l.compile key s = .ok tl)
    (hr : r.compile key s = .ok tr) :
    (Expr.binary op l r).compile key s = .ok (op.operandText false l tl ++ " " ++ op.text ++ " " ++
      op.operandText true r tr) := by
  simp [compile, test, hl, hr, BinaryOp.joinText, index]
  rfl

end Expr
end StreamSql
