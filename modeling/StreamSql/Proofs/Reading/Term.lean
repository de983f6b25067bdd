import StreamSql.Expr
import StreamSql.Proofs.Reading.Token

/-!
Expressions read from their tokens by the usual rules: a subscript binds tighter than a minus sign,
then come `*` with `/` and `%`, `+` with `-`, the comparisons, `NOT`, `AND` and `OR`; operators of
one level go from left to right, and parentheses override. The reader keeps what waits for its right
side on a stack, and builds a node when the next token binds no tighter.
-/

namespace StreamSql.Reading

inductive Term
  | leaf (t : Token)
  | binary (op : BinaryOp) (left right : Term)
  | unary (op : UnaryOp) (operand : Term)
  | call (f : List Char) (args : List Term)

/-- How tightly an operator binds, `level` and `signLevel` being one scale. -/
def level : BinaryOp → Nat
  | .or => 1
  | .and => 2
  | .eq | .ne | .lt | .le | .gt | .ge => 4
  | .add | .sub => 5
  | .mul | .div | .rem => 6
  | .index => 8

def signLevel : UnaryOp → Nat
  | .not => 3
  | .negate => 7

def closedLevel : Nat := 9

theorem signLevel_ne_level (u : UnaryOp) (op : BinaryOp) : signLevel u ≠ level op := by
  cases u <;> cases op <;> decide

theorem level_lt_closedLevel (op : BinaryOp) : level op < closedLevel := by cases op <;> decide

def isKeyword (keyword : String) (cs : List Char) : Bool := cs.map Char.toUpper = keyword.toList

def signOf? : Token → Option UnaryOp
  | .word cs => if isKeyword "NOT" cs then some .not else none
  | .sign ['-'] => some .negate
  | _ => none

/-- What a token does behind a complete operand. -/
inductive Follow
  | operator (op : BinaryOp)
  | openSubscript
  | closeSubscript
  | openCall
  | close
  | comma
  | other
deriving DecidableEq

def Follow.of : Token → Follow
  | .word cs =>
    if isKeyword "AND" cs then .operator .and
    else if isKeyword "OR" cs then .operator .or
    else .other
  | .sign ['='] => .operator .eq
  | .sign ['!', '='] => .operator .ne
  | .sign ['<'] => .operator .lt
  | .sign ['<', '='] => .operator .le
  | .sign ['>'] => .operator .gt
  | .sign ['>', '='] => .operator .ge
  | .sign ['+'] => .operator .add
  | .sign ['-'] => .operator .sub
  | .sign ['*'] => .operator .mul
  | .sign ['/'] => .operator .div
  | .sign ['%'] => .operator .rem
  | .sign ['['] => .openSubscript
  | .sign [']'] => .closeSubscript
  | .sign ['('] => .openCall
  | .sign [')'] => .close
  | .sign [','] => .comma
  | _ => .other

def isReserved (cs : List Char) : Bool :=
  isKeyword "AND" cs || isKeyword "OR" cs || isKeyword "NOT" cs

theorem toUpper_of_isDigit {c : Char} (h : c.isDigit = true) : c.toUpper = c := by
  have hc : 48 ≤ c.toNat ∧ c.toNat ≤ 57 := Char.isDigit_iff_toNat.1 h
  have lower : ¬ ('a'.val ≤ c.val ∧ c.val ≤ 'z'.val) := by
    simp only [UInt32.le_iff_toNat_le]
    change ¬ (97 ≤ c.toNat ∧ c.toNat ≤ 122)
    omega
  exact dif_neg lower

theorem isKeyword_of_isDigit {k : String} (letter : k.toList.head?.all (!·.isDigit) = true) {c : Char}
    (h : c.isDigit = true) (cs : List Char) : isKeyword k (c :: cs) = false := by
  refine decide_eq_false fun same => ?_
  rw [List.map_cons, toUpper_of_isDigit h] at same
  simp [← same, h] at letter

theorem not_isReserved_of_isDigit {c : Char} (h : c.isDigit = true) (cs : List Char) :
    isReserved (c :: cs) = false := by
  have other {k : String} (letter : k.toList.head?.all (!·.isDigit) = true) :=
    isKeyword_of_isDigit letter h cs
  rw [isReserved, other (by decide), other (by decide), other (by decide)]
  rfl

def isLeaf : Token → Bool
  | .word cs => !isReserved cs
  | .text _ => true
  | .sign _ => false

inductive Frame
  | left (x : Term) (op : BinaryOp)
  | sign (op : UnaryOp)
  | group
  | subscript (base : Term)
  | call (f : List Char) (args : List Term)

def tightness : List Frame → Nat
  | .left _ op :: _ => level op
  | .sign op :: _ => signLevel op
  | _ => 0

/-- Builds the nodes on top of the stack that bind at least as tightly as level `n`. -/
def reduce (n : Nat) (x : Term) : List Frame → Term × List Frame
  | .left y op :: st =>
    if n ≤ level op then reduce n (.binary op y x) st else (x, .left y op :: st)
  | .sign op :: st => if n ≤ signLevel op then reduce n (.unary op x) st else (x, .sign op :: st)
  | st => (x, st)

mutual
def operand : List Frame → List Token → Option Term
  | _, [] => none
  | st, t :: ts =>
    match signOf? t with
    | some op => if tightness st ≤ signLevel op then operand (.sign op :: st) ts else none
    | none =>
      if t = .sign ['('] then operand (.group :: st) ts
      else if isLeaf t then operator (.leaf t) st ts
      else none
termination_by structural _ ts => ts
def operator : Term → List Frame → List Token → Option Term
  | x, st, [] =>
    match reduce 0 x st with
    | (y, []) => some y
    | _ => none
  | x, st, t :: ts =>
    match Follow.of t with
    | .operator op =>
      operand (.left (reduce (level op) x st).1 op :: (reduce (level op) x st).2) ts
    | .openSubscript =>
      operand (.subscript (reduce (level .index) x st).1 :: (reduce (level .index) x st).2) ts
    | .closeSubscript =>
      match reduce 0 x st with
      | (i, .subscript b :: st) => operator (.binary .index b i) st ts
      | _ => none
    | .openCall =>
      match x with
      | .leaf (.word f) => operand (.call f [] :: st) ts
      | _ => none
    | .close =>
      match reduce 0 x st with
      | (y, .group :: st) => operator y st ts
      | (y, .call f args :: st) => operator (.call f (args ++ [y])) st ts
      | _ => none
    | .comma =>
      match reduce 0 x st with
      | (y, .call f args :: st) => operand (.call f (args ++ [y]) :: st) ts
      | _ => none
    | .other => none
termination_by structural _ _ ts => ts
end

def read (t : String) : Option Term := (tokens t).bind (operand [])

/-- What follows takes nothing away from an operand of level `n`. -/
def Resumes (n : Nat) : List Token → Prop
  | [] => True
  | t :: _ =>
    match Follow.of t with
    | .operator op => level op ≤ n
    | .openSubscript => level .index ≤ n
    | .openCall | .other => False
    | .closeSubscript | .close | .comma => True

def Loose (n : Nat) : List Frame → Prop
  | .left _ op :: _ => level op < n
  | .sign op :: _ => signLevel op ≤ n
  | _ => True

theorem Resumes.mono {m n : Nat} {ts : List Token} (h : m ≤ n) (hm : Resumes m ts) :
    Resumes n ts := by
  cases ts with
  | nil => trivial
  | cons t ts => grind [Resumes]

theorem Loose.mono {m n : Nat} {st : List Frame} (h : m ≤ n) (hm : Loose m st) : Loose n st := by
  cases st with
  | nil => trivial
  | cons f st => cases f <;> grind [Loose]

theorem Loose.tightness_le {n : Nat} {st : List Frame} (h : Loose n st) : tightness st ≤ n := by
  cases st with
  | nil => simp [tightness]
  | cons f st => cases f <;> grind [Loose, tightness]

theorem Loose.reduce_eq {op : BinaryOp} {st : List Frame} (h : Loose (level op) st) (x : Term) :
    reduce (level op) x st = (x, st) := by
  cases st with
  | nil => rfl
  | cons f st =>
    cases f with
    | left y op' => simp only [Loose] at h; simp [reduce, Nat.not_le.2 h]
    | sign u =>
      simp only [Loose] at h
      have := signLevel_ne_level u op
      simp [reduce, show ¬ level op ≤ signLevel u by omega]
    | group | subscript | call => rfl

theorem operator_left {op : BinaryOp} {ts : List Token} (h : Resumes (level op) ts)
    (x y : Term) (st : List Frame) :
    operator x (.left y op :: st) ts = operator (.binary op y x) st ts := by
  cases ts with
  | nil => simp [operator, reduce]
  | cons t ts =>
    simp only [Resumes] at h
    cases e : Follow.of t <;> simp_all [operator, reduce]

theorem operator_sign {u : UnaryOp} {ts : List Token} (h : Resumes (signLevel u) ts)
    (x : Term) (st : List Frame) :
    operator x (.sign u :: st) ts = operator (.unary u x) st ts := by
  cases ts with
  | nil => simp [operator, reduce]
  | cons t ts =>
    simp only [Resumes] at h
    cases e : Follow.of t <;> simp_all [operator, reduce]

end StreamSql.Reading
