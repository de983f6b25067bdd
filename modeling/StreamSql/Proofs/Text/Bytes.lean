import Mathlib.Data.String.Basic
import StreamSql.Text

namespace StreamSql.Text

open String (utf8Len)

variable {c : Char} {cs s e : List Char} {n : Nat}

inductive CutFault
  | underflow
  | pastEnd
  | withinCharacter
deriving DecidableEq

abbrev Cut (α : Type) := Except CutFault α

namespace Cut

variable {α β : Type} {as : List α}

theorem ok_bind (a : α) (f : α → Cut β) : (Except.ok a >>= f) = f a := rfl

theorem anyM_eq {f : α → Cut Bool} {p : α → Bool} (h : ∀ a ∈ as, f a = .ok (p a)) :
    as.anyM f = .ok (as.any p) := by
  induction as with
  | nil => rfl
  | cons a as ih =>
    obtain ⟨first, rest⟩ := List.forall_mem_cons.1 h
    rw [List.anyM_cons, first, ok_bind, ih rest, List.any_cons]
    cases p a <;> rfl

theorem findSomeM?_eq {f : α → Cut (Option β)} {g : α → Option β} (h : ∀ a ∈ as, f a = .ok (g a)) :
    as.findSomeM? f = .ok (as.findSome? g) := by
  induction as with
  | nil => rfl
  | cons a as ih =>
    obtain ⟨first, rest⟩ := List.forall_mem_cons.1 h
    rw [List.findSomeM?_cons, first, ok_bind, ih rest, List.findSome?_cons]
    cases g a <;> rfl

end Cut

theorem utf8Len_concat (cs : List Char) (c : Char) : utf8Len (cs ++ [c]) = utf8Len cs + c.utf8Size := by
  simp

def placeBefore (place n : Nat) : Cut Nat :=
  if n ≤ place then .ok (place - n) else .error .underflow

def cutAtByte (place : Nat) : List Char → Cut (List Char × List Char)
  | [] => if place = 0 then .ok ([], []) else .error .pastEnd
  | c :: cs =>
    if place = 0 then .ok ([], c :: cs)
    else if place < c.utf8Size then .error .withinCharacter
    else (cutAtByte (place - c.utf8Size) cs).map fun (front, back) => (c :: front, back)

def slice (start stop : Nat) (cs : List Char) : Cut (List Char) := do
  let (front, _) ← cutAtByte stop cs
  let (_, between) ← cutAtByte start front
  .ok between

theorem placeBefore_append (s e : List Char) :
    placeBefore (utf8Len (s ++ e)) (utf8Len e) = .ok (utf8Len s) := by
  simp [placeBefore]

theorem cutAtByte_append (s e : List Char) : cutAtByte (utf8Len s) (s ++ e) = .ok (s, e) := by
  induction s with
  | nil => cases e <;> rfl
  | cons c s ih =>
    have pos := c.utf8Size_pos
    rw [String.utf8Len_cons, List.cons_append, cutAtByte, if_neg (by omega), if_neg (by omega),
      Nat.add_sub_cancel, ih]
    rfl

theorem cutAtByte_eq_ok_iff : cutAtByte n cs = .ok (s, e) ↔ cs = s ++ e ∧ n = utf8Len s := by
  constructor
  · intro found
    induction cs generalizing n s with
    | nil =>
      unfold cutAtByte at found
      split at found
      · next zero => cases found; exact ⟨rfl, zero⟩
      · cases found
    | cons c cs ih =>
      unfold cutAtByte at found
      split at found
      · next zero => cases found; exact ⟨rfl, zero⟩
      · split at found
        · cases found
        · next long =>
          cases rest : cutAtByte (n - c.utf8Size) cs with
          | error f => rw [rest] at found; cases found
          | ok sides =>
            rw [rest] at found
            cases found
            obtain ⟨rfl, size⟩ := ih rest
            exact ⟨rfl, by rw [String.utf8Len_cons]; omega⟩
  · rintro ⟨rfl, rfl⟩
    exact cutAtByte_append s e

theorem exists_cutAtByte_iff (n : Nat) (t : String) :
    (∃ sides, cutAtByte n t.toList = .ok sides) ↔ (⟨n⟩ : String.Pos.Raw).IsValid t := by
  rw [String.Pos.Raw.isValid_iff_exists_append]
  constructor
  · rintro ⟨⟨s, e⟩, found⟩
    obtain ⟨same, rfl⟩ := cutAtByte_eq_ok_iff.1 found
    exact ⟨.ofList s, .ofList e, by rw [← String.ofList_append, ← same, String.ofList_toList],
      (String.rawEndPos_ofList s).symm⟩
  · rintro ⟨s, e, rfl, place⟩
    obtain rfl : n = utf8Len s.toList := by
      simpa [String.rawEndPos] using congrArg (·.byteIdx) place
    exact ⟨(s.toList, e.toList), by rw [String.toList_append, cutAtByte_append]⟩

theorem cutAtByte_eq_pastEnd_iff : cutAtByte n cs = .error .pastEnd ↔ utf8Len cs < n := by
  induction cs generalizing n with
  | nil =>
    unfold cutAtByte
    split <;> simp <;> omega
  | cons c cs ih =>
    rw [cutAtByte, String.utf8Len_cons]
    split
    · simp; omega
    · split
      · simp; omega
      · next long =>
        have behind : utf8Len cs + c.utf8Size < n ↔ utf8Len cs < n - c.utf8Size := by omega
        rw [behind, ← ih]
        cases cutAtByte (n - c.utf8Size) cs <;> simp [Except.map]

example : cutAtByte 1 ['\u00E9'] = .error .withinCharacter := by decide

theorem slice_append (s m e : List Char) :
    slice (utf8Len s) (utf8Len (s ++ m)) (s ++ (m ++ e)) = .ok m := by
  simp only [slice, ← List.append_assoc, cutAtByte_append, Cut.ok_bind]

def placed (place : Nat) : List Char → List (Nat × Char)
  | [] => []
  | c :: cs => (place, c) :: placed (place + c.utf8Size) cs

def placeOf? (c : Char) (cs : List Char) : Option Nat := ((placed 0 cs).find? (·.2 = c)).map (·.1)

theorem find?_placed_append (h : c ∉ s) (place : Nat) :
    (placed place (s ++ c :: e)).find? (·.2 = c) = some (place + utf8Len s, c) := by
  induction s generalizing place with
  | nil => simp [placed]
  | cons d s ih =>
    obtain ⟨other, h⟩ := List.ne_and_not_mem_of_not_mem_cons h
    rw [List.cons_append, placed, List.find?_cons_of_neg (by simpa using other.symm), ih h,
      String.utf8Len_cons, Nat.add_comm (utf8Len s), Nat.add_assoc]

theorem placeOf?_append (h : c ∉ s) : placeOf? c (s ++ c :: e) = some (utf8Len s) := by
  rw [placeOf?, find?_placed_append h, Nat.zero_add]
  rfl

theorem mem_of_mem_placed {p : Nat × Char} {place : Nat} (mem : p ∈ placed place cs) : p.2 ∈ cs := by
  induction cs generalizing place with
  | nil => exact absurd mem List.not_mem_nil
  | cons c cs ih =>
    obtain rfl | mem := List.mem_cons.1 mem
    · exact List.mem_cons_self
    · exact List.mem_cons_of_mem c (ih mem)

theorem placeOf?_eq_none (h : c ∉ cs) : placeOf? c cs = none := by
  have none : (placed 0 cs).find? (·.2 = c) = .none := by
    refine List.find?_eq_none.2 fun p mem same => ?_
    exact h (of_decide_eq_true same ▸ mem_of_mem_placed mem)
  rw [placeOf?, none, Option.map_none]

def isAscii (c : Char) : Bool := c.toNat ≤ 0x7F

theorem utf8Size_of_isAscii (h : isAscii c = true) : c.utf8Size = 1 :=
  Char.utf8Size_eq_one_iff.2 (UInt32.le_iff_toNat_le.2 (of_decide_eq_true h))

theorem utf8Len_of_isAscii (h : ∀ c ∈ cs, isAscii c = true) : utf8Len cs = cs.length := by
  induction cs with
  | nil => rfl
  | cons c cs ih =>
    obtain ⟨first, rest⟩ := List.forall_mem_cons.1 h
    rw [String.utf8Len_cons, ih rest, utf8Size_of_isAscii first, List.length_cons]

theorem toLower_of_not_isAscii (h : isAscii c = false) : c.toLower = c := by
  refine dif_neg fun capital => ?_
  have bound : c.toNat ≤ 'Z'.val.toNat := UInt32.le_iff_toNat_le.1 capital.2
  exact of_decide_eq_false h (Nat.le_trans bound (by decide))

end StreamSql.Text
