import StreamSql.Entity.Insert
import StreamSql.Proofs.Json.Number
import StreamSql.Proofs.Text.Template

namespace StreamSql.Insert

open Text (Template)

abbrev Leaf := TypeKind × Json

mutual
/-- The template of a literal. An array without items, and all that is no container of the kind, has a
place of its own. -/
def shape : TypeKind → Json → Template Leaf
  | .array element, .array (j :: js) => Template.enclosed "ARRAY[" ((j :: js).map (shape element)) "]"
  | .map key value, .object ms =>
    Template.enclosed "MAP("
      (ms.map fun m => .inr (key, .string m.1) :: .inl " := " :: shape value m.2) ")"
  | .struct fields, .object ms => Template.enclosed "STRUCT(" (fieldShapes fields ms) ")"
  | kind, j => [.inr (kind, j)]
termination_by structural k => k
def fieldShapes : List Column → List (String × Json) → List (Template Leaf)
  | [], _ => []
  | ⟨name, rename, kind, _, _⟩ :: cs, ms =>
    match valueOf? (rename.getD name) name ms with
    | none => fieldShapes cs ms
    | some j => (.inl (rename.getD name ++ " := ") :: shape kind j) :: fieldShapes cs ms
termination_by structural cs => cs
end

theorem fieldShapes_eq_filterMap (cs : List Column) (ms : List (String × Json)) :
    fieldShapes cs ms = cs.filterMap fun c =>
      (valueOf? c.wireName c.name ms).map fun j => .inl (c.wireName ++ " := ") :: shape c.kind j := by
  induction cs with
  | nil => rfl
  | cons c cs ih =>
    obtain ⟨name, rename, kind, _, _⟩ := c
    rw [fieldShapes, List.filterMap_cons, ← ih]
    simp only [Column.wireName]
    cases valueOf? (rename.getD name) name ms <;> rfl

def leafLiteral (style : LiteralStyle) (l : Leaf) : Compiled := literal style l.1 l.2

variable (style : LiteralStyle)

theorem itemLiterals_eq_mapM (f : Json → Compiled) (js : List Json) : itemLiterals f js = js.mapM f := by
  induction js with
  | nil => rfl
  | cons j js ih => rw [itemLiterals, List.mapM_cons, ih]; rfl

theorem entryLiterals_eq_mapM (f g : Json → Compiled) (ms : List (String × Json)) :
    entryLiterals f g ms = ms.mapM (fun m => do
      let k ← f (.string m.1)
      let t ← g m.2
      .ok (k ++ " := " ++ t)) := by
  induction ms with
  | nil => rfl
  | cons m ms ih =>
    rw [entryLiterals, List.mapM_cons, ih]
    cases f (.string m.1) <;> cases g m.2 <;> rfl

mutual
/-- A literal is its template with the literals of the leaves, and fails if one of them does. -/
theorem literal_eq_fillM : ∀ kind j, literal style kind j = (shape kind j).fillM (leafLiteral style)
  | .array element, .array (j :: js) => by
    have items : literal style element = fun j => (shape element j).fillM (leafLiteral style) :=
      funext (literal_eq_fillM element)
    rw [shape, Template.fillM_enclosed, List.mapM_map, literal, itemLiterals_eq_mapM, items]
    rfl
  | .map key value, .object ms => by
    have values : literal style value = fun j => (shape value j).fillM (leafLiteral style) :=
      funext (literal_eq_fillM value)
    have entry (m : String × Json) :
        Template.fillM (leafLiteral style) (.inr (key, .string m.1) :: .inl " := " :: shape value m.2) =
          (do
            let k ← literal style key (.string m.1)
            let t ← (shape value m.2).fillM (leafLiteral style)
            .ok (k ++ " := " ++ t)) := by
      simp only [Template.fillM, leafLiteral]
      cases literal style key (.string m.1) <;> cases Template.fillM _ (shape value m.2) <;>
        simp [bind, Except.bind, String.append_assoc]
    rw [shape, Template.fillM_enclosed, List.mapM_map, literal, entryLiterals_eq_mapM, values]
    simp only [Function.comp_def, entry]
  | .struct fields, .object ms => by
    rw [shape, Template.fillM_enclosed, literal, fieldLiterals_eq_mapM fields ms]
  | .array _, .array [] => (Template.fillM_place _ _).symm
  | .array _, .null | .array _, .bool _ | .array _, .number _ | .array _, .string _ | .array _, .object _
  | .array _, .outOfRange => (Template.fillM_place _ _).symm
  | .map _ _, .null | .map _ _, .bool _ | .map _ _, .number _ | .map _ _, .string _ | .map _ _, .array _
  | .map _ _, .outOfRange => (Template.fillM_place _ _).symm
  | .struct _, .null | .struct _, .bool _ | .struct _, .number _ | .struct _, .string _
  | .struct _, .array _ | .struct _, .outOfRange => (Template.fillM_place _ _).symm
  | .int, _ | .bigInt, _ | .double, _ | .boolean, _ | .string, _ | .bytes, _ | .date, _ | .time, _
  | .timestamp, _ | .decimal _ _, _ => (Template.fillM_place _ _).symm
termination_by structural k => k
theorem fieldLiterals_eq_mapM : ∀ cs ms,
    fieldLiterals style cs ms = (fieldShapes cs ms).mapM (Template.fillM (leafLiteral style))
  | [], _ => rfl
  | ⟨name, rename, kind, _, _⟩ :: cs, ms => by
    rw [fieldLiterals, fieldShapes]
    cases valueOf? (rename.getD name) name ms with
    | none => exact fieldLiterals_eq_mapM cs ms
    | some j =>
      simp only [List.mapM_cons, Template.fillM, ← literal_eq_fillM kind j, ← fieldLiterals_eq_mapM cs ms]
      cases literal style kind j <;> cases fieldLiterals style cs ms <;> rfl
termination_by structural cs => cs
end

theorem isInt64_toString (n : Int) :
    isInt64 (toString n) = true ↔ -0x8000000000000000 ≤ n ∧ n < 0x8000000000000000 := by
  have digits : ∀ c ∈ Nat.toDigits 10 n.natAbs, c.isDigit = true := fun _ => isDigit_of_mem_toDigits
  have value := Number.ofDigits_toDigits n.natAbs
  have ne := Nat.toDigits_ne_nil (n := n.natAbs) (b := 10)
  rw [toString_eq_signedText]
  generalize Nat.toDigits 10 n.natAbs = ds at *
  by_cases negative : n < 0
  · have chars : (signedText (decide (n < 0)) ds).toList = '-' :: ds := by
      simp [signedText, negative]
    have all : ds.all Char.isDigit = true := List.all_eq_true.2 digits
    simp only [isInt64, chars, value, all, ne, ne_eq, not_false_eq_true, decide_true, Bool.true_and,
      Bool.and_eq_true, decide_eq_true_eq]
    omega
  · have chars : (signedText (decide (n < 0)) ds).toList = ds := by
      simp [signedText, negative]
    obtain ⟨c, cs, rfl⟩ := List.exists_cons_of_ne_nil ne
    have minus : c ≠ '-' := by rintro rfl; exact absurd (digits '-' List.mem_cons_self) (by decide)
    have plus : c ≠ '+' := by rintro rfl; exact absurd (digits '+' List.mem_cons_self) (by decide)
    have all : (c :: cs).all Char.isDigit = true := List.all_eq_true.2 digits
    simp only [isInt64, chars]
    split
    · simp_all
    · simp_all
    · simp only [value, all, ne, ne_eq, not_false_eq_true, decide_true, Bool.true_and,
        Bool.and_eq_true, decide_eq_true_eq]
      omega

theorem isInt64_toInt (n : Int64) : isInt64 (toString n.toInt) = true :=
  (isInt64_toString n.toInt).2 ⟨Int64.le_toInt n, Int64.toInt_lt n⟩

end StreamSql.Insert
