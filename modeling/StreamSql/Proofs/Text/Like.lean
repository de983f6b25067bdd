import StreamSql.Text

namespace StreamSql.Text

inductive Like : List Char → List Char → Prop
  | nil : Like [] []
  | any {p t : List Char} (skipped : List Char) : Like p t → Like ('%' :: p) (skipped ++ t)
  | one {p t : List Char} (c : Char) : Like p t → Like ('_' :: p) (c :: t)
  | same {c : Char} {p t : List Char} : c ≠ '%' → c ≠ '_' → Like p t → Like (c :: p) (c :: t)

def IsLiteral (p : List Char) : Prop := '%' ∉ p ∧ '_' ∉ p

instance (p : List Char) : Decidable (IsLiteral p) := inferInstanceAs (Decidable (_ ∧ _))

theorem isLiteral_cons {c : Char} {p : List Char} :
    IsLiteral (c :: p) ↔ (c ≠ '%' ∧ c ≠ '_') ∧ IsLiteral p := by
  simp only [IsLiteral, List.mem_cons, not_or, ne_eq, eq_comm (a := c)]
  exact and_and_and_comm

namespace Like

variable {p q t u : List Char}

theorem append (hp : Like p t) (hq : Like q u) : Like (p ++ q) (t ++ u) := by
  induction hp with
  | nil => exact hq
  | any skipped _ ih =>
    rw [List.append_assoc]
    exact .any skipped ih
  | one c _ ih => exact .one c ih
  | same anyFree oneFree _ ih => exact .same anyFree oneFree ih

theorem append_iff : Like (p ++ q) t ↔ ∃ u v, t = u ++ v ∧ Like p u ∧ Like q v := by
  refine ⟨fun h => ?_, fun ⟨u, v, whole, hu, hv⟩ => whole ▸ hu.append hv⟩
  induction p generalizing t with
  | nil => exact ⟨[], t, rfl, .nil, h⟩
  | cons c p ih =>
    cases h with
    | any skipped h =>
      obtain ⟨u, v, rfl, hu, hv⟩ := ih h
      exact ⟨skipped ++ u, v, (List.append_assoc ..).symm, .any skipped hu, hv⟩
    | one d h =>
      obtain ⟨u, v, rfl, hu, hv⟩ := ih h
      exact ⟨d :: u, v, rfl, .one d hu, hv⟩
    | same anyFree oneFree h =>
      obtain ⟨u, v, rfl, hu, hv⟩ := ih h
      exact ⟨c :: u, v, rfl, .same anyFree oneFree hu, hv⟩

theorem percent (t : List Char) : Like ['%'] t := by
  simpa using Like.any t .nil

theorem prefix_iff : Like (p ++ ['%']) t ↔ ∃ u, Like p u ∧ u <+: t := by
  rw [append_iff]
  constructor
  · rintro ⟨u, v, rfl, hu, -⟩
    exact ⟨u, hu, v, rfl⟩
  · rintro ⟨u, hu, v, rfl⟩
    exact ⟨u, v, rfl, hu, percent v⟩

theorem suffix_iff : Like ('%' :: p) t ↔ ∃ u, Like p u ∧ u <:+ t := by
  rw [← List.singleton_append, append_iff]
  constructor
  · rintro ⟨v, u, rfl, -, hu⟩
    exact ⟨u, hu, v, rfl⟩
  · rintro ⟨u, hu, v, rfl⟩
    exact ⟨v, u, rfl, percent v, hu⟩

theorem infix_iff : Like ('%' :: (p ++ ['%'])) t ↔ ∃ u, Like p u ∧ u <:+: t := by
  simp only [suffix_iff, prefix_iff]
  constructor
  · rintro ⟨v, ⟨u, hu, before⟩, behind⟩
    exact ⟨u, hu, before.isInfix.trans behind.isInfix⟩
  · rintro ⟨u, hu, v, w, rfl⟩
    exact ⟨u ++ w, ⟨u, hu, List.prefix_append u w⟩, v, (List.append_assoc ..).symm⟩

theorem literal_iff (literal : IsLiteral p) : Like p t ↔ t = p := by
  induction p generalizing t with
  | nil =>
    constructor
    · rintro ⟨⟩
      rfl
    · rintro rfl
      exact .nil
  | cons c p ih =>
    obtain ⟨⟨anyFree, oneFree⟩, literal⟩ := isLiteral_cons.1 literal
    constructor
    · intro h
      cases h with
      | any => exact absurd rfl anyFree
      | one => exact absurd rfl oneFree
      | same _ _ h => rw [(ih literal).1 h]
    · rintro rfl
      exact .same anyFree oneFree ((ih literal).2 rfl)

theorem exists_literal (p : List Char) : ∃ t, Like p t ∧ t.length = p.length ∧ IsLiteral t := by
  induction p with
  | nil => exact ⟨[], .nil, rfl, by decide⟩
  | cons c p ih =>
    obtain ⟨t, like, length, literal⟩ := ih
    have longer (d : Char) : (d :: t).length = (c :: p).length := by simp [length]
    have letter : IsLiteral ('x' :: t) := isLiteral_cons.2 ⟨by decide, literal⟩
    by_cases any : c = '%'
    · subst any
      exact ⟨'x' :: t, .any ['x'] like, longer 'x', letter⟩
    · by_cases one : c = '_'
      · subst one
        exact ⟨'x' :: t, .one 'x' like, longer 'x', letter⟩
      · exact ⟨c :: t, .same any one like, longer c, isLiteral_cons.2 ⟨⟨any, one⟩, literal⟩⟩

end Like
end StreamSql.Text
