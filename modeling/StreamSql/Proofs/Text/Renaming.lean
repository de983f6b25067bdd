import StreamSql.Proofs.Text.Comment
import StreamSql.Proofs.Text.Template

namespace StreamSql.Text

structure StartsAlike (t u : String) : Prop where
  empty : t = "" ↔ u = ""
  sign : StartsSigned t ↔ StartsSigned u

theorem startsSigned_append {t u : String} (ne : t ≠ "") : StartsSigned (t ++ u) ↔ StartsSigned t := by
  have nonempty : t.toList ≠ [] := fun empty => ne (String.toList_eq_nil_iff.1 empty)
  rw [StartsSigned, StartsSigned, String.toList_append, List.head?_append_of_ne_nil _ nonempty]

namespace StartsAlike

variable {t t' u u' : String}

theorem refl (t : String) : StartsAlike t t := ⟨.rfl, .rfl⟩

theorem append (ht : StartsAlike t t') (hu : StartsAlike u u') :
    StartsAlike (t ++ u) (t' ++ u') := by
  by_cases empty : t = ""
  · rw [empty, ht.empty.1 empty, String.empty_append, String.empty_append]
    exact hu
  · have empty' : t' ≠ "" := fun h => empty (ht.empty.2 h)
    constructor
    · simp [empty, empty']
    · rw [startsSigned_append empty, startsSigned_append empty']
      exact ht.sign

end StartsAlike

/-- Other names for those of a list, distinct from each other and from the names that stay. -/
structure Renaming (names : List String) where
  map : String → String
  inj : ∀ p ∈ names, ∀ q ∈ names, map p = map q → p = q
  apart : ∀ p ∈ names, map p ∈ names → map p = p
  alike : ∀ p ∈ names, StartsAlike p (map p)

namespace Renaming

variable {names : List String}

def refl (names : List String) : Renaming names where
  map := id
  inj _ _ _ _ same := same
  apart _ _ _ := rfl
  alike p _ := .refl p

@[simp] theorem refl_map : (refl names).map = id := rfl

variable (ρ : Renaming names) {p q : String}

theorem eq_of_map_eq (hp : p ∈ names) (hq : q ∈ names) (same : ρ.map p = q) : p = q := by
  subst same
  exact (ρ.apart p hp hq).symm

end Renaming

theorem Template.length_fill {α : Type} {f g : α → String} (same : ∀ a, (f a).length = (g a).length)
    (T : Template α) : (T.fill f).length = (T.fill g).length := by
  induction T with
  | nil => rfl
  | cons part T ih => cases part <;> simp [fill, ih, same]

variable {names : List String} {outside : Prop}

/-- A text that is one template under every renaming. Outside of lambdas over items, a name is written
in such a lambda only, which shows by its arrow. -/
structure Uniform (outside : Prop) (t : Renaming names → String) : Prop where
  template : ∃ T : Template String, (∀ p, .inr p ∈ T → p ∈ names) ∧ ∀ ρ, t ρ = T.fill ρ.map
  arrow : outside → (∀ ρ, t ρ = t (.refl names)) ∨ ∀ ρ, '>' ∈ (t ρ).toList

namespace Uniform

variable {t u : Renaming names → String}

theorem mono {outside' : Prop} (h : Uniform outside t) (le : outside' → outside) :
    Uniform outside' t :=
  ⟨h.template, fun here => h.arrow (le here)⟩

theorem congr (h : Uniform outside t) (same : ∀ ρ, u ρ = t ρ) : Uniform outside u :=
  funext same ▸ h

theorem const (t : String) : Uniform outside fun _ : Renaming names => t where
  template := ⟨[.inl t], by simp, fun ρ => by simp [Template.fill]⟩
  arrow _ := .inl fun _ => rfl

theorem of_eq (same : ∀ ρ, t ρ = t (.refl names)) : Uniform outside t :=
  (const (t (.refl names))).congr same

theorem name {p : String} (mem : p ∈ names) (inside : ¬ outside) :
    Uniform outside fun ρ : Renaming names => ρ.map p where
  template := ⟨[.inr p], by simp [mem], fun ρ => by simp [Template.fill]⟩
  arrow here := absurd here inside

theorem append (ht : Uniform outside t) (hu : Uniform outside u) :
    Uniform outside fun ρ => t ρ ++ u ρ where
  template := by
    obtain ⟨T, placesT, fillT⟩ := ht.template
    obtain ⟨U, placesU, fillU⟩ := hu.template
    refine ⟨T ++ U, fun p mem => ?_, fun ρ => ?_⟩
    · exact (List.mem_append.1 mem).elim (placesT p) (placesU p)
    · rw [fillT, fillU, Template.fill_append]
  arrow here := by
    rcases ht.arrow here with constT | arrow
    · rcases hu.arrow here with constU | arrow
      · exact .inl fun ρ => by rw [constT, constU]
      · exact .inr fun ρ => by simp [arrow ρ]
    · exact .inr fun ρ => by simp [arrow ρ]

theorem lambda (ht : Uniform False t) (hu : Uniform False u) :
    Uniform outside fun ρ => t ρ ++ ") => " ++ u ρ where
  template := ((ht.append (const ") => ")).append hu).template
  arrow _ := .inr fun ρ => by simp

theorem join {α : Type} (sep : String) {xs : List α} {t : α → Renaming names → String}
    (h : ∀ x ∈ xs, Uniform outside (t x)) :
    Uniform outside fun ρ => Text.join sep (xs.map fun x => t x ρ) :=
  Text.map_join_induction (const "") (fun ht hu => (ht.append (const sep)).append hu) h

theorem parens (h : Uniform outside t) : Uniform outside fun ρ => StreamSql.parens (t ρ) :=
  ((const "(").append h).append (const ")")

theorem callWith {α : Type} (name : String) {xs : List α} {t : α → Renaming names → String}
    (words : List String) (h : ∀ x ∈ xs, Uniform outside (t x)) :
    Uniform outside fun ρ => callText name ((xs.map fun x => t x ρ) ++ words) := by
  have parts : ∀ y ∈ xs.map Sum.inl ++ words.map Sum.inr,
      Uniform outside (Sum.elim t (fun w _ => w) y) := by
    intro y mem
    rcases List.mem_append.1 mem with mem | mem
    · obtain ⟨x, inside, rfl⟩ := List.mem_map.1 mem
      exact h x inside
    · obtain ⟨w, -, rfl⟩ := List.mem_map.1 mem
      exact const w
  refine (((const (name ++ "(")).append (join ", " parts)).append (const ")")).congr fun ρ => ?_
  simp [callText, Function.comp_def]

theorem call {α : Type} (name : String) {xs : List α} {t : α → Renaming names → String}
    (h : ∀ x ∈ xs, Uniform outside (t x)) :
    Uniform outside fun ρ => callText name (xs.map fun x => t x ρ) :=
  ((const (name ++ "(")).append (join ", " h)).append (const ")")

theorem startsAlike (h : Uniform outside t) (ρ : Renaming names) :
    StartsAlike (t (.refl names)) (t ρ) := by
  obtain ⟨T, places, fill⟩ := h.template
  rw [fill, fill]
  clear fill
  induction T with
  | nil => exact .refl _
  | cons part T ih =>
    have rest := ih fun p mem => places p (List.mem_cons_of_mem part mem)
    cases part with
    | inl w => exact (StartsAlike.refl w).append rest
    | inr p => exact (ρ.alike p (places p List.mem_cons_self)).append rest

theorem ifEmpty (h : Uniform outside t) (w : String) :
    Uniform outside fun ρ => if (t ρ).isEmpty then w else t ρ := by
  have alike (ρ : Renaming names) := (h.startsAlike ρ).empty
  by_cases empty : t (.refl names) = ""
  · exact (const w).congr fun ρ => if_pos (String.isEmpty_iff.2 ((alike ρ).1 empty))
  · exact h.congr fun ρ => if_neg fun none => empty ((alike ρ).2 (String.isEmpty_iff.1 none))

theorem eq_iff {name : String} (h : Uniform True t) (plain : '>' ∉ name.toList) (ρ : Renaming names) :
    t ρ = name ↔ t (.refl names) = name := by
  rcases h.arrow trivial with const | arrow
  · rw [const]
  · have ne (ρ : Renaming names) : t ρ ≠ name := by
      rintro rfl
      exact plain (arrow ρ)
    exact iff_of_false (ne ρ) (ne _)

end Uniform

end StreamSql.Text
