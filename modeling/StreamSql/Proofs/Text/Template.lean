import Mathlib.Data.List.Basic
import StreamSql.Text

namespace StreamSql.Text

abbrev Template (α : Type) := List (String ⊕ α)

namespace Template

variable {α : Type} (f : α → String)

def fill : Template α → String
  | [] => ""
  | .inl t :: parts => t ++ fill parts
  | .inr a :: parts => f a ++ fill parts

theorem fill_append (T U : Template α) : fill f (T ++ U) = fill f T ++ fill f U := by
  induction T with
  | nil => simp [fill]
  | cons part T ih => cases part <;> simp [fill, ih, String.append_assoc]

theorem fill_intercalate (sep : String) (parts : List (Template α)) :
    fill f ([.inl sep].intercalate parts) = join sep (parts.map (fill f)) := by
  induction parts with
  | nil => rfl
  | cons T parts ih =>
    cases parts with
    | nil => simp [join]
    | cons U parts =>
      rw [List.intercalate_cons_cons, fill_append, fill_append, ih, List.map_cons, List.map_cons,
        List.map_cons, join_cons_cons]
      simp [fill]

theorem mem_intercalate {a : α} {sep : String} {parts : List (Template α)} :
    .inr a ∈ [.inl sep].intercalate parts ↔ ∃ T ∈ parts, .inr a ∈ T := by
  induction parts with
  | nil => simp
  | cons T parts ih =>
    cases parts with
    | nil => simp
    | cons U parts => simp [List.intercalate_cons_cons, ih]

def enclosed (opening : String) (parts : List (Template α)) (closing : String) : Template α :=
  .inl opening :: [.inl ", "].intercalate parts ++ [.inl closing]

theorem fill_enclosed (opening : String) (parts : List (Template α)) (closing : String) :
    fill f (enclosed opening parts closing) = opening ++ join ", " (parts.map (fill f)) ++ closing := by
  simp [enclosed, fill_append, fill, fill_intercalate, String.append_assoc]

theorem mem_enclosed {a : α} {opening closing : String} {parts : List (Template α)} :
    .inr a ∈ enclosed opening parts closing ↔ ∃ T ∈ parts, .inr a ∈ T := by
  simp [enclosed, mem_intercalate]

theorem mem_enclosed_map {β : Type} {a : α} {opening closing : String} {F : β → Template α}
    {bs : List β} : .inr a ∈ enclosed opening (bs.map F) closing ↔ ∃ b ∈ bs, .inr a ∈ F b := by
  simp [mem_enclosed]

theorem map_enclosed {β : Type} (g : β → α) (opening : String) (parts : List (Template β))
    (closing : String) :
    (enclosed opening parts closing).map (Sum.map id g) =
      enclosed opening (parts.map (List.map (Sum.map id g))) closing := by
  have inside : ([.inl ", "].intercalate parts).map (Sum.map id g) =
      [.inl ", "].intercalate (parts.map (List.map (Sum.map id g))) := by
    induction parts with
    | nil => rfl
    | cons T parts ih =>
      cases parts with
      | nil => simp
      | cons U parts =>
        rw [List.intercalate_cons_cons, List.map_append, List.map_append, ih]
        simp [List.intercalate_cons_cons]
  simp [enclosed, inside]

def places (as : List α) (words : List String) : Template α :=
  [.inl ", "].intercalate (as.map (fun a => [.inr a]) ++ words.map fun t => [.inl t])

theorem fill_places (as : List α) (words : List String) :
    fill f (places as words) = join ", " (as.map f ++ words) := by
  simp [places, fill_intercalate, fill, Function.comp_def]

theorem mem_places {a : α} {as : List α} {words : List String} :
    .inr a ∈ places as words ↔ a ∈ as := by
  rw [places, mem_intercalate]
  constructor
  · rintro ⟨T, mem, inside⟩
    rcases List.mem_append.1 mem with mem | mem
    · obtain ⟨b, place, rfl⟩ := List.mem_map.1 mem
      obtain rfl : a = b := by simpa using inside
      exact place
    · obtain ⟨t, -, rfl⟩ := List.mem_map.1 mem
      simp at inside
  · intro place
    exact ⟨[.inr a], List.mem_append_left _ (List.mem_map_of_mem place), List.mem_cons_self⟩

section

variable {ε β : Type} (f : α → Except ε String)

/-- The template with a text for each place, if all have one; else the failure of the first that has
none. -/
def fillM : Template α → Except ε String
  | [] => .ok ""
  | .inl t :: parts => do
    let u ← fillM parts
    .ok (t ++ u)
  | .inr a :: parts => do
    let t ← f a
    let u ← fillM parts
    .ok (t ++ u)

theorem fillM_place (a : α) : fillM f [.inr a] = f a := by
  cases h : f a <;> simp [fillM, h, bind, Except.bind]

theorem fillM_append (T U : Template α) : fillM f (T ++ U) = (do
    let t ← fillM f T
    let u ← fillM f U
    .ok (t ++ u)) := by
  induction T with
  | nil =>
    simp only [List.nil_append, fillM]
    cases fillM f U <;> simp [bind, Except.bind]
  | cons part T ih =>
    cases part with
    | inl t =>
      simp only [List.cons_append, fillM, ih]
      cases fillM f T <;> cases fillM f U <;> simp [bind, Except.bind, String.append_assoc]
    | inr a =>
      simp only [List.cons_append, fillM, ih]
      cases f a <;> cases fillM f T <;> cases fillM f U <;> simp [bind, Except.bind, String.append_assoc]

theorem fillM_intercalate (sep : String) (parts : List (Template α)) :
    fillM f ([.inl sep].intercalate parts) = (do
      let ts ← parts.mapM (fillM f)
      .ok (join sep ts)) := by
  induction parts with
  | nil => rfl
  | cons T parts ih =>
    cases parts with
    | nil =>
      simp only [List.intercalate_singleton, List.mapM_cons, List.mapM_nil]
      cases fillM f T <;> rfl
    | cons U parts =>
      rw [List.intercalate_cons_cons, fillM_append, fillM_append, ih]
      simp only [List.mapM_cons]
      cases fillM f T <;> cases fillM f U <;> cases parts.mapM (fillM f) <;>
        simp [fillM, bind, Except.bind, pure, Except.pure, join_cons_cons]

theorem fillM_enclosed (opening : String) (parts : List (Template α)) (closing : String) :
    fillM f (enclosed opening parts closing) = (do
      let ts ← parts.mapM (fillM f)
      .ok (opening ++ join ", " ts ++ closing)) := by
  rw [enclosed, fillM_append, fillM, fillM_intercalate]
  cases parts.mapM (fillM f) <;> simp [fillM, bind, Except.bind]

theorem fillM_map (g : β → α) (T : Template β) :
    fillM f (T.map (Sum.map id g)) = fillM (fun b => f (g b)) T := by
  induction T with
  | nil => rfl
  | cons part T ih => cases part <;> simp [fillM, ih]

variable {f} {T : Template α}

theorem fillM_of_ok {g : α → String} (h : ∀ a, .inr a ∈ T → f a = .ok (g a)) :
    fillM f T = .ok (T.fill g) := by
  induction T with
  | nil => rfl
  | cons part T ih =>
    have rest := ih fun a mem => h a (List.mem_cons_of_mem _ mem)
    cases part with
    | inl t => rw [fillM, rest]; rfl
    | inr a => rw [fillM, rest, h a List.mem_cons_self]; rfl

theorem exists_of_fillM_ok {t : String} (h : fillM f T = .ok t) {a : α} (mem : .inr a ∈ T) :
    ∃ u, f a = .ok u := by
  induction T generalizing t with
  | nil => cases mem
  | cons part T ih =>
    cases part with
    | inl u =>
      cases rest : fillM f T with
      | error e => rw [fillM, rest] at h; cases h
      | ok v => exact ih rest (by simpa using mem)
    | inr b =>
      cases first : f b with
      | error e => rw [fillM, first] at h; cases h
      | ok u =>
        cases rest : fillM f T with
        | error e => rw [fillM, first, rest] at h; cases h
        | ok v =>
          rcases List.mem_cons.1 mem with same | mem
          · exact ⟨u, Sum.inr.inj same ▸ first⟩
          · exact ih rest mem

theorem exists_of_fillM_error {e : ε} (h : fillM f T = .error e) : ∃ a, .inr a ∈ T ∧ f a = .error e := by
  induction T with
  | nil => cases h
  | cons part T ih =>
    have of_rest (h : fillM f T = .error e) : ∃ a, .inr a ∈ part :: T ∧ f a = .error e := by
      obtain ⟨a, mem, failed⟩ := ih h
      exact ⟨a, List.mem_cons_of_mem _ mem, failed⟩
    cases part with
    | inl u =>
      cases rest : fillM f T with
      | error d =>
        rw [fillM, rest] at h
        exact of_rest (rest.trans h)
      | ok v => rw [fillM, rest] at h; cases h
    | inr b =>
      cases first : f b with
      | error d =>
        rw [fillM, first] at h
        exact ⟨b, List.mem_cons_self, first.trans h⟩
      | ok u =>
        cases rest : fillM f T with
        | error d =>
          rw [fillM, first, rest] at h
          exact of_rest (rest.trans h)
        | ok v => rw [fillM, first, rest] at h; cases h

theorem fillM_eq_ok_iff {t : String} :
    fillM f T = .ok t ↔ ∃ g, (∀ a, .inr a ∈ T → f a = .ok (g a)) ∧ t = T.fill g := by
  constructor
  · intro h
    let g (a : α) : String := match f a with
      | .ok u => u
      | .error _ => ""
    have all : ∀ a, .inr a ∈ T → f a = .ok (g a) := by
      intro a mem
      obtain ⟨u, text⟩ := exists_of_fillM_ok h mem
      simp only [g, text]
    exact ⟨g, all, Except.ok.inj (h.symm.trans (fillM_of_ok all))⟩
  · rintro ⟨g, all, rfl⟩
    exact fillM_of_ok all

end

end Template

def HasPlaces (t : String) (ts : List String) : Prop :=
  ∃ T : Template Nat, T.fill (fun i => ts[i]?.getD "") = t ∧ ∀ i < ts.length, .inr i ∈ T

theorem map_getElem?_range (ts : List String) :
    (List.range ts.length).map (fun i => ts[i]?.getD "") = ts :=
  List.ext_getElem (by simp) fun i _ _ => by simp_all

theorem hasPlaces_list (opening closing : String) (ts : List String) :
    HasPlaces (opening ++ join ", " ts ++ closing) ts := by
  refine ⟨.inl opening :: Template.places (List.range ts.length) [] ++ [.inl closing], ?_, ?_⟩
  · simp [Template.fill, Template.fill_append, Template.fill_places, map_getElem?_range,
      String.append_assoc]
  · simp [Template.mem_places]

theorem hasPlaces_call (t : String) (ts words : List String) :
    HasPlaces (t ++ "(" ++ join ", " (ts ++ words) ++ ")") (t :: ts) := by
  have inside : ((List.range ts.length).map (· + 1)).map (fun i => (t :: ts)[i]?.getD "") = ts := by
    simpa [Function.comp_def] using map_getElem?_range ts
  refine ⟨.inr 0 :: .inl "(" ::
    Template.places ((List.range ts.length).map (· + 1)) words ++ [.inl ")"], ?_, ?_⟩
  · simp only [List.cons_append, Template.fill, Template.fill_append, Template.fill_places, inside]
    simp [String.append_assoc]
  · rintro (_ | i) less
    · exact List.mem_cons_self
    · have place : .inr (i + 1) ∈ Template.places ((List.range ts.length).map (· + 1)) words := by
        simpa [Template.mem_places] using less
      simp [place]

end StreamSql.Text
