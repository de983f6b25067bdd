import StreamSql.Response.Header

namespace StreamSql.Header

variable {depth k m : Nat} {c : Char} {cs ds part rest : List Char}

def depthBehind (depth : Nat) (cs : List Char) : Nat := cs.foldl depthAfter depth

def CommasInside : Nat → List Char → Prop
  | _, [] => True
  | depth, c :: cs => (c = ',' → depth ≠ 0) ∧ CommasInside (depthAfter depth c) cs

theorem depthBehind_cons : depthBehind depth (c :: cs) = depthBehind (depthAfter depth c) cs := rfl

theorem depthBehind_append : depthBehind depth (cs ++ ds) = depthBehind (depthBehind depth cs) ds :=
  List.foldl_append

theorem commasInside_append : CommasInside depth (cs ++ ds) ↔
    CommasInside depth cs ∧ CommasInside (depthBehind depth cs) ds := by
  induction cs generalizing depth with
  | nil => simp [CommasInside, depthBehind]
  | cons c cs ih => simp [CommasInside, depthBehind_cons, ih, and_assoc]

theorem parts_append (h : CommasInside depth cs) :
    parts depth part (cs ++ rest) = parts (depthBehind depth cs) (cs.reverse ++ part) rest := by
  induction cs generalizing depth part with
  | nil => rfl
  | cons c cs ih =>
    obtain ⟨inside, h⟩ := h
    have stays : ¬ (c = ',' && depth = 0) = true := by simpa using inside
    rw [List.cons_append, parts, if_neg stays, ih h]
    simp [depthBehind_cons]

theorem parts_comma : parts 0 part (',' :: cs) = part.reverse :: parts 0 [] cs := by
  simp [parts]

theorem exists_parts_cons (depth : Nat) (cs : List Char) (h : part.all Text.isBlank = false) :
    ∃ more ps, parts depth part cs = (part.reverse ++ more) :: ps := by
  induction cs generalizing depth part with
  | nil => exact ⟨[], [], by simp [parts, h]⟩
  | cons c cs ih =>
    rw [parts]
    split
    · exact ⟨[], parts 0 [] cs, by simp⟩
    · obtain ⟨more, ps, eq⟩ := @ih (c :: part) (depthAfter depth c) (by simp [h])
      exact ⟨c :: more, ps, by simp [eq]⟩

theorem exists_comma (h : ¬ CommasInside depth cs) :
    ∃ xs ys, cs = xs ++ ',' :: ys ∧ CommasInside depth xs ∧ depthBehind depth xs = 0 := by
  induction cs generalizing depth with
  | nil => exact absurd trivial h
  | cons c cs ih =>
    by_cases inside : c = ',' → depth ≠ 0
    · obtain ⟨xs, ys, rfl, hxs, out⟩ := ih fun tail => h ⟨inside, tail⟩
      exact ⟨c :: xs, ys, rfl, ⟨inside, hxs⟩, out⟩
    · obtain ⟨rfl, out⟩ : c = ',' ∧ depth = 0 := by simpa using inside
      exact ⟨[], cs, rfl, trivial, out⟩

def marks : List Char := [nameMark, ',', '<', '>', '(', ')']

/-- At depth `k` and deeper the text ends as deep as it begins, with its commas in brackets, and no
name begins in it. -/
structure Inert (k : Nat) (cs : List Char) : Prop where
  nameMark_not_mem : nameMark ∉ cs
  depthBehind_eq : ∀ depth, k ≤ depth → depthBehind depth cs = depth
  commasInside : ∀ depth, k ≤ depth → CommasInside depth cs

theorem depthAfter_of_not_mem_marks (h : c ∉ marks) : depthAfter depth c = depth := by
  simp only [marks, List.mem_cons, not_or] at h
  simp [depthAfter, opens, closes, h]

namespace Inert

theorem nil : Inert k [] := ⟨by simp, fun _ _ => rfl, fun _ _ => trivial⟩

theorem mono (h : Inert k cs) (le : k ≤ m) : Inert m cs where
  nameMark_not_mem := h.nameMark_not_mem
  depthBehind_eq depth hd := h.depthBehind_eq depth (Nat.le_trans le hd)
  commasInside depth hd := h.commasInside depth (Nat.le_trans le hd)

theorem append (h : Inert k cs) (h' : Inert k ds) : Inert k (cs ++ ds) where
  nameMark_not_mem := by simp [h.nameMark_not_mem, h'.nameMark_not_mem]
  depthBehind_eq depth hd := by
    rw [depthBehind_append, h.depthBehind_eq depth hd, h'.depthBehind_eq depth hd]
  commasInside depth hd := by
    rw [commasInside_append, h.depthBehind_eq depth hd]
    exact ⟨h.commasInside depth hd, h'.commasInside depth hd⟩

theorem cons (hc : c ∉ marks) (h : Inert k cs) : Inert k (c :: cs) where
  nameMark_not_mem mem := by
    rcases List.mem_cons.1 mem with rfl | mem
    · exact hc (by decide)
    · exact h.nameMark_not_mem mem
  depthBehind_eq depth hd := by
    rw [depthBehind_cons, depthAfter_of_not_mem_marks hc]
    exact h.depthBehind_eq depth hd
  commasInside depth hd := by
    refine ⟨?_, ?_⟩
    · rintro rfl
      exact absurd (by decide) hc
    · rw [depthAfter_of_not_mem_marks hc]
      exact h.commasInside depth hd

theorem comma (h : Inert (k + 1) cs) : Inert (k + 1) (',' :: cs) where
  nameMark_not_mem mem := by
    rcases List.mem_cons.1 mem with mark | mem
    · exact absurd mark (by decide)
    · exact h.nameMark_not_mem mem
  depthBehind_eq depth hd := h.depthBehind_eq depth hd
  commasInside depth hd := ⟨fun _ => by omega, h.commasInside depth hd⟩

theorem of_not_mem_marks (h : ∀ c ∈ cs, c ∉ marks) : Inert k cs := by
  induction cs with
  | nil => exact nil
  | cons c cs ih => exact (ih fun d hd => h d (by simp [hd])).cons (h c (by simp))

theorem brackets {l r : Char} (hl : opens l = true) (hr : closes r = true)
    (h : Inert (k + 1) cs) : Inert k (l :: (cs ++ [r])) := by
  have left : l = '<' ∨ l = '(' := by simpa [opens] using hl
  have right : r = '>' ∨ r = ')' := by simpa [closes] using hr
  have opened (depth : Nat) : depthAfter depth l = depth + 1 := by simp [depthAfter, hl]
  have closed (depth : Nat) : depthAfter (depth + 1) r = depth := by
    rcases right with rfl | rfl <;> rfl
  have ne : l ≠ ',' ∧ r ≠ ',' ∧ nameMark ≠ l ∧ nameMark ≠ r := by
    rcases left with rfl | rfl <;> rcases right with rfl | rfl <;> decide
  constructor
  · simp [h.nameMark_not_mem, ne]
  · intro depth hd
    have inner := h.depthBehind_eq (depth + 1) (by omega)
    rw [depthBehind_cons, opened, depthBehind_append, inner]
    exact closed depth
  · intro depth hd
    refine ⟨fun hc => absurd hc ne.1, ?_⟩
    rw [opened, commasInside_append]
    exact ⟨h.commasInside (depth + 1) (by omega), fun hc => absurd hc ne.2.1, trivial⟩

theorem join (sep : List Char) {ts : List String} (hsep : Inert k sep)
    (h : ∀ t ∈ ts, Inert k t.toList) : Inert k (Text.join (.ofList sep) ts).toList := by
  refine Text.join_induction (P := fun t => Inert k t.toList) nil (fun ht hu => ?_) h
  simpa using ht.append (hsep.append hu)

end Inert

theorem not_mem_marks_of_isAlphanum (h : c.isAlphanum = true) : c ∉ marks := by
  have free : marks.all (fun d => !d.isAlphanum) = true := by decide
  intro mem
  simpa [h] using List.all_eq_true.1 free c mem

end StreamSql.Header
