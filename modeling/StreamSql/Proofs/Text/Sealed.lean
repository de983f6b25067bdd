import StreamSql.Proofs.Reading.Token
import StreamSql.Value.Literal

/-!
Lists whose commas stand outside of brackets and quotes. A text is sealed if it closes the brackets and
quotes that it opens and has its commas in them; so a list of sealed texts is cut into these again.
-/

namespace StreamSql.Text

open Reading

structure Place where
  depth : Nat
  quoted : Bool
deriving DecidableEq

namespace Place

def outside : Place := ⟨0, false⟩

def after (p : Place) (c : Char) : Place :=
  if c = '\x27' then ⟨p.depth, !p.quoted⟩
  else if p.quoted then p
  else if c = '(' || c = '[' then ⟨p.depth + 1, false⟩
  else if c = ')' || c = ']' then ⟨p.depth - 1, false⟩
  else p

def behind (p : Place) (cs : List Char) : Place := cs.foldl after p

variable {p : Place} {c : Char} {cs ds : List Char}

theorem behind_cons : p.behind (c :: cs) = (p.after c).behind cs := rfl

theorem behind_append : p.behind (cs ++ ds) = (p.behind cs).behind ds := List.foldl_append

end Place

/-- The parts of a text between the occurrences of `sep` that are outside of brackets and quotes. -/
def cut (sep : Char) (p : Place) : List Char → List (List Char)
  | [] => [[]]
  | c :: cs =>
    if c = sep ∧ p = .outside then [] :: cut sep p cs
    else (cut sep (p.after c) cs).modifyHead (c :: ·)

def columns (list : String) : List String :=
  if list = "" then [] else (cut ',' .outside list.toList).map .ofList

/-- The name of a column: what follows the last blank outside, which is all of it where it has no
alias. -/
def outputName (column : String) : String :=
  .ofList ((cut ' ' .outside column.toList).getLastD [])

def Encloses (sep : Char) (p : Place) : List Char → Prop
  | [] => True
  | c :: cs => ¬ (c = sep ∧ p = .outside) ∧ Encloses sep (p.after c) cs

variable {sep : Char} {p : Place} {cs ds : List Char}

theorem encloses_append :
    Encloses sep p (cs ++ ds) ↔ Encloses sep p cs ∧ Encloses sep (p.behind cs) ds := by
  induction cs generalizing p with
  | nil => simp [Encloses, Place.behind]
  | cons c cs ih => simp [Encloses, Place.behind_cons, ih, and_assoc]

theorem encloses_of_not_mem (h : sep ∉ cs) : Encloses sep p cs := by
  induction cs generalizing p with
  | nil => trivial
  | cons c cs ih =>
    simp only [List.mem_cons, not_or] at h
    exact ⟨fun same => h.1 same.1.symm, ih h.2⟩

theorem cut_append (h : Encloses sep p cs) :
    cut sep p (cs ++ ds) = (cut sep (p.behind cs) ds).modifyHead (cs ++ ·) := by
  induction cs generalizing p with
  | nil => cases h : cut sep p ds <;> simp [Place.behind, h]
  | cons c cs ih =>
    rw [List.cons_append, cut, if_neg h.1, ih h.2, Place.behind_cons]
    cases cut sep ((p.after c).behind cs) ds <;> rfl

theorem cut_of_encloses (h : Encloses sep p cs) : cut sep p cs = [cs] := by
  have whole : cut sep p (cs ++ []) = _ := cut_append h
  simpa [cut] using whole

theorem cut_ne_nil : cut sep p cs ≠ [] := by
  induction cs generalizing p with
  | nil => simp [cut]
  | cons c cs ih =>
    rw [cut]
    split
    · simp
    · simpa using ih

theorem exists_cut_append (blank : ∀ q : Place, q.after sep = q) (outside : p.behind cs = .outside)
    (h : Encloses sep .outside ds) : ∃ q qs, cut sep p (cs ++ sep :: ds) = q :: (qs ++ [ds]) := by
  induction cs generalizing p with
  | nil =>
    obtain rfl : p = .outside := outside
    exact ⟨[], [], by simp [cut, cut_of_encloses h]⟩
  | cons c cs ih =>
    rw [List.cons_append, cut]
    split
    · next at_sep =>
      obtain ⟨rfl, rfl⟩ := at_sep
      rw [Place.behind_cons, blank] at outside
      obtain ⟨q, qs, parts⟩ := ih outside
      exact ⟨[], q :: qs, by rw [parts]; rfl⟩
    · obtain ⟨q, qs, parts⟩ := ih outside
      exact ⟨c :: q, qs, by rw [parts]; rfl⟩

theorem after_blank (q : Place) : q.after ' ' = q := by simp [Place.after]

theorem outputName_of_not_mem {t : String} (h : ' ' ∉ t.toList) : outputName t = t := by
  simp [outputName, cut_of_encloses (encloses_of_not_mem h)]

theorem outputName_append {t n : String} (outside : Place.outside.behind t.toList = .outside)
    (h : ' ' ∉ n.toList) : outputName (t ++ " " ++ n) = n := by
  obtain ⟨q, qs, parts⟩ :=
    exists_cut_append after_blank outside (encloses_of_not_mem (p := .outside) h)
  have chars : (t ++ " " ++ n).toList = t.toList ++ ' ' :: n.toList := by simp
  rw [outputName, chars, parts, ← List.cons_append, List.getLastD_eq_getLast?,
    List.getLast?_concat, Option.getD_some, String.ofList_toList]

def marks : List Char := [',', '(', ')', '[', ']', '\x27']

def Unmarked (cs : List Char) : Prop := ∀ c ∈ cs, c ∉ marks

instance (cs : List Char) : Decidable (Unmarked cs) := List.decidableBAll _ cs

/-- At depth `k` and deeper one is in the same place behind the text as before it, and its commas are
enclosed. -/
structure Sealed (k : Nat) (t : String) : Prop where
  behind_eq : ∀ d, k ≤ d → Place.behind ⟨d, false⟩ t.toList = ⟨d, false⟩
  encloses : ∀ d, k ≤ d → Encloses ',' ⟨d, false⟩ t.toList

theorem after_of_not_mem_marks {c : Char} (h : c ∉ marks) : p.after c = p := by
  simp only [marks, List.mem_cons, not_or] at h
  simp [Place.after, h]

namespace Sealed

variable {k m : Nat} {t u : String}

theorem mono (h : Sealed k t) (le : k ≤ m) : Sealed m t where
  behind_eq d hd := h.behind_eq d (Nat.le_trans le hd)
  encloses d hd := h.encloses d (Nat.le_trans le hd)

theorem append (h : Sealed k t) (h' : Sealed k u) : Sealed k (t ++ u) where
  behind_eq d hd := by
    rw [String.toList_append, Place.behind_append, h.behind_eq d hd, h'.behind_eq d hd]
  encloses d hd := by
    rw [String.toList_append, encloses_append, h.behind_eq d hd]
    exact ⟨h.encloses d hd, h'.encloses d hd⟩

theorem of_unmarked (h : Unmarked t.toList) : Sealed k t where
  behind_eq d _ := by
    generalize t.toList = cs at h
    induction cs with
    | nil => rfl
    | cons c cs ih =>
      rw [Place.behind_cons, after_of_not_mem_marks (h c (by simp))]
      exact ih fun c' hc' => h c' (by simp [hc'])
  encloses d _ := encloses_of_not_mem fun comma => h ',' comma (by decide)

theorem comma : Sealed (k + 1) ", " where
  behind_eq d _ := rfl
  encloses d hd := by
    have inside : (⟨d, false⟩ : Place) ≠ .outside := by
      intro same
      have depth := congrArg Place.depth same
      simp only [Place.outside] at depth
      omega
    exact ⟨fun h => inside h.2, fun h => absurd h.1 (by decide), trivial⟩

theorem join (h : ∀ t ∈ ts, Sealed (k + 1) t) : Sealed (k + 1) (Text.join ", " ts) :=
  join_induction (of_unmarked (by decide)) (fun ht hu => (ht.append comma).append hu) h

theorem brackets {l r : String} (hl : l = "(" ∨ l = "[") (hr : r = ")" ∨ r = "]")
    (h : Sealed (k + 1) t) : Sealed k (l ++ t ++ r) := by
  have opened (d : Nat) : Place.behind ⟨d, false⟩ l.toList = ⟨d + 1, false⟩ := by
    rcases hl with rfl | rfl <;> rfl
  have closed (d : Nat) : Place.behind ⟨d + 1, false⟩ r.toList = ⟨d, false⟩ := by
    rcases hr with rfl | rfl <;> rfl
  have left : ',' ∉ l.toList := by rcases hl with rfl | rfl <;> decide
  have right : ',' ∉ r.toList := by rcases hr with rfl | rfl <;> decide
  constructor
  · intro d hd
    rw [String.toList_append, String.toList_append, Place.behind_append, Place.behind_append, opened,
      h.behind_eq (d + 1) (by omega), closed]
  · intro d hd
    rw [String.toList_append, String.toList_append, encloses_append, encloses_append, opened]
    exact ⟨⟨encloses_of_not_mem left, h.encloses (d + 1) (by omega)⟩, encloses_of_not_mem right⟩

theorem quoted (free : '\x27' ∉ t.toList) : Sealed k (StreamSql.quoted t) := by
  have inside (d : Nat) : Place.behind ⟨d, true⟩ t.toList = ⟨d, true⟩ ∧
      Encloses ',' ⟨d, true⟩ t.toList := by
    generalize t.toList = cs at free
    induction cs with
    | nil => exact ⟨rfl, trivial⟩
    | cons c cs ih =>
      simp only [List.mem_cons, not_or] at free
      have stays : (⟨d, true⟩ : Place).after c = ⟨d, true⟩ := by
        simp [Place.after, Ne.symm free.1]
      rw [Place.behind_cons, Encloses, stays]
      exact ⟨(ih free.2).1, fun same => absurd same.2 (by simp [Place.outside]), (ih free.2).2⟩
  have opened (d : Nat) : Place.behind ⟨d, false⟩ "'".toList = ⟨d, true⟩ := rfl
  have closed (d : Nat) : Place.behind ⟨d, true⟩ "'".toList = ⟨d, false⟩ := rfl
  have free : ',' ∉ "'".toList := by decide
  constructor
  · intro d _
    rw [StreamSql.quoted, String.toList_append, String.toList_append, Place.behind_append,
      Place.behind_append, opened, (inside d).1, closed]
  · intro d _
    rw [StreamSql.quoted, String.toList_append, String.toList_append, encloses_append,
      encloses_append, opened]
    exact ⟨⟨encloses_of_not_mem free, (inside d).2⟩, encloses_of_not_mem free⟩

end Sealed

structure Solid (t : String) : Prop extends Sealed 0 t where
  ne : t ≠ ""

namespace Solid

variable {t u : String} {ts : List String}

theorem of_unmarked (h : Unmarked t.toList) (ne : t ≠ "") : Solid t :=
  ⟨.of_unmarked h, ne⟩

theorem append_left (h : Solid t) (h' : Sealed 0 u) : Solid (t ++ u) :=
  ⟨h.toSealed.append h', by simp [h.ne]⟩

theorem append_right (h : Solid t) (h' : Sealed 0 u) : Solid (u ++ t) :=
  ⟨h'.append h.toSealed, by simp [h.ne]⟩

theorem quoted (free : '\x27' ∉ t.toList) : Solid (StreamSql.quoted t) :=
  ⟨.quoted free, by simp [StreamSql.quoted]⟩

theorem brackets {l r : String} (hl : l = "(" ∨ l = "[") (hr : r = ")" ∨ r = "]")
    (h : Sealed 1 t) : Solid (l ++ t ++ r) := by
  refine ⟨.brackets hl hr h, ?_⟩
  rcases hl with rfl | rfl <;> simp

theorem join_ne_empty (h : Solid t) (ts : List String) : join ", " (t :: ts) ≠ "" := by
  cases ts with
  | nil => exact h.ne
  | cons u us =>
    rw [join_cons_cons]
    simp [h.ne]

theorem list {o w l r : String} (opening : o = w ++ l) (free : Unmarked w.toList)
    (hl : l = "(" ∨ l = "[") (hr : r = ")" ∨ r = "]") (h : ∀ t ∈ ts, Sealed 0 t) :
    Solid (o ++ join ", " ts ++ r) := by
  have items : Solid (l ++ join ", " ts ++ r) :=
    .brackets hl hr (.join fun t mem => (h t mem).mono (Nat.zero_le 1))
  have whole := items.append_right (.of_unmarked free)
  rwa [← String.append_assoc, ← String.append_assoc, ← opening] at whole

end Solid

theorem not_mem_marks_of_letter {c : Char} (h : CharClass.of c = .letter) : c ∉ marks := by
  have classes : marks.all (fun d => CharClass.of d ≠ .letter) = true := by decide
  intro mem
  simpa [h] using List.all_eq_true.1 classes c mem

def Lettered (cs : List Char) : Prop := ∀ c ∈ cs, CharClass.of c = .letter

namespace Lettered

variable {cs ds : List Char}

theorem append (h : Lettered cs) (k : Lettered ds) : Lettered (cs ++ ds) :=
  List.forall_mem_append.2 ⟨h, k⟩

theorem of_subset (h : Lettered ds) (sub : cs ⊆ ds) : Lettered cs := fun c mem => h c (sub mem)

theorem of_all (h : cs.all (fun c => CharClass.of c = .letter) = true) : Lettered cs :=
  CharClass.forall_of_all h

theorem unmarked (h : Lettered cs) : Unmarked cs := fun c mem =>
  not_mem_marks_of_letter (h c mem)

end Lettered

structure IsWord (t : String) : Prop where
  ne : t ≠ ""
  letters : Lettered t.toList

instance (t : String) : Decidable (IsWord t) :=
  decidable_of_iff (t ≠ "" ∧ t.toList.all (fun c => CharClass.of c = .letter) = true)
    ⟨fun ⟨ne, letters⟩ => ⟨ne, .of_all letters⟩,
      fun ⟨ne, letters⟩ => ⟨ne, by simpa [Lettered] using letters⟩⟩

theorem IsWord.of_isAlphanum {t : String} (ne : t ≠ "")
    (h : ∀ c ∈ t.toList, c.isAlphanum = true ∨ c = '_') : IsWord t := by
  refine ⟨ne, fun c mem => ?_⟩
  have other (d : Char) (hd : d.isAlphanum = false ∧ d ≠ '_') : c ≠ d := by
    rintro rfl
    simpa [hd] using h c mem
  simp [CharClass.of, brackets, operators, other]

theorem IsWord.solid {t : String} (h : IsWord t) : Solid t :=
  .of_unmarked h.letters.unmarked h.ne

theorem IsWord.blank_not_mem {t : String} (h : IsWord t) : ' ' ∉ t.toList := fun mem =>
  absurd (h.letters ' ' mem) (by decide)

theorem cut_join (t : String) (ts : List String) (h : ∀ u ∈ t :: ts, Sealed 0 u) :
    cut ',' .outside (join ", " (t :: ts)).toList = t.toList :: ts.map (' ' :: ·.toList) := by
  induction ts generalizing t with
  | nil => exact cut_of_encloses ((h t (by simp)).encloses 0 (Nat.le_refl 0))
  | cons u us ih =>
    have first : Sealed 0 t := h t (by simp)
    have encloses : Encloses ',' .outside t.toList := first.encloses 0 (Nat.le_refl 0)
    have behind : Place.outside.behind t.toList = .outside := first.behind_eq 0 (Nat.le_refl 0)
    have rest := ih u fun v hv => h v (List.mem_cons_of_mem t hv)
    have chars : (join ", " (t :: u :: us)).toList =
        t.toList ++ ',' :: ' ' :: (join ", " (u :: us)).toList := by
      simp [join_cons_cons]
    rw [chars, cut_append encloses, behind]
    simp [cut, after_blank, rest]

theorem eq_empty_of_columns {list : String} (h : columns list = []) : list = "" := by
  unfold columns at h
  split at h
  · assumption
  · exact absurd (List.map_eq_nil_iff.1 h) cut_ne_nil

theorem columns_join (t : String) (ts : List String) (h : ∀ u ∈ t :: ts, Solid u) :
    columns (join ", " (t :: ts)) = t :: ts.map (" " ++ ·) := by
  have some : join ", " (t :: ts) ≠ "" := (h t List.mem_cons_self).join_ne_empty ts
  rw [columns, if_neg some, cut_join t ts fun u mem => (h u mem).toSealed, List.map_cons,
    List.map_map, String.ofList_toList]
  congr 1
  refine List.map_congr_left fun u _ => ?_
  simp [String.ofList_cons]

end StreamSql.Text
