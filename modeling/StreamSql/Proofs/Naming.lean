import StreamSql.Proofs.Alias
import StreamSql.Proofs.Naming.Plural
import StreamSql.Proofs.Text.Sealed
import StreamSql.Proofs.Value.Numeral

namespace StreamSql

open Text Reading

namespace Naming

variable {name : List Char}

theorem lettered_stem (h : Lettered name) (n : Nat) : Lettered (stem n name) :=
  h.of_subset (List.take_subset _ _)

theorem lettered_matchCase {replacement : List Char} (replaced : List Char)
    (h : Lettered replacement) (upper : Lettered (replacement.map Char.toUpper)) :
    Lettered (matchCase replaced replacement) := by
  obtain same | same | ⟨c, cs, rfl, same⟩ := matchCase_cases replaced replacement
  · rwa [same]
  · rwa [same]
  · rw [same]
    intro d mem
    rcases List.mem_cons.1 mem with rfl | mem
    · exact upper _ (by simp)
    · exact h d (by simp [mem])

theorem lettered_irregular {w : Irregular} (mem : w ∈ irregulars) :
    Lettered w.plural ∧ Lettered (w.plural.map Char.toUpper) := by
  have all : irregulars.all (fun w => w.plural.all (fun c => CharClass.of c = .letter) &&
      (w.plural.map Char.toUpper).all (fun c => CharClass.of c = .letter)) = true := by decide
  have both := List.all_eq_true.1 all w mem
  rw [Bool.and_eq_true] at both
  exact ⟨.of_all both.1, .of_all both.2⟩

theorem lettered_regular (low : List Char) :
    Lettered (regular low).2.toList ∧ Lettered ((regular low).2.toList.map Char.toUpper) := by
  have all : rules.all (fun r => r.2.toList.all (fun c => CharClass.of c = .letter) &&
      (r.2.toList.map Char.toUpper).all (fun c => CharClass.of c = .letter)) = true := by decide
  obtain ⟨r, mem, -, same, -⟩ := regular_cases low
  have both := List.all_eq_true.1 all r mem
  rw [Bool.and_eq_true] at both
  rw [same]
  exact ⟨.of_all both.1, .of_all both.2⟩

theorem lettered_regularPlural (h : Lettered name) : Lettered (regularPlural name) := by
  obtain ⟨lower, upper⟩ := lettered_regular (lowered name)
  unfold regularPlural
  refine (lettered_stem h _).append ?_
  split
  · exact upper
  · exact lower

theorem lettered_pluralize {name : String} (h : Lettered name.toList) :
    Lettered (pluralize name).toList := by
  rw [pluralize, String.toList_ofList]
  obtain same | ⟨w, mem, -, same⟩ | ⟨-, -, -, same⟩ := pluralChars_cases name.toList
  · rwa [same]
  · obtain ⟨lower, upper⟩ := lettered_irregular mem
    rw [same]
    exact (lettered_stem h _).append (lettered_matchCase _ lower upper)
  · rw [same]
    exact lettered_regularPlural h

theorem lettered_entityName {name : String} (h : Lettered name.toList) (plural : Bool) :
    Lettered (entityName plural name).toList := by
  unfold entityName
  split
  · exact lettered_pluralize h
  · exact h

end Naming

namespace Aliases

theorem lettered_numbered {name : String} (h : Lettered name.toList) (k : Nat) :
    Lettered (numbered (letter name) k).toList := by
  have first : Lettered (letter name).toList := by
    rw [letter, String.toList_ofList]
    exact h.of_subset (List.take_subset _ _)
  unfold numbered
  split
  · exact first
  · rw [String.toList_append]
    refine first.append fun c mem => letter_of_isDigit (isDigit_of_mem_toDigits (n := k) ?_)
    simpa [Nat.repr_eq_ofList_toDigits] using mem

theorem lettered_assignAll {names : List String} (h : ∀ n ∈ names, Lettered n.toList) {a : String}
    (mem : a ∈ empty.assignAll names) : Lettered a.toList := by
  have given := List.mem_map_of_mem (f := some) mem
  rw [map_some_assignAll] at given
  obtain ⟨n, among, found⟩ := List.mem_map.1 given
  obtain ⟨k, -, -, rfl⟩ := (sound_empty.after names).numbered found
  exact lettered_numbered (h n among) k

end Aliases
end StreamSql
