import Mathlib.Data.List.Nodup
import Mathlib.Data.List.Perm.Basic
import Mathlib.Data.String.Basic
import StreamSql.Json.Basic

namespace StreamSql.Json

open List

variable {k : String} {j : Json} {ms acc : List (String × Json)}

theorem insert_perm (absent : k ∉ ms.map (·.1)) : insert k j ms ~ (k, j) :: ms := by
  induction ms with
  | nil => exact .refl _
  | cons m ms ih =>
    rw [map_cons, mem_cons, not_or] at absent
    rw [insert]
    split
    · exact .refl _
    · rw [if_neg absent.1]
      exact ((ih absent.2).cons m).trans (.swap _ _ ms)

theorem foldl_insert_perm (nodup : ((acc ++ ms).map (·.1)).Nodup) :
    ms.foldl (fun acc m => insert m.1 m.2 acc) acc ~ acc ++ ms := by
  induction ms generalizing acc with
  | nil => simp
  | cons m ms ih =>
    have moved : acc ++ m :: ms ~ (m :: acc) ++ ms := perm_middle
    have distinct := (moved.map (·.1)).nodup_iff.1 nodup
    have fresh : m.1 ∉ acc.map (·.1) := by
      rw [cons_append, map_cons, nodup_cons, map_append, mem_append, not_or] at distinct
      exact distinct.1.1
    have step : insert m.1 m.2 acc ++ ms ~ (m :: acc) ++ ms := (insert_perm fresh).append_right ms
    rw [foldl_cons]
    exact (ih ((step.map (·.1)).nodup_iff.2 distinct)).trans (step.trans moved.symm)

theorem sorted_perm (nodup : (ms.map (·.1)).Nodup) : sorted ms ~ ms :=
  foldl_insert_perm nodup

theorem find?_of_mem (nodup : (ms.map (·.1)).Nodup) (mem : (k, j) ∈ ms) : find? k ms = some j := by
  induction ms with
  | nil => cases mem
  | cons m ms ih =>
    rw [map_cons, nodup_cons] at nodup
    rw [find?]
    rcases mem_cons.1 mem with rfl | mem
    · exact if_pos rfl
    · have other : m.1 ≠ k := fun same => nodup.1 (same ▸ mem_map_of_mem mem)
      rw [if_neg other]
      exact ih nodup.2 mem

theorem find?_sorted (nodup : (ms.map (·.1)).Nodup) (mem : (k, j) ∈ ms) :
    find? k (sorted ms) = some j :=
  find?_of_mem (((sorted_perm nodup).map (·.1)).nodup_iff.2 nodup) ((sorted_perm nodup).mem_iff.2 mem)

theorem insert_append (h : ∀ m ∈ ms, m.1 < k) : insert k j ms = ms ++ [(k, j)] := by
  induction ms with
  | nil => rfl
  | cons m ms ih =>
    have less := h m mem_cons_self
    rw [insert, if_neg less.asymm, if_neg less.ne', ih fun m mem => h m (mem_cons_of_mem _ mem)]
    rfl

theorem foldl_insert_of_pairwise (h : (acc ++ ms).Pairwise fun m n => m.1 < n.1) :
    ms.foldl (fun acc m => insert m.1 m.2 acc) acc = acc ++ ms := by
  induction ms generalizing acc with
  | nil => exact (append_nil acc).symm
  | cons m ms ih =>
    have before : ∀ n ∈ acc, n.1 < m.1 := fun n mem =>
      (pairwise_append.1 h).2.2 n mem m mem_cons_self
    rw [foldl_cons, insert_append before, ih (by simpa using h)]
    simp

theorem sorted_of_pairwise (h : ms.Pairwise fun m n => m.1 < n.1) : sorted ms = ms :=
  foldl_insert_of_pairwise h

end StreamSql.Json
