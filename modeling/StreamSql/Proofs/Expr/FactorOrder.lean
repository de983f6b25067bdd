import StreamSql.Proofs.Expr.Arithmetic

/-!
Read back, a product has the first factors of its right side taken into it, so it keeps its result
exactly if no quotient or remainder is among them. That needs columns for which the two orders of
the factors differ, and sides that keep the results apart up to the root.
-/

namespace StreamSql

open Reading

theorem BinaryOp.exists_compute_eq (op : BinaryOp) (hop : op.isArithmetic = true) {n k : Int}
    (hn : 0 ≤ n) (hb : 1 ≤ k) :
    ∃ a b : Int, 0 ≤ a ∧ 0 ≤ b ∧ op.compute a b = some n ∧ ∀ m, 0 ≤ m → m ≤ k →
      (op = .div ∨ op = .rem → op.compute (m * a) b = some (m * n)) ∧
      (op = .mul → a = 1 ∧ b = n) := by
  cases op with
  | add => exact ⟨n, 0, hn, by omega, by simp [compute], by simp⟩
  | sub => exact ⟨n, 0, hn, by omega, by simp [compute], by simp⟩
  | mul => exact ⟨1, n, by omega, hn, by simp [compute], by simp⟩
  | div => exact ⟨n, 1, hn, by omega, by simp [compute], by simp [compute]⟩
  | rem =>
    have small (m : Int) (hm : m ≤ k) : m * n < k * n + 1 := by
      have := Int.mul_le_mul_of_nonneg_right hm hn
      omega
    have := Int.mul_nonneg (by omega : 0 ≤ k) hn
    have ne : k * n + 1 ≠ 0 := by omega
    have first : n < k * n + 1 := by simpa using small 1 hb
    refine ⟨n, k * n + 1, hn, by omega, ?_, fun m hm hm' => ⟨fun _ => ?_, by simp⟩⟩
    · simp [compute, ne, Int.tmod_eq_of_lt hn first]
    · simp [compute, ne, Int.tmod_eq_of_lt (Int.mul_nonneg hm hn) (small m hm')]
  | _ => simp [isArithmetic] at hop

structure FarApart (n v w : Int) : Prop where
  left : n ≤ v
  right : n ≤ w
  apart : n ≤ v - w ∨ n ≤ w - v

namespace FarApart

variable {n v w : Int} {op : BinaryOp}

theorem swap (h : FarApart n v w) : FarApart n w v := ⟨h.right, h.left, h.apart.symm⟩

theorem exists_compute_right (h : FarApart n v w) (hop : op.isArithmetic = true) (hn : 1 ≤ n) :
    ∃ b, 0 ≤ b ∧ (op = .mul → b = 1) ∧
      ∃ v' w', op.compute v b = some v' ∧ op.compute w b = some w' ∧ FarApart n v' w' := by
  have hv := h.left
  have hw := h.right
  cases op with
  | add => exact ⟨0, by simp [BinaryOp.compute, h]⟩
  | sub => exact ⟨0, by simp [BinaryOp.compute, h]⟩
  | mul => exact ⟨1, by simp [BinaryOp.compute, h]⟩
  | div => exact ⟨1, by simp [BinaryOp.compute, h]⟩
  | rem =>
    have ne : v + w ≠ 0 := by omega
    have left : v.tmod (v + w) = v := Int.tmod_eq_of_lt (by omega) (by omega)
    have right : w.tmod (v + w) = w := Int.tmod_eq_of_lt (by omega) (by omega)
    exact ⟨v + w, by omega, by simp, v, w, by simp [BinaryOp.compute, ne, left],
      by simp [BinaryOp.compute, ne, right], h⟩
  | _ => simp [BinaryOp.isArithmetic] at hop

theorem exists_tmod (h : FarApart (2 * n) v w) (hn : 1 ≤ n) (lt : v < w) :
    ∃ a : Int, 0 ≤ a ∧ a.tmod v = n ∧ a.tmod w = v + n := by
  have := h.left
  have := h.apart
  refine ⟨v + n, by omega, ?_, Int.tmod_eq_of_lt (by omega) (by omega)⟩
  rw [Int.tmod_eq_emod_of_nonneg (by omega), Int.add_emod_left]
  exact Int.emod_eq_of_lt (by omega) (by omega)

theorem exists_compute_left (h : FarApart (2 * n) v w) (hop : op.isArithmetic = true)
    (hn : 1 ≤ n) :
    ∃ a, 0 ≤ a ∧ (op = .mul → a = 1) ∧
      ∃ v' w', op.compute a v = some v' ∧ op.compute a w = some w' ∧ FarApart n v' w' := by
  obtain ⟨hv, hw, apart⟩ := h
  have far : FarApart n v w := ⟨by omega, by omega, by omega⟩
  have nev : v ≠ 0 := by omega
  have new : w ≠ 0 := by omega
  cases op with
  | add => exact ⟨0, by simp [BinaryOp.compute, far]⟩
  | sub =>
    refine ⟨n + v + w, by omega, by simp, n + w, n + v, ?_, ?_, ⟨by omega, by omega, by omega⟩⟩
    all_goals
      simp only [BinaryOp.compute]
      congr 1
      omega
  | mul => exact ⟨1, by simp [BinaryOp.compute, far]⟩
  | div =>
    have positive : 0 ≤ n * v * w :=
      Int.mul_nonneg (Int.mul_nonneg (by omega) (by omega)) (by omega)
    have left : (n * v * w).tdiv v = n * w := by
      rw [Int.mul_right_comm, Int.mul_tdiv_cancel _ nev]
    have scaled {a : Int} (ha : 1 ≤ a) : n ≤ n * a := by
      simpa using Int.mul_le_mul_of_nonneg_left ha (by omega : 0 ≤ n)
    have difference : n ≤ n * w - n * v ∨ n ≤ n * v - n * w := by
      rw [← Int.mul_sub, ← Int.mul_sub]
      exact apart.symm.imp (fun h => scaled (by omega)) (fun h => scaled (by omega))
    exact ⟨n * v * w, positive, by simp, n * w, n * v, by simp [BinaryOp.compute, nev, left],
      by simp [BinaryOp.compute, new, Int.mul_tdiv_cancel _ new],
      ⟨scaled (by omega), scaled (by omega), difference⟩⟩
  | rem =>
    -- The left side is chosen by the lesser of the two.
    rcases Int.lt_or_gt_of_ne (show v ≠ w by omega) with lt | gt
    · obtain ⟨a, ha, left, right⟩ := exists_tmod ⟨hv, hw, apart⟩ hn lt
      exact ⟨a, ha, by simp, n, v + n, by simp [BinaryOp.compute, nev, left],
        by simp [BinaryOp.compute, new, right], ⟨by omega, by omega, by omega⟩⟩
    · obtain ⟨a, ha, right, left⟩ := exists_tmod (FarApart.swap ⟨hv, hw, apart⟩) hn gt
      exact ⟨a, ha, by simp, w + n, n, by simp [BinaryOp.compute, nev, left],
        by simp [BinaryOp.compute, new, right], ⟨by omega, by omega, by omega⟩⟩
  | _ => simp [BinaryOp.isArithmetic] at hop

end FarApart

namespace Expr

variable {s : Scope} {e l r : Expr}

def startsInQuotient : Expr → Bool
  | .binary .div _ _ | .binary .rem _ _ => true
  | .binary .mul l _ => l.startsInQuotient
  | _ => false

/-- No product has a right side whose first factors are divided. -/
def ProductsApart : Expr → Prop
  | .binary op l r =>
    (op = .mul → r.startsInQuotient = false) ∧ l.ProductsApart ∧ r.ProductsApart
  | _ => True

theorem IsArithmetic.evalBehind_of_productsApart (h : e.IsArithmetic s) (apart : e.ProductsApart)
    (ρ : String → Int) :
    e.evalText s ρ = e.eval s ρ ∧ (e.startsInQuotient = false → ∀ a,
      e.evalBehind s ρ a = BinaryOp.mul.apply a (e.eval s ρ)) := by
  induction h with
  | column hc name =>
    obtain ⟨p, m, rename, i, rfl, -, -⟩ := column?_eq_some hc
    simp [evalBehind]
  | number => simp [evalBehind]
  | @binary op l r hop hl hr ihl ihr =>
    obtain ⟨right, apartL, apartR⟩ := apart
    have evalL := (ihl apartL).1
    have evalR := (ihr apartR).1
    cases op with
    | mul =>
      have behindR := (ihr apartR).2 (right rfl)
      refine ⟨?_, fun first a => ?_⟩
      · simp [evalBehind, evalL, behindR, eval]
      · simp [evalBehind, (ihl apartL).2 first, behindR, eval, BinaryOp.mul_apply_assoc]
    | add | sub => simp [evalBehind, evalL, evalR, eval]
    | div | rem => simp [evalBehind, evalL, evalR, eval, startsInQuotient]
    | _ => simp [BinaryOp.isArithmetic] at hop

inductive OfColumns (s : Scope) : Expr → List String → Prop
  | column {e : Expr} {c : String} : e.column? s = some c → OfColumns s e [c]
  | binary {op : BinaryOp} {l r : Expr} {cs ds : List String} :
    OfColumns s l cs → OfColumns s r ds → (∀ c ∈ cs, c ∉ ds) →
    OfColumns s (.binary op l r) (cs ++ ds)

theorem OfColumns.eval_congr {cs : List String} {ρ τ : String → Int} (h : e.OfColumns s cs)
    (agree : ∀ c ∈ cs, ρ c = τ c) :
    e.eval s ρ = e.eval s τ ∧ ∀ a, e.evalBehind s ρ a = e.evalBehind s τ a := by
  induction h with
  | column hc =>
    obtain ⟨p, m, rename, i, rfl, -, rfl⟩ := column?_eq_some hc
    simp [evalBehind, eval, hc, agree]
  | @binary op l r cs ds hl hr _ ihl ihr =>
    have left := ihl fun c hc => agree c (by simp [hc])
    have right := ihr fun c hc => agree c (by simp [hc])
    refine ⟨by simp [eval, left.1, right.1], fun a => ?_⟩
    cases op <;> simp [evalBehind, left.2, right.2]

theorem OfColumns.exists_both {cs ds : List String} (hl : l.OfColumns s cs) (hr : r.OfColumns s ds)
    (disjoint : ∀ c ∈ cs, c ∉ ds) (ρ τ : String → Int) :
    ∃ σ, (l.eval s σ = l.eval s ρ ∧ ∀ a, l.evalBehind s σ a = l.evalBehind s ρ a) ∧
      (r.eval s σ = r.eval s τ ∧ ∀ a, r.evalBehind s σ a = r.evalBehind s τ a) := by
  refine ⟨fun c => if c ∈ cs then ρ c else τ c, hl.eval_congr ?_, hr.eval_congr ?_⟩
  · intro c hc
    simp [hc]
  · intro c hc
    have : c ∉ cs := fun h => disjoint c h hc
    simp [this]

structure HasResult (s : Scope) (ρ : String → Int) (e : Expr) (n k : Int) : Prop where
  alone : e.eval s ρ = some n
  behind : ∀ m, 0 ≤ m → m ≤ k → e.evalBehind s ρ (some m) = some (m * n)

section HasResult

variable {ρ τ : String → Int} {n k a b : Int}

theorem HasResult.text (h : e.HasResult s ρ n k) (hk : 1 ≤ k) : e.evalText s ρ = some n := by
  simpa using h.behind 1 (by omega) hk

theorem HasResult.congr (h : e.HasResult s ρ n k)
    (same : e.eval s τ = e.eval s ρ ∧ ∀ a, e.evalBehind s τ a = e.evalBehind s ρ a) :
    e.HasResult s τ n k where
  alone := same.1.trans h.alone
  behind m hm hm' := (same.2 _).trans (h.behind m hm hm')

theorem HasResult.binary {op : BinaryOp} (hop : op.isArithmetic = true) (hk : 1 ≤ k)
    (hl : l.HasResult s ρ a k) (hr : r.HasResult s ρ b k) (value : op.compute a b = some n)
    (behind : ∀ m, 0 ≤ m → m ≤ k → (op = .div ∨ op = .rem → op.compute (m * a) b = some (m * n)) ∧
      (op = .mul → a = 1 ∧ b = n)) :
    (Expr.binary op l r).HasResult s ρ n k where
  alone := by simp [eval, hl.alone, hr.alone, BinaryOp.apply_some, value]
  behind m hm hm' := by
    have behind := behind m hm hm'
    have textL := hl.text hk
    have textR := hr.text hk
    cases op with
    | mul =>
      obtain ⟨rfl, rfl⟩ := behind.2 rfl
      simp [evalBehind, hl.behind m hm hm', hr.behind m hm hm']
    | div | rem =>
      simp [evalBehind, hl.behind m hm hm', textR, BinaryOp.apply_some, behind.1]
    | add | sub =>
      simp only [evalBehind, textL, textR, BinaryOp.apply_some, value]
      rfl
    | _ => simp [BinaryOp.isArithmetic] at hop

theorem OfColumns.exists_hasResult {cs : List String} (h : e.OfColumns s cs)
    (he : e.IsArithmetic s) (hn : 0 ≤ n) (hk : 1 ≤ k) : ∃ ρ, e.HasResult s ρ n k := by
  induction h generalizing n k with
  | @column e c hc =>
    obtain ⟨p, name, rename, i, rfl, -, rfl⟩ := column?_eq_some hc
    refine ⟨fun _ => n, by simp [eval, hc], fun m _ _ => ?_⟩
    simp [evalBehind, eval, hc, BinaryOp.apply_some, BinaryOp.compute]
  | @binary op l r cs ds hl hr disjoint ihl ihr =>
    cases he with
    | column hc => simp [column?] at hc
    | binary hop hl' hr' =>
      obtain ⟨left, right, hleft, hright, value, behind⟩ := op.exists_compute_eq hop hn hk
      obtain ⟨ρ, resultL⟩ := ihl hl' hleft hk
      obtain ⟨τ, resultR⟩ := ihr hr' hright hk
      obtain ⟨σ, sameL, sameR⟩ := hl.exists_both hr disjoint ρ τ
      exact ⟨σ, .binary hop hk (resultL.congr sameL) (resultR.congr sameR) value behind⟩

end HasResult

/-- Behind some factor the text has a result other than that of the product. -/
def DiffersBehind (s : Scope) (n : Int) (e : Expr) : Prop :=
  ∃ ρ a v w, 0 ≤ a ∧ e.eval s ρ = some v ∧ e.evalBehind s ρ (some a) = some w ∧
    FarApart n (a * v) w

def Differs (s : Scope) (n : Int) (e : Expr) : Prop :=
  ∃ ρ v w, e.eval s ρ = some v ∧ e.evalText s ρ = some w ∧ FarApart n v w

section Operators

variable {ρ : String → Int} {n : Int}

theorem differsBehind_div (hl : l.HasResult s ρ 3 (2 * n)) (hr : r.HasResult s ρ 2 1)
    (hn : 1 ≤ n) : (Expr.binary .div l r).DiffersBehind s n := by
  have quotient : (2 * n * 3).tdiv 2 = 3 * n := by
    rw [show 2 * n * 3 = 3 * n * 2 by omega, Int.mul_tdiv_cancel _ (by omega)]
  refine ⟨ρ, 2 * n, 1, 3 * n, by omega, ?_, ?_, ⟨by omega, by omega, by omega⟩⟩
  · simp [eval, hl.alone, hr.alone, BinaryOp.apply_some, BinaryOp.compute]
  · simp [evalBehind, hl.behind (2 * n) (by omega) (by omega), hr.text (by omega),
      BinaryOp.apply_some, BinaryOp.compute, quotient]

theorem differsBehind_rem (hl : l.HasResult s ρ 1 (3 * n)) (hr : r.HasResult s ρ (2 * n) 1)
    (hn : 1 ≤ n) : (Expr.binary .rem l r).DiffersBehind s n := by
  have ne : 2 * n ≠ 0 := by omega
  have one : (1 : Int).tmod (2 * n) = 1 := Int.tmod_eq_of_lt (by omega) (by omega)
  have remainder : (3 * n).tmod (2 * n) = n := by
    rw [Int.tmod_eq_emod_of_nonneg (by omega), show 3 * n = n + 2 * n * 1 by omega,
      Int.add_mul_emod_self_left]
    exact Int.emod_eq_of_lt (by omega) (by omega)
  refine ⟨ρ, 3 * n, 1, n, by omega, ?_, ?_, ⟨by omega, by omega, by omega⟩⟩
  · simp only [eval, hl.alone, hr.alone, BinaryOp.apply_some, BinaryOp.compute, if_neg ne, one]
  · have textR : r.evalBehind s ρ (some 1) = some (2 * n) := hr.text (by omega)
    simp only [evalBehind, hl.behind (3 * n) (by omega) (by omega), textR, BinaryOp.apply_some,
      BinaryOp.compute, if_neg ne, Int.mul_one, remainder]

theorem evalText_binary {op : BinaryOp} {a b : Int} (hop : op.isArithmetic = true)
    (hl : l.evalText s ρ = some a) (hr : r.evalText s ρ = some b)
    (whole : op = .mul → r.evalBehind s ρ (some a) = some (a * b)) :
    (Expr.binary op l r).evalText s ρ = op.compute a b := by
  cases op with
  | mul => simp [evalBehind, hl, whole, BinaryOp.compute]
  | add | sub | div | rem => simp [evalBehind, hl, hr, BinaryOp.apply_some]
  | _ => simp [BinaryOp.isArithmetic] at hop

end Operators

section Sides

variable {cs ds : List String} {op : BinaryOp} {n : Int} (hl : l.OfColumns s cs)
  (hr : r.OfColumns s ds) (disjoint : ∀ c ∈ cs, c ∉ ds)

include hl hr disjoint

theorem OfColumns.exists_results {a b i j : Int} (hl' : l.IsArithmetic s) (hr' : r.IsArithmetic s)
    (ha : 0 ≤ a) (hi : 1 ≤ i) (hb : 0 ≤ b) (hj : 1 ≤ j) :
    ∃ σ, l.HasResult s σ a i ∧ r.HasResult s σ b j := by
  obtain ⟨ρ, resultL⟩ := hl.exists_hasResult hl' ha hi
  obtain ⟨τ, resultR⟩ := hr.exists_hasResult hr' hb hj
  obtain ⟨σ, sameL, sameR⟩ := hl.exists_both hr disjoint ρ τ
  exact ⟨σ, resultL.congr sameL, resultR.congr sameR⟩

theorem DiffersBehind.mul_left (h : l.DiffersBehind s n) (hr' : r.IsArithmetic s) (hn : 1 ≤ n) :
    (Expr.binary .mul l r).DiffersBehind s n := by
  obtain ⟨ρ, a, v, w, ha, evalL, behindL, far⟩ := h
  have := far.right
  obtain ⟨τ, resultR⟩ := hr.exists_hasResult hr' (n := 1) (k := w) (by omega) (by omega)
  obtain ⟨σ, ⟨el, bl⟩, sameR⟩ := hl.exists_both hr disjoint ρ τ
  have resultR := resultR.congr sameR
  refine ⟨σ, a, v, w, ha, ?_, ?_, far⟩
  · simp [eval, el, evalL, resultR.alone, BinaryOp.apply_some, BinaryOp.compute]
  · simp [evalBehind, bl, behindL, resultR.behind w (by omega) (by omega)]

theorem DiffersBehind.mul (h : r.DiffersBehind s n) (hl' : l.IsArithmetic s) :
    (Expr.binary .mul l r).Differs s n := by
  obtain ⟨τ, a, v, w, ha, evalR, behindR, far⟩ := h
  obtain ⟨ρ, resultL⟩ := hl.exists_hasResult hl' (k := 1) ha (by omega)
  obtain ⟨σ, sameL, er, br⟩ := hl.exists_both hr disjoint ρ τ
  have resultL := resultL.congr sameL
  refine ⟨σ, a * v, w, ?_, ?_, far⟩
  · simp [eval, er, evalR, resultL.alone, BinaryOp.apply_some, BinaryOp.compute]
  · have textL : l.evalBehind s σ (some 1) = some a := resultL.text (by omega)
    simp only [evalBehind, textL, br, behindR]

theorem Differs.left (h : l.Differs s n) (hr' : r.IsArithmetic s) (hop : op.isArithmetic = true)
    (hn : 1 ≤ n) : (Expr.binary op l r).Differs s n := by
  obtain ⟨ρ, v, w, evalL, textL, far⟩ := h
  obtain ⟨b, hb, -, v', w', hv, hw, far'⟩ := far.exists_compute_right hop hn
  have := far.right
  obtain ⟨τ, resultR⟩ := hr.exists_hasResult hr' (k := w) hb (by omega)
  obtain ⟨σ, ⟨el, bl⟩, sameR⟩ := hl.exists_both hr disjoint ρ τ
  have resultR := resultR.congr sameR
  refine ⟨σ, v', w', ?_, ?_, far'⟩
  · simp only [eval, el, evalL, resultR.alone, BinaryOp.apply_some, hv]
  · rw [evalText_binary hop ((bl _).trans textL) (resultR.text (by omega)) fun _ => ?_, hw]
    exact resultR.behind w (by omega) (by omega)

theorem Differs.right (h : r.Differs s (2 * n)) (hl' : l.IsArithmetic s)
    (hop : op.isArithmetic = true) (hn : 1 ≤ n) : (Expr.binary op l r).Differs s n := by
  obtain ⟨τ, v, w, evalR, textR, far⟩ := h
  obtain ⟨a, ha, one, v', w', hv, hw, far'⟩ := far.exists_compute_left hop hn
  obtain ⟨ρ, resultL⟩ := hl.exists_hasResult hl' (k := 1) ha (by omega)
  obtain ⟨σ, sameL, er, br⟩ := hl.exists_both hr disjoint ρ τ
  have resultL := resultL.congr sameL
  refine ⟨σ, v', w', ?_, ?_, far'⟩
  · simp only [eval, er, evalR, resultL.alone, BinaryOp.apply_some, hv]
  · rw [evalText_binary hop (resultL.text (by omega)) ((br _).trans textR) fun mul => ?_, hw]
    rw [one mul, Int.one_mul, br]
    exact textR

end Sides

theorem OfColumns.differsBehind {cs : List String} (h : e.OfColumns s cs) (he : e.IsArithmetic s)
    (first : e.startsInQuotient = true) {n : Int} (hn : 1 ≤ n) : e.DiffersBehind s n := by
  induction h with
  | column hc =>
    obtain ⟨p, name, rename, i, rfl, -, -⟩ := column?_eq_some hc
    simp [startsInQuotient] at first
  | @binary op l r cs ds hl hr disjoint ihl _ =>
    cases he with
    | column hc => simp [column?] at hc
    | binary hop hl' hr' =>
      cases op with
      | div =>
        obtain ⟨σ, resultL, resultR⟩ := exists_results hl hr disjoint hl' hr'
          (a := 3) (i := 2 * n) (b := 2) (j := 1) (by omega) (by omega) (by omega) (by omega)
        exact differsBehind_div resultL resultR hn
      | rem =>
        obtain ⟨σ, resultL, resultR⟩ := exists_results hl hr disjoint hl' hr'
          (a := 1) (i := 3 * n) (b := 2 * n) (j := 1) (by omega) (by omega) (by omega) (by omega)
        exact differsBehind_rem resultL resultR hn
      | mul => exact .mul_left hl hr disjoint (ihl hl' first) hr' hn
      | _ => simp [startsInQuotient] at first

theorem OfColumns.differs {cs : List String} (h : e.OfColumns s cs) (he : e.IsArithmetic s)
    (bad : ¬ e.ProductsApart) {n : Int} (hn : 1 ≤ n) : e.Differs s n := by
  induction h generalizing n with
  | column hc =>
    obtain ⟨p, name, rename, i, rfl, -, -⟩ := column?_eq_some hc
    exact absurd trivial bad
  | @binary op l r cs ds hl hr disjoint ihl ihr =>
    cases he with
    | column hc => simp [column?] at hc
    | binary hop hl' hr' =>
      by_cases apartL : l.ProductsApart
      · by_cases apartR : r.ProductsApart
        · obtain ⟨mul, first⟩ : op = .mul ∧ r.startsInQuotient = true := by
            simpa [ProductsApart, apartL, apartR] using bad
          subst mul
          exact (hr.differsBehind hr' first hn).mul hl hr disjoint hl'
        · exact (ihr hr' apartR (n := 2 * n) (by omega)).right hl hr disjoint hl' hop hn
      · exact (ihl hl' apartL hn).left hl hr disjoint hr' hop hn

/-- The text of an arithmetic expression has its result where no product has such a right side.
Where all columns are distinct it has it only there. -/
theorem IsArithmetic.read_eval (key : KeyText) (h : e.IsArithmetic s) :
    ∃ t x, e.compile key s = .ok t ∧ read t = some x ∧ (∀ ρ, x.eval ρ = e.evalText s ρ) ∧
      (e.ProductsApart → ∀ ρ, x.eval ρ = e.eval s ρ) ∧
      ∀ cs, e.OfColumns s cs → (∀ ρ, x.eval ρ = e.eval s ρ) → e.ProductsApart := by
  obtain ⟨t, x, f, text, reads, means⟩ := h.reads key
  refine ⟨t, x, text, reads.read_eq, means.alone, fun apart ρ => ?_, fun cs distinct same => ?_⟩
  · rw [means.alone, (h.evalBehind_of_productsApart apart ρ).1]
  · apply Classical.byContradiction
    intro bad
    obtain ⟨ρ, v, w, value, text, far⟩ := distinct.differs h bad (n := 1) (by omega)
    have : w = v := by simpa [means.alone, value, text] using same ρ
    have := far.apart
    omega

private abbrev row : Scope := ⟨[⟨"ORDERS", none, none⟩], [("o", .source 0)], [], false, '.'⟩

private abbrev column (name : String) : Expr := .member (.parameter "o") name none

private theorem isArithmetic_column {name : String} (h : IsName name) :
    (column name).IsArithmetic row := .column rfl h

private theorem isName_a : IsName "A" := by decide
private theorem isName_b : IsName "B" := by decide
private theorem isName_c : IsName "C" := by decide

private abbrev difference : Expr :=
  .binary .sub (column "A") (.binary .sub (column "B") (column "C"))

private theorem isArithmetic_difference : difference.IsArithmetic row :=
  .binary rfl (isArithmetic_column isName_a)
    (.binary rfl (isArithmetic_column isName_b) (isArithmetic_column isName_c))

theorem IsArithmetic.read_eval_difference :
    ∃ t x, difference.compile noKey row = .ok t ∧ read t = some x ∧
      ∀ ρ, x.eval ρ = difference.eval row ρ := by
  obtain ⟨t, x, text, reads, -, same, -⟩ := isArithmetic_difference.read_eval noKey
  exact ⟨t, x, text, reads, same (by simp [ProductsApart])⟩

private abbrev product : Expr := .binary .mul (column "A") (.binary .div (column "B") (column "C"))

theorem not_read_eval_eq :
    ¬ ∀ (s : Scope) (key : KeyText) (e : Expr) (t : String) (x : Term) (ρ : String → Int),
      e.IsArithmetic s → e.compile key s = .ok t → read t = some x → x.eval ρ = e.eval s ρ := by
  intro claim
  have arithmetic : product.IsArithmetic row :=
    .binary rfl (isArithmetic_column isName_a)
      (.binary rfl (isArithmetic_column isName_b) (isArithmetic_column isName_c))
  obtain ⟨t, x, f, text, reads, means⟩ := arithmetic.reads noKey
  let ρ : String → Int := fun c => if c = "B" then 3 else 2
  have same := claim row noKey product t x ρ arithmetic text reads.read_eq
  rw [means.alone] at same
  revert same
  decide

end Expr
end StreamSql
