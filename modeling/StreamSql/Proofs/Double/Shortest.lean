import StreamSql.Double.Shortest

namespace StreamSql.Double

theorem pow2_pos (n : Nat) : 0 < pow2 n := Nat.pow_pos (by decide)

theorem pow10_pos (n : Nat) : 0 < pow10 n := Nat.pow_pos (by decide)

theorem pow10_add (m n : Nat) : pow10 (m + n) = pow10 m * pow10 n := Nat.pow_add ..

theorem pow_le_of_length {n : Nat} (h : 0 < n) : pow10 ((Nat.toDigits 10 n).length - 1) ≤ n := by
  by_cases one : (Nat.toDigits 10 n).length - 1 = 0
  · rw [one]
    exact h
  · have := Nat.length_toDigits_le_iff (n := n) (b := 10) (by decide) (Nat.pos_of_ne_zero one)
    exact Nat.le_of_not_lt fun lt => by have := this.2 lt; omega

theorem lt_pow_length (n : Nat) : n < pow10 (Nat.toDigits 10 n).length :=
  (Nat.length_toDigits_le_iff (by decide) Nat.length_toDigits_pos).1 (Nat.le_refl _)

theorem decimalPlace_le {num den : Nat} (hn : 0 < num) (hd : 0 < den) :
    den * pow10 (decimalPlace num den - 1).toNat ≤
      num * pow10 (1 - decimalPlace num den).toNat := by
  unfold decimalPlace
  split
  · rename_i le
    have digits := Nat.length_toDigits_pos (b := 10) (n := num / den)
    rw [show (((Nat.toDigits 10 (num / den)).length : Int) - 1).toNat =
      (Nat.toDigits 10 (num / den)).length - 1 by omega,
      show (1 - ((Nat.toDigits 10 (num / den)).length : Int)).toNat = 0 by omega]
    calc den * pow10 ((Nat.toDigits 10 (num / den)).length - 1)
        ≤ den * (num / den) := Nat.mul_le_mul_left _ (pow_le_of_length (Nat.div_pos le hd))
      _ ≤ num * pow10 0 := by simpa [pow10] using Nat.mul_div_le num den
  · rename_i lt
    have digits := Nat.length_toDigits_pos (b := 10) (n := den / num)
    simp only
    generalize hq : (Nat.toDigits 10 (den / num)).length = q at *
    split
    · rw [show (1 - (q : Int) - 1).toNat = 0 by omega,
        show (1 - (1 - (q : Int))).toNat = q by omega]
      have : den / num + 1 ≤ pow10 q := hq ▸ lt_pow_length (den / num)
      calc den * pow10 0
          = den := Nat.mul_one den
        _ ≤ num * (den / num + 1) := Nat.le_of_lt (Nat.lt_mul_div_succ den hn)
        _ ≤ num * pow10 q := Nat.mul_le_mul_left _ this
    · rename_i le
      rw [show (2 - (q : Int) - 1).toNat = 0 by omega,
        show (1 - (2 - (q : Int))).toNat = q - 1 by omega]
      simpa [pow10] using le

theorem step_le {num den : Nat} (hn : 0 < num) (hd : 0 < den) :
    den * pow10 (decimalPlace num den - 17).toNat * pow10 16 ≤
      num * pow10 (-(decimalPlace num den - 17)).toNat := by
  have place := decimalPlace_le hn hd
  generalize decimalPlace num den = p at *
  by_cases high : 17 ≤ p
  · rw [show (-(p - 17)).toNat = (1 - p).toNat by omega, Nat.mul_assoc, ← pow10_add,
      show (p - 17).toNat + 16 = (p - 1).toNat by omega]
    exact place
  · rw [show (p - 17).toNat = 0 by omega, show pow10 0 = 1 from rfl, Nat.mul_one]
    have : (-(p - 17)).toNat + (p - 1).toNat = (1 - p).toNat + 16 := by omega
    refine Nat.le_of_mul_le_mul_right ?_ (pow10_pos (p - 1).toNat)
    calc den * pow10 16 * pow10 (p - 1).toNat
        = den * pow10 (p - 1).toNat * pow10 16 := Nat.mul_right_comm ..
      _ ≤ num * pow10 (1 - p).toNat * pow10 16 := Nat.mul_le_mul_right _ place
      _ = num * pow10 (-(p - 17)).toNat * pow10 (p - 1).toNat := by
        rw [Nat.mul_assoc, Nat.mul_assoc, ← pow10_add, ← pow10_add, this]

theorem mid_lt_width (x : Double) :
    x.neighbourhood.mid < (x.neighbourhood.hi - x.neighbourhood.lo) * pow10 16 := by
  have unit := pow2_pos x.exponent
  have mantissa := x.mantissa_lt
  simp only [neighbourhood, ← Nat.mul_sub_right_distrib]
  rw [Nat.mul_right_comm _ _ (pow10 16), show pow10 16 = 10000000000000000 from rfl]
  refine Nat.mul_lt_mul_of_pos_right ?_ unit
  split
  · simp_all
  · omega

theorem lo_le_mid (x : Double) : x.neighbourhood.lo ≤ x.neighbourhood.mid :=
  Nat.mul_le_mul_right _ (Nat.sub_le ..)

theorem mid_lt_hi (x : Double) : x.neighbourhood.mid < x.neighbourhood.hi :=
  Nat.mul_lt_mul_of_pos_right (by omega) (pow2_pos _)

theorem den_pos (x : Double) : 0 < x.neighbourhood.den := by
  simp only [neighbourhood]
  exact pow2_pos _

namespace Neighbourhood

variable {i : Neighbourhood} {tie : Tie} {k : Int}

theorem holds_of_lt {c : Nat} (lo : i.lo * pow10 (-k).toNat < c * pow10 k.toNat * i.den)
    (hi : c * pow10 k.toNat * i.den < i.hi * pow10 (-k).toNat) : i.holds c k = true := by
  simp only [holds]
  split
  · simp only [Nat.le_of_lt lo, Nat.le_of_lt hi, decide_true, Bool.and_self]
  · simp only [lo, hi, decide_true, Bool.and_self]

theorem isSome_onGrid? (tie : Tie) (hd : 0 < i.den) (lo : i.lo ≤ i.mid) (hi : i.mid < i.hi)
    (fine : i.den * pow10 k.toNat < (i.hi - i.lo) * pow10 (-k).toNat) :
    (i.onGrid? tie k).isSome = true := by
  have either : i.holds (i.mid * pow10 (-k).toNat / (i.den * pow10 k.toNat)) k = true ∨
      i.holds (i.mid * pow10 (-k).toNat / (i.den * pow10 k.toNat) + 1) k = true := by
    have scale := pow10_pos (-k).toNat
    have step : 0 < i.den * pow10 k.toNat := Nat.mul_pos hd (pow10_pos _)
    have below := Nat.div_mul_le_self (i.mid * pow10 (-k).toNat) (i.den * pow10 k.toNat)
    have above := Nat.lt_mul_div_succ (i.mid * pow10 (-k).toNat) step
    generalize i.mid * pow10 (-k).toNat / (i.den * pow10 k.toNat) = c at *
    have lo' : i.lo * pow10 (-k).toNat ≤ i.mid * pow10 (-k).toNat := Nat.mul_le_mul_right _ lo
    have hi' : i.mid * pow10 (-k).toNat < i.hi * pow10 (-k).toNat :=
      Nat.mul_lt_mul_of_pos_right hi scale
    have left : c * pow10 k.toNat * i.den = c * (i.den * pow10 k.toNat) := by ac_rfl
    have right : (c + 1) * pow10 k.toNat * i.den =
        c * (i.den * pow10 k.toNat) + i.den * pow10 k.toNat := by
      rw [Nat.mul_assoc, Nat.mul_comm (pow10 _), Nat.succ_mul]
    rw [Nat.mul_succ, Nat.mul_comm _ c] at above
    rw [Nat.sub_mul] at fine
    -- A step is less than the width: if the point below is too low, the one above is not too high.
    by_cases near : i.lo * pow10 (-k).toNat < c * (i.den * pow10 k.toNat)
    · exact .inl (holds_of_lt (by omega) (by omega))
    · exact .inr (holds_of_lt (by omega) (by omega))
  simp only [onGrid?]
  split <;> simp_all
  split
  · rfl
  · split
    · rfl
    · split <;> rfl

theorem ne_zero_of_holds {c : Nat} (lo : 0 < i.lo) (h : i.holds c k = true) : c ≠ 0 := by
  rintro rfl
  have : 0 < i.lo * pow10 (-k).toNat := Nat.mul_pos lo (pow10_pos _)
  simp only [holds] at h
  split at h
  · have := of_decide_eq_true (Bool.and_eq_true_iff.1 h).1
    omega
  · have := of_decide_eq_true (Bool.and_eq_true_iff.1 h).1
    omega

theorem ne_zero_of_onGrid? {c : Nat} (lo : 0 < i.lo) (h : i.onGrid? tie k = some c) : c ≠ 0 := by
  simp only [onGrid?] at h
  split at h
  · rename_i holds _
    obtain rfl := Option.some.inj h
    exact ne_zero_of_holds lo holds
  · obtain rfl := Option.some.inj h
    exact Nat.succ_ne_zero _
  · simp at h
  · rename_i holds _
    have := ne_zero_of_holds lo holds
    split at h
    · obtain rfl := Option.some.inj h
      exact this
    · split at h
      · obtain rfl := Option.some.inj h
        exact Nat.succ_ne_zero _
      · split at h
        · obtain rfl := Option.some.inj h
          exact Nat.succ_ne_zero _
        · obtain rfl := Option.some.inj h
          exact fun e => this (Nat.add_eq_zero_iff.1 e).1

end Neighbourhood

theorem dropZeros_ne_nil {n : Nat} (h : n ≠ 0) : dropZeros (Nat.toDigits 10 n) ≠ [] := by
  intro empty
  have zeros : ∀ c ∈ Nat.toDigits 10 n, c = '0' := by
    have split :=
      List.takeWhile_append_dropWhile (p := (· = '0')) (l := (Nat.toDigits 10 n).reverse)
    rw [List.reverse_eq_nil_iff.1 empty, List.append_nil] at split
    have := List.all_takeWhile (p := (· = '0')) (l := (Nat.toDigits 10 n).reverse)
    rw [split] at this
    simpa using this
  have value := Nat.ofDigitChars_ten_toDigits (n := n)
  rw [List.eq_replicate_of_mem zeros, Nat.ofDigitChars_replicate_zero] at value
  exact h value.symm

theorem isDigit_of_mem_dropZeros {n : Nat} {c : Char} (h : c ∈ dropZeros (Nat.toDigits 10 n)) :
    c.isDigit = true := by
  have : c ∈ (Nat.toDigits 10 n).reverse :=
    (List.dropWhile_sublist _).subset (List.mem_reverse.1 h)
  exact Nat.isDigit_of_mem_toDigits (by decide) (by decide) (List.mem_reverse.1 this)

theorem shortest_digits (tie : Tie) {x : Double} (h : x.isZero = false) :
    (x.shortest tie).digits ≠ [] ∧ ∀ c ∈ (x.shortest tie).digits, c.isDigit = true := by
  have mantissa : 0 < x.mantissa := by simpa [isZero, Nat.pos_iff_ne_zero] using h
  have unit := pow2_pos x.exponent
  have lo : 0 < x.neighbourhood.lo := by
    refine Nat.mul_pos ?_ unit
    split <;> omega
  simp only [shortest]
  split
  · rename_i n c found
    obtain ⟨m, -, hm⟩ := List.exists_of_findSome?_eq_some found
    obtain ⟨c', grid, pair⟩ := Option.map_eq_some_iff.1 hm
    obtain ⟨-, rfl⟩ := Prod.mk.inj pair
    exact ⟨dropZeros_ne_nil (Neighbourhood.ne_zero_of_onGrid? lo grid),
      fun _ hc => isDigit_of_mem_dropZeros hc⟩
  · rename_i missing
    have mid : 0 < x.neighbourhood.mid := Nat.lt_of_lt_of_le lo x.lo_le_mid
    have den : 0 < x.neighbourhood.den := x.den_pos
    have last := List.findSome?_eq_none_iff.1 missing 16 (by simp)
    have fine := step_le mid den
    have wide := x.mid_lt_width
    have := Neighbourhood.isSome_onGrid?
      (k := decimalPlace x.neighbourhood.mid x.neighbourhood.den - 17)
      tie den x.lo_le_mid x.mid_lt_hi ?_
    · simp_all
    · refine Nat.lt_of_mul_lt_mul_right (a := pow10 16) (Nat.lt_of_le_of_lt fine ?_)
      rw [Nat.mul_right_comm]
      exact Nat.mul_lt_mul_of_pos_right wide (pow10_pos _)

end StreamSql.Double
