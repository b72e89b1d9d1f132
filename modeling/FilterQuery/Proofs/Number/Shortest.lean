import FilterQuery.Proofs.Number.Rounding
set_option autoImplicit false

/-!
The shortest decimal of a binary number lies in the number's interval, so that it rounds back to
the number. The grids that are tried reach far enough down to hold such a point.
-/

namespace FilterQuery

namespace Decimal

theorem pow_toNat_div (b : ℚ) (n : Int) :
    b ^ n.toNat / b ^ (-n).toNat = b ^ n := by
  cases n with
  | ofNat n => simp
  | negSucc n => simp [zpow_negSucc]

theorem step_den_pos (e p : Int) : 0 < (step e p).2 :=
  Nat.mul_pos (Nat.pow_pos (by decide)) (Nat.two_pow_pos _)

theorem step_num_pos (e p : Int) : 0 < (step e p).1 :=
  Nat.mul_pos (Nat.pow_pos (by decide)) (Nat.two_pow_pos _)

theorem step_ratio (e p : Int) : ((step e p).1 : ℚ) / (step e p).2 = 10 ^ p * 2 ^ (2 - e) := by
  have hten := pow_toNat_div 10 p
  have htwo := pow_toNat_div 2 (2 - e)
  rw [← hten, ← htwo, show -(2 - e) = e - 2 by ring]
  simp only [step, Nat.pow_eq, Nat.cast_mul, Nat.cast_pow, Nat.cast_ofNat]
  rw [mul_div_mul_comm]

/-- A grid point is taken exactly when it lies in the number's interval. -/
theorem hits_iff (m : Nat) (e p : Int) (c : Nat) :
    hits m e p c = true ↔ Binary64.Within m e (c * 10 ^ p * 2 ^ (2 - e)) := by
  have hden : (0 : ℚ) < (step e p).2 := by exact_mod_cast step_den_pos e p
  have hx : (c * 10 ^ p * 2 ^ (2 - e) : ℚ) = c * (step e p).1 / (step e p).2 := by
    rw [mul_assoc, ← step_ratio, mul_div_assoc]
  rw [hx, Binary64.Within, hits]
  by_cases hm : m % 2 = 0
  · rw [if_pos hm]
    simp only [hm, if_true, Bool.and_eq_true, decide_eq_true_eq]
    rw [le_div_iff₀ hden, div_le_iff₀ hden]
    norm_cast
  · rw [if_neg hm]
    simp only [hm, if_false, Bool.and_eq_true, decide_eq_true_eq]
    rw [lt_div_iff₀ hden, div_lt_iff₀ hden]
    norm_cast

theorem hits_of_onGrid? {tie : Tie} {m : Nat} {e p : Int} {d : Decimal}
    (h : onGrid? tie m e p = some d) : hits m e d.exponent d.digits = true := by
  simp only [onGrid?] at h
  split at h
  · simp at h
  · cases h
    assumption
  · cases h
    assumption
  · split at h
    · cases h
      assumption
    · split at h
      · cases h
        assumption
      · split at h <;> cases h <;> assumption

theorem onGrid?_isSome {tie : Tie} {m : Nat} {e p : Int}
    (h : (10 : ℚ) ^ p ≤ 2 ^ (e - 2)) : (onGrid? tie m e p).isSome = true := by
  have hden := step_den_pos e p
  have hnum := step_num_pos e p
  have hstep : (step e p).1 ≤ (step e p).2 := by
    have hq : (0 : ℚ) < (step e p).2 := by exact_mod_cast hden
    rw [← Nat.cast_le (α := ℚ), ← div_le_one hq, step_ratio]
    calc (10 : ℚ) ^ p * 2 ^ (2 - e) ≤ 2 ^ (e - 2) * 2 ^ (2 - e) := by gcongr
      _ = 1 := by rw [← zpow_add₀ (by norm_num)]; simp
  have hlow : lowEnd m e ≤ 4 * m := by
    unfold lowEnd
    split <;> omega
  -- the first grid point above the number itself is not yet past the upper end
  have hhit : hits m e p (4 * m * (step e p).2 / (step e p).1 + 1) = true := by
    have hdiv := Nat.div_add_mod (4 * m * (step e p).2) (step e p).1
    have hmod := Nat.mod_lt (4 * m * (step e p).2) hnum
    generalize 4 * m * (step e p).2 / (step e p).1 = c at *
    have hnext : (c + 1) * (step e p).1 = (step e p).1 * c + (step e p).1 := by ring
    have h1 : lowEnd m e * (step e p).2 < (c + 1) * (step e p).1 :=
      lt_of_le_of_lt (Nat.mul_le_mul_right _ hlow) (by omega)
    have h2 : (c + 1) * (step e p).1 < highEnd m * (step e p).2 := by
      rw [highEnd, hnext, Nat.add_mul (4 * m)]
      omega
    simp only [hits]
    split <;> simp only [Bool.and_eq_true, decide_eq_true_eq] <;> omega
  unfold onGrid?
  simp only [hhit]
  cases hits m e p (4 * m * (step e p).2 / (step e p).1) with
  | false => rfl
  | true =>
    repeat' split
    all_goals simp_all

theorem search_hits {tie : Tie} {m : Nat} {e : Int} (n : Nat) (p : Int)
    (h : ∃ k : Int, p - n < k ∧ k ≤ p ∧ (onGrid? tie m e k).isSome = true) :
    hits m e (search tie m e n p).exponent (search tie m e n p).digits = true := by
  induction n generalizing p with
  | zero =>
    obtain ⟨k, hk, hk', -⟩ := h
    omega
  | succ n ih =>
    unfold search
    split
    · rename_i d hd
      exact hits_of_onGrid? hd
    · rename_i hd
      obtain ⟨k, hk, hk', hs⟩ := h
      have hne : k ≠ p := by
        rintro rfl
        rw [hd] at hs
        exact Bool.noConfusion hs
      exact ih (p - 1) ⟨k, by push_cast at hk; omega, by omega, hs⟩

/-- Powers of ten against powers of two, by `10 ^ 59 ≤ 2 ^ 196` and `2 ^ 93 ≤ 10 ^ 28`. -/
theorem ten_zpow_le {p k : Int} (hpos : 0 ≤ p → 196 * p ≤ 59 * k)
    (hneg : p < 0 → 93 * p ≤ 28 * k) : (10 : ℚ) ^ p ≤ 2 ^ k := by
  rcases Int.lt_or_le p 0 with hp | hp
  · have h : ((10 : ℚ) ^ p) ^ 28 ≤ (2 ^ k) ^ 28 := by
      rw [← zpow_natCast, ← zpow_natCast, ← zpow_mul, ← zpow_mul]
      calc (10 : ℚ) ^ (p * (28 : Nat)) = ((10 ^ 28) ^ (-p))⁻¹ := by
            rw [← zpow_neg, neg_neg, ← zpow_natCast, ← zpow_mul, mul_comm]
        _ ≤ ((2 ^ 93) ^ (-p))⁻¹ := by
          gcongr ?_⁻¹
          exact zpow_le_zpow_left₀ (by omega) (by norm_num) (by norm_num)
        _ = 2 ^ (93 * p) := by
          rw [← zpow_neg, neg_neg, ← zpow_natCast, ← zpow_mul]
          rfl
        _ ≤ 2 ^ (k * (28 : Nat)) := zpow_le_zpow_right₀ (by norm_num) (by have := hneg hp; omega)
    exact le_of_pow_le_pow_left₀ (by norm_num) (by positivity) h
  · have h : ((10 : ℚ) ^ p) ^ 59 ≤ (2 ^ k) ^ 59 := by
      rw [← zpow_natCast, ← zpow_natCast, ← zpow_mul, ← zpow_mul]
      calc (10 : ℚ) ^ (p * (59 : Nat)) = (10 ^ 59) ^ p := by
            rw [← zpow_natCast, ← zpow_mul, mul_comm]
        _ ≤ (2 ^ 196) ^ p := zpow_le_zpow_left₀ hp (by norm_num) (by norm_num)
        _ = 2 ^ (196 * p) := by
          rw [← zpow_natCast, ← zpow_mul]
          rfl
        _ ≤ 2 ^ (k * (59 : Nat)) := zpow_le_zpow_right₀ (by norm_num) (by have := hpos hp; omega)
    exact le_of_pow_le_pow_left₀ (by norm_num) (by positivity) h

theorem within_shortest (tie : Tie) {m : Nat} {e : Int} (hc : Binary64.Canonical m e)
    (hm : 0 < m) :
    Binary64.Within m e ((shortest tie m e).digits * 10 ^ (shortest tie m e).exponent *
      2 ^ (2 - e)) := by
  obtain ⟨hm53, hemin, hemax, -⟩ := hc.bounds
  rw [← hits_iff, shortest, if_neg (by omega)]
  have hlog : m.log2 < 53 := (Nat.log2_lt (by omega)).2 hm53
  apply search_hits
  refine ⟨((m.log2 + e + 1) * 30103) / 100000 + 1 - 23, by omega, by omega, ?_⟩
  apply onGrid?_isSome
  apply ten_zpow_le <;> omega

end Decimal

end FilterQuery
