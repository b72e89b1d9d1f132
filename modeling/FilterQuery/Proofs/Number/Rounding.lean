import FilterQuery.Number.Shortest
import Mathlib.Algebra.Order.Archimedean.Basic
import Mathlib.Algebra.Order.Field.Power
import Mathlib.Data.Rat.Cast.Order
import Mathlib.Tactic.FieldSimp
import Mathlib.Tactic.Linarith
import Mathlib.Tactic.Positivity
import Mathlib.Tactic.Ring
set_option autoImplicit false

/-!
Rounding of quotients and decimals to binary numbers, in exact rational arithmetic: every rational
in the interval of a number rounds to that number.
-/

namespace FilterQuery

namespace Binary64

/-- A rational, in quarters of the unit `2 ^ e`, that lies in the interval of `m * 2 ^ e`. -/
def Within (m : Nat) (e : Int) (x : ℚ) : Prop :=
  if m % 2 = 0 then (Decimal.lowEnd m e : ℚ) ≤ x ∧ x ≤ Decimal.highEnd m
  else (Decimal.lowEnd m e : ℚ) < x ∧ x < Decimal.highEnd m

theorem Within.le {m : Nat} {e : Int} {x : ℚ} (h : Within m e x) :
    (Decimal.lowEnd m e : ℚ) ≤ x ∧ x ≤ Decimal.highEnd m := by
  unfold Within at h
  split at h
  · exact h
  · exact ⟨h.1.le, h.2.le⟩

theorem Within.lt_of_odd {m : Nat} {e : Int} {x : ℚ} (h : Within m e x) (hm : m % 2 = 1) :
    (Decimal.lowEnd m e : ℚ) < x ∧ x < Decimal.highEnd m := by
  unfold Within at h
  rwa [if_neg (by omega)] at h

theorem Canonical.bounds {m : Nat} {e : Int} (h : Canonical m e) :
    m < 2 ^ 53 ∧ -1074 ≤ e ∧ e ≤ 971 ∧ (e = -1074 ∨ 2 ^ 52 ≤ m) := h

theorem scale_ratio (a b : Nat) (t : Int) :
    ((scale a b t).1 : ℚ) / (scale a b t).2 = a / b * 2 ^ t := by
  cases t with
  | ofNat n => simp [scale, Nat.pow_eq, mul_div_right_comm]
  | negSucc n =>
    have h : (-(Int.negSucc n)).toNat = n + 1 := rfl
    simp only [scale, Nat.pow_eq, h, zpow_negSucc, Int.toNat_negSucc, Nat.pow_zero, Nat.mul_one,
      Nat.cast_mul, Nat.cast_pow, Nat.cast_ofNat, ← div_eq_mul_inv, div_div]

theorem scale_den_pos {a b : Nat} (hb : 0 < b) (t : Int) : 0 < (scale a b t).2 :=
  Nat.mul_pos hb (Nat.two_pow_pos _)

theorem log2_bounds {n : Nat} (h : 0 < n) :
    (2 : ℚ) ^ (n.log2 : Int) ≤ n ∧ (n : ℚ) < 2 ^ ((n.log2 : Int) + 1) := by
  have hlow := Nat.log2_self_le (Nat.pos_iff_ne_zero.1 h)
  have hhigh := Nat.lt_log2_self (n := n)
  constructor
  · rw [zpow_natCast]
    exact_mod_cast hlow
  · rw [show ((n.log2 : Int) + 1) = ((n.log2 + 1 : Nat) : Int) by push_cast; ring, zpow_natCast]
    exact_mod_cast hhigh

/-- The difference of the logarithms is that of a quotient, or one more. -/
theorem quotient_log2_bounds {num den : Nat} (hn : 0 < num) (hd : 0 < den) :
    (2 : ℚ) ^ ((num.log2 : Int) - den.log2 - 1) < num / den ∧
      (num / den : ℚ) < 2 ^ ((num.log2 : Int) - den.log2 + 1) := by
  have hdq : (0 : ℚ) < den := by exact_mod_cast hd
  obtain ⟨nlow, nhigh⟩ := log2_bounds hn
  obtain ⟨dlow, dhigh⟩ := log2_bounds hd
  constructor
  · rw [lt_div_iff₀ hdq]
    calc (2 : ℚ) ^ ((num.log2 : Int) - den.log2 - 1) * den
        < 2 ^ ((num.log2 : Int) - den.log2 - 1) * 2 ^ ((den.log2 : Int) + 1) := by gcongr
      _ = 2 ^ (num.log2 : Int) := by rw [← zpow_add₀ (by norm_num)]; congr 1; ring
      _ ≤ num := nlow
  · rw [div_lt_iff₀ hdq]
    calc (num : ℚ) < 2 ^ ((num.log2 : Int) + 1) := nhigh
      _ = 2 ^ ((num.log2 : Int) - den.log2 + 1) * 2 ^ (den.log2 : Int) := by
        rw [← zpow_add₀ (by norm_num)]; congr 1; ring
      _ ≤ 2 ^ ((num.log2 : Int) - den.log2 + 1) * den := by gcongr

theorem scale_neg_le_iff (num : Nat) {den : Nat} (hd : 0 < den) (k : Int) :
    (scale num den (-k)).2 ≤ (scale num den (-k)).1 ↔ (2 : ℚ) ^ k ≤ num / den := by
  have hpos : (0 : ℚ) < (scale num den (-k)).2 := by exact_mod_cast scale_den_pos hd (-k)
  rw [← Nat.cast_le (α := ℚ), ← one_le_div hpos, scale_ratio, zpow_neg, ← div_eq_mul_inv,
    one_le_div (by positivity)]

/-- The unit of a quotient between `2 ^ l` and `2 ^ (l + 1)`. -/
theorem unitExponent_eq {num den : Nat} (hn : 0 < num) (hd : 0 < den) {l : Int}
    (hlow : (2 : ℚ) ^ l ≤ num / den) (hhigh : (num / den : ℚ) < 2 ^ (l + 1)) :
    unitExponent num den = max (-1074) (l - 52) := by
  have two : (1 : ℚ) < 2 := by norm_num
  obtain ⟨klow, khigh⟩ := quotient_log2_bounds hn hd
  generalize hkd : (num.log2 : Int) - den.log2 = k at klow khigh
  have hupper : l < k + 1 := (zpow_lt_zpow_iff_right₀ two).1 (lt_of_le_of_lt hlow khigh)
  have hlower : k - 1 < l + 1 := (zpow_lt_zpow_iff_right₀ two).1 (lt_trans klow hhigh)
  have hshift : (if (scale num den (-k)).2 ≤ (scale num den (-k)).1 then k - 52 else k - 53) =
      l - 52 := by
    by_cases h : (2 : ℚ) ^ k ≤ num / den
    · have : k < l + 1 := (zpow_lt_zpow_iff_right₀ two).1 (lt_of_le_of_lt h hhigh)
      rw [if_pos ((scale_neg_le_iff num hd k).2 h)]
      omega
    · have : l < k := (zpow_lt_zpow_iff_right₀ two).1 (lt_of_le_of_lt hlow (not_le.1 h))
      rw [if_neg (fun hc => h ((scale_neg_le_iff num hd k).1 hc))]
      omega
  simp only [unitExponent, hkd, hshift]

theorem roundQuotient_eq {n d m : Nat} (hd : 0 < d) (hlow : 2 * m * d ≤ 2 * n + d)
    (hhigh : 2 * n ≤ 2 * m * d + d)
    (hodd : m % 2 = 1 → 2 * m * d < 2 * n + d ∧ 2 * n < 2 * m * d + d) :
    roundQuotient n d = m := by
  have hdiv := Nat.div_add_mod n d
  have hmod := Nat.mod_lt n hd
  have hq : n / d = m ∨ n / d + 1 = m := by
    have h1 : n / d ≤ m := Nat.le_of_lt_succ ((Nat.div_lt_iff_lt_mul hd).2 (by nlinarith))
    have h2 : m ≤ n / d + 1 := by
      by_contra hc
      have : (n / d + 2) * d ≤ m * d := Nat.mul_le_mul_right d (by omega)
      nlinarith
    omega
  unfold roundQuotient
  rcases hq with h | h
  · have hn : n = d * m + n % d := by rw [← h]; exact hdiv.symm
    have hle : 2 * (n % d) ≤ d := by nlinarith
    simp only [h]
    split
    · rfl
    · rw [if_neg (by omega)]
      split
      · rfl
      · have := (hodd (by omega)).2
        exfalso
        nlinarith
  · have hn : n + d = d * m + n % d := by
      rw [← h, Nat.mul_add, Nat.mul_one]
      omega
    have hle : d ≤ 2 * (n % d) := by nlinarith
    simp only [h]
    rw [if_neg (by omega)]
    split
    · rfl
    · split
      · have := (hodd (by omega)).1
        exfalso
        nlinarith
      · rfl

theorem lowEnd_ge (m : Nat) (e : Int) : 4 * m ≤ Decimal.lowEnd m e + 2 := by
  unfold Decimal.lowEnd
  split <;> omega

theorem Within.le_add_two {m : Nat} {e : Int} {x : ℚ} (h : Within m e x) :
    (4 * m : ℚ) ≤ x + 2 := by
  have hends : (4 * m : ℚ) ≤ Decimal.lowEnd m e + 2 := by exact_mod_cast lowEnd_ge m e
  have hlow := h.le.1
  linarith

theorem Within.pos {m : Nat} {e : Int} {x : ℚ} (h : Within m e x) (hm : 0 < m) : 0 < x := by
  have hm1 : (1 : ℚ) ≤ m := by exact_mod_cast hm
  have hlow := h.le_add_two
  linarith

theorem Within.lt_two_pow {m : Nat} {e : Int} {x : ℚ} (h : Within m e x) (hc : Canonical m e) :
    x < 2 ^ 55 := by
  have hm53 : (m : ℚ) + 1 ≤ 2 ^ 53 := by exact_mod_cast hc.bounds.1
  have hhigh := h.le.2
  simp only [Decimal.highEnd, Nat.cast_add, Nat.cast_mul, Nat.cast_ofNat] at hhigh
  linarith

/-- Only the least mantissa has numbers below its own unit, and in the unit below they belong to
the mantissa `2 ^ 53`. -/
theorem Within.below {m : Nat} {e : Int} {x : ℚ} (h : Within m e x) (hc : Canonical m e)
    (he : e ≠ -1074) (hx : x < 2 ^ 54) :
    m = 2 ^ 52 ∧ 2 ^ 53 ≤ x ∧ Within (2 ^ 53) (e - 1) (2 * x) := by
  obtain ⟨-, -, -, hnorm⟩ := hc.bounds
  have hm52 : m = 2 ^ 52 := by
    have hge : 2 ^ 52 ≤ m := hnorm.resolve_left he
    have hlow := h.le_add_two
    have hlt : (4 * m : ℚ) < 2 ^ 54 + 2 := by linarith
    have hltn : 4 * m < 2 ^ 54 + 2 := by exact_mod_cast hlt
    omega
  have hend : Decimal.lowEnd m e = 2 ^ 54 - 1 := by
    rw [Decimal.lowEnd, if_pos ⟨hm52, he⟩, hm52]
    norm_num
  have hlow := h.le.1
  rw [hend] at hlow
  push_cast at hlow
  refine ⟨hm52, ?_, ?_⟩
  · refine le_trans ?_ hlow
    norm_num
  · rw [Within, if_pos (by norm_num), Decimal.lowEnd, if_neg (by norm_num), Decimal.highEnd]
    push_cast
    constructor <;> norm_num at hlow hx ⊢ <;> linarith

theorem roundQuotient_of_within {m num den : Nat} {e : Int} (hd : 0 < den)
    (h : Within m e (num / den * 2 ^ (2 - e))) :
    roundQuotient (scale num den (-e)).1 (scale num den (-e)).2 = m := by
  obtain ⟨hlow, hhigh⟩ := h.le
  have hends := lowEnd_ge m e
  have hratio := scale_ratio num den (-e)
  have hpos := scale_den_pos (a := num) hd (-e)
  have hx : (num / den * 2 ^ (2 - e) : ℚ) = 4 * (num / den * 2 ^ (-e)) := by
    rw [show (2 - e : Int) = 2 + -e by ring, zpow_add₀ (by norm_num)]
    ring
  have hodd := h.lt_of_odd
  rw [hx, ← hratio] at hlow hhigh hodd
  generalize (scale num den (-e)).1 = n at *
  generalize (scale num den (-e)).2 = d at *
  have hdq : (0 : ℚ) < d := by exact_mod_cast hpos
  have hends' : (4 * m : ℚ) ≤ Decimal.lowEnd m e + 2 := by exact_mod_cast hends
  have hn : (n / d : ℚ) * d = n := div_mul_cancel₀ _ hdq.ne'
  simp only [Decimal.highEnd, Nat.cast_add, Nat.cast_mul, Nat.cast_ofNat] at hhigh hodd
  apply roundQuotient_eq hpos
  · have : (2 * m * d : ℚ) ≤ 2 * n + d := by nlinarith
    exact_mod_cast this
  · have : (2 * n : ℚ) ≤ 2 * m * d + d := by nlinarith
    exact_mod_cast this
  · intro hm
    obtain ⟨h1, h2⟩ := hodd hm
    constructor
    · have : (2 * m * d : ℚ) < 2 * n + d := by nlinarith
      exact_mod_cast this
    · have : (2 * n : ℚ) < 2 * m * d + d := by nlinarith
      exact_mod_cast this

theorem two_zpow_mul_unit (k : Nat) (e : Int) :
    (2 : ℚ) ^ ((k : Int) + (e - 2)) * 2 ^ (2 - e) = 2 ^ k := by
  rw [← zpow_add₀ (by norm_num), show (k : Int) + (e - 2) + (2 - e) = k by ring, zpow_natCast]

/-- A power of two that a quotient reaches, told by the quotient in quarters of a unit. -/
theorem exponent_lt {r : ℚ} {l e : Int} {k : Nat} (hl : 2 ^ l ≤ r) (hx : r * 2 ^ (2 - e) < 2 ^ k) :
    l < k + (e - 2) := by
  have hunit : (0 : ℚ) < 2 ^ (2 - e) := by positivity
  rw [← two_zpow_mul_unit k e, mul_lt_mul_iff_left₀ hunit] at hx
  exact (zpow_lt_zpow_iff_right₀ (by norm_num : (1 : ℚ) < 2)).1 (hl.trans_lt hx)

theorem lt_exponent {r : ℚ} {l e : Int} {k : Nat} (hl : r < 2 ^ l) (hx : 2 ^ k ≤ r * 2 ^ (2 - e)) :
    k + (e - 2) < l := by
  have hunit : (0 : ℚ) < 2 ^ (2 - e) := by positivity
  rw [← two_zpow_mul_unit k e, mul_le_mul_iff_left₀ hunit] at hx
  exact (zpow_lt_zpow_iff_right₀ (by norm_num : (1 : ℚ) < 2)).1 (hx.trans_lt hl)

/-- Every quotient in the interval of a number rounds to it. -/
theorem ofRatio_eq (s : Bool) (num den : Nat) {m : Nat} {e : Int} (hc : Canonical m e) (hm : 0 < m)
    (hd : 0 < den) (h : Within m e (num / den * 2 ^ (2 - e))) :
    ofRatio s num den = finite s m e hc := by
  obtain ⟨hm53, hemin, -, hnorm⟩ := hc.bounds
  have hrpos : (0 : ℚ) < num / den := pos_of_mul_pos_left (h.pos hm) (by positivity)
  have hnum : 0 < num := by
    rcases Nat.eq_zero_or_pos num with rfl | hn
    · simp at hrpos
    · exact hn
  obtain ⟨l, hl⟩ := exists_mem_Ico_zpow hrpos (by norm_num : (1 : ℚ) < 2)
  have hunit := unitExponent_eq hnum hd hl.1 hl.2
  have hl55 := exponent_lt hl.1 (h.lt_two_pow hc)
  have hparts : ofParts s m e = finite s m e hc := dif_pos hc
  simp only [ofRatio, if_neg (Nat.pos_iff_ne_zero.1 hnum), hunit]
  by_cases hbelow : e ≠ -1074 ∧ (num / den * 2 ^ (2 - e) : ℚ) < 2 ^ 54
  · obtain ⟨hm52, h53, hwithin⟩ := h.below hc hbelow.1 hbelow.2
    have hmax : max (-1074) (l - 52) = e - 1 := by
      have hl54 := exponent_lt hl.1 hbelow.2
      have hl53 := lt_exponent hl.2 h53
      omega
    have hround : roundQuotient (scale num den (-(e - 1))).1 (scale num den (-(e - 1))).2 =
        2 ^ 53 := by
      have hscale : (num / den * 2 ^ (2 - (e - 1)) : ℚ) = 2 * (num / den * 2 ^ (2 - e)) := by
        rw [show (2 - (e - 1) : Int) = 1 + (2 - e) by ring, zpow_add₀ (by norm_num)]
        ring
      rw [← hscale] at hwithin
      exact roundQuotient_of_within hd hwithin
    rw [hmax, hround, Nat.pow_eq, Nat.pow_eq, if_pos rfl, show e - 1 + 1 = e by ring, ← hparts, hm52]
  · have hmax : max (-1074) (l - 52) = e := by
      rcases hnorm with he | hm52
      · omega
      · by_cases he : e = -1074
        · omega
        · have hx : (2 : ℚ) ^ 54 ≤ num / den * 2 ^ (2 - e) :=
            not_lt.1 fun hx => hbelow ⟨he, hx⟩
          have hl54 := lt_exponent hl.2 hx
          omega
    rw [hmax, roundQuotient_of_within hd h, Nat.pow_eq, Nat.pow_eq, if_neg (by omega), hparts]

theorem toDigits_bounds {n : Nat} (h : 0 < n) :
    (10 : ℚ) ^ (((Nat.toDigits 10 n).length : Int) - 1) ≤ n ∧
      (n : ℚ) < 10 ^ ((Nat.toDigits 10 n).length : Int) := by
  have hlen : 0 < (Nat.toDigits 10 n).length := Nat.length_toDigits_pos
  constructor
  · obtain ⟨k, hk⟩ := Nat.exists_eq_add_of_lt hlen
    rw [hk, show (((0 + k + 1 : Nat) : Int) - 1) = (k : Int) by push_cast; ring, zpow_natCast]
    rcases Nat.eq_zero_or_pos k with rfl | hpos
    · rw [pow_zero]
      exact_mod_cast h
    · have : 10 ^ k ≤ n := by
        by_contra hc
        have := (Nat.length_toDigits_le_iff (by decide) hpos).2 (not_le.1 hc)
        omega
      exact_mod_cast this
  · rw [zpow_natCast]
    exact_mod_cast (Nat.length_toDigits_le_iff (by decide) hlen).1 le_rfl

theorem two_pow_le_ten_pow : (2 : ℚ) ^ (1200 : Int) ≤ 10 ^ (400 : Int) := by
  calc (2 : ℚ) ^ (1200 : Int) = (2 ^ 3) ^ 400 := by rw [← pow_mul]; rfl
    _ ≤ 10 ^ 400 := pow_le_pow_left₀ (by norm_num) (by norm_num) 400

theorem digits_mul_lt {digits : Nat} {size exponent : Int} (h : (digits : ℚ) < 10 ^ size)
    (hsize : size + exponent ≤ -400) : (digits * 10 ^ exponent : ℚ) < (2 ^ (1200 : Int))⁻¹ := by
  calc (digits * 10 ^ exponent : ℚ) < 10 ^ size * 10 ^ exponent := by gcongr
    _ = 10 ^ (size + exponent) := by rw [← zpow_add₀ (by norm_num)]
    _ ≤ 10 ^ (-400 : Int) := zpow_le_zpow_right₀ (by norm_num) hsize
    _ ≤ (2 ^ (1200 : Int))⁻¹ := by
      rw [zpow_neg]
      gcongr
      exact two_pow_le_ten_pow

theorem le_digits_mul {digits : Nat} {size exponent : Int} (h : (10 : ℚ) ^ (size - 1) ≤ digits)
    (hsize : 400 < size + exponent) : (2 : ℚ) ^ (1200 : Int) ≤ digits * 10 ^ exponent := by
  calc (2 : ℚ) ^ (1200 : Int) ≤ 10 ^ (400 : Int) := two_pow_le_ten_pow
    _ ≤ 10 ^ (size - 1 + exponent) := zpow_le_zpow_right₀ (by norm_num) (by omega)
    _ = 10 ^ (size - 1) * 10 ^ exponent := by rw [← zpow_add₀ (by norm_num)]
    _ ≤ digits * 10 ^ exponent := by gcongr

/-- A decimal in the interval of a number has a size for which it is rounded at all. -/
theorem size_bounds {m digits : Nat} {e exponent : Int} (hc : Canonical m e) (hm : 0 < m)
    (hd : 0 < digits) (h : Within m e (digits * 10 ^ exponent * 2 ^ (2 - e))) :
    -400 ≤ ((Nat.toDigits 10 digits).length : Int) + exponent ∧
      ((Nat.toDigits 10 digits).length : Int) + exponent ≤ 400 := by
  obtain ⟨-, hemin, hemax, -⟩ := hc.bounds
  obtain ⟨dlow, dhigh⟩ := toDigits_bounds hd
  constructor
  · by_contra hsize
    have hm1 : (1 : ℚ) ≤ m := by exact_mod_cast hm
    have hlow := h.le_add_two
    have hx : (digits * 10 ^ exponent * 2 ^ (2 - e) : ℚ) ≤ 1 := by
      calc (digits * 10 ^ exponent * 2 ^ (2 - e) : ℚ)
          ≤ (2 ^ (1200 : Int))⁻¹ * 2 ^ (1200 : Int) := by
            gcongr
            · exact (digits_mul_lt dhigh (by omega)).le
            · norm_num
            · omega
        _ = 1 := inv_mul_cancel₀ (by positivity)
    linarith
  · by_contra hsize
    have hhigh := h.lt_two_pow hc
    have hx : (2 : ℚ) ^ 55 ≤ digits * 10 ^ exponent * 2 ^ (2 - e) := by
      calc (2 : ℚ) ^ 55 ≤ 2 ^ (1200 : Int) * 2 ^ (-1145 : Int) := by
            rw [← zpow_add₀ (by norm_num)]
            norm_num
        _ ≤ digits * 10 ^ exponent * 2 ^ (2 - e) := by
          gcongr
          · exact le_digits_mul dlow (by omega)
          · norm_num
          · omega
    linarith

theorem ofDecimal_eq (s : Bool) {m digits : Nat} {e exponent : Int} (hc : Canonical m e)
    (hm : 0 < m) (hd : 0 < digits) (h : Within m e (digits * 10 ^ exponent * 2 ^ (2 - e))) :
    ofDecimal s digits exponent = finite s m e hc := by
  obtain ⟨hsmall, hlarge⟩ := size_bounds hc hm hd h
  have hratio : ((digits * 10 ^ exponent.toNat : Nat) : ℚ) / ((10 ^ (-exponent).toNat : Nat) : ℚ) =
      digits * 10 ^ exponent := by
    cases exponent with
    | ofNat n => simp
    | negSucc n => simp [zpow_negSucc, div_eq_mul_inv]
  have hround := ofRatio_eq s (digits * 10 ^ exponent.toNat)
    (10 ^ (-exponent).toNat) hc hm (Nat.pow_pos (by decide)) (by rw [hratio]; exact h)
  simp only [ofDecimal]
  rw [if_neg (by omega), if_neg (by omega), Nat.pow_eq, Nat.pow_eq, hround]

end Binary64

end FilterQuery
