import Mathlib.Algebra.Order.Field.Power
import Mathlib.Algebra.Order.Floor.Semifield
import Mathlib.Data.Int.Log
import Mathlib.Data.Rat.Floor
import Mathlib.Tactic.FieldSimp
import Mathlib.Tactic.Linarith
import Mathlib.Tactic.NormNum
import Mathlib.Tactic.Positivity
import Mathlib.Tactic.Ring
import TableSteps.Binary64.Magnitude

/-! # Rounding a fraction to a double

The closest double depends on the value of a fraction alone and not on how the fraction is written,
and the fraction of a double is rounded to that double. Past the largest exponent every fraction
becomes infinity, and far below the least value every fraction becomes zero. -/

namespace TableSteps.Binary64

/-! ## The unit of a fraction -/

theorem two_pow_toNat (u : Int) : (2 : ℚ) ^ u.toNat = 2 ^ u * 2 ^ (-u).toNat := by
  obtain ⟨n, rfl | rfl⟩ := u.eq_nat_or_neg <;> simp

/-- Shifting both sides of a fraction divides its value by the unit. -/
theorem mul_shift_le_iff {c num den : Nat} (hd : 0 < den) (u : Int) :
    c * (den <<< u.toNat) ≤ num <<< (-u).toNat ↔ (c : ℚ) * 2 ^ u ≤ num / den := by
  have hden : (0 : ℚ) < den := by exact_mod_cast hd
  have hpow : (0 : ℚ) < 2 ^ (-u).toNat := by positivity
  rw [le_div_iff₀ hden, ← Nat.cast_le (α := ℚ)]
  simp only [Nat.shiftLeft_eq, Nat.cast_mul, Nat.cast_pow, Nat.cast_ofNat]
  rw [two_pow_toNat u,
    show (c : ℚ) * (den * (2 ^ u * 2 ^ (-u).toNat)) = c * 2 ^ u * den * 2 ^ (-u).toNat by ring]
  exact mul_le_mul_iff_left₀ hpow

theorem shift_lt_mul_iff {c num den : Nat} (hd : 0 < den) (u : Int) :
    num <<< (-u).toNat < c * (den <<< u.toNat) ↔ (num / den : ℚ) < c * 2 ^ u := by
  rw [← not_le, mul_shift_le_iff hd, not_le]

/-- The unit puts the leading digit of the fraction at the last of 53 places, unless that would be
below the unit of the least values. -/
theorem unit_eq {num den : Nat} (hn : 0 < num) (hd : 0 < den) :
    unit num den = max (-1074) (Int.log 2 (num / den : ℚ) - 52) := by
  have hnum : (0 : ℚ) < num := by exact_mod_cast hn
  have hden : (0 : ℚ) < den := by exact_mod_cast hd
  have hr : (0 : ℚ) < num / den := by positivity
  have hnlow : (2 : ℚ) ^ (num.log2 : Int) ≤ num := by
    exact_mod_cast Nat.log2_self_le hn.ne'
  have hnhigh : (num : ℚ) < 2 ^ (num.log2 + 1 : Int) := by
    exact_mod_cast Nat.lt_log2_self
  have hdlow : (2 : ℚ) ^ (den.log2 : Int) ≤ den := by
    exact_mod_cast Nat.log2_self_le hd.ne'
  have hdhigh : (den : ℚ) < 2 ^ (den.log2 + 1 : Int) := by
    exact_mod_cast Nat.lt_log2_self
  have hlow : (num.log2 : Int) - den.log2 - 1 ≤ Int.log 2 (num / den : ℚ) := by
    rw [← Int.zpow_le_iff_le_log one_lt_two hr, le_div_iff₀ hden]
    calc ((2 : Nat) : ℚ) ^ ((num.log2 : Int) - den.log2 - 1) * den
        ≤ 2 ^ ((num.log2 : Int) - den.log2 - 1) * 2 ^ (den.log2 + 1 : Int) := by
          push_cast
          gcongr
      _ = 2 ^ (num.log2 : Int) := by
          rw [← zpow_add₀ two_ne_zero]
          congr 1
          omega
      _ ≤ num := hnlow
  have hhigh : Int.log 2 (num / den : ℚ) < (num.log2 : Int) - den.log2 + 1 := by
    rw [← Int.lt_zpow_iff_log_lt one_lt_two hr, div_lt_iff₀ hden]
    calc (num : ℚ) < 2 ^ (num.log2 + 1 : Int) := hnhigh
      _ = 2 ^ ((num.log2 : Int) - den.log2 + 1) * 2 ^ (den.log2 : Int) := by
          rw [← zpow_add₀ two_ne_zero]
          congr 1
          omega
      _ ≤ ((2 : Nat) : ℚ) ^ ((num.log2 : Int) - den.log2 + 1) * den := by
          push_cast
          gcongr
  have hshort : ∀ g : Int, num <<< (-g).toNat < binade * (den <<< g.toNat) ↔
      Int.log 2 (num / den : ℚ) < g + 52 := by
    intro g
    rw [shift_lt_mul_iff hd, ← Int.lt_zpow_iff_log_lt one_lt_two hr, zpow_add₀ (by norm_num)]
    norm_num [binade, mul_comm]
  simp only [unit, hshort]
  split <;> omega

/-! ## The closest double -/

theorem roundDiv_mul {c num den : Nat} (hc : 0 < c) :
    roundDiv (c * num) (c * den) = roundDiv num den := by
  simp only [roundDiv, Nat.mul_div_mul_left _ _ hc, Nat.mul_mod_mul_left]
  rw [show 2 * (c * (num % den)) = c * (2 * (num % den)) by ring]
  simp only [Nat.mul_lt_mul_left hc]

theorem roundDiv_mul_self {m den : Nat} (hd : 0 < den) : roundDiv (m * den) den = m := by
  simp [roundDiv, Nat.mul_div_cancel _ hd, hd]

theorem div_le_roundDiv (num den : Nat) : num / den ≤ roundDiv num den := by
  unfold roundDiv
  simp only
  split
  · exact Nat.le_refl _
  · split
    · exact Nat.le_succ _
    · split
      · exact Nat.le_refl _
      · exact Nat.le_succ _

theorem roundDiv_le (num den : Nat) : roundDiv num den ≤ num / den + 1 := by
  unfold roundDiv
  simp only
  split
  · omega
  · split
    · exact Nat.le_refl _
    · split <;> omega

theorem nearest_le_limit (num den : Nat) : nearest num den ≤ limit := by
  unfold nearest
  split
  · exact Nat.zero_le _
  · exact Nat.min_le_left _ _

theorem nearest_mul {c num den : Nat} (hc : 0 < c) (hd : 0 < den) :
    nearest (c * num) (c * den) = nearest num den := by
  rcases Nat.eq_zero_or_pos num with rfl | hn
  · simp [nearest]
  · have hunit : unit (c * num) (c * den) = unit num den := by
      have hcq : (c : ℚ) ≠ 0 := by exact_mod_cast hc.ne'
      rw [unit_eq (by positivity) (by positivity), unit_eq hn hd]
      push_cast
      rw [mul_div_mul_left _ _ hcq]
    have hshift : ∀ x k : Nat, (c * x) <<< k = c * (x <<< k) := by
      intro x k
      simp only [Nat.shiftLeft_eq, Nat.mul_assoc]
    simp only [nearest, hunit, hshift, roundDiv_mul hc, Nat.mul_eq_zero, hc.ne', false_or]

/-- Two ways to write one fraction have one closest double. -/
theorem nearest_congr {num den num' den' : Nat} (hd : 0 < den) (hd' : 0 < den')
    (h : num * den' = num' * den) : nearest num den = nearest num' den' := by
  rw [← nearest_mul hd' hd, ← nearest_mul hd hd', Nat.mul_comm den' num, h,
    Nat.mul_comm den' den, Nat.mul_comm num' den]

/-! ## The fraction of a double -/

theorem value_eq (k : Nat) :
    (numerator k / denominator k : ℚ) = significand k * 2 ^ exponent k := by
  have hpow : (2 : ℚ) ^ (-exponent k).toNat ≠ 0 := by positivity
  simp only [numerator, denominator, Nat.shiftLeft_eq, Nat.one_mul, Nat.cast_mul, Nat.cast_pow,
    Nat.cast_ofNat]
  rw [two_pow_toNat]
  field_simp

theorem significand_pos {k : Nat} (hk : 0 < k) : 0 < significand k := by
  unfold significand binade
  split <;> omega

/-- A number of `n` binary digits, scaled by a power of two. -/
theorem log_mul_zpow_lt {m n : Nat} (hm : 0 < m) (h : m < 2 ^ n) (e : Int) :
    Int.log 2 ((m : ℚ) * 2 ^ e) < e + n := by
  have hpos : (0 : ℚ) < m := by exact_mod_cast hm
  have hr : (0 : ℚ) < m * 2 ^ e := by positivity
  have hlt : (m : ℚ) < 2 ^ (n : Int) := by exact_mod_cast h
  rw [← Int.lt_zpow_iff_log_lt one_lt_two hr, add_comm e, Nat.cast_ofNat, zpow_add₀ two_ne_zero]
  gcongr

theorem le_log_mul_zpow {m n : Nat} (h : 2 ^ n ≤ m) (e : Int) :
    e + n ≤ Int.log 2 ((m : ℚ) * 2 ^ e) := by
  have hle : (2 : ℚ) ^ (n : Int) ≤ m := by exact_mod_cast h
  have hpos : (0 : ℚ) < m := lt_of_lt_of_le (by positivity) hle
  have hr : (0 : ℚ) < m * 2 ^ e := by positivity
  rw [← Int.zpow_le_iff_le_log one_lt_two hr, add_comm e, Nat.cast_ofNat, zpow_add₀ two_ne_zero]
  gcongr

/-- The unit of a double is the power of two that its significand counts. -/
theorem unit_value {k : Nat} (hk : 0 < k) : unit (numerator k) (denominator k) = exponent k := by
  have hs : 0 < significand k := significand_pos hk
  have hn : 0 < numerator k := by
    simp only [numerator, Nat.shiftLeft_eq]
    positivity
  rw [unit_eq hn (denominator_pos k), value_eq]
  by_cases hsmall : k < binade
  · have he : exponent k = -1074 := by simp [exponent, hsmall]
    have hlt : significand k < 2 ^ 52 := by
      unfold significand
      rwa [if_pos hsmall]
    have hlog := log_mul_zpow_lt hs hlt (exponent k)
    omega
  · have he : -1074 ≤ exponent k := by
      unfold exponent binade at *
      rw [if_neg hsmall]
      omega
    have hlow : 2 ^ 52 ≤ significand k := by
      unfold significand
      rw [if_neg hsmall]
      exact Nat.le_add_left _ _
    have hhigh : significand k < 2 ^ 53 := by
      unfold significand binade
      split <;> omega
    have hlog := log_mul_zpow_lt hs hhigh (exponent k)
    have hlog' := le_log_mul_zpow hlow (exponent k)
    omega

/-- The closest double to the value of a double is that double. -/
theorem nearest_value {k : Nat} (hk : k < limit) : nearest (numerator k) (denominator k) = k := by
  rcases Nat.eq_zero_or_pos k with rfl | hpos
  · decide
  · have hn : numerator k ≠ 0 := by
      have := significand_pos hpos
      simp only [numerator, Nat.shiftLeft_eq]
      positivity
    have hround : roundDiv (numerator k <<< (-exponent k).toNat)
        (denominator k <<< (exponent k).toNat) = significand k := by
      have hshift : numerator k <<< (-exponent k).toNat =
          significand k * (denominator k <<< (exponent k).toNat) := by
        simp only [numerator, denominator, Nat.shiftLeft_eq]
        ring
      rw [hshift]
      refine roundDiv_mul_self ?_
      have := denominator_pos k
      simp only [Nat.shiftLeft_eq]
      positivity
    simp only [nearest, hn, if_false, unit_value hpos, hround]
    unfold limit at hk ⊢
    by_cases hsmall : k < binade
    · have hzero : ((-1074 : Int) + 1074).toNat = 0 := by decide
      simp only [exponent, significand, hsmall, if_true, hzero, Nat.zero_mul, Nat.zero_add]
      omega
    · simp only [exponent, significand, hsmall, if_false]
      unfold binade at hsmall ⊢
      omega

/-! ## Very large and very small fractions -/

theorem nearest_eq_limit {num den n : Nat} (hd : 0 < den) (hn : 1024 ≤ n)
    (h : 2 ^ n * den ≤ num) : nearest num den = limit := by
  have hden : (0 : ℚ) < den := by exact_mod_cast hd
  have hpos : 0 < num := lt_of_lt_of_le (by positivity) h
  have hnum : (0 : ℚ) < num := by exact_mod_cast hpos
  have hr : (0 : ℚ) < num / den := by positivity
  have hlog : (n : Int) ≤ Int.log 2 (num / den : ℚ) := by
    rw [← Int.zpow_le_iff_le_log one_lt_two hr, le_div_iff₀ hden]
    exact_mod_cast h
  have hu : unit num den = Int.log 2 (num / den : ℚ) - 52 := by
    rw [unit_eq hpos hd]
    omega
  have hbinade : binade ≤ roundDiv (num <<< (-unit num den).toNat)
      (den <<< (unit num den).toNat) := by
    refine le_trans ?_ (div_le_roundDiv _ _)
    have hshift : 0 < den <<< (unit num den).toNat := by
      simp only [Nat.shiftLeft_eq]
      positivity
    rw [Nat.le_div_iff_mul_le hshift, mul_shift_le_iff hd, hu]
    calc (binade : ℚ) * 2 ^ (Int.log 2 (num / den : ℚ) - 52)
        = ((2 : Nat) : ℚ) ^ Int.log 2 (num / den : ℚ) := by
          rw [zpow_sub₀ two_ne_zero]
          norm_num [binade]
          ring
      _ ≤ num / den := Int.zpow_log_le_self one_lt_two hr
  have hle : limit ≤ (unit num den + 1074).toNat * binade +
      roundDiv (num <<< (-unit num den).toNat) (den <<< (unit num den).toNat) := by
    have hexp : 2046 ≤ (unit num den + 1074).toNat := by omega
    calc limit = 2046 * binade + binade := by decide
      _ ≤ _ := by gcongr
  simp only [nearest, hpos.ne', if_false]
  exact Nat.min_eq_left hle

/-- A fraction well below the largest double has a finite one. -/
theorem nearest_lt_limit {num den n : Nat} (hd : 0 < den) (hn : n ≤ 1000) (h : num < 2 ^ n * den) :
    nearest num den < limit := by
  rcases Nat.eq_zero_or_pos num with rfl | hpos
  · rw [nearest, if_pos rfl]
    decide
  · have hden : (0 : ℚ) < den := by exact_mod_cast hd
    have hnum : (0 : ℚ) < num := by exact_mod_cast hpos
    have hr : (0 : ℚ) < num / den := by positivity
    have hlog : Int.log 2 (num / den : ℚ) < n := by
      rw [← Int.lt_zpow_iff_log_lt one_lt_two hr, div_lt_iff₀ hden]
      exact_mod_cast h
    have hu : unit num den = max (-1074) (Int.log 2 (num / den : ℚ) - 52) := unit_eq hpos hd
    have hshift : num <<< (-unit num den).toNat <
        2 * binade * (den <<< (unit num den).toNat) := by
      rw [shift_lt_mul_iff hd]
      calc (num / den : ℚ) < ((2 : Nat) : ℚ) ^ (Int.log 2 (num / den : ℚ) + 1) :=
            Int.lt_zpow_succ_log_self one_lt_two _
        _ ≤ ((2 : Nat) : ℚ) ^ (53 + unit num den) :=
            zpow_le_zpow_right₀ (by norm_num) (by omega)
        _ = (2 * binade : Nat) * 2 ^ unit num den := by
            rw [zpow_add₀ (by norm_num)]
            norm_num [binade]
    have hround : roundDiv (num <<< (-unit num den).toNat) (den <<< (unit num den).toNat) ≤
        2 * binade := by
      refine le_trans (roundDiv_le _ _) (Nat.div_lt_of_lt_mul ?_)
      rwa [Nat.mul_comm]
    have hexp : (unit num den + 1074).toNat ≤ 2022 := by omega
    have hsum : (unit num den + 1074).toNat * binade +
        roundDiv (num <<< (-unit num den).toNat) (den <<< (unit num den).toNat) < limit :=
      calc _ ≤ 2022 * binade + 2 * binade := by gcongr
        _ < limit := by decide
    simp only [nearest, hpos.ne', if_false]
    exact lt_of_le_of_lt (Nat.min_le_right _ _) hsum

theorem nearest_eq_zero {num den n : Nat} (hn : 1076 ≤ n) (h : num * 2 ^ n ≤ den) :
    nearest num den = 0 := by
  rcases Nat.eq_zero_or_pos num with rfl | hpos
  · rfl
  · have hd : 0 < den := lt_of_lt_of_le (by positivity) h
    have hden : (0 : ℚ) < den := by exact_mod_cast hd
    have hnum : (0 : ℚ) < num := by exact_mod_cast hpos
    have hr : (0 : ℚ) < num / den := by positivity
    have hlog : Int.log 2 (num / den : ℚ) < -n + 1 := by
      rw [← Int.lt_zpow_iff_log_lt one_lt_two hr, div_lt_iff₀ hden, Nat.cast_ofNat,
        zpow_add₀ two_ne_zero, zpow_neg, zpow_natCast, zpow_one]
      have hq : (num : ℚ) * 2 ^ n ≤ den := by exact_mod_cast h
      rw [← mul_lt_mul_iff_left₀ (show (0 : ℚ) < 2 ^ n by positivity)]
      field_simp
      linarith
    have hu : unit num den = -1074 := by
      rw [unit_eq hpos hd]
      omega
    have hquarter : ∀ m : Nat, m + 2 ≤ n → num <<< m * 4 ≤ den := by
      intro m hm
      refine le_trans ?_ h
      rw [Nat.shiftLeft_eq, Nat.mul_assoc]
      refine Nat.mul_le_mul_left _ ?_
      calc 2 ^ m * 4 = 2 ^ (m + 2) := by ring
        _ ≤ 2 ^ n := Nat.pow_le_pow_right two_pos hm
    have hsmall : num <<< 1074 * 4 ≤ den := hquarter 1074 hn
    have hround : roundDiv (num <<< 1074) den = 0 := by
      have hlt : num <<< 1074 < den := by omega
      have hhalf : 2 * (num <<< 1074) < den := by omega
      simp only [roundDiv, Nat.div_eq_of_lt hlt, Nat.mod_eq_of_lt hlt, if_pos hhalf]
    have hgoal : nearest num den = min limit (0 * binade + roundDiv (num <<< 1074) den) := by
      simp only [nearest, hpos.ne', if_false, hu]
      rfl
    rw [hgoal, hround]
    rfl

end TableSteps.Binary64
