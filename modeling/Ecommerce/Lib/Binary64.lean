import Mathlib.Data.Int.Log
import Mathlib.Data.Rat.Floor

/-!
# Binary64 — rounding to doubles

An operation on doubles gives the double nearest to its exact result, and between two of them the
one with the even significand.  The exponents have no upper bound here: what is too large is for
those who use this to say.
-/

namespace Binary64

/-- The nearest integer, and between two the even one. -/
def roundHalfEven (q : ℚ) : Int :=
  if q - ⌊q⌋ < 1 / 2 then ⌊q⌋
  else if 1 / 2 < q - ⌊q⌋ then ⌊q⌋ + 1
  else if ⌊q⌋ % 2 = 0 then ⌊q⌋
  else ⌊q⌋ + 1

/-- The distance of the doubles around `q`, as an exponent of two. -/
def ulpExponent (q : ℚ) : Int := max (Int.log 2 |q| - 52) (-1074)

/-- The double nearest to `q`. -/
def nearest (q : ℚ) : ℚ := roundHalfEven (q / 2 ^ ulpExponent q) * 2 ^ ulpExponent q

/-! ## Integers -/

theorem roundHalfEven_intCast (z : Int) : roundHalfEven z = z := by
  simp [roundHalfEven]

theorem floor_le_roundHalfEven (q : ℚ) : ⌊q⌋ ≤ roundHalfEven q := by
  unfold roundHalfEven
  split_ifs <;> omega

theorem roundHalfEven_le_floor_add_one (q : ℚ) : roundHalfEven q ≤ ⌊q⌋ + 1 := by
  unfold roundHalfEven
  split_ifs <;> omega

theorem roundHalfEven_mono {p q : ℚ} (h : p ≤ q) : roundHalfEven p ≤ roundHalfEven q := by
  rcases (Int.floor_mono h).lt_or_eq with hlt | heq
  · calc roundHalfEven p ≤ ⌊p⌋ + 1 := roundHalfEven_le_floor_add_one p
      _ ≤ ⌊q⌋ := hlt
      _ ≤ roundHalfEven q := floor_le_roundHalfEven q
  · unfold roundHalfEven
    rw [heq]
    split_ifs <;> first | omega | linarith

theorem roundHalfEven_neg (q : ℚ) : roundHalfEven (-q) = -roundHalfEven q := by
  by_cases hint : (⌊q⌋ : ℚ) = q
  · rw [← hint, ← Int.cast_neg, roundHalfEven_intCast, roundHalfEven_intCast]
  · -- the two fractions add up to one
    have hlt : (⌊q⌋ : ℚ) < q := lt_of_le_of_ne (Int.floor_le q) hint
    have hfloor : ⌊-q⌋ = -⌊q⌋ - 1 := by
      rw [Int.floor_eq_iff]
      push_cast
      constructor <;> linarith [Int.lt_floor_add_one q]
    unfold roundHalfEven
    rw [hfloor]
    push_cast
    split_ifs <;> first | omega | linarith

/-! ## Doubles -/

theorem ulp_pos (q : ℚ) : (0 : ℚ) < 2 ^ ulpExponent q := zpow_pos two_pos _

theorem log_lt_iff {z : Int} (hz : z ≠ 0) (n : Nat) :
    Int.log 2 |(z : ℚ)| < n ↔ |z| < 2 ^ n := by
  have hpos : (0 : ℚ) < |(z : ℚ)| := by simpa using hz
  rw [← Int.lt_zpow_iff_log_lt (by decide) hpos]
  norm_cast

theorem nearest_zero : nearest 0 = 0 := by
  simp [nearest, roundHalfEven]

/-- Up to 2^53 every integer is a double. -/
theorem nearest_intCast {z : Int} (hz : |z| ≤ 2 ^ 53) : nearest z = z := by
  rcases hz.lt_or_eq with hlt | heq
  · rcases eq_or_ne z 0 with rfl | hne
    · simpa using nearest_zero
    · have hlog := (log_lt_iff hne 53).mpr hlt
      have hexponent : ulpExponent z ≤ 0 := by
        unfold ulpExponent
        omega
      obtain ⟨n, hn⟩ := Int.exists_eq_neg_ofNat hexponent
      have hdiv : (z : ℚ) / 2 ^ ulpExponent z = ((z * 2 ^ n : Int) : ℚ) := by
        rw [hn]
        simp
      rw [nearest, hdiv, roundHalfEven_intCast, ← hdiv]
      exact div_mul_cancel₀ _ (zpow_ne_zero _ two_ne_zero)
  · rcases (abs_eq (by norm_num)).mp heq with rfl | rfl
    · decide +kernel
    · decide +kernel

/-- From 2^53 on the doubles are even. -/
theorem nearest_even {z : Int} (hz : 2 ^ 53 ≤ |z|) : ∃ k : Int, nearest z = (2 * k : Int) := by
  have hne : z ≠ 0 := by
    rintro rfl
    exact absurd hz (by decide)
  have hlog := (log_lt_iff hne 53).not.mpr (not_lt.mpr hz)
  have hexponent : 1 ≤ ulpExponent z := by
    unfold ulpExponent
    push_cast at hlog
    omega
  obtain ⟨n, hn⟩ := Int.eq_ofNat_of_zero_le (Int.sub_nonneg_of_le hexponent)
  have hsplit : ulpExponent z = n + 1 := by omega
  refine ⟨roundHalfEven (z / 2 ^ ulpExponent z) * 2 ^ n, ?_⟩
  rw [nearest]
  nth_rewrite 2 [hsplit]
  rw [zpow_add₀ two_ne_zero, zpow_one, zpow_natCast]
  push_cast
  ring

/-- An integer is rounded to an integer. -/
theorem exists_nearest_eq (z : Int) : ∃ k : Int, nearest z = k := by
  rcases le_total |z| (2 ^ 53) with hz | hz
  · exact ⟨z, nearest_intCast hz⟩
  · obtain ⟨k, hk⟩ := nearest_even hz
    exact ⟨2 * k, hk⟩

theorem nearest_neg (q : ℚ) : nearest (-q) = -nearest q := by
  have hexponent : ulpExponent (-q) = ulpExponent q := by
    rw [ulpExponent, abs_neg, ulpExponent]
  rw [nearest, hexponent, neg_div, roundHalfEven_neg, Int.cast_neg, neg_mul, nearest]

theorem nearest_nonneg {q : ℚ} (hq : 0 ≤ q) : 0 ≤ nearest q := by
  have hround : 0 ≤ roundHalfEven (q / 2 ^ ulpExponent q) :=
    (Int.floor_nonneg.mpr (div_nonneg hq (ulp_pos q).le)).trans (floor_le_roundHalfEven _)
  exact mul_nonneg (by exact_mod_cast hround) (ulp_pos q).le

/-- Around a larger number the doubles are at least as far apart. -/
theorem ulpExponent_mono {p q : ℚ} (hp : 0 < p) (h : p ≤ q) : ulpExponent p ≤ ulpExponent q := by
  have hlog := Int.log_mono_right (b := 2) (abs_pos_of_pos hp) (abs_le_abs_of_nonneg hp.le h)
  unfold ulpExponent
  omega

theorem nearest_le_zpow {q : ℚ} (hq : 0 < q) : nearest q ≤ 2 ^ (ulpExponent q + 53) := by
  have hlog : Int.log 2 |q| + 1 ≤ ulpExponent q + 53 := by
    unfold ulpExponent
    omega
  have hlt : q < 2 ^ (ulpExponent q + 53) := by
    calc q = |q| := (abs_of_pos hq).symm
      _ < (2 : ℚ) ^ (Int.log 2 |q| + 1) := by exact_mod_cast Int.lt_zpow_succ_log_self one_lt_two |q|
      _ ≤ 2 ^ (ulpExponent q + 53) := zpow_le_zpow_right₀ one_le_two hlog
  have hquotient : q / 2 ^ ulpExponent q ≤ ((2 ^ 53 : Int) : ℚ) := by
    rw [div_le_iff₀ (ulp_pos q)]
    rw [zpow_add₀ two_ne_zero, mul_comm] at hlt
    exact_mod_cast hlt.le
  have hround := roundHalfEven_mono hquotient
  rw [roundHalfEven_intCast] at hround
  rw [nearest, zpow_add₀ two_ne_zero, mul_comm]
  exact mul_le_mul_of_nonneg_left (by exact_mod_cast hround) (ulp_pos q).le

theorem zpow_le_nearest {q : ℚ} (hq : 0 < q) (hnormal : -1074 < ulpExponent q) :
    2 ^ (ulpExponent q + 52) ≤ nearest q := by
  have hlog : ulpExponent q + 52 = Int.log 2 |q| := by
    unfold ulpExponent at hnormal ⊢
    omega
  have hle : 2 ^ (ulpExponent q + 52) ≤ q := by
    rw [hlog]
    calc (2 : ℚ) ^ Int.log 2 |q| ≤ |q| := by
          exact_mod_cast Int.zpow_log_le_self one_lt_two (abs_pos_of_pos hq)
      _ = q := abs_of_pos hq
  have hquotient : ((2 ^ 52 : Int) : ℚ) ≤ q / 2 ^ ulpExponent q := by
    rw [le_div_iff₀ (ulp_pos q)]
    rw [zpow_add₀ two_ne_zero, mul_comm] at hle
    exact_mod_cast hle
  have hround := roundHalfEven_mono hquotient
  rw [roundHalfEven_intCast] at hround
  rw [nearest, zpow_add₀ two_ne_zero, mul_comm]
  exact mul_le_mul_of_nonneg_right (by exact_mod_cast hround) (ulp_pos q).le

theorem nearest_mono_of_nonneg {p q : ℚ} (hp : 0 ≤ p) (h : p ≤ q) : nearest p ≤ nearest q := by
  rcases hp.eq_or_lt with rfl | hpos
  · rw [nearest_zero]
    exact nearest_nonneg h
  · rcases (ulpExponent_mono hpos h).lt_or_eq with hlt | heq
    · -- a power of two stands between them
      have hnormal : -1074 < ulpExponent q := lt_of_le_of_lt (le_max_right _ _) hlt
      calc nearest p ≤ 2 ^ (ulpExponent p + 53) := nearest_le_zpow hpos
        _ ≤ 2 ^ (ulpExponent q + 52) := zpow_le_zpow_right₀ one_le_two (by omega)
        _ ≤ nearest q := zpow_le_nearest (hpos.trans_le h) hnormal
    · have hround := roundHalfEven_mono (div_le_div_of_nonneg_right h (ulp_pos q).le)
      rw [nearest, nearest, heq]
      exact mul_le_mul_of_nonneg_right (by exact_mod_cast hround) (ulp_pos q).le

/-- Rounding does not change the order of two numbers. -/
theorem nearest_mono {p q : ℚ} (h : p ≤ q) : nearest p ≤ nearest q := by
  rcases le_total 0 p with hp | hp
  · exact nearest_mono_of_nonneg hp h
  · have hneg : nearest p ≤ 0 := by
      have := nearest_nonneg (neg_nonneg.mpr hp)
      rwa [nearest_neg, neg_nonneg] at this
    rcases le_total 0 q with hq | hq
    · exact hneg.trans (nearest_nonneg hq)
    · have hmirror := nearest_mono_of_nonneg (neg_nonneg.mpr hq) (neg_le_neg h)
      rwa [nearest_neg, nearest_neg, neg_le_neg_iff] at hmirror

theorem le_nearest {z : Int} (hz : |z| ≤ 2 ^ 53) {q : ℚ} (h : z ≤ q) : z ≤ nearest q := by
  rw [← nearest_intCast hz]
  exact nearest_mono h

theorem nearest_le {z : Int} (hz : |z| ≤ 2 ^ 53) {q : ℚ} (h : q ≤ z) : nearest q ≤ z := by
  rw [← nearest_intCast hz]
  exact nearest_mono h

end Binary64
