import Ecommerce.Lib.Binary64

/-!
# Number — the JavaScript `number` type

Finite values are rationals.  What an operation makes of them is rounded to a double.  Comparison and
equality follow the language, so every comparison with NaN is false.
-/

namespace Ecommerce

open Binary64

inductive Number where
  | nan
  | negInfinity
  | finite (q : ℚ)
  | infinity
deriving DecidableEq

namespace Number

def ofInt (n : Int) : Number := .finite n

/-- `a <= b`. -/
def le : Number → Number → Bool
  | .nan, _ => false
  | _, .nan => false
  | .negInfinity, _ => true
  | _, .infinity => true
  | .finite p, .finite q => p ≤ q
  | _, _ => false

/-- `a >= b`. -/
def ge (a b : Number) : Bool := b.le a

/-- `a === b`. -/
def strictEq : Number → Number → Bool
  | .nan, _ => false
  | a, b => a = b

/-- The number that stands for `q`. -/
def round (q : ℚ) : Number :=
  if 2 ^ 1024 ≤ nearest q then .infinity
  else if nearest q ≤ -2 ^ 1024 then .negInfinity
  else .finite (nearest q)

/-- `a + b`. -/
def plus : Number → Number → Number
  | .nan, _ => .nan
  | _, .nan => .nan
  | .finite p, .finite q => round (p + q)
  | .infinity, .negInfinity => .nan
  | .negInfinity, .infinity => .nan
  | .infinity, _ => .infinity
  | _, .infinity => .infinity
  | _, _ => .negInfinity

/-- `-a`. -/
def neg : Number → Number
  | .nan => .nan
  | .negInfinity => .infinity
  | .finite q => .finite (-q)
  | .infinity => .negInfinity

/-- `a - b`. -/
def minus (a b : Number) : Number := a.plus b.neg

/-- `a * b`. -/
def times : Number → Number → Number
  | .nan, _ => .nan
  | _, .nan => .nan
  | .finite p, .finite q => round (p * q)
  | .finite p, .infinity => if p = 0 then .nan else if 0 < p then .infinity else .negInfinity
  | .finite p, .negInfinity => if p = 0 then .nan else if 0 < p then .negInfinity else .infinity
  | .infinity, .finite q => if q = 0 then .nan else if 0 < q then .infinity else .negInfinity
  | .negInfinity, .finite q => if q = 0 then .nan else if 0 < q then .negInfinity else .infinity
  | .infinity, .infinity => .infinity
  | .negInfinity, .negInfinity => .infinity
  | _, _ => .negInfinity

/-! ## Integers -/

theorem ofInt_inj {a b : Int} : ofInt a = ofInt b ↔ a = b := by
  simp [ofInt]

theorem strictEq_ofInt {n : Number} {k : Int} : n.strictEq (.ofInt k) = true ↔ n = .ofInt k := by
  cases n <;> simp [strictEq, ofInt]

theorem ge_ofInt {a b : Int} : (ofInt a).ge (.ofInt b) = decide (b ≤ a) := by
  simp [ge, le, ofInt]

/-! ## Rounding -/

theorem round_eq_ofInt {q : ℚ} {z : Int} : round q = ofInt z ↔ nearest q = z ∧ |z| < 2 ^ 1024 := by
  have hcast : ((2 ^ 1024 : Int) : ℚ) = 2 ^ 1024 := Int.cast_pow 2 1024
  unfold round ofInt
  rw [← hcast, ← Int.cast_neg]
  split_ifs with hhigh hlow
  · refine iff_of_false (fun h => by cases h) fun ⟨heq, hlt⟩ => ?_
    rw [heq, Int.cast_le] at hhigh
    exact absurd (lt_of_abs_lt hlt) (not_lt.mpr hhigh)
  · refine iff_of_false (fun h => by cases h) fun ⟨heq, hlt⟩ => ?_
    rw [heq, Int.cast_le] at hlow
    exact absurd (neg_lt_of_abs_lt hlt) (not_lt.mpr hlow)
  · rw [Number.finite.injEq, iff_self_and, abs_lt]
    intro heq
    rw [heq, Int.cast_le, not_le] at hhigh hlow
    exact ⟨hlow, hhigh⟩

/-- An integer up to 2^53 is a number. -/
theorem round_safe {z : Int} (hz : |z| ≤ 2 ^ 53) : round z = .ofInt z :=
  round_eq_ofInt.mpr ⟨nearest_intCast hz, hz.trans_lt (pow_lt_pow_right₀ one_lt_two (by decide))⟩

/-- An integer that is rounded stays one, or is too large. -/
theorem round_int (z : Int) : round z = .infinity ∨ round z = .negInfinity ∨
    ∃ k : Int, nearest z = k ∧ round z = .ofInt k := by
  obtain ⟨k, hk⟩ := exists_nearest_eq z
  unfold round
  rw [hk]
  split_ifs
  · exact .inl rfl
  · exact .inr (.inl rfl)
  · exact .inr (.inr ⟨k, rfl, rfl⟩)

/-- What is at most a number is a number. -/
theorem round_of_le {a b z : Int} (ha : 0 ≤ a) (hab : a ≤ b) (h : round b = .ofInt z) :
    ∃ y : Int, round a = .ofInt y ∧ 0 ≤ y ∧ y ≤ z := by
  obtain ⟨hz, hlt⟩ := round_eq_ofInt.mp h
  obtain ⟨y, hy⟩ := exists_nearest_eq a
  have hnonneg : ((0 : Int) : ℚ) ≤ nearest a := le_nearest (by decide) (Int.cast_le.mpr ha)
  have hle := nearest_mono (p := a) (Int.cast_le.mpr hab)
  rw [hy, Int.cast_le] at hnonneg
  rw [hy, hz, Int.cast_le] at hle
  refine ⟨y, round_eq_ofInt.mpr ⟨hy, ?_⟩, hnonneg, hle⟩
  rw [abs_of_nonneg hnonneg]
  exact hle.trans_lt (lt_of_abs_lt hlt)

theorem minus_ofInt (a b : Int) : (ofInt a).minus (.ofInt b) = .round (a - b : Int) := by
  rw [Int.cast_sub, sub_eq_add_neg]
  rfl

theorem times_ofInt (a b : Int) : (ofInt a).times (.ofInt b) = .round (a * b : Int) := by
  rw [Int.cast_mul]
  rfl

theorem infinity_times {z : Int} (hz : 0 < z) : infinity.times (.ofInt z) = .infinity := by
  have hpos : (0 : ℚ) < z := by exact_mod_cast hz
  simp [times, ofInt, hpos, hpos.ne']

theorem negInfinity_times {z : Int} (hz : 0 < z) :
    negInfinity.times (.ofInt z) = .negInfinity := by
  have hpos : (0 : ℚ) < z := by exact_mod_cast hz
  simp [times, ofInt, hpos, hpos.ne']

theorem plus_safe {a b : Int} (h : |a + b| ≤ 2 ^ 53) :
    (ofInt a).plus (.ofInt b) = .ofInt (a + b) := by
  have hround := round_safe h
  rwa [Int.cast_add] at hround

theorem minus_safe {a b : Int} (h : |a - b| ≤ 2 ^ 53) :
    (ofInt a).minus (.ofInt b) = .ofInt (a - b) := by
  rw [minus_ofInt, round_safe h]

theorem times_safe {a b : Int} (h : |a * b| ≤ 2 ^ 53) :
    (ofInt a).times (.ofInt b) = .ofInt (a * b) := by
  rw [times_ofInt, round_safe h]

/-- A number is not exceeded by what is rounded and was not larger. -/
theorem ge_round {x : Int} (hx : round x = .ofInt x) {q : ℚ} (h : q ≤ x) :
    (ofInt x).ge (round q) = true := by
  obtain ⟨hnearest, hlt⟩ := round_eq_ofInt.mp hx
  have hle : nearest q ≤ x := hnearest ▸ nearest_mono h
  have hhigh : ¬ 2 ^ 1024 ≤ nearest q := by
    have hcast : ((2 ^ 1024 : Int) : ℚ) = 2 ^ 1024 := Int.cast_pow 2 1024
    rw [not_le, ← hcast]
    exact hle.trans_lt (Int.cast_lt.mpr (lt_of_abs_lt hlt))
  unfold round
  rw [if_neg hhigh]
  split_ifs
  · rfl
  · exact decide_eq_true hle

theorem not_ge_round {x : Int} (hx : x < 2 ^ 53) {q : ℚ} (h : 2 ^ 53 ≤ q) :
    (ofInt x).ge (round q) = false := by
  have hle : ((2 ^ 53 : Int) : ℚ) ≤ nearest q := le_nearest (by decide) (by exact_mod_cast h)
  have hlt : (x : ℚ) < nearest q := (Int.cast_lt.mpr hx).trans_le hle
  have hlow : ¬ nearest q ≤ -2 ^ 1024 := by
    rw [not_le]
    calc (-2 ^ 1024 : ℚ) ≤ 0 := neg_nonpos.mpr (pow_nonneg zero_le_two 1024)
      _ < ((2 ^ 53 : Int) : ℚ) := by norm_num
      _ ≤ nearest q := hle
  unfold round
  rw [if_neg hlow]
  split_ifs
  · rfl
  · exact decide_eq_false (not_le.mpr hlt)

/-! ## The least number -/

end Number

end Ecommerce
