import Mathlib

/-!
# Rounding to doubles

The result of an operation on doubles is the exact result, rounded to a multiple of the distance of
the doubles around it. Results are taken to be less than the largest double.
-/
namespace Double

/-- The distance of the doubles around a number: 52 bits behind its first one -/
def quantum (x : ℚ) : ℚ := 2 ^ max (Int.log 2 |x| - 52) (-1074)

def nearest (x : ℚ) : ℤ :=
  if x - ⌊x⌋ < 1 / 2 then ⌊x⌋
  else if 1 / 2 < x - ⌊x⌋ then ⌊x⌋ + 1
  else if ⌊x⌋ % 2 = 0 then ⌊x⌋ else ⌊x⌋ + 1

def round (x : ℚ) : ℚ := nearest (x / quantum x) * quantum x

theorem quantum_pos (x : ℚ) : 0 < quantum x := by
  unfold quantum
  exact zpow_pos (by norm_num) _

theorem abs_nearest_sub_le (x : ℚ) : |(nearest x : ℚ) - x| ≤ 1 / 2 := by
  have below := Int.floor_le x
  have above := Int.lt_floor_add_one x
  rw [abs_le]
  unfold nearest
  split
  · constructor <;> linarith
  · split
    · push_cast
      constructor <;> linarith
    · split
      · constructor <;> linarith
      · push_cast
        constructor <;> linarith

variable {x : ℚ} {n e : ℤ}

theorem nearest_eq (close : |x - n| < 1 / 2) : nearest x = n := by
  have half := abs_le.mp (abs_nearest_sub_le x)
  have close := abs_lt.mp close
  have above : ((nearest x : ℤ) : ℚ) < (n + 1 : ℤ) := by
    push_cast
    linarith [half.2, close.2]
  have below : ((n - 1 : ℤ) : ℚ) < (nearest x : ℤ) := by
    push_cast
    linarith [half.1, close.1]
  have := Int.cast_lt.mp above
  have := Int.cast_lt.mp below
  omega

theorem nearest_nonneg (nonneg : 0 ≤ x) : 0 ≤ nearest x := by
  have floor : 0 ≤ ⌊x⌋ := Int.floor_nonneg.mpr nonneg
  unfold nearest
  split_ifs <;> omega

theorem nearest_le (le : x ≤ n) : nearest x ≤ n := by
  have half := abs_le.mp (abs_nearest_sub_le x)
  have less : ((nearest x : ℤ) : ℚ) < (n + 1 : ℤ) := by
    push_cast
    linarith [half.2]
  exact Int.lt_add_one_iff.mp (Int.cast_lt.mp less)

theorem round_nonneg (nonneg : 0 ≤ x) : 0 ≤ round x := by
  have pos := quantum_pos x
  have := nearest_nonneg (div_nonneg nonneg pos.le)
  exact mul_nonneg (by exact_mod_cast this) pos.le

theorem abs_round_sub_le (x : ℚ) : |round x - x| ≤ quantum x / 2 := by
  have pos := quantum_pos x
  have scaled : round x - x = ((nearest (x / quantum x) : ℚ) - x / quantum x) * quantum x := by
    unfold round
    rw [sub_mul, div_mul_cancel₀ x pos.ne']
  rw [scaled, abs_mul, abs_of_pos pos]
  calc |(nearest (x / quantum x) : ℚ) - x / quantum x| * quantum x
      ≤ 1 / 2 * quantum x := mul_le_mul_of_nonneg_right (abs_nearest_sub_le _) pos.le
    _ = quantum x / 2 := by ring

theorem quantum_le (normal : 0 ≤ e) (small : |x| < 2 ^ (e + 1)) : quantum x ≤ 2 ^ (e - 52) := by
  have log : Int.log 2 |x| ≤ e := by
    by_cases zero : x = 0
    · rwa [zero, abs_zero, Int.log_zero_right]
    · have := (Int.lt_zpow_iff_log_lt (b := 2) (by norm_num) (abs_pos.mpr zero)).mp
        (by exact_mod_cast small)
      omega
  unfold quantum
  exact zpow_le_zpow_right₀ (by norm_num) (max_le (by omega) (by omega))

theorem quantum_le_mul (large : 1 ≤ |x|) : quantum x ≤ |x| * 2 ^ (-52 : ℤ) := by
  have log : 0 ≤ Int.log 2 |x| := by
    have := Int.log_mono_right (b := 2) one_pos large
    rwa [Int.log_one_right] at this
  have power : (2 : ℚ) ^ Int.log 2 |x| ≤ |x| := by
    have := Int.zpow_log_le_self (b := 2) (by norm_num) (show 0 < |x| by linarith)
    exact_mod_cast this
  have exponent : max (Int.log 2 |x| - 52) (-1074) = Int.log 2 |x| + -52 := by omega
  unfold quantum
  rw [exponent, zpow_add₀ (by norm_num)]
  exact mul_le_mul_of_nonneg_right power (by positivity)

theorem round_zero : round 0 = 0 := by
  have : nearest 0 = 0 := by simp [nearest]
  rw [round, zero_div, this, Int.cast_zero, zero_mul]

theorem round_lt_round {y : ℚ} (normal : 0 ≤ e) (left : |x| < 2 ^ (e + 1))
    (right : |y| < 2 ^ (e + 1)) (gap : (2 : ℚ) ^ (e - 52) < y - x) : round x < round y := by
  have hx := abs_le.mp (abs_round_sub_le x)
  have hy := abs_le.mp (abs_round_sub_le y)
  have qx := quantum_le normal left
  have qy := quantum_le normal right
  linarith [hx.2, hy.1]

end Double
