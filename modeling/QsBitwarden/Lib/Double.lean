import Mathlib.Algebra.Order.Round
import Mathlib.Data.Int.Log
import Mathlib.Data.Rat.Floor
import Mathlib.Tactic.Linarith

/-!
# Lib — dividing in double precision

A quotient of two whole numbers computed in IEEE double precision is the exact quotient rounded to
53 significant bits. Taking its floor is only a whole-number division if rounding cannot carry the
quotient over the next whole number. It cannot, as long as the dividend is below `2 ^ 53`.

* **`ulp`**, **`toDouble`** — the distance of two neighbouring doubles at a positive number, and
  the double nearest to it. Ties go up; which way they go plays no part here.
* **`toDouble_natCast`** — whole numbers below `2 ^ 53` are doubles.
* **`floorDiv`**, **`floorDiv_eq`** — the floor of the rounded quotient, and when it is exact.

Numbers too small or too large for the exponent of a double do not occur: every quotient here lies
between `2 ^ -32` and `2 ^ 53`, or is zero.
-/

namespace QsBitwarden.Double

/-- The distance between the doubles around `q`, which has 53 significant bits. -/
def ulp (q : ℚ) : ℚ := 2 ^ (Int.log 2 q - 52)

/-- The double nearest to `q`. -/
def toDouble (q : ℚ) : ℚ := round (q / ulp q) * ulp q

/-- `Math.floor(a / b)` on doubles. -/
def floorDiv (a b : Nat) : Nat := ⌊toDouble (a / b)⌋₊

theorem ulp_pos (q : ℚ) : 0 < ulp q := zpow_pos (by norm_num) _

/-- Half the distance of two doubles is at most one part in `2 ^ 53` of the number. -/
theorem half_ulp_le {q : ℚ} (hq : 0 < q) : ulp q / 2 ≤ q / 2 ^ 53 := by
  have hlog : (2 : ℚ) ^ Int.log 2 q ≤ q := by
    exact_mod_cast Int.zpow_log_le_self (b := 2) (by norm_num) hq
  have hulp : ulp q = 2 ^ Int.log 2 q / 2 ^ 52 := by
    rw [ulp, zpow_sub₀ (by norm_num)]
    norm_num
  rw [hulp]
  linarith

theorem toDouble_near {q : ℚ} (hq : 0 < q) : |toDouble q - q| ≤ q / 2 ^ 53 := by
  have hulp := ulp_pos q
  have hround : |q / ulp q - round (q / ulp q)| ≤ 1 / 2 := abs_sub_round _
  have hscaled : toDouble q - q = -(q / ulp q - round (q / ulp q)) * ulp q := by
    rw [toDouble, neg_sub, sub_mul, div_mul_cancel₀ q hulp.ne']
  calc |toDouble q - q|
      = |q / ulp q - round (q / ulp q)| * ulp q := by
        rw [hscaled, abs_mul, abs_neg, abs_of_pos hulp]
    _ ≤ 1 / 2 * ulp q := mul_le_mul_of_nonneg_right hround hulp.le
    _ ≤ q / 2 ^ 53 := by linarith [half_ulp_le hq]

/-- A whole number below `2 ^ 53` is a multiple of the distance of the doubles around it. -/
theorem toDouble_natCast {n : Nat} (hn : n < 2 ^ 53) : toDouble n = n := by
  have hlog : Nat.log 2 n ≤ 52 := by
    rcases Nat.eq_zero_or_pos n with rfl | hpos
    · simp
    · exact Nat.lt_succ_iff.mp ((Nat.log_lt_iff_lt_pow (by norm_num) hpos.ne').mpr hn)
  have hulp : ulp n = (2 ^ (52 - Nat.log 2 n) : ℚ)⁻¹ := by
    rw [ulp, Int.log_natCast, ← zpow_natCast, ← zpow_neg]
    congr 1
    omega
  have hwhole : (n : ℚ) / ulp n = ((n * 2 ^ (52 - Nat.log 2 n) : ℤ) : ℚ) := by
    rw [hulp, div_inv_eq_mul]
    push_cast
    ring
  rw [toDouble, hwhole, round_intCast, ← hwhole, div_mul_cancel₀ _ (ulp_pos _).ne']

/-- The floor of a rounded quotient is the floor of the quotient: a quotient that is not whole
stays at least one part in the divisor away from the next whole number, and rounding moves it by
less. -/
theorem floorDiv_eq {a b : Nat} (ha : a < 2 ^ 53) (hb : 0 < b) : floorDiv a b = a / b := by
  have hbq : (0 : ℚ) < b := by exact_mod_cast hb
  by_cases hrem : a % b = 0
  · -- The quotient is whole, and so is a double.
    obtain ⟨k, rfl⟩ := Nat.dvd_of_mod_eq_zero hrem
    have hk : k < 2 ^ 53 := lt_of_le_of_lt (Nat.le_mul_of_pos_left k hb) ha
    have hquot : ((b * k : Nat) : ℚ) / b = k := by
      push_cast
      field_simp
    rw [floorDiv, hquot, toDouble_natCast hk, Nat.floor_natCast, Nat.mul_div_cancel_left k hb]
  · have hapos : 0 < a := Nat.pos_of_ne_zero fun h => hrem (by rw [h, Nat.zero_mod])
    have haq : (0 : ℚ) < a := by exact_mod_cast hapos
    have hdiv : (b : ℚ) * ((a / b : Nat) : ℚ) + ((a % b : Nat) : ℚ) = a := by
      exact_mod_cast Nat.div_add_mod a b
    have hlow : (1 : ℚ) ≤ ((a % b : Nat) : ℚ) := by
      exact_mod_cast Nat.pos_of_ne_zero hrem
    have hhigh : ((a % b : Nat) : ℚ) ≤ b - 1 := by
      have : a % b + 1 ≤ b := Nat.mod_lt a hb
      have : ((a % b : Nat) : ℚ) + 1 ≤ b := by exact_mod_cast this
      linarith
    have hquot : (a : ℚ) / b = (a / b : Nat) + ((a % b : Nat) : ℚ) / b := by
      rw [← hdiv]
      field_simp
    have hsmall : (a : ℚ) / b / 2 ^ 53 < 1 / b := by
      have haq' : (a : ℚ) < 2 ^ 53 := by exact_mod_cast ha
      rw [div_div, div_lt_div_iff₀ (by positivity) hbq]
      nlinarith
    have hnear := abs_le.mp (toDouble_near (div_pos haq hbq))
    have hfirst : 1 / (b : ℚ) ≤ ((a % b : Nat) : ℚ) / b := by gcongr
    have hlast : ((a % b : Nat) : ℚ) / b ≤ 1 - 1 / b := by
      rw [le_sub_iff_add_le, ← add_div, div_le_one hbq]
      linarith
    have hge : ((a / b : Nat) : ℚ) ≤ toDouble (a / b) := by linarith [hnear.1]
    rw [floorDiv, Nat.floor_eq_iff (le_trans (Nat.cast_nonneg _) hge)]
    exact ⟨hge, by linarith [hnear.2]⟩

end QsBitwarden.Double
