import Mathlib.Data.Rat.Floor
import Mathlib.Tactic

/-!
# Rounding rationals to integers

The three roundings used by number formats and their conversions:

* `halfEven`, to the nearest integer, a tie to the even one (IEEE 754, Python's `round`);
* `halfAway`, to the nearest integer, a tie away from zero (C's `round`);
* `toward0`, dropping the fraction (a conversion from floating point to integer);

and `toPlaces d`, half-even rounding to `d` decimal places.
-/

namespace Rounding

/-- The nearest integer, ties to even. -/
def halfEven (x : ℚ) : ℤ :=
  if x - ⌊x⌋ < 1 / 2 then ⌊x⌋
  else if 1 / 2 < x - ⌊x⌋ then ⌊x⌋ + 1
  else if ⌊x⌋ % 2 = 0 then ⌊x⌋ else ⌊x⌋ + 1

/-- The nearest integer, ties away from zero. -/
def halfAway (x : ℚ) : ℤ := if 0 ≤ x then ⌊x + 1 / 2⌋ else ⌈x - 1 / 2⌉

/-- The integer part, towards zero. -/
def toward0 (x : ℚ) : ℤ := if 0 ≤ x then ⌊x⌋ else ⌈x⌉

/-! ### Half-even rounding -/

theorem halfEven_eq_floor_or (x : ℚ) : halfEven x = ⌊x⌋ ∨ halfEven x = ⌊x⌋ + 1 := by
  unfold halfEven
  split_ifs <;> simp

theorem abs_halfEven_sub_le (x : ℚ) : |(halfEven x : ℚ) - x| ≤ 1 / 2 := by
  have h0 := Int.floor_le x
  have h1 := Int.lt_floor_add_one x
  unfold halfEven
  split_ifs <;> push_cast <;> rw [abs_le] <;> constructor <;> linarith

@[simp] theorem halfEven_intCast (n : ℤ) : halfEven (n : ℚ) = n := by
  simp [halfEven]

theorem le_halfEven {n : ℤ} {x : ℚ} (h : (n : ℚ) ≤ x) : n ≤ halfEven x := by
  have := Int.le_floor.2 h
  rcases halfEven_eq_floor_or x with h' | h' <;> omega

theorem halfEven_le {n : ℤ} {x : ℚ} (h : x ≤ n) : halfEven x ≤ n := by
  have hd := abs_le.1 (abs_halfEven_sub_le x)
  have hlt : (halfEven x : ℚ) < n + 1 := by linarith [hd.2]
  exact Int.lt_add_one_iff.1 (by exact_mod_cast hlt)

theorem abs_halfEven_le {n : ℤ} {x : ℚ} (h : |x| ≤ n) : |halfEven x| ≤ n := by
  obtain ⟨h0, h1⟩ := abs_le.1 h
  exact abs_le.2 ⟨le_halfEven (by push_cast; exact h0), halfEven_le h1⟩

theorem halfEven_mono {x y : ℚ} (h : x ≤ y) : halfEven x ≤ halfEven y := by
  rcases (Int.floor_mono h).lt_or_eq with hlt | heq
  · have hx := halfEven_eq_floor_or x
    have hy := halfEven_eq_floor_or y
    omega
  · -- in the same unit interval the fractional parts decide
    unfold halfEven
    rw [heq]
    have hx : x - ⌊y⌋ ≤ y - ⌊y⌋ := by linarith
    split_ifs <;> first | omega | (exfalso; linarith)

/-! ### Truncation -/

theorem toward0_of_nonneg {x : ℚ} (h : 0 ≤ x) : toward0 x = ⌊x⌋ := if_pos h

/-- Truncation stays inside every interval around zero with integer ends. -/
theorem abs_toward0_le {n : ℤ} {x : ℚ} (h : |x| ≤ n) : |toward0 x| ≤ n := by
  obtain ⟨h0, h1⟩ := abs_le.1 h
  unfold toward0
  split_ifs with hx
  · rw [abs_of_nonneg (Int.floor_nonneg.2 hx)]
    exact Int.cast_le.1 ((Int.floor_le x).trans h1)
  · have hc : ⌈x⌉ ≤ 0 := Int.ceil_le.2 (by push_cast; linarith)
    have hl : -(n : ℚ) ≤ ⌈x⌉ := h0.trans (Int.le_ceil x)
    rw [abs_of_nonpos hc]
    have : -n ≤ ⌈x⌉ := by exact_mod_cast hl
    omega

/-! ### Decimal places -/

/-- Half-even rounding to `d` decimal places. -/
def toPlaces (d : ℕ) (x : ℚ) : ℚ := halfEven (x * 10 ^ d) / 10 ^ d

theorem abs_toPlaces_sub_le (d : ℕ) (x : ℚ) : |toPlaces d x - x| ≤ 1 / 2 / 10 ^ d := by
  have hp : (0 : ℚ) < 10 ^ d := by positivity
  have hd : toPlaces d x - x = ((halfEven (x * 10 ^ d) : ℚ) - x * 10 ^ d) / 10 ^ d := by
    unfold toPlaces
    field_simp
  rw [hd, abs_div, abs_of_pos hp]
  exact div_le_div_of_nonneg_right (abs_halfEven_sub_le _) hp.le

theorem toPlaces_mono {d : ℕ} {x y : ℚ} (h : x ≤ y) : toPlaces d x ≤ toPlaces d y := by
  have hscaled : x * 10 ^ d ≤ y * 10 ^ d := mul_le_mul_of_nonneg_right h (by positivity)
  have hmono : (halfEven (x * 10 ^ d) : ℚ) ≤ halfEven (y * 10 ^ d) := by
    exact_mod_cast halfEven_mono hscaled
  exact div_le_div_of_nonneg_right hmono (by positivity)

@[simp] theorem toPlaces_intCast (d : ℕ) (n : ℤ) : toPlaces d (n : ℚ) = n := by
  have hint : (n : ℚ) * 10 ^ d = ((n * 10 ^ d : ℤ) : ℚ) := by push_cast; rfl
  rw [toPlaces, hint, halfEven_intCast]
  push_cast
  exact mul_div_cancel_right₀ _ (by positivity)

theorem toPlaces_nonneg {d : ℕ} {x : ℚ} (h : 0 ≤ x) : 0 ≤ toPlaces d x := by
  have : (0 : ℤ) ≤ halfEven (x * 10 ^ d) := le_halfEven (by push_cast; positivity)
  unfold toPlaces
  positivity

end Rounding
