import Mathlib.Data.Int.Log
import SmartWeather.Library.Rounding

/-!
# Binary floating-point formats

A format is given by its precision and exponent range; `binary32` and `binary64` are the two IEEE
754 formats.  A finite value of a format is a rational that carries the proof that the format has
it (`Format.Rep`), so a value outside the format cannot be built.  The sign of zero is not kept.

* `nearest f q`: the value of `f` nearest to the rational `q`, ties to even, overflowing to an
  infinity;
* `nearest_eq_of_rep`: values of the format are not changed;
* `abs_nearest_sub_le`: below `2 ^ k` the error is at most half a unit in the last place;
* arithmetic (`sub`, `div`, by rounding the exact result), comparison with a rational
  (`leRat`) and truncation to a machine integer (`toInt`).
-/

namespace Binary

open Rounding

/-- A binary format: `prec` significand bits, exponents of the last bit from `emin` on, all values
below `2 ^ emax`. -/
structure Format where
  prec : ℕ
  emin : ℤ
  emax : ℤ
  prec_pos : 0 < prec
  deriving DecidableEq

/-- IEEE 754 single precision. -/
def binary32 : Format := ⟨24, -149, 128, by decide⟩

/-- IEEE 754 double precision. -/
def binary64 : Format := ⟨53, -1074, 1024, by decide⟩

/-- The format has the value `q`. -/
def Format.Rep (f : Format) (q : ℚ) : Prop :=
  |q| < 2 ^ f.emax ∧ ∃ m e : ℤ, f.emin ≤ e ∧ |m| < 2 ^ f.prec ∧ q = m * 2 ^ e

/-- A floating-point datum of the format `f`. -/
inductive Value (f : Format)
  | nan
  | inf (neg : Bool)
  | finite (q : ℚ) (rep : f.Rep q)

/-! ### Rounding to a format -/

/-- The exponent of the last place that `f` keeps of `q`. -/
def Format.quantum (f : Format) (q : ℚ) : ℤ := max f.emin (Int.log 2 |q| - (f.prec - 1))

/-- `q` rounded to the precision of `f`, whatever its size. -/
def Format.toGrid (f : Format) (q : ℚ) : ℚ :=
  halfEven (q / 2 ^ f.quantum q) * 2 ^ f.quantum q

theorem Format.emin_le_quantum (f : Format) (q : ℚ) : f.emin ≤ f.quantum q := le_max_left _ _

theorem Format.abs_lt_of_quantum (f : Format) (q : ℚ) : |q| < 2 ^ (f.prec + f.quantum q) := by
  have hlog := Int.lt_zpow_succ_log_self (b := 2) (by norm_num) |q|
  have hle : Int.log 2 |q| + 1 ≤ f.prec + f.quantum q := by
    have := le_max_right f.emin (Int.log 2 |q| - (f.prec - 1))
    unfold Format.quantum
    omega
  exact hlog.trans_le (by push_cast; exact zpow_le_zpow_right₀ (by norm_num) hle)

theorem Format.abs_toGrid_sub_le (f : Format) (q : ℚ) :
    |f.toGrid q - q| ≤ 2 ^ f.quantum q / 2 := by
  have hp : (0 : ℚ) < 2 ^ f.quantum q := by positivity
  have hsplit : f.toGrid q - q =
      ((halfEven (q / 2 ^ f.quantum q) : ℚ) - q / 2 ^ f.quantum q) * 2 ^ f.quantum q := by
    unfold Format.toGrid
    field_simp
  rw [hsplit, abs_mul, abs_of_pos hp]
  calc _ ≤ 1 / 2 * 2 ^ f.quantum q := mul_le_mul_of_nonneg_right (abs_halfEven_sub_le _) hp.le
    _ = 2 ^ f.quantum q / 2 := by ring

/-- A rounded value fits the precision; a significand that rounds up to `2 ^ prec` moves to the
next exponent. -/
theorem Format.exists_toGrid_eq (f : Format) (q : ℚ) :
    ∃ m e : ℤ, f.emin ≤ e ∧ |m| < 2 ^ f.prec ∧ f.toGrid q = m * 2 ^ e := by
  set e := f.quantum q with he
  have hp : (0 : ℚ) < 2 ^ e := by positivity
  have hscaled : |q / 2 ^ e| ≤ ((2 ^ f.prec : ℤ) : ℚ) := by
    rw [abs_div, abs_of_pos hp, div_le_iff₀ hp]
    push_cast
    rw [← zpow_natCast, ← zpow_add₀ (by norm_num)]
    exact (f.abs_lt_of_quantum q).le
  have hm := abs_halfEven_le hscaled
  rcases lt_or_eq_of_le hm with hlt | heq
  · exact ⟨halfEven (q / 2 ^ e), e, f.emin_le_quantum q, hlt, rfl⟩
  · -- the significand is exactly `± 2 ^ prec`
    obtain ⟨p, hpp⟩ : ∃ p, f.prec = p + 1 := ⟨f.prec - 1, by have := f.prec_pos; omega⟩
    have hle : f.emin ≤ e + 1 := by have := f.emin_le_quantum q; omega
    have hpow : |(2 ^ p : ℤ)| < 2 ^ f.prec := by
      rw [abs_of_pos (by positivity), hpp, pow_succ]
      have : (0 : ℤ) < 2 ^ p := by positivity
      omega
    have hup : (2 : ℚ) ^ (e + 1) = 2 ^ e * 2 := by rw [zpow_add_one₀ (by norm_num)]
    rcases (abs_eq (by positivity)).1 heq with h | h
    · refine ⟨2 ^ p, e + 1, hle, hpow, ?_⟩
      rw [Format.toGrid, ← he, h, hup, hpp]
      push_cast
      ring
    · refine ⟨-2 ^ p, e + 1, hle, by rwa [abs_neg], ?_⟩
      rw [Format.toGrid, ← he, h, hup, hpp]
      push_cast
      ring

/-- The value of the format nearest to `q`. -/
def nearest (f : Format) (q : ℚ) : Value f :=
  if h : |f.toGrid q| < 2 ^ f.emax then .finite (f.toGrid q) ⟨h, f.exists_toGrid_eq q⟩
  else .inf (decide (q < 0))

/-- A value that the format has is not changed by rounding. -/
theorem Format.toGrid_eq_of_rep {f : Format} {q : ℚ} (h : f.Rep q) : f.toGrid q = q := by
  obtain ⟨-, m, e, he, hm, hq⟩ := h
  have hquantum : q = 0 ∨ f.quantum q ≤ e := by
    by_cases h0 : q = 0
    · exact Or.inl h0
    refine Or.inr (max_le he ?_)
    have hpos : 0 < |q| := abs_pos.2 h0
    have hlt : |q| < 2 ^ ((f.prec : ℤ) + e) := by
      rw [hq, abs_mul, abs_of_pos (by positivity : (0 : ℚ) < 2 ^ e), zpow_add₀ (by norm_num),
        zpow_natCast]
      exact mul_lt_mul_of_pos_right (by exact_mod_cast hm) (by positivity)
    have := (Int.lt_zpow_iff_log_lt (b := 2) (by norm_num) hpos).1 (by push_cast; exact hlt)
    omega
  rcases hquantum with h0 | hle
  · subst h0
    have : halfEven 0 = 0 := by simpa using halfEven_intCast 0
    simp [Format.toGrid, this]
  · -- on its own grid `q` is an integer
    obtain ⟨k, hk⟩ := Int.le.dest hle
    have hint : q / 2 ^ f.quantum q = ((m * 2 ^ k : ℤ) : ℚ) := by
      rw [div_eq_iff (by positivity)]
      conv_lhs => rw [hq, ← hk, zpow_add₀ (by norm_num), zpow_natCast]
      push_cast
      ring
    rw [Format.toGrid, hint, halfEven_intCast, ← hint, div_mul_cancel₀ _ (by positivity)]

theorem nearest_eq_of_rep {f : Format} {q : ℚ} (h : f.Rep q) : nearest f q = .finite q h := by
  have hg := Format.toGrid_eq_of_rep h
  have hlt : |f.toGrid q| < 2 ^ f.emax := by rw [hg]; exact h.1
  rw [nearest, dif_pos hlt]
  congr 1

/-- Half a unit in the last place of the numbers below `2 ^ k`. -/
def Format.halfUlp (f : Format) (k : ℤ) : ℚ := 2 ^ (max f.emin (k - f.prec)) / 2

/-- **Rounding error.**  A rational below `2 ^ k` is rounded to a finite value at most half a unit
in the last place away. -/
theorem abs_nearest_sub_le {f : Format} {q : ℚ} {k : ℤ} (hk : |q| < 2 ^ k)
    (hfin : (2 : ℚ) ^ k + f.halfUlp k ≤ 2 ^ f.emax) :
    ∃ v h, nearest f q = .finite v h ∧ |v - q| ≤ f.halfUlp k := by
  have hquantum : f.quantum q ≤ max f.emin (k - f.prec) ∨ q = 0 := by
    by_cases h0 : q = 0
    · exact Or.inr h0
    have := (Int.lt_zpow_iff_log_lt (b := 2) (by norm_num) (abs_pos.2 h0)).1
      (by push_cast; exact hk)
    exact Or.inl (max_le_max le_rfl (by omega))
  have hpos : 0 < f.halfUlp k := by unfold Format.halfUlp; positivity
  have herr : |f.toGrid q - q| ≤ f.halfUlp k := by
    rcases hquantum with hle | rfl
    · refine (f.abs_toGrid_sub_le q).trans ?_
      exact div_le_div_of_nonneg_right (zpow_le_zpow_right₀ (by norm_num) hle) (by norm_num)
    · have : halfEven 0 = 0 := by simpa using halfEven_intCast 0
      simpa [Format.toGrid, this] using hpos.le
  have hlt : |f.toGrid q| < 2 ^ f.emax := by
    have := abs_sub_abs_le_abs_sub (f.toGrid q) q
    linarith
  exact ⟨f.toGrid q, ⟨hlt, f.exists_toGrid_eq q⟩, dif_pos hlt, herr⟩

/-! ### Operations -/

section Operations

variable {f : Format}

/-- The difference of two values, rounded. -/
def Value.sub : Value f → Value f → Value f
  | .finite p _, .finite q _ => nearest f (p - q)
  | .finite _ _, .inf n => .inf !n
  | .inf n, .finite _ _ => .inf n
  | .inf m, .inf n => if m = n then .nan else .inf m
  | _, _ => .nan

/-- The quotient by a positive rational, rounded. -/
def Value.divPos : Value f → ℚ → Value f
  | .nan, _ => .nan
  | .inf n, _ => .inf n
  | .finite p _, c => nearest f (p / c)

/-- C's `round`: the nearest integer, ties away from zero. -/
def Value.roundAway : Value f → Value f
  | .finite p _ => nearest f (halfAway p)
  | v => v

/-- The comparison `v ≤ c`, false when `v` is not a number. -/
def Value.leRat : Value f → ℚ → Bool
  | .nan, _ => false
  | .inf n, _ => n
  | .finite p _, c => decide (p ≤ c)

/-- The comparison `c < v`, false when `v` is not a number. -/
def Value.gtRat : Value f → ℚ → Bool
  | .nan, _ => false
  | .inf n, _ => !n
  | .finite p _, c => decide (c < p)

/-- The value truncated to an integer of at most `w` bits with sign, if it is one. -/
def Value.toInt (w : ℕ) : Value f → Option ℤ
  | .finite p _ =>
      if -2 ^ (w - 1) ≤ toward0 p ∧ toward0 p < 2 ^ (w - 1) then some (toward0 p) else none
  | _ => none

/-- The integer that the value is exactly, if it is one of at most `w` bits with sign. -/
def Value.exactInt (w : ℕ) : Value f → Option ℤ
  | .finite p _ =>
      if p = toward0 p ∧ -2 ^ (w - 1) ≤ toward0 p ∧ toward0 p < 2 ^ (w - 1) then some (toward0 p)
      else none
  | _ => none

/-- A finite value of small size truncates to a machine integer. -/
theorem Value.toInt_of_abs_le {w : ℕ} {p : ℚ} {h : f.Rep p} {n : ℤ} (hp : |p| ≤ n)
    (hn : n < 2 ^ (w - 1)) : (Value.finite p h).toInt w = some (toward0 p) := by
  have := abs_le.1 (abs_toward0_le hp)
  exact if_pos ⟨by omega, by omega⟩

end Operations

end Binary
