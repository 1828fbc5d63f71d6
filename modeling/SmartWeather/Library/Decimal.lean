import Mathlib.Data.List.TakeWhile
import Mathlib.Data.Rat.Floor
import Mathlib.Tactic

/-!
# Decimal notation

Numbers as text, and what the text tells about the number.

* `units n`, the code units of the decimal rendering of a natural number; two renderings of the
  same length compare lexicographically as the numbers do (`units_lt_iff`), and
  `units_lt_imp_iff` says exactly when lexicographic and numeric order agree on two numbers of any
  length;
* `fixed d n`, exactly `d` digits; `render d n`, the plain notation of `n / 10 ^ d`;
* `shortest q`, the plain notation of `q` with as few digits after the point as it needs (at least
  one);
* `literal`, the numeric literals of C's `strtod` family for a base and an exponent mark, and the
  round trip `literal_render`.
-/

namespace Decimal

/-! ### Renderings of natural numbers and their lexicographic order -/

/-- The code units of the decimal rendering of `n`. -/
def units (n : ℕ) : List ℕ := (Nat.toDigits 10 n).map Char.toNat

/-- The number of decimal digits of `n`. -/
def numDigits (n : ℕ) : ℕ := (Nat.toDigits 10 n).length

theorem toNat_digitChar {d : ℕ} (h : d < 10) : d.digitChar.toNat = 48 + d := by
  interval_cases d <;> rfl

theorem units_of_lt {n : ℕ} (h : n < 10) : units n = [48 + n] := by
  rw [units, Nat.toDigits_of_lt_base h, List.map_singleton, toNat_digitChar h]

theorem units_of_ge {n : ℕ} (h : 10 ≤ n) : units n = units (n / 10) ++ [48 + n % 10] := by
  rw [units, Nat.toDigits_of_base_le (by norm_num) h, List.map_append, List.map_singleton,
    toNat_digitChar (Nat.mod_lt n (by norm_num)), units]

theorem length_units (n : ℕ) : (units n).length = numDigits n := List.length_map _

theorem numDigits_pos (n : ℕ) : 0 < numDigits n := Nat.length_toDigits_pos

theorem numDigits_le_iff {n k : ℕ} (hk : 0 < k) : numDigits n ≤ k ↔ n < 10 ^ k :=
  Nat.length_toDigits_le_iff (by norm_num) hk

theorem numDigits_le_one_iff {n : ℕ} : numDigits n ≤ 1 ↔ n < 10 := by
  rw [numDigits_le_iff one_pos, pow_one]

theorem numDigits_of_ge {n : ℕ} (h : 10 ≤ n) : numDigits n = numDigits (n / 10) + 1 := by
  rw [← length_units, units_of_ge h, List.length_append, length_units, List.length_singleton]

theorem lt_of_numDigits_lt {m n : ℕ} (h : numDigits m < numDigits n) : m < n := by
  have hm := (numDigits_le_iff (n := m) (numDigits_pos m)).1 le_rfl
  have hn := (numDigits_le_iff (n := n) (numDigits_pos m)).not.1 (not_le.2 h)
  omega

theorem append_singleton_lt {xs ys : List ℕ} (h : xs.length = ys.length) (x y : ℕ) :
    xs ++ [x] < ys ++ [y] ↔ xs < ys ∨ xs = ys ∧ x < y := by
  induction xs generalizing ys with
  | nil =>
    obtain rfl := List.length_eq_zero_iff.1 h.symm
    simp [List.cons_lt_cons_iff]
  | cons a xs ih =>
    cases ys with
    | nil => simp at h
    | cons b ys =>
      simp only [List.cons_append, List.cons_lt_cons_iff, ih (Nat.succ.inj h), List.cons.injEq]
      tauto

theorem append_lt_iff_of_length_eq {xs ys : List ℕ} (h : xs.length = ys.length) (t : List ℕ) :
    xs ++ t < ys ↔ xs < ys := by
  induction xs generalizing ys with
  | nil =>
    obtain rfl := List.length_eq_zero_iff.1 h.symm
    simp
  | cons a xs ih =>
    cases ys with
    | nil => simp at h
    | cons b ys =>
      simp only [List.cons_append, List.cons_lt_cons_iff, ih (Nat.succ.inj h)]

theorem units_eq_iff {m n : ℕ} : units m = units n ↔ m = n := by
  refine ⟨fun h => ?_, congrArg units⟩
  have hchar : Function.Injective Char.toNat := fun a b hab =>
    Char.ext (UInt32.toNat_inj.1 hab)
  have := congrArg (Nat.ofDigitChars 10 · 0) ((List.map_injective_iff.2 hchar) h)
  simpa using this

/-- Renderings of the same length are ordered as the numbers are. -/
theorem units_lt_iff {m n : ℕ} (h : numDigits m = numDigits n) : units m < units n ↔ m < n := by
  -- the last digits decide only between numbers with the same leading digits
  induction m using Nat.strong_induction_on generalizing n with
  | _ m ih =>
    by_cases hm : m < 10
    · have hn : n < 10 := numDigits_le_one_iff.1 (h ▸ numDigits_le_one_iff.2 hm)
      rw [units_of_lt hm, units_of_lt hn]
      simp [List.cons_lt_cons_iff]
    · have hn : 10 ≤ n :=
        not_lt.1 fun hn => hm (numDigits_le_one_iff.1 (h ▸ numDigits_le_one_iff.2 hn))
      have hdiv : numDigits (m / 10) = numDigits (n / 10) := by
        have := numDigits_of_ge (not_lt.1 hm)
        have := numDigits_of_ge hn
        omega
      rw [units_of_ge (not_lt.1 hm), units_of_ge hn,
        append_singleton_lt (by rw [length_units, length_units, hdiv]),
        ih (m / 10) (by omega) hdiv, units_eq_iff]
      omega

/-- The leading digits of a number are the rendering of a quotient. -/
theorem exists_units_eq_append {n k : ℕ} (h : k < numDigits n) :
    ∃ t, t.length = k ∧ units n = units (n / 10 ^ k) ++ t := by
  induction k with
  | zero => exact ⟨[], rfl, by simp⟩
  | succ k ih =>
    obtain ⟨t, ht, hn⟩ := ih (by omega)
    -- a quotient of one digit would leave `n` with `k + 1` digits
    have hge : 10 ≤ n / 10 ^ k := by
      by_contra hlt
      have h1 : numDigits n = numDigits (n / 10 ^ k) + k := by
        rw [← length_units, hn, List.length_append, length_units, ht]
      have h2 := numDigits_le_one_iff.2 (not_le.1 hlt)
      omega
    refine ⟨(48 + n / 10 ^ k % 10) :: t, by simp [ht], ?_⟩
    rw [hn, units_of_ge hge, Nat.div_div_eq_div_mul, ← pow_succ]
    simp

/-- Where two numbers have different lengths, the shorter one is at most the leading digits of the
longer one. -/
def LexAgrees (m n : ℕ) : Prop :=
  numDigits m < numDigits n → m ≤ n / 10 ^ (numDigits n - numDigits m)

instance (m n : ℕ) : Decidable (LexAgrees m n) := by unfold LexAgrees; infer_instance

/-- **Lexicographic against numeric order.**  "Lexicographically smaller implies not larger"
holds of two renderings exactly when `LexAgrees` does. -/
theorem units_lt_imp_iff (m n : ℕ) : (units n < units m → n ≤ m) ↔ LexAgrees m n := by
  rcases lt_trichotomy (numDigits m) (numDigits n) with h | h | h
  · -- the longer text is cut to the length of the shorter one, of which it is then no beginning
    have hlt := lt_of_numDigits_lt h
    obtain ⟨t, ht, hn⟩ := exists_units_eq_append (n := n) (k := numDigits n - numDigits m)
      (by have := numDigits_pos m; omega)
    have hlen : numDigits (n / 10 ^ (numDigits n - numDigits m)) = numDigits m := by
      have := congrArg List.length hn
      rw [List.length_append, length_units, length_units, ht] at this
      omega
    have hlex : units n < units m ↔ n / 10 ^ (numDigits n - numDigits m) < m := by
      rw [hn, append_lt_iff_of_length_eq (by rw [length_units, length_units, hlen]),
        units_lt_iff hlen]
    rw [hlex, LexAgrees]
    constructor
    · intro himp _
      by_contra hle
      have := himp (not_le.1 hle)
      omega
    · intro hag hlt'
      have := hag h
      omega
  · rw [units_lt_iff h.symm, LexAgrees]
    exact ⟨fun _ h' => absurd h h'.ne, fun _ => le_of_lt⟩
  · have := lt_of_numDigits_lt h
    exact ⟨fun _ h' => absurd h' h.asymm, fun _ _ => this.le⟩

/-! ### Plain notation with a decimal point -/

/-- Exactly the last `d` decimal digits of `n`. -/
def fixed : ℕ → ℕ → List Char
  | 0, _ => []
  | d + 1, n => fixed d (n / 10) ++ [(n % 10).digitChar]

@[simp] theorem length_fixed (d n : ℕ) : (fixed d n).length = d := by
  induction d generalizing n with
  | zero => rfl
  | succ d ih => simp [fixed, ih]

/-- The plain notation of `n / 10 ^ d`. -/
def render (d n : ℕ) : List Char := Nat.toDigits 10 (n / 10 ^ d) ++ '.' :: fixed d n

/-- The number of digits after the point that `q` needs: at least one, at most `17`. -/
def places (q : ℚ) : ℕ := ((List.range 17).find? fun d => 10 ^ (d + 1) % q.den == 0).getD 16 + 1

/-- The plain notation of `q` with as few digits as it needs. -/
def shortest (q : ℚ) : List Char :=
  (if q < 0 then ['-'] else []) ++ render (places q) ⌊|q| * 10 ^ places q⌋₊

theorem den_dvd_of_places {q : ℚ} {k : ℕ} (hk : k < 17) (h : q.den ∣ 10 ^ (k + 1)) :
    q.den ∣ 10 ^ places q := by
  cases hf : (List.range 17).find? fun d => 10 ^ (d + 1) % q.den == 0 with
  | none =>
    have := List.find?_eq_none.1 hf k (List.mem_range.2 hk)
    simp [Nat.mod_eq_zero_of_dvd h] at this
  | some d =>
    have := List.find?_some hf
    rw [places, hf]
    exact Nat.dvd_of_mod_eq_zero (by simpa using this)

theorem exists_eq_div_of_den_dvd {q : ℚ} {d : ℕ} (h : q.den ∣ 10 ^ d) :
    ∃ m : ℤ, q = m / 10 ^ d := by
  obtain ⟨c, hc⟩ := h
  refine ⟨q.num * c, ?_⟩
  have hd : (q.den : ℚ) ≠ 0 := by exact_mod_cast q.den_ne_zero
  have hp : (10 : ℚ) ^ d = q.den * c := by exact_mod_cast hc
  have hc0 : (c : ℚ) ≠ 0 := by
    rintro h0
    rw [h0, mul_zero] at hp
    exact absurd hp (by positivity)
  rw [hp]
  push_cast
  rw [mul_div_mul_right _ _ hc0, Rat.num_div_den]

theorem den_dvd_of_eq_div {q : ℚ} {m : ℤ} {d : ℕ} (h : q = m / 10 ^ d) : q.den ∣ 10 ^ d := by
  have hq : q = Rat.divInt m (10 ^ d : ℕ) := by
    rw [h, Rat.divInt_eq_div]
    push_cast
    rfl
  rw [hq]
  exact_mod_cast Rat.den_dvd m (10 ^ d : ℕ)

/-- A non-negative number with at most `17` decimals is rendered from its exact digits. -/
theorem shortest_of_nonneg {q : ℚ} {m : ℤ} {k : ℕ} (h0 : 0 ≤ q) (hk : k < 17)
    (hq : q = m / 10 ^ (k + 1)) : ∃ d n : ℕ, q = n / 10 ^ d ∧ shortest q = render d n := by
  obtain ⟨m', hm'⟩ := exists_eq_div_of_den_dvd (den_dvd_of_places hk (den_dvd_of_eq_div hq))
  have hp : (0 : ℚ) < 10 ^ places q := by positivity
  have hm0 : 0 ≤ m' := by
    have : (0 : ℚ) ≤ m' := by
      rw [hm', div_nonneg_iff] at h0
      rcases h0 with h | h
      · exact h.1
      · linarith [h.2]
    exact_mod_cast this
  obtain ⟨n, rfl⟩ := Int.eq_ofNat_of_zero_le hm0
  rw [Int.cast_natCast] at hm'
  have hn : |q| * 10 ^ places q = n := by
    rw [abs_of_nonneg h0]
    exact (eq_div_iff hp.ne').1 hm'
  refine ⟨places q, n, hm', ?_⟩
  rw [shortest, if_neg (not_lt.2 h0), List.nil_append, hn, Nat.floor_natCast]

/-! ### Numeric literals -/

/-- The value of a hexadecimal digit. -/
def hexValue (c : Char) : ℕ :=
  if c.isDigit then c.toNat - 48
  else if 'a' ≤ c ∧ c ≤ 'f' then c.toNat - 87
  else if 'A' ≤ c ∧ c ≤ 'F' then c.toNat - 55
  else 16

/-- `c` is a digit in base `b ≤ 16`. -/
def isDigitIn (b : ℕ) (c : Char) : Bool := hexValue c < b

/-- The number written by the digits `cs` in base `b`. -/
def ofDigits (b : ℕ) (cs : List Char) : ℕ := cs.foldl (fun n c => b * n + hexValue c) 0

/-- A decimal integer with optional sign. -/
def signedInt : List Char → Option ℤ
  | '-' :: ds => if ds ≠ [] ∧ ds.all (isDigitIn 10) then some (-ofDigits 10 ds) else none
  | '+' :: ds => if ds ≠ [] ∧ ds.all (isDigitIn 10) then some (ofDigits 10 ds) else none
  | ds => if ds ≠ [] ∧ ds.all (isDigitIn 10) then some (ofDigits 10 ds) else none

/-- The exponent part of a literal: nothing, or the mark and a decimal integer. -/
def exponent (mark : Char) : List Char → Option ℤ
  | [] => some 0
  | c :: cs => if c.toLower = mark then signedInt cs else none

/-- An unsigned literal in base `b`: digits, possibly a point and more digits (at least one digit
in all), possibly an exponent of `r` after the mark. -/
def literal (b : ℕ) (mark : Char) (r : ℚ) (cs : List Char) : Option ℚ :=
  let whole := cs.takeWhile (isDigitIn b)
  let rest := cs.dropWhile (isDigitIn b)
  let frac := match rest with
    | '.' :: cs => cs.takeWhile (isDigitIn b)
    | _ => []
  let rest := match rest with
    | '.' :: cs => cs.dropWhile (isDigitIn b)
    | cs => cs
  if whole = [] ∧ frac = [] then none
  else (exponent mark rest).map fun e =>
    ofDigits b (whole ++ frac) / b ^ frac.length * r ^ e

theorem hexValue_digitChar {d : ℕ} (h : d < 10) : hexValue d.digitChar = d := by
  interval_cases d <;> rfl

/-- The decimal digits are the characters of the numbers below ten. -/
theorem exists_digitChar {c : Char} (h : isDigitIn 10 c = true) : ∃ d < 10, c = d.digitChar := by
  have hlt : hexValue c < 10 := by simpa [isDigitIn] using h
  have hbound : 48 ≤ c.toNat ∧ c.toNat < 58 := by
    unfold hexValue at hlt
    -- letters have values from ten on
    split_ifs at hlt with hdigit hlow hup
    · obtain ⟨hlow, hhigh⟩ := Char.isDigit_iff_toNat.1 hdigit
      exact ⟨hlow, Nat.lt_succ_of_le hhigh⟩
    · have := UInt32.le_iff_toNat_le.1 hlow.1
      have : 97 ≤ c.toNat := this
      omega
    · have := UInt32.le_iff_toNat_le.1 hup.1
      have : 65 ≤ c.toNat := this
      omega
    · omega
  refine ⟨c.toNat - 48, by omega, Char.ext (UInt32.toNat_inj.1 ?_)⟩
  have := toNat_digitChar (d := c.toNat - 48) (by omega)
  show c.toNat = (c.toNat - 48).digitChar.toNat
  omega

theorem isDigitIn_digitChar {d : ℕ} (h : d < 10) : isDigitIn 10 d.digitChar = true := by
  simp [isDigitIn, hexValue_digitChar h, h]

theorem ofDigits_append_digitChar (cs : List Char) {d : ℕ} (h : d < 10) :
    ofDigits 10 (cs ++ [d.digitChar]) = 10 * ofDigits 10 cs + d := by
  simp [ofDigits, hexValue_digitChar h]

theorem all_isDigitIn_fixed (d n : ℕ) : ∀ c ∈ fixed d n, isDigitIn 10 c = true := by
  induction d generalizing n with
  | zero => simp [fixed]
  | succ d ih =>
    intro c hc
    rcases List.mem_append.1 hc with hc | hc
    · exact ih _ c hc
    · rw [List.mem_singleton.1 hc]
      exact isDigitIn_digitChar (Nat.mod_lt n (by norm_num))

theorem all_isDigitIn_toDigits (n : ℕ) : ∀ c ∈ Nat.toDigits 10 n, isDigitIn 10 c = true := by
  induction n using Nat.strong_induction_on with
  | _ n ih =>
    intro c hc
    by_cases hn : n < 10
    · rw [Nat.toDigits_of_lt_base hn, List.mem_singleton] at hc
      rw [hc]
      exact isDigitIn_digitChar hn
    · rw [Nat.toDigits_of_base_le (by norm_num) (not_lt.1 hn), List.mem_append,
        List.mem_singleton] at hc
      rcases hc with hc | rfl
      · exact ih (n / 10) (by omega) c hc
      · exact isDigitIn_digitChar (Nat.mod_lt n (by norm_num))

theorem ofDigits_toDigits (n : ℕ) : ofDigits 10 (Nat.toDigits 10 n) = n := by
  induction n using Nat.strong_induction_on with
  | _ n ih =>
    by_cases hn : n < 10
    · rw [Nat.toDigits_of_lt_base hn]
      simp [ofDigits, hexValue_digitChar hn]
    · rw [Nat.toDigits_of_base_le (by norm_num) (not_lt.1 hn),
        ofDigits_append_digitChar _ (Nat.mod_lt n (by norm_num)), ih (n / 10) (by omega)]
      omega

theorem ofDigits_append_fixed (cs : List Char) (d n : ℕ) :
    ofDigits 10 (cs ++ fixed d n) = ofDigits 10 cs * 10 ^ d + n % 10 ^ d := by
  induction d generalizing n with
  | zero => simp [fixed, Nat.mod_one]
  | succ d ih =>
    rw [fixed, ← List.append_assoc, ofDigits_append_digitChar _ (Nat.mod_lt n (by norm_num)), ih,
      pow_succ, mul_comm (10 ^ d) 10, Nat.mod_mul]
    ring

/-- **Round trip.**  The plain notation of `n / 10 ^ d` is read back as `n / 10 ^ d`. -/
theorem literal_render (d n : ℕ) : literal 10 'e' 10 (render d n) = some (n / 10 ^ d : ℚ) := by
  have hpoint : isDigitIn 10 '.' = false := by decide
  have htake : (render d n).takeWhile (isDigitIn 10) = Nat.toDigits 10 (n / 10 ^ d) := by
    rw [render, List.takeWhile_append_of_pos (all_isDigitIn_toDigits _)]
    simp [hpoint]
  have hdrop : (render d n).dropWhile (isDigitIn 10) = '.' :: fixed d n := by
    rw [render, List.dropWhile_append_of_pos (all_isDigitIn_toDigits _)]
    simp [hpoint]
  have hfrac : (fixed d n).takeWhile (isDigitIn 10) = fixed d n :=
    List.takeWhile_eq_self_iff.2 (all_isDigitIn_fixed d n)
  have hrest : (fixed d n).dropWhile (isDigitIn 10) = [] :=
    List.dropWhile_eq_nil_iff.2 (all_isDigitIn_fixed d n)
  have hval : n / 10 ^ d * 10 ^ d + n % 10 ^ d = n := by
    rw [mul_comm]
    exact Nat.div_add_mod n (10 ^ d)
  simp only [literal, htake, hdrop, hfrac, hrest, Nat.toDigits_ne_nil, false_and, if_false,
    exponent, Option.map_some, zpow_zero, mul_one, length_fixed, ofDigits_append_fixed,
    ofDigits_toDigits, hval, Nat.cast_ofNat]

theorem signedInt_toDigits (n : ℕ) : signedInt (Nat.toDigits 10 n) = some (n : ℤ) := by
  have hall : (Nat.toDigits 10 n).all (isDigitIn 10) = true :=
    List.all_eq_true.2 (all_isDigitIn_toDigits n)
  have hne : Nat.toDigits 10 n ≠ [] := Nat.toDigits_ne_nil
  unfold signedInt
  split
  · -- a rendering does not begin with a sign
    next h => exact absurd (all_isDigitIn_toDigits n '-' (by simp [h])) (by decide)
  · next h => exact absurd (all_isDigitIn_toDigits n '+' (by simp [h])) (by decide)
  · rw [if_pos ⟨hne, hall⟩, ofDigits_toDigits]

/-- The text of an integer is read back as the integer. -/
theorem signedInt_toString (n : ℤ) : signedInt (toString n).toList = some n := by
  rw [Int.toString_eq_repr, Int.repr_eq_if]
  split_ifs with h
  · rw [Nat.toList_repr, signedInt_toDigits, Int.toNat_of_nonneg h]
  · have hall : (Nat.toDigits 10 (-n).toNat).all (isDigitIn 10) = true :=
      List.all_eq_true.2 (all_isDigitIn_toDigits _)
    rw [String.toList_append, Nat.toList_repr]
    show (if _ then some (-(ofDigits 10 (Nat.toDigits 10 (-n).toNat) : ℤ)) else none) = some n
    rw [if_pos ⟨Nat.toDigits_ne_nil, hall⟩, ofDigits_toDigits, Int.toNat_of_nonneg (by omega),
      neg_neg]

theorem toString_injective : Function.Injective (toString : ℤ → String) := by
  intro m n h
  have hm := signedInt_toString m
  rw [h, signedInt_toString] at hm
  exact (Option.some.inj hm).symm

end Decimal
