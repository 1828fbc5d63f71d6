import Mathlib.Data.List.Flatten
import Mathlib.Data.Rat.Floor
import Mathlib.Tactic

/-!
# Timelines

A timeline is a list of things with their durations, shown one after the other (`showing`).  If all
durations are multiples of `g`, repeating each thing for every `g` of its duration (`expand`) gives
slots of equal length that show the same at every time (`getElem?_expand`).  If durations differ by
at most `ε`, the starts of the `n`-th things differ by at most `n * ε` (`abs_start_sub_le`).
-/

namespace Timeline

variable {α : Type*} {l : List (α × ℤ)} {g : ℤ} {t : ℚ}

/-- What is shown at the time `t`. -/
def showing : List (α × ℤ) → ℚ → Option α
  | [], _ => none
  | (a, d) :: l, t => if t < d then some a else showing l (t - d)

def total (l : List (α × ℤ)) : ℤ := (l.map Prod.snd).sum

/-- Every thing as often as `g` goes into its duration. -/
def expand (g : ℤ) (l : List (α × ℤ)) : List α :=
  l.flatMap fun e => List.replicate (e.2 / g).toNat e.1

@[simp] theorem expand_cons (g : ℤ) (a : α) (d : ℤ) (l : List (α × ℤ)) :
    expand g ((a, d) :: l) = List.replicate (d / g).toNat a ++ expand g l := rfl

theorem length_expand_mul (h : ∀ e ∈ l, g ∣ e.2) (hpos : ∀ e ∈ l, 0 ≤ e.2) (hg : 0 < g) :
    ((expand g l).length : ℤ) * g = total l := by
  induction l with
  | nil => simp [expand, total]
  | cons e l ih =>
    obtain ⟨a, d⟩ := e
    obtain ⟨k, rfl⟩ : g ∣ d := h _ List.mem_cons_self
    have hk : 0 ≤ k := nonneg_of_mul_nonneg_right (hpos _ List.mem_cons_self) hg
    have hrest := ih (fun e he => h e (List.mem_cons_of_mem _ he))
      fun e he => hpos e (List.mem_cons_of_mem _ he)
    rw [expand_cons, List.length_append, List.length_replicate, Int.mul_ediv_cancel_left k hg.ne',
      Nat.cast_add, Int.toNat_of_nonneg hk, add_mul, hrest, total, total, List.map_cons,
      List.sum_cons, mul_comm]

/-- **Equal slots.**  The slots of length `g` show what the timeline shows. -/
theorem getElem?_expand (h : ∀ e ∈ l, g ∣ e.2) (hpos : ∀ e ∈ l, 0 ≤ e.2) (hg : 0 < g)
    (ht : 0 ≤ t) : (expand g l)[⌊t / g⌋₊]? = showing l t := by
  have hg' : (0 : ℚ) < g := by exact_mod_cast hg
  induction l generalizing t with
  | nil => rfl
  | cons e l ih =>
    obtain ⟨a, d⟩ := e
    obtain ⟨k, rfl⟩ : g ∣ d := h _ List.mem_cons_self
    have hk : 0 ≤ k := nonneg_of_mul_nonneg_right (hpos _ List.mem_cons_self) hg
    obtain ⟨n, rfl⟩ := Int.eq_ofNat_of_zero_le hk
    rw [expand_cons, Int.mul_ediv_cancel_left _ hg.ne', Int.toNat_natCast, showing]
    have hdiv : t < ((g * n : ℤ) : ℚ) ↔ t / g < n := by
      rw [div_lt_iff₀ hg']
      push_cast
      rw [mul_comm]
    split_ifs with hlt
    · have hslot : ⌊t / g⌋₊ < n := (Nat.floor_lt (by positivity)).2 (hdiv.1 hlt)
      rw [List.getElem?_append_left (by rwa [List.length_replicate]), List.getElem?_replicate,
        if_pos hslot]
    · have hn : (n : ℚ) ≤ t / g := not_lt.1 fun hlt' => hlt (hdiv.2 hlt')
      have hrest : 0 ≤ t - ((g * n : ℤ) : ℚ) := sub_nonneg.2 (not_lt.1 hlt)
      have hslot : ⌊t / g⌋₊ - n = ⌊(t - ((g * n : ℤ) : ℚ)) / g⌋₊ := by
        rw [← Nat.floor_sub_natCast]
        congr 1
        push_cast
        field_simp
      rw [List.getElem?_append_right (by rw [List.length_replicate]; exact Nat.le_floor hn),
        List.length_replicate, hslot]
      exact ih (fun e he => h e (List.mem_cons_of_mem _ he))
        (fun e he => hpos e (List.mem_cons_of_mem _ he)) hrest

/-- When the `n`-th thing is first shown. -/
def start (durations : List ℚ) (n : ℕ) : ℚ := (durations.take n).sum

/-- Durations that are a little off add up to starts that are a little more off. -/
theorem abs_start_sub_le {ds es : List ℚ} {ε : ℚ} (h : List.Forall₂ (fun d e => |d - e| ≤ ε) ds es)
    (hε : 0 ≤ ε) (n : ℕ) : |start ds n - start es n| ≤ n * ε := by
  induction h generalizing n with
  | nil => simpa [start] using mul_nonneg (Nat.cast_nonneg n) hε
  | @cons d e ds es hde _ ih =>
    cases n with
    | zero => simp [start]
    | succ n =>
      have hsplit : start (d :: ds) (n + 1) - start (e :: es) (n + 1) =
          (d - e) + (start ds n - start es n) := by
        simp only [start, List.take_succ_cons, List.sum_cons]
        ring
      rw [hsplit]
      calc |(d - e) + (start ds n - start es n)|
          ≤ |d - e| + |start ds n - start es n| := abs_add_le _ _
        _ ≤ ε + n * ε := add_le_add hde (ih n)
        _ = (n + 1 : ℕ) * ε := by push_cast; ring

end Timeline
