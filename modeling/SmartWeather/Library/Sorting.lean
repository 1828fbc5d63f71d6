import Mathlib.Data.List.Sort
import Mathlib.Tactic

/-!
# Sorting algorithms by their contract

A library sort is known by its documentation only: it returns a permutation of its input that is
in order whenever the comparison is a strict weak order, and it says nothing about the order of
equivalent elements.  `Algorithm` bundles a sort with this contract.

* `insertion`: insertion sort satisfies the contract;
* `descending key`: the comparison that puts larger keys first;
* `sort_eq_of_perm`: where no two elements are equivalent the result depends on the set of
  elements only, not on their order and not on the algorithm.
-/

namespace Sorting

variable {α κ : Type}

/-- `lt` is a strict weak order. -/
structure StrictWeakOrder (lt : α → α → Bool) : Prop where
  asymm : ∀ a b, lt a b = true → lt b a = false
  negTrans : ∀ a b c, lt a b = false → lt b c = false → lt a c = false

/-- A comparator gives a strict weak order. -/
theorem strictWeakOrder_of_transCmp (cmp : α → α → Ordering) [Std.TransCmp cmp] :
    StrictWeakOrder fun a b => cmp a b == .lt where
  asymm a b h := by
    rw [beq_iff_eq] at h
    rw [beq_eq_false_iff_ne]
    exact Std.OrientedCmp.not_lt_of_lt h
  negTrans a b c hab hbc := by
    have hge : ∀ {x y : α}, (cmp x y == .lt) = false ↔ (cmp x y).isGE = true := by
      intro x y
      cases cmp x y <;> decide
    exact hge.2 (Std.TransCmp.isGE_trans (hge.1 hab) (hge.1 hbc))

/-- A sort and its contract. -/
structure Algorithm where
  sort : {α : Type} → (α → α → Bool) → List α → List α
  perm : ∀ {α : Type} (lt : α → α → Bool) (l : List α), (sort lt l).Perm l
  ordered : ∀ {α : Type} (lt : α → α → Bool) (l : List α), StrictWeakOrder lt →
    (sort lt l).Pairwise fun a b => lt b a = false

/-- Insertion sort. -/
def insertion : Algorithm where
  sort lt l := l.insertionSort fun a b => lt b a = false
  perm _ l := List.perm_insertionSort _ l
  ordered lt l h := by
    let le := fun a b => lt b a = false
    have htotal : Std.Total le := ⟨fun a b => by
      cases hab : lt b a with
      | true => exact Or.inr (h.asymm b a hab)
      | false => exact Or.inl hab⟩
    have htrans : IsTrans _ le := ⟨fun a b c hab hbc => h.negTrans c b a hbc hab⟩
    exact List.pairwise_insertionSort le l

/-- Larger keys first. -/
def descending [LinearOrder κ] (key : α → κ) (a b : α) : Bool := decide (key b < key a)

theorem descending_eq_true [LinearOrder κ] {key : α → κ} {a b : α} :
    descending key a b = true ↔ key b < key a := decide_eq_true_iff

theorem descending_eq_false [LinearOrder κ] {key : α → κ} {a b : α} :
    descending key a b = false ↔ key a ≤ key b := by
  rw [descending, decide_eq_false_iff_not, not_lt]

theorem descending_strictWeakOrder [LinearOrder κ] (key : α → κ) :
    StrictWeakOrder (descending key) where
  asymm _ _ h := descending_eq_false.2 (descending_eq_true.1 h).le
  negTrans _ _ _ hab hbc :=
    descending_eq_false.2 ((descending_eq_false.1 hab).trans (descending_eq_false.1 hbc))

namespace Algorithm

variable (S T : Algorithm) [LinearOrder κ] (key : α → κ)

/-- Sorted by descending key, every element is followed by elements of at most its key. -/
theorem pairwise_descending (l : List α) :
    (S.sort (descending key) l).Pairwise fun a b => key b ≤ key a :=
  (S.ordered _ l (descending_strictWeakOrder key)).imp descending_eq_false.1

/-- Where keys are distinct, the sorted list depends on the elements only. -/
theorem sort_eq_of_perm {l m : List α} (h : l.Perm m)
    (hinj : ∀ a ∈ l, ∀ b ∈ l, key a = key b → a = b) :
    S.sort (descending key) l = T.sort (descending key) m := by
  have hS := S.perm (descending key) l
  have hT := T.perm (descending key) m
  refine List.Perm.eq_of_pairwise ?_
    (S.pairwise_descending key l) (T.pairwise_descending key m) ((hS.trans h).trans hT.symm)
  intro a b ha hb hab hba
  exact hinj a (hS.mem_iff.1 ha) b (h.mem_iff.2 (hT.mem_iff.1 hb)) (le_antisymm hba hab)

end Algorithm

end Sorting
