import SmartWeather.Firestore.DocumentSet
import SmartWeather.Firestore.LlrbBalance
import Mathlib.Data.Nat.Log

/-!
# Looking up in the trees

A `TreeSortedMap` is a comparator and a root node; its `contains` and `find_index` are loops down
from the root.  `Wellformed` is what all its trees satisfy: sorted, balanced and with the right
sizes (`Sized`).  A tree of `n` entries is at most `2 * log₂ (n + 1)` deep.
-/

namespace SmartWeather.Firestore.LlrbNode

open SortedList Std

variable {α K V : Type} {cmp : K → K → Ordering} {k : K} {v : V}

/-! ### What insertion does to the entries -/

theorem toList_innerInsert [TransCmp cmp] {n : LlrbNode (K × V)}
    (hinc : Increasing Prod.fst cmp n.toList) (hkey : ∀ e ∈ n.toList, cmp k e.1 = .eq → k = e.1) :
    (n.innerInsert cmp k v).toList = SortedList.insert Prod.fst cmp (k, v) n.toList := by
  induction n with
  | empty => rfl
  | node e c s l r ihl ihr =>
    obtain ⟨k', v'⟩ := e
    obtain ⟨hl, hr, -, -⟩ := increasing_append_cons.1 hinc
    have hkeyl : ∀ e ∈ l.toList, cmp k e.1 = .eq → k = e.1 := fun e he => hkey e (by simp [he])
    have hkeyr : ∀ e ∈ r.toList, cmp k e.1 = .eq → k = e.1 := fun e he => hkey e (by simp [he])
    rw [innerInsert, toList_node]
    cases hk : cmp k k' with
    | lt => rw [insert_append_cons (by exact hk), ← ihl hl hkeyl, toList_fixUp, toList_node]
    | gt =>
      rw [insert_append_cons_of_gt hinc (by exact hk), ← ihr hr hkeyr, toList_fixUp, toList_node]
    | eq =>
      rw [insert_append_cons_of_eq hinc (by exact hk), toList_node, hkey (k', v') (by simp) hk]

/-! ### Sizes -/

/-- The sizes that the nodes keep are right. -/
def Sized : LlrbNode α → Prop
  | empty => True
  | node _ _ size left right => size = left.size + 1 + right.size ∧ left.Sized ∧ right.Sized

theorem Sized.size_eq {n : LlrbNode α} (hn : n.Sized) : n.size = n.toList.length := by
  induction n with
  | empty => rfl
  | node e c s l r ihl ihr =>
    obtain ⟨hs, hl, hr⟩ := hn
    rw [size_node, hs, ihl hl, ihr hr, toList_node, List.length_append, List.length_cons]
    omega

/-- Every size fits into its field of 31 bits. -/
def SizesFit : LlrbNode α → Prop
  | empty => True
  | node _ _ size left right => size < 2 ^ 31 ∧ left.SizesFit ∧ right.SizesFit

/-- In a tree of fewer than `2 ^ 31` entries all sizes fit. -/
theorem Sized.sizesFit {n : LlrbNode α} (hn : n.Sized) (hlt : n.size < 2 ^ 31) : n.SizesFit := by
  induction n with
  | empty => exact trivial
  | node e c s l r ihl ihr =>
    obtain ⟨hs, hl, hr⟩ := hn
    rw [size_node] at hlt
    exact ⟨hlt, ihl hl (by omega), ihr hr (by omega)⟩

namespace Sized

variable {n : LlrbNode α}

theorem left (hn : n.Sized) : n.left.Sized := by
  cases n with
  | empty => exact hn
  | node e c s l r => exact hn.2.1

theorem right (hn : n.Sized) : n.right.Sized := by
  cases n with
  | empty => exact hn
  | node e c s l r => exact hn.2.2

theorem step (p : LlrbNode α → Bool) {f : LlrbNode α → LlrbNode α} (hn : n.Sized)
    (hf : (f n).Sized) : (if p n then f n else n).Sized := by
  split_ifs
  · exact hf
  · exact hn

theorem setColor (hn : n.Sized) (c : Color) : (n.setColor c).Sized := by
  cases n <;> exact hn

theorem rotateLeft (hn : n.Sized) : n.rotateLeft.Sized := by
  match n with
  | empty => exact hn
  | node e c s l empty => exact hn
  | node e c s l (node e' c' s' l' r') =>
    obtain ⟨hs, hl, hs', hl', hr'⟩ := hn
    refine ⟨?_, ⟨rfl, hl, hl'⟩, hr'⟩
    simp only [rep, size_node] at hs ⊢
    omega

theorem rotateRight (hn : n.Sized) : n.rotateRight.Sized := by
  match n with
  | empty => exact hn
  | node e c s empty r => exact hn
  | node e c s (node e' c' s' l' r') r =>
    obtain ⟨hs, ⟨hs', hl', hr'⟩, hr⟩ := hn
    refine ⟨?_, hl', ⟨rfl, hr', hr⟩⟩
    simp only [rep, size_node] at hs ⊢
    omega

theorem flipColor (hn : n.Sized) : n.flipColor.Sized := by
  match n with
  | empty => exact hn
  | node e c s empty r => exact hn
  | node e c s (node _ _ _ _ _) empty => exact hn
  | node e c s (node _ _ _ _ _) (node _ _ _ _ _) => exact hn

theorem fixUp (hl : n.left.Sized) (hr : n.right.Sized) : n.fixUp.Sized := by
  have h₁ : n.setSize.Sized := by
    cases n with
    | empty => exact hl
    | node e c s l r => exact ⟨rfl, hl, hr⟩
  have h₂ := h₁.step (fun n => n.right.red && !n.left.red) h₁.rotateLeft
  have h₃ := h₂.step (fun n => n.left.red && n.left.left.red) h₂.rotateRight
  exact h₃.step (fun n => n.left.red && n.right.red) h₃.flipColor

theorem setLeft_fixUp (hn : n.Sized) {l : LlrbNode α} (hl : l.Sized) :
    (n.setLeft l).fixUp.Sized := by
  cases n with
  | empty => trivial
  | node e c s l' r => exact fixUp hl hn.right

theorem setRight_fixUp (hn : n.Sized) {r : LlrbNode α} (hr : r.Sized) :
    (n.setRight r).fixUp.Sized := by
  cases n with
  | empty => trivial
  | node e c s l r' => exact fixUp hn.left hr

theorem setEntry (hn : n.Sized) (e : α) : (n.setEntry e).Sized := by
  cases n <;> exact hn

theorem fixRootColor (hn : n.Sized) : n.fixRootColor.Sized :=
  hn.step red (f := LlrbNode.setColor .black) (hn.setColor _)

theorem moveRedLeft (hn : n.Sized) : n.moveRedLeft.Sized := by
  have h₁ := hn.flipColor
  rw [LlrbNode.moveRedLeft]
  generalize n.flipColor = n' at h₁ ⊢
  cases n' with
  | empty => exact h₁
  | node e c s l r =>
    dsimp only
    split_ifs
    · obtain ⟨hs, hl, hr⟩ := h₁
      refine Sized.flipColor (Sized.rotateLeft ⟨?_, hl, hr.rotateRight⟩)
      rw [hr.rotateRight.size_eq, toList_rotateRight, ← hr.size_eq, hs]
    · exact h₁

theorem moveRedRight (hn : n.Sized) : n.moveRedRight.Sized :=
  hn.flipColor.step (fun n => n.left.left.red) (f := fun n => n.rotateRight.flipColor)
    hn.flipColor.rotateRight.flipColor

theorem prepareLeft (hn : n.Sized) : n.prepareLeft.Sized :=
  hn.step (fun n => !n.left.isEmpty && !n.left.red && !n.left.left.red) hn.moveRedLeft

theorem prepareRight (hn : n.Sized) : n.prepareRight.Sized :=
  have h₁ := hn.step (fun n => n.left.red) hn.rotateRight
  h₁.step (fun n => !n.right.isEmpty && !n.right.red && !n.right.left.red) h₁.moveRedRight

theorem removeMin (hn : n.Sized) : n.removeMin.Sized := by
  induction n using LlrbNode.removeMin.induct with
  | case1 =>
    rw [LlrbNode.removeMin]
    exact hn
  | case2 e c s l r hl =>
    rw [LlrbNode.removeMin, if_pos hl]
    trivial
  | case3 e c s l r hl n n' ih =>
    have hn' : n'.Sized := hn.step (fun n => !n.left.red && !n.left.left.red) hn.moveRedLeft
    rw [LlrbNode.removeMin, if_neg hl]
    exact hn'.setLeft_fixUp (ih hn'.left)

theorem innerInsert {n : LlrbNode (K × V)} (hn : n.Sized) : (n.innerInsert cmp k v).Sized := by
  induction n with
  | empty => exact ⟨rfl, trivial, trivial⟩
  | node e c s l r ihl ihr =>
    rw [LlrbNode.innerInsert]
    cases cmp k e.1 with
    | lt => exact fixUp (ihl hn.left) hn.right
    | gt => exact fixUp hn.left (ihr hn.right)
    | eq => exact hn

theorem innerErase {n : LlrbNode (K × V)} (hn : n.Sized) : (n.innerErase cmp k).Sized := by
  induction n using LlrbNode.innerErase.induct cmp k with
  | case1 =>
    rw [LlrbNode.innerErase]
    exact hn
  | case2 e c s l r hlt n ih =>
    rw [LlrbNode.innerErase, if_pos hlt]
    exact hn.prepareLeft.setLeft_fixUp (ih hn.prepareLeft.left)
  | case3 e c s l r hlt n hkey hmin =>
    rw [LlrbNode.innerErase, if_neg hlt]
    simp only [n] at hkey hmin
    simp only [hkey, if_true, hmin]
    trivial
  | case4 e c s l r hlt n hkey e' c' s' l' r' hmin =>
    rw [LlrbNode.innerErase, if_neg hlt]
    simp only [n] at hkey hmin
    simp only [hkey, if_true, hmin]
    exact (hn.prepareRight.setEntry e').setRight_fixUp hn.prepareRight.right.removeMin
  | case5 e c s l r hlt n hkey ih =>
    rw [LlrbNode.innerErase, if_neg hlt]
    simp only [n] at hkey
    simp only [hkey, Bool.false_eq_true, if_false]
    exact hn.prepareRight.setRight_fixUp (ih hn.prepareRight.right)

end Sized

/-! ### Depth -/

/-- The number of nodes on the longest way down. -/
def depth : LlrbNode α → ℕ
  | empty => 0
  | node _ _ _ left right => max left.depth right.depth + 1

/-- On a way down, at most every second node is red. -/
theorem Balanced.depth_le {n : LlrbNode α} {c : Color} {h : ℕ} (hn : Balanced n c h) :
    n.depth ≤ 2 * h + if c = .red then 1 else 0 := by
  induction hn with
  | empty => exact Nat.zero_le _
  | red hl hr ihl ihr =>
    simp only [depth, reduceCtorEq, if_false, if_true] at ihl ihr ⊢
    omega
  | @black e c s h l r hl hr ihl ihr =>
    simp only [depth, reduceCtorEq, if_false] at ihr ⊢
    split_ifs at ihl <;> omega

theorem Balanced.two_pow_le {n : LlrbNode α} {c : Color} {h : ℕ} (hn : Balanced n c h) :
    2 ^ h ≤ n.toList.length + 1 := by
  induction hn with
  | empty => exact Nat.le_refl 1
  | red hl hr ihl ihr =>
    rw [toList_node, List.length_append, List.length_cons]
    omega
  | black hl hr ihl ihr =>
    rw [toList_node, List.length_append, List.length_cons, Nat.pow_succ]
    omega

theorem Balanced.depth_le_log {n : LlrbNode α} {h : ℕ} (hn : Balanced n .black h) :
    n.depth ≤ 2 * Nat.log 2 (n.toList.length + 1) := by
  have hdepth : n.depth ≤ 2 * h := by simpa using hn.depth_le
  have hlog : h ≤ Nat.log 2 (n.toList.length + 1) :=
    Nat.le_log_of_pow_le Nat.one_lt_two hn.two_pow_le
  omega

/-! ### Wellformed trees -/

structure Wellformed (cmp : K → K → Ordering) (n : LlrbNode (K × V)) : Prop where
  increasing : Increasing Prod.fst cmp n.toList
  balanced : ∃ h, Balanced n .black h
  sized : n.Sized

theorem wellformed_empty : Wellformed cmp (empty : LlrbNode (K × V)) :=
  ⟨increasing_nil, ⟨0, .empty⟩, trivial⟩

/-- Entries with keys that compare as equal to the new one have this key. -/
theorem toList_insert_of_key [TransCmp cmp] {n : LlrbNode (K × V)} (hn : n.Wellformed cmp)
    (hkey : ∀ e ∈ n.toList, cmp k e.1 = .eq → k = e.1) :
    (n.insert cmp k v).toList = SortedList.insert Prod.fst cmp (k, v) n.toList := by
  rw [insert, toList_fixRootColor, toList_innerInsert hn.increasing hkey]

theorem Wellformed.insert_of_key [TransCmp cmp] {n : LlrbNode (K × V)} (hn : n.Wellformed cmp)
    (hkey : ∀ e ∈ n.toList, cmp k e.1 = .eq → k = e.1) : (n.insert cmp k v).Wellformed cmp where
  increasing := by
    rw [toList_insert_of_key hn hkey]
    exact hn.increasing.insert (k, v)
  balanced := insert_balanced hn.balanced.choose_spec
  sized := hn.sized.innerInsert.fixRootColor

theorem toList_insert [TransCmp cmp] [LawfulEqCmp cmp] {n : LlrbNode (K × V)}
    (hn : n.Wellformed cmp) :
    (n.insert cmp k v).toList = SortedList.insert Prod.fst cmp (k, v) n.toList :=
  toList_insert_of_key hn fun _ _ => LawfulEqCmp.eq_of_compare

theorem Wellformed.insert [TransCmp cmp] [LawfulEqCmp cmp] {n : LlrbNode (K × V)}
    (hn : n.Wellformed cmp) : (n.insert cmp k v).Wellformed cmp :=
  hn.insert_of_key fun _ _ => LawfulEqCmp.eq_of_compare

theorem toList_erase [TransCmp cmp] {n : LlrbNode (K × V)} (hn : n.Wellformed cmp) :
    (n.erase cmp k).toList = SortedList.erase Prod.fst cmp k n.toList :=
  (erase_spec hn.balanced.choose_spec hn.increasing).2

theorem Wellformed.erase [TransCmp cmp] {n : LlrbNode (K × V)} (hn : n.Wellformed cmp) :
    (n.erase cmp k).Wellformed cmp where
  increasing := by
    rw [toList_erase hn]
    exact hn.increasing.erase k
  balanced := (erase_spec hn.balanced.choose_spec hn.increasing).1
  sized := hn.sized.innerErase.fixRootColor

/-! ### The loops down from the root -/

def contains (cmp : K → K → Ordering) (key : K) : LlrbNode (K × V) → Bool
  | empty => false
  | node entry _ _ left right =>
    match cmp key entry.1 with
    | .eq => true
    | .lt => left.contains cmp key
    | .gt => right.contains cmp key

/-- `find_index`, with `pruned_nodes` entries left behind on the left; `none` is `npos`. -/
def findIndex (cmp : K → K → Ordering) (key : K) (prunedNodes : ℕ) : LlrbNode (K × V) → Option ℕ
  | empty => none
  | node entry _ _ left right =>
    match cmp key entry.1 with
    | .eq => some (prunedNodes + left.size)
    | .lt => left.findIndex cmp key prunedNodes
    | .gt => right.findIndex cmp key (prunedNodes + left.size + 1)

theorem contains_eq [TransCmp cmp] {n : LlrbNode (K × V)}
    (hinc : Increasing Prod.fst cmp n.toList) :
    n.contains cmp k = (SortedList.find Prod.fst cmp k n.toList).isSome := by
  induction n with
  | empty => rfl
  | node e c s l r ihl ihr =>
    obtain ⟨hl, hr, -, hgt⟩ := increasing_append_cons.1 hinc
    rw [contains, toList_node]
    cases hk : cmp k e.1 with
    | lt => rw [find_append_cons hk hgt, ← ihl hl]
    | gt => rw [find_append_cons_of_gt hinc hk, ← ihr hr]
    | eq => rw [find_append_cons_of_eq hinc hk, Option.isSome_some]

theorem findIndex_eq [TransCmp cmp] {n : LlrbNode (K × V)} {p : ℕ}
    (hinc : Increasing Prod.fst cmp n.toList) (hn : n.Sized) :
    n.findIndex cmp k p = (SortedList.find Prod.fst cmp k n.toList).map fun _ =>
      p + SortedList.rank Prod.fst cmp k n.toList := by
  induction n generalizing p with
  | empty => rfl
  | node e c s l r ihl ihr =>
    obtain ⟨hl, hr, -, hgt⟩ := increasing_append_cons.1 hinc
    obtain ⟨-, hsl, hsr⟩ := hn
    rw [findIndex, toList_node]
    cases hk : cmp k e.1 with
    | lt => rw [find_append_cons hk hgt, rank_append_cons hk, ← ihl hl hsl]
    | gt =>
      rw [find_append_cons_of_gt hinc hk, rank_append_cons_of_gt hinc hk, ← hsl.size_eq]
      simp only [ihr hr hsr, Nat.add_assoc]
    | eq =>
      rw [find_append_cons_of_eq hinc hk, rank_append_cons_of_eq hinc hk, Option.map_some,
        ← hsl.size_eq]

end SmartWeather.Firestore.LlrbNode
