import Mathlib.Data.List.Basic
import Mathlib.Data.List.Perm.Basic
import Mathlib.Order.Basic
import Mathlib.Tactic

/-!
# Lists sorted by a comparator

The abstract model of a sorted map or set: a list of elements, each with a key, that increases
strictly under a comparator of keys.  With `Prod.fst` for the key it is a map from keys to values,
with the identity it is a set.

* `insert`, `erase`, `find`: the operations, written as the walk along the list;
* `find_insert`, `find_erase`: how they compose;
* `ext_of_mem`: a sorted list is determined by its elements;
* `take_eq_take`: two sorted lists that agree up to a key begin with the same elements;
* `rank`: the number of elements before a key, which is the position at which `insert` and `erase`
  change the list (`insert_eq_insertIdx`, `erase_eq_eraseIdx`);
* `insert_append`, `insert_append_cons` and their like: the operations on a list in two parts;
  `erase_getLast` is the case of the last element.
-/

namespace SortedList

open Std

variable {α κ : Type*} (key : α → κ) (cmp : κ → κ → Ordering)

/-- Comparing by a key. -/
theorem transCmp_on [TransCmp cmp] : TransCmp fun a b => cmp (key a) (key b) where
  eq_swap := OrientedCmp.eq_swap
  isLE_trans := TransCmp.isLE_trans

/-- Comparing in the other direction. -/
theorem transCmp_swap [TransCmp cmp] : TransCmp fun a b => (cmp a b).swap := by
  have hswap : (fun a b => (cmp a b).swap) = fun a b => cmp b a := by
    funext a b
    exact OrientedCmp.eq_swap.symm
  rw [hswap]
  exact TransCmp.opposite

/-- Strictly increasing keys. -/
def Increasing (l : List α) : Prop := l.Pairwise fun a b => cmp (key a) (key b) = .lt

/-- Puts an element at its place; an element with an equal key is replaced. -/
def insert (a : α) : List α → List α
  | [] => [a]
  | b :: l =>
    match cmp (key a) (key b) with
    | .lt => a :: b :: l
    | .eq => a :: l
    | .gt => b :: insert a l

/-- Takes out the element with the given key. -/
def erase (k : κ) : List α → List α
  | [] => []
  | b :: l =>
    match cmp k (key b) with
    | .lt => b :: l
    | .eq => l
    | .gt => b :: erase k l

/-- The element with the given key. -/
def find (k : κ) (l : List α) : Option α := l.find? fun b => cmp k (key b) == .eq

/-- The number of elements before a key. -/
def rank (k : κ) (l : List α) : ℕ := l.findIdx fun b => cmp k (key b) != .gt

variable {key cmp} {a b : α} {k k' : κ} {l l' : List α}

theorem increasing_nil : Increasing key cmp ([] : List α) := List.Pairwise.nil

theorem increasing_cons : Increasing key cmp (a :: l) ↔
    (∀ b ∈ l, cmp (key a) (key b) = .lt) ∧ Increasing key cmp l := List.pairwise_cons

theorem Increasing.sublist (h : Increasing key cmp l) (hl : List.Sublist l' l) :
    Increasing key cmp l' := List.Pairwise.sublist hl h

@[simp] theorem find_nil : find key cmp k [] = none := rfl

/-! ### Membership and order -/

variable [TransCmp cmp]

theorem lt_irrefl (k : κ) : cmp k k ≠ .lt := by
  have hself : cmp k k = .eq := ReflCmp.compare_self
  simp [hself]

/-- Everything after an element that is behind `k` is behind `k`. -/
theorem lt_of_le_of_increasing (h : Increasing key cmp (b :: l)) (hk : cmp k (key b) ≠ .gt) :
    ∀ x ∈ l, cmp k (key x) = .lt := by
  intro x hx
  have hbx := (increasing_cons.1 h).1 x hx
  cases hkb : cmp k (key b) with
  | lt => exact TransCmp.lt_trans hkb hbx
  | eq => exact TransCmp.lt_of_eq_of_lt hkb hbx
  | gt => exact absurd hkb hk

theorem mem_insert (h : Increasing key cmp l) :
    b ∈ insert key cmp a l ↔ b = a ∨ b ∈ l ∧ cmp (key a) (key b) ≠ .eq := by
  induction l with
  | nil => simp [insert]
  | cons c l ih =>
    have htail := (increasing_cons.1 h).2
    rw [insert]
    cases hac : cmp (key a) (key c) with
    | lt =>
      have hlt := lt_of_le_of_increasing h (by rw [hac]; exact Ordering.noConfusion)
      simp only [List.mem_cons]
      refine or_congr_right ⟨fun hb => ⟨hb, ?_⟩, And.left⟩
      rcases hb with rfl | hb
      · simp [hac]
      · simp [hlt b hb]
    | eq =>
      have hlt := lt_of_le_of_increasing h (by rw [hac]; exact Ordering.noConfusion)
      simp only [List.mem_cons]
      refine or_congr_right ⟨fun hb => ⟨Or.inr hb, by simp [hlt b hb]⟩, ?_⟩
      rintro ⟨rfl | hb, hne⟩
      · exact absurd hac hne
      · exact hb
    | gt =>
      simp only [List.mem_cons, ih htail]
      constructor
      · rintro (rfl | rfl | ⟨hb, hne⟩)
        · exact Or.inr ⟨Or.inl rfl, by simp [hac]⟩
        · exact Or.inl rfl
        · exact Or.inr ⟨Or.inr hb, hne⟩
      · rintro (rfl | ⟨rfl | hb, hne⟩)
        · exact Or.inr (Or.inl rfl)
        · exact Or.inl rfl
        · exact Or.inr (Or.inr ⟨hb, hne⟩)

theorem mem_erase (h : Increasing key cmp l) :
    b ∈ erase key cmp k l ↔ b ∈ l ∧ cmp k (key b) ≠ .eq := by
  induction l with
  | nil => simp [erase]
  | cons c l ih =>
    have htail := (increasing_cons.1 h).2
    rw [erase]
    cases hkc : cmp k (key c) with
    | lt =>
      have hlt := lt_of_le_of_increasing h (by rw [hkc]; exact Ordering.noConfusion)
      refine ⟨fun hb => ⟨hb, ?_⟩, And.left⟩
      rcases List.mem_cons.1 hb with rfl | hb
      · simp [hkc]
      · simp [hlt b hb]
    | eq =>
      have hlt := lt_of_le_of_increasing h (by rw [hkc]; exact Ordering.noConfusion)
      refine ⟨fun hb => ⟨List.mem_cons_of_mem c hb, by simp [hlt b hb]⟩, ?_⟩
      rintro ⟨hb, hne⟩
      rcases List.mem_cons.1 hb with rfl | hb
      · exact absurd hkc hne
      · exact hb
    | gt =>
      simp only [List.mem_cons, ih htail]
      constructor
      · rintro (rfl | ⟨hb, hne⟩)
        · exact ⟨Or.inl rfl, by simp [hkc]⟩
        · exact ⟨Or.inr hb, hne⟩
      · rintro ⟨rfl | hb, hne⟩
        · exact Or.inl rfl
        · exact Or.inr ⟨hb, hne⟩

theorem Increasing.insert (h : Increasing key cmp l) (a : α) :
    Increasing key cmp (insert key cmp a l) := by
  induction l with
  | nil => exact List.pairwise_singleton _ a
  | cons c l ih =>
    have htail := (increasing_cons.1 h).2
    rw [SortedList.insert]
    cases hac : cmp (key a) (key c) with
    | lt =>
      refine increasing_cons.2 ⟨fun x hx => ?_, h⟩
      rcases List.mem_cons.1 hx with rfl | hx
      · exact hac
      · exact lt_of_le_of_increasing h (by rw [hac]; exact Ordering.noConfusion) x hx
    | eq =>
      refine increasing_cons.2 ⟨fun x hx => ?_, htail⟩
      exact lt_of_le_of_increasing h (by rw [hac]; exact Ordering.noConfusion) x hx
    | gt =>
      refine increasing_cons.2 ⟨fun x hx => ?_, ih htail⟩
      rcases (mem_insert htail).1 hx with rfl | ⟨hx, -⟩
      · exact OrientedCmp.lt_of_gt hac
      · exact (increasing_cons.1 h).1 x hx

omit [TransCmp cmp] in
theorem length_insert_le (a : α) (l : List α) :
    (insert key cmp a l).length ≤ l.length + 1 := by
  induction l with
  | nil => exact Nat.le_refl _
  | cons b l ih =>
    rw [insert]
    cases cmp (key a) (key b) with
    | lt => exact Nat.le_refl _
    | eq => exact Nat.le_succ _
    | gt => exact Nat.succ_le_succ ih

omit [TransCmp cmp] in
theorem erase_sublist : List.Sublist (erase key cmp k l) l := by
  induction l with
  | nil => exact List.Sublist.slnil
  | cons c l ih =>
    rw [erase]
    cases cmp k (key c) with
    | lt => exact List.Sublist.refl _
    | eq => exact List.sublist_cons_self c l
    | gt => exact ih.cons_cons c

omit [TransCmp cmp] in
theorem Increasing.erase (h : Increasing key cmp l) (k : κ) :
    Increasing key cmp (erase key cmp k l) := h.sublist erase_sublist

/-- Elements with equal keys are equal. -/
theorem Increasing.eq_of_eq (h : Increasing key cmp l) (ha : a ∈ l) (hb : b ∈ l)
    (hab : cmp (key a) (key b) = .eq) : a = b := by
  have hpair : l.Pairwise fun a b => cmp (key a) (key b) = .eq → a = b :=
    List.Pairwise.imp (fun hlt heq => by simp [hlt] at heq) h
  have hsymm : Std.Symm fun a b => cmp (key a) (key b) = .eq → a = b :=
    ⟨fun x y hxy hyx => (hxy (OrientedCmp.eq_symm hyx)).symm⟩
  exact List.Pairwise.forall_of_forall (fun _ _ _ => rfl) hpair ha hb hab

theorem Increasing.nodup (h : Increasing key cmp l) : l.Nodup :=
  List.Pairwise.imp (R := fun a b => cmp (key a) (key b) = .lt)
    (fun {a b} hlt (heq : a = b) => lt_irrefl (key b) (heq ▸ hlt)) h

/-- A sorted list is determined by its elements. -/
theorem ext_of_mem (h : Increasing key cmp l) (h' : Increasing key cmp l')
    (hmem : ∀ b, b ∈ l ↔ b ∈ l') : l = l' := by
  refine List.Perm.eq_of_pairwise ?_ h h'
    ((List.perm_ext_iff_of_nodup h.nodup h'.nodup).2 hmem)
  intro a b _ _ hab hba
  exact absurd hba (OrientedCmp.not_lt_of_lt hab)

/-- No element is behind the last one. -/
theorem le_getLast (h : Increasing key cmp l) (hb : l.getLast? = some b) (ha : a ∈ l) :
    cmp (key a) (key b) ≠ .gt := by
  induction l with
  | nil => exact (List.not_mem_nil ha).elim
  | cons c l ih =>
    obtain ⟨hc, hl⟩ := increasing_cons.1 h
    cases l with
    | nil =>
      cases hb
      cases List.mem_singleton.1 ha
      have hself : cmp (key a) (key a) = .eq := ReflCmp.compare_self
      simp [hself]
    | cons d l =>
      have hb' : (d :: l).getLast? = some b := by simpa using hb
      rcases List.mem_cons.1 ha with rfl | ha
      · simp [hc b (List.mem_of_getLast? hb')]
      · exact ih hl hb' ha

/-! ### Lookup -/

theorem find_eq_some_iff (h : Increasing key cmp l) :
    find key cmp k l = some b ↔ b ∈ l ∧ cmp k (key b) = .eq := by
  constructor
  · intro hf
    exact ⟨List.mem_of_find?_eq_some hf, by simpa using List.find?_some hf⟩
  · rintro ⟨hb, hkb⟩
    cases hf : find key cmp k l with
    | none => exact absurd hkb (by simpa using List.find?_eq_none.1 hf b hb)
    | some c =>
      have hkc : cmp k (key c) = .eq := by simpa using List.find?_some hf
      rw [h.eq_of_eq (List.mem_of_find?_eq_some hf) hb
        (TransCmp.eq_trans (OrientedCmp.eq_symm hkc) hkb)]

omit [TransCmp cmp] in
theorem find_eq_none_iff : find key cmp k l = none ↔ ∀ b ∈ l, cmp k (key b) ≠ .eq := by
  simp [find]

theorem find_insert (h : Increasing key cmp l) : find key cmp k (insert key cmp a l) =
    if cmp k (key a) = .eq then some a else find key cmp k l := by
  split_ifs with hka
  · exact (find_eq_some_iff (h.insert a)).2 ⟨(mem_insert h).2 (Or.inl rfl), hka⟩
  · refine Option.ext fun b => ?_
    rw [find_eq_some_iff (h.insert a), find_eq_some_iff h, mem_insert h]
    constructor
    · rintro ⟨rfl | ⟨hb, -⟩, hkb⟩
      · exact absurd hkb hka
      · exact ⟨hb, hkb⟩
    · rintro ⟨hb, hkb⟩
      refine ⟨Or.inr ⟨hb, fun hab => hka ?_⟩, hkb⟩
      exact TransCmp.eq_trans hkb (OrientedCmp.eq_symm hab)

theorem find_erase (h : Increasing key cmp l) : find key cmp k (erase key cmp k' l) =
    if cmp k k' = .eq then none else find key cmp k l := by
  split_ifs with hk
  · refine find_eq_none_iff.2 fun b hb hkb => ((mem_erase h).1 hb).2 ?_
    exact TransCmp.eq_trans (OrientedCmp.eq_symm hk) hkb
  · refine Option.ext fun b => ?_
    rw [find_eq_some_iff (h.erase k'), find_eq_some_iff h, mem_erase h]
    constructor
    · rintro ⟨⟨hb, -⟩, hkb⟩
      exact ⟨hb, hkb⟩
    · rintro ⟨hb, hkb⟩
      refine ⟨⟨hb, fun hk'b => hk ?_⟩, hkb⟩
      exact TransCmp.eq_trans hkb (OrientedCmp.eq_symm hk'b)

/-! ### Beginnings -/

/-- A sorted list is its elements up to a key, followed by those behind it. -/
theorem eq_filter_append (h : Increasing key cmp l) (k : κ) :
    l = l.filter (fun a => cmp (key a) k != .gt) ++ l.filter fun a => cmp (key a) k == .gt := by
  induction l with
  | nil => rfl
  | cons a l ih =>
    obtain ⟨ha, hl⟩ := increasing_cons.1 h
    cases hk : cmp (key a) k with
    | gt =>
      have hall : ∀ b ∈ l, cmp (key b) k = .gt := fun b hb =>
        TransCmp.gt_trans (OrientedCmp.gt_of_lt (ha b hb)) hk
      have hnone : l.filter (fun a => cmp (key a) k != .gt) = [] :=
        List.filter_eq_nil_iff.2 fun b hb => by simp [hall b hb]
      have hself : l.filter (fun a => cmp (key a) k == .gt) = l :=
        List.filter_eq_self.2 fun b hb => by simp [hall b hb]
      simp [hk, hnone, hself]
    | lt => simpa [hk] using ih hl
    | eq => simpa [hk] using ih hl

/-- Two sorted lists with the same elements up to a key begin with the same elements. -/
theorem take_eq_take (h : Increasing key cmp l) (h' : Increasing key cmp l') (k : κ)
    (hmem : ∀ a, cmp (key a) k ≠ .gt → (a ∈ l ↔ a ∈ l')) {n : ℕ}
    (hn : n ≤ (l.filter fun a => cmp (key a) k != .gt).length) : l.take n = l'.take n := by
  have hfilter : l.filter (fun a => cmp (key a) k != .gt) =
      l'.filter (fun a => cmp (key a) k != .gt) := by
    refine ext_of_mem (h.sublist List.filter_sublist) (h'.sublist List.filter_sublist) fun a => ?_
    simp only [List.mem_filter, bne_iff_ne, ne_eq]
    exact ⟨fun ⟨ha, hk⟩ => ⟨(hmem a hk).1 ha, hk⟩, fun ⟨ha, hk⟩ => ⟨(hmem a hk).2 ha, hk⟩⟩
  rw [eq_filter_append h k, eq_filter_append h' k, List.take_append_of_le_length hn, hfilter,
    List.take_append_of_le_length (hfilter ▸ hn)]

/-! ### Positions -/

omit [TransCmp cmp] in
theorem rank_cons : rank key cmp k (b :: l) =
    if cmp k (key b) = .gt then rank key cmp k l + 1 else 0 := by
  rw [rank, List.findIdx_cons]
  cases cmp k (key b) <;> rfl

omit [TransCmp cmp] in
theorem rank_le_length : rank key cmp k l ≤ l.length := List.findIdx_le_length

omit [TransCmp cmp] in
theorem insert_eq_insertIdx (h : Increasing key cmp l) (hk : find key cmp (key a) l = none) :
    insert key cmp a l = l.insertIdx (rank key cmp (key a) l) a := by
  induction l with
  | nil => rfl
  | cons b l ih =>
    rw [find_eq_none_iff] at hk
    rw [insert, rank_cons]
    cases hab : cmp (key a) (key b) with
    | lt => simp
    | eq => exact absurd hab (hk b List.mem_cons_self)
    | gt =>
      have htail : find key cmp (key a) l = none :=
        find_eq_none_iff.2 fun c hc => hk c (List.mem_cons_of_mem b hc)
      simp [ih (increasing_cons.1 h).2 htail]

/-- The element with a key is found at the key's rank. -/
theorem getElem?_rank (h : Increasing key cmp l) (hk : find key cmp k l = some b) :
    l[rank key cmp k l]? = some b := by
  induction l with
  | nil => simp at hk
  | cons c l ih =>
    obtain ⟨hb, hkb⟩ := (find_eq_some_iff h).1 hk
    rw [rank_cons]
    rcases List.mem_cons.1 hb with rfl | hb
    · simp [hkb]
    · have hkc : cmp k (key c) = .gt := by
        rw [TransCmp.congr_left hkb]
        exact OrientedCmp.gt_of_lt ((increasing_cons.1 h).1 b hb)
      have htail := (increasing_cons.1 h).2
      simpa [hkc] using ih htail ((find_eq_some_iff htail).2 ⟨hb, hkb⟩)

theorem erase_eq_eraseIdx (h : Increasing key cmp l) (hk : find key cmp k l = some b) :
    erase key cmp k l = l.eraseIdx (rank key cmp k l) := by
  induction l with
  | nil => rfl
  | cons c l ih =>
    obtain ⟨hb, hkb⟩ := (find_eq_some_iff h).1 hk
    rw [erase, rank_cons]
    cases hkc : cmp k (key c) with
    | lt =>
      rcases List.mem_cons.1 hb with rfl | hb
      · rw [hkc] at hkb; cases hkb
      · have := lt_of_le_of_increasing h (by rw [hkc]; exact Ordering.noConfusion) b hb
        rw [this] at hkb; cases hkb
    | eq => rfl
    | gt =>
      rcases List.mem_cons.1 hb with rfl | hb
      · rw [hkc] at hkb; cases hkb
      · have htail := (increasing_cons.1 h).2
        simp [ih htail ((find_eq_some_iff htail).2 ⟨hb, hkb⟩)]

omit [TransCmp cmp] in
theorem erase_of_find_none (hk : find key cmp k l = none) : erase key cmp k l = l := by
  rw [find_eq_none_iff] at hk
  induction l with
  | nil => rfl
  | cons b l ih =>
    rw [erase]
    cases hkb : cmp k (key b) with
    | lt => rfl
    | eq => exact absurd hkb (hk b List.mem_cons_self)
    | gt => exact congrArg (b :: ·) (ih fun c hc => hk c (List.mem_cons_of_mem b hc))

/-- An element is put at the rank that it has afterwards. -/
theorem rank_insert (h : Increasing key cmp l) :
    rank key cmp (key a) (insert key cmp a l) = rank key cmp (key a) l := by
  have hself : cmp (key a) (key a) = .eq := ReflCmp.compare_self
  induction l with
  | nil => simp [insert, hself, rank]
  | cons b l ih =>
    rw [insert, rank_cons]
    cases hab : cmp (key a) (key b) with
    | lt => simp [rank_cons, hself]
    | eq => simp [rank_cons, hself]
    | gt => simp [rank_cons, hab, ih (increasing_cons.1 h).2]

/-! ### The part before a key and the part from it on -/

theorem lt_of_mem_take_rank (hb : b ∈ l.take (rank key cmp k l)) : cmp (key b) k = .lt := by
  obtain ⟨i, hi, rfl⟩ := List.getElem_of_mem hb
  rw [List.length_take, Nat.lt_min] at hi
  have hnot := List.not_of_lt_findIdx hi.1
  rw [List.getElem_take]
  exact OrientedCmp.lt_of_gt (by simpa using hnot)

omit [TransCmp cmp] in
theorem ne_gt_of_drop_rank (h : l.drop (rank key cmp k l) = b :: l') : cmp k (key b) ≠ .gt := by
  have hget : l[rank key cmp k l]? = some b := by
    rw [← List.head?_drop, h, List.head?_cons]
  obtain ⟨hlt, rfl⟩ := List.getElem?_eq_some_iff.1 hget
  exact bne_iff_ne.1 (List.findIdx_getElem (p := fun b => cmp k (key b) != .gt) (w := hlt))

/-- From a key on there are the elements that are not before it. -/
theorem drop_rank_eq_filter (h : Increasing key cmp l) :
    l.drop (rank key cmp k l) = l.filter fun b => cmp (key b) k != .lt := by
  have htake : (l.take (rank key cmp k l)).filter (fun b => cmp (key b) k != .lt) = [] :=
    List.filter_eq_nil_iff.2 fun b hb => by simp [lt_of_mem_take_rank hb]
  have hdrop : (l.drop (rank key cmp k l)).filter (fun b => cmp (key b) k != .lt) =
      l.drop (rank key cmp k l) := by
    refine List.filter_eq_self.2 fun b hb => ?_
    cases hl : l.drop (rank key cmp k l) with
    | nil => rw [hl] at hb; cases hb
    | cons c l' =>
      have hc : cmp (key c) k ≠ .lt := fun hlt =>
        ne_gt_of_drop_rank hl (OrientedCmp.gt_of_lt hlt)
      have hinc : Increasing key cmp (c :: l') := hl ▸ h.sublist (List.drop_sublist _ _)
      rw [hl] at hb
      rcases List.mem_cons.1 hb with rfl | hb
      · simpa using hc
      · have hcb := (increasing_cons.1 hinc).1 b hb
        have hb : cmp (key b) k ≠ .lt := fun hlt => hc (TransCmp.lt_trans hcb hlt)
        simpa using hb
  rw [← hdrop, ← List.nil_append (List.filter _ _), ← htake, ← List.filter_append,
    List.take_append_drop]

/-! ### Lists in two parts

The operations leave alone what lies before a key or behind it. -/

theorem increasing_append_cons : Increasing key cmp (l ++ b :: l') ↔
    Increasing key cmp l ∧ Increasing key cmp l' ∧ (∀ a ∈ l, cmp (key a) (key b) = .lt) ∧
      ∀ a ∈ l', cmp (key b) (key a) = .lt := by
  constructor
  · intro h
    obtain ⟨hl, hbl', hlt⟩ := List.pairwise_append.1 h
    obtain ⟨hb, hl'⟩ := increasing_cons.1 hbl'
    exact ⟨hl, hl', fun a ha => hlt a ha b List.mem_cons_self, hb⟩
  · rintro ⟨hl, hl', hlt, hgt⟩
    refine List.pairwise_append.2 ⟨hl, increasing_cons.2 ⟨hgt, hl'⟩, fun a ha c hc => ?_⟩
    rcases List.mem_cons.1 hc with rfl | hc
    · exact hlt a ha
    · exact TransCmp.lt_trans (hlt a ha) (hgt c hc)

/-- What lies up to an element that is before `k` is before `k`. -/
theorem Increasing.lt_of_gt (h : Increasing key cmp (l ++ b :: l')) (hk : cmp k (key b) = .gt) :
    ∀ a ∈ l ++ [b], cmp (key a) k = .lt := by
  intro a ha
  have hb : cmp (key b) k = .lt := OrientedCmp.lt_of_gt hk
  rcases List.mem_append.1 ha with ha | ha
  · exact TransCmp.lt_trans ((increasing_append_cons.1 h).2.2.1 a ha) hb
  · rwa [List.mem_singleton.1 ha]

/-- What lies before the element with the key `k` is before `k`. -/
theorem Increasing.lt_of_eq (h : Increasing key cmp (l ++ b :: l')) (hk : cmp k (key b) = .eq) :
    ∀ a ∈ l, cmp (key a) k = .lt := fun a ha =>
  TransCmp.lt_of_lt_of_eq ((increasing_append_cons.1 h).2.2.1 a ha) (OrientedCmp.eq_symm hk)

theorem insert_append (h : ∀ b ∈ l, cmp (key b) (key a) = .lt) (l' : List α) :
    insert key cmp a (l ++ l') = l ++ insert key cmp a l' := by
  induction l with
  | nil => rfl
  | cons b l ih =>
    have hgt : cmp (key a) (key b) = .gt := OrientedCmp.gt_of_lt (h b List.mem_cons_self)
    rw [List.cons_append, insert, hgt]
    exact congrArg (b :: ·) (ih fun c hc => h c (List.mem_cons_of_mem b hc))

omit [TransCmp cmp] in
theorem insert_append_cons (h : cmp (key a) (key b) = .lt) (l l' : List α) :
    insert key cmp a (l ++ b :: l') = insert key cmp a l ++ b :: l' := by
  induction l with
  | nil => simp [insert, h]
  | cons c l ih =>
    rw [List.cons_append, insert, insert]
    cases cmp (key a) (key c) with
    | gt => exact congrArg (c :: ·) ih
    | _ => rfl

theorem insert_append_cons_of_gt (h : Increasing key cmp (l ++ b :: l'))
    (hk : cmp (key a) (key b) = .gt) :
    insert key cmp a (l ++ b :: l') = l ++ b :: insert key cmp a l' := by
  rw [List.append_cons, insert_append (h.lt_of_gt hk), ← List.append_cons]

theorem insert_append_cons_of_eq (h : Increasing key cmp (l ++ b :: l'))
    (hk : cmp (key a) (key b) = .eq) : insert key cmp a (l ++ b :: l') = l ++ a :: l' := by
  rw [insert_append (h.lt_of_eq hk), insert, hk]

theorem erase_append (h : ∀ b ∈ l, cmp (key b) k = .lt) (l' : List α) :
    erase key cmp k (l ++ l') = l ++ erase key cmp k l' := by
  induction l with
  | nil => rfl
  | cons b l ih =>
    have hgt : cmp k (key b) = .gt := OrientedCmp.gt_of_lt (h b List.mem_cons_self)
    rw [List.cons_append, erase, hgt]
    exact congrArg (b :: ·) (ih fun c hc => h c (List.mem_cons_of_mem b hc))

omit [TransCmp cmp] in
theorem erase_append_cons (h : cmp k (key b) = .lt) (l l' : List α) :
    erase key cmp k (l ++ b :: l') = erase key cmp k l ++ b :: l' := by
  induction l with
  | nil => simp [erase, h]
  | cons c l ih =>
    rw [List.cons_append, erase, erase]
    cases cmp k (key c) with
    | gt => exact congrArg (c :: ·) ih
    | _ => rfl

theorem erase_append_cons_of_gt (h : Increasing key cmp (l ++ b :: l'))
    (hk : cmp k (key b) = .gt) : erase key cmp k (l ++ b :: l') = l ++ b :: erase key cmp k l' := by
  rw [List.append_cons, erase_append (h.lt_of_gt hk), ← List.append_cons]

theorem erase_append_cons_of_eq (h : Increasing key cmp (l ++ b :: l'))
    (hk : cmp k (key b) = .eq) : erase key cmp k (l ++ b :: l') = l ++ l' := by
  rw [erase_append (h.lt_of_eq hk), erase, hk]

theorem rank_append (h : ∀ b ∈ l, cmp (key b) k = .lt) (l' : List α) :
    rank key cmp k (l ++ l') = l.length + rank key cmp k l' := by
  induction l with
  | nil => simp
  | cons b l ih =>
    have hgt : cmp k (key b) = .gt := OrientedCmp.gt_of_lt (h b List.mem_cons_self)
    rw [List.cons_append, rank_cons, if_pos hgt, ih fun c hc => h c (List.mem_cons_of_mem b hc),
      List.length_cons, Nat.add_right_comm]

omit [TransCmp cmp] in
theorem rank_append_cons (h : cmp k (key b) = .lt) (l l' : List α) :
    rank key cmp k (l ++ b :: l') = rank key cmp k l := by
  induction l with
  | nil =>
    rw [List.nil_append, rank_cons, h]
    rfl
  | cons c l ih => rw [List.cons_append, rank_cons, rank_cons, ih]

theorem find_append (h : ∀ b ∈ l, cmp (key b) k = .lt) (l' : List α) :
    find key cmp k (l ++ l') = find key cmp k l' := by
  have hnone : l.find? (fun b => cmp k (key b) == .eq) = none :=
    List.find?_eq_none.2 fun b hb => by simp [OrientedCmp.gt_of_lt (h b hb)]
  rw [find, List.find?_append, hnone, Option.none_or]
  rfl

theorem find_append_cons (h : cmp k (key b) = .lt) (hl' : ∀ c ∈ l', cmp (key b) (key c) = .lt)
    (l : List α) : find key cmp k (l ++ b :: l') = find key cmp k l := by
  have hnone : (b :: l').find? (fun c => cmp k (key c) == .eq) = none := by
    refine List.find?_eq_none.2 fun c hc => ?_
    rcases List.mem_cons.1 hc with rfl | hc
    · simp [h]
    · simp [TransCmp.lt_trans h (hl' c hc)]
  rw [find, List.find?_append, hnone, Option.or_none]
  rfl

theorem find_drop_rank (k : κ) (l : List α) :
    find key cmp k l = find key cmp k (l.drop (rank key cmp k l)) := by
  conv_lhs => rw [← List.take_append_drop (rank key cmp k l) l]
  exact find_append (fun b hb => lt_of_mem_take_rank hb) _

theorem insert_drop_rank (a : α) (l : List α) :
    insert key cmp a l = l.take (rank key cmp (key a) l) ++
      insert key cmp a (l.drop (rank key cmp (key a) l)) := by
  conv_lhs => rw [← List.take_append_drop (rank key cmp (key a) l) l]
  exact insert_append (fun b hb => lt_of_mem_take_rank hb) _

/-- A key is found at its rank or not at all. -/
theorem find_eq_filter (h : Increasing key cmp l) :
    find key cmp k l = l[rank key cmp k l]?.filter fun b => cmp k (key b) == .eq := by
  rw [find_drop_rank, ← List.head?_drop]
  cases hdrop : l.drop (rank key cmp k l) with
  | nil => rfl
  | cons b l' =>
    rw [List.head?_cons]
    have hinc : Increasing key cmp (b :: l') := hdrop ▸ h.sublist (List.drop_sublist _ _)
    cases hk : cmp k (key b) with
    | gt => exact absurd hk (ne_gt_of_drop_rank hdrop)
    | eq =>
      rw [find, List.find?_cons_of_pos (by simp [hk]), Option.filter_some_pos (by simp [hk])]
    | lt =>
      have hnone : find key cmp k (b :: l') = none := by
        refine find_eq_none_iff.2 fun c hc => ?_
        rcases List.mem_cons.1 hc with rfl | hc
        · simp [hk]
        · simp [TransCmp.lt_trans hk ((increasing_cons.1 hinc).1 c hc)]
      rw [hnone, Option.filter_some_neg (by simp [hk])]

theorem rank_append_cons_of_gt (h : Increasing key cmp (l ++ b :: l'))
    (hk : cmp k (key b) = .gt) :
    rank key cmp k (l ++ b :: l') = l.length + 1 + rank key cmp k l' := by
  rw [List.append_cons, rank_append (h.lt_of_gt hk), List.length_append, List.length_singleton]

theorem rank_append_cons_of_eq (h : Increasing key cmp (l ++ b :: l'))
    (hk : cmp k (key b) = .eq) : rank key cmp k (l ++ b :: l') = l.length := by
  rw [rank_append (h.lt_of_eq hk), rank_cons, hk]
  rfl

theorem find_append_cons_of_gt (h : Increasing key cmp (l ++ b :: l'))
    (hk : cmp k (key b) = .gt) : find key cmp k (l ++ b :: l') = find key cmp k l' := by
  rw [List.append_cons, find_append (h.lt_of_gt hk)]

theorem find_append_cons_of_eq (h : Increasing key cmp (l ++ b :: l'))
    (hk : cmp k (key b) = .eq) : find key cmp k (l ++ b :: l') = some b := by
  rw [find_append (h.lt_of_eq hk), find, List.find?_cons_of_pos (by simp [hk])]

omit [TransCmp cmp] in
/-- What is left of a list from a key on. -/
theorem drop_rank_append_cons (h : cmp k (key b) = .lt) (l l' : List α) :
    (l ++ b :: l').drop (rank key cmp k (l ++ b :: l')) =
      l.drop (rank key cmp k l) ++ b :: l' := by
  rw [rank_append_cons h, List.drop_append_of_le_length rank_le_length]

theorem drop_rank_append_cons_of_gt (h : Increasing key cmp (l ++ b :: l'))
    (hk : cmp k (key b) = .gt) : (l ++ b :: l').drop (rank key cmp k (l ++ b :: l')) =
      l'.drop (rank key cmp k l') := by
  rw [rank_append_cons_of_gt h hk, List.append_cons, ← List.drop_drop,
    List.drop_left' (by simp)]

theorem drop_rank_append_cons_of_eq (h : Increasing key cmp (l ++ b :: l'))
    (hk : cmp k (key b) = .eq) :
    (l ++ b :: l').drop (rank key cmp k (l ++ b :: l')) = b :: l' := by
  rw [rank_append_cons_of_eq h hk, List.drop_left]

/-- An element behind all others is put at the end. -/
theorem insert_eq_append (h : ∀ b ∈ l, cmp (key b) (key a) = .lt) :
    insert key cmp a l = l ++ [a] := by
  simpa [insert] using insert_append h []

theorem rank_eq_length (h : ∀ b ∈ l, cmp (key b) k = .lt) : rank key cmp k l = l.length := by
  simpa [rank] using rank_append h []

/-- Taking out the last element. -/
theorem erase_getLast (h : Increasing key cmp l) (ha : l.getLast? = some a) :
    erase key cmp (key a) l = l.dropLast := by
  induction l with
  | nil => rfl
  | cons b l ih =>
    rw [erase]
    cases l with
    | nil =>
      cases ha
      have hself : cmp (key b) (key b) = .eq := ReflCmp.compare_self
      simp [hself]
    | cons c l =>
      have ha' : (c :: l).getLast? = some a := by simpa using ha
      have hgt : cmp (key a) (key b) = .gt :=
        OrientedCmp.gt_of_lt ((increasing_cons.1 h).1 a (List.mem_of_getLast? ha'))
      simp [hgt, ih (increasing_cons.1 h).2 ha']

/-! ### Elements with the same keys -/

section Map

variable {β : Type} {key' : β → κ} {f : α → β}

omit [TransCmp cmp] in
theorem map_insert (hf : ∀ a, key' (f a) = key a) (a : α) (l : List α) :
    (insert key cmp a l).map f = insert key' cmp (f a) (l.map f) := by
  induction l with
  | nil => rfl
  | cons b l ih =>
    rw [insert, List.map_cons, insert, hf, hf]
    cases cmp (key a) (key b) with
    | gt => exact congrArg (f b :: ·) ih
    | _ => rfl

omit [TransCmp cmp] in
theorem map_erase (hf : ∀ a, key' (f a) = key a) (k : κ) (l : List α) :
    (erase key cmp k l).map f = erase key' cmp k (l.map f) := by
  induction l with
  | nil => rfl
  | cons b l ih =>
    rw [erase, List.map_cons, erase, hf]
    cases cmp k (key b) with
    | gt => exact congrArg (f b :: ·) ih
    | _ => rfl

omit [TransCmp cmp] in
theorem find_map (hf : ∀ a, key' (f a) = key a) (k : κ) (l : List α) :
    find key' cmp k (l.map f) = (find key cmp k l).map f := by
  rw [find, find, List.find?_map]
  congr 2
  funext a
  rw [Function.comp_apply, hf]

omit [TransCmp cmp] in
theorem rank_map (hf : ∀ a, key' (f a) = key a) (k : κ) (l : List α) :
    rank key' cmp k (l.map f) = rank key cmp k l := by
  rw [rank, rank, List.findIdx_map]
  congr 1
  funext a
  rw [Function.comp_apply, hf]

end Map

end SortedList
