import SmartWeather.Firestore.TreeSortedMap

/-!
# Iterators of the trees

An iterator is the stack of the nodes whose entries and right children are yet to come.  `rest` is
what is yet to come, in order: an iterator reads its first entry and steps to the others
(`get_next`).  The nodes on the stack lie on one way down (`Ascending`), so that the stack is no
longer than the tree is deep.
-/

namespace SmartWeather.Firestore

open SortedList Std LlrbNode

variable {α K V : Type} {cmp : K → K → Ordering} {k : K}

structure LlrbNodeIterator (α : Type) where
  stack : List (LlrbNode α)

namespace LlrbNode

def entry? : LlrbNode α → Option α
  | empty => none
  | node entry _ _ _ _ => some entry

def accumulateLeft : LlrbNode α → List (LlrbNode α) → List (LlrbNode α)
  | empty, stack => stack
  | node entry color size left right, stack =>
    accumulateLeft left (node entry color size left right :: stack)

/-- The loop of `LowerBound`. -/
def lowerBoundFrom (cmp : K → K → Ordering) (key : K) :
    LlrbNode (K × V) → List (LlrbNode (K × V)) → List (LlrbNode (K × V))
  | empty, stack => stack
  | node entry color size left right, stack =>
    match cmp key entry.1 with
    | .eq => node entry color size left right :: stack
    | .lt => left.lowerBoundFrom cmp key (node entry color size left right :: stack)
    | .gt => right.lowerBoundFrom cmp key stack

end LlrbNode

namespace LlrbNodeIterator

def start (root : LlrbNode α) : LlrbNodeIterator α := ⟨root.accumulateLeft []⟩

def lowerBound (cmp : K → K → Ordering) (root : LlrbNode (K × V)) (key : K) :
    LlrbNodeIterator (K × V) := ⟨root.lowerBoundFrom cmp key []⟩

def isEnd (it : LlrbNodeIterator α) : Bool := it.stack.isEmpty

/-- The entry of the top node; the stack has no empty nodes. -/
def get (it : LlrbNodeIterator α) : Except HardFail α :=
  match it.stack.head?.bind entry? with
  | none => .error .iteratorAtEnd
  | some entry => .ok entry

def next (it : LlrbNodeIterator α) : Except HardFail (LlrbNodeIterator α) :=
  match it.stack with
  | [] => .error .iteratorAtEnd
  | top :: stack => .ok ⟨top.right.accumulateLeft stack⟩

/-! ### What is yet to come -/

/-- The entries that a stack stands for. -/
def pending (stack : List (LlrbNode α)) : List α :=
  stack.flatMap fun n => n.entry?.toList ++ n.right.toList

def rest (it : LlrbNodeIterator α) : List α := pending it.stack

@[simp] theorem pending_cons_node (e : α) (c : Color) (s : ℕ) (l r : LlrbNode α)
    (stack : List (LlrbNode α)) :
    pending (node e c s l r :: stack) = e :: (r.toList ++ pending stack) := rfl

@[simp] theorem pending_accumulateLeft (n : LlrbNode α) (stack : List (LlrbNode α)) :
    pending (n.accumulateLeft stack) = n.toList ++ pending stack := by
  induction n generalizing stack with
  | empty => rfl
  | node e c s l r ihl _ => rw [accumulateLeft, ihl]; simp

theorem rest_start (n : LlrbNode α) : (start n).rest = n.toList := by
  rw [start, rest, pending_accumulateLeft]
  exact List.append_nil _

theorem pending_lowerBoundFrom [TransCmp cmp] {n : LlrbNode (K × V)}
    {stack : List (LlrbNode (K × V))} (hinc : Increasing Prod.fst cmp n.toList) :
    pending (n.lowerBoundFrom cmp k stack) =
      n.toList.drop (SortedList.rank Prod.fst cmp k n.toList) ++ pending stack := by
  induction n generalizing stack with
  | empty => rfl
  | node e c s l r ihl ihr =>
    obtain ⟨hl, hr, -, -⟩ := increasing_append_cons.1 hinc
    rw [lowerBoundFrom, toList_node]
    cases hk : cmp k e.1 with
    | lt =>
      simp only [ihl hl, pending_cons_node]
      rw [drop_rank_append_cons hk, List.append_assoc, List.cons_append]
    | gt => rw [drop_rank_append_cons_of_gt hinc hk, ← ihr hr]
    | eq => rw [drop_rank_append_cons_of_eq hinc hk, pending_cons_node, List.cons_append]

theorem rest_lowerBound [TransCmp cmp] {n : LlrbNode (K × V)}
    (hinc : Increasing Prod.fst cmp n.toList) : (lowerBound cmp n k).rest =
      n.toList.drop (SortedList.rank Prod.fst cmp k n.toList) := by
  rw [lowerBound, rest, pending_lowerBoundFrom hinc]
  exact List.append_nil _

/-! ### The stack lies on one way down -/

/-- From the top on, the nodes are there and get deeper, down to `d`. -/
structure Ascending (d : ℕ) (stack : List (LlrbNode α)) : Prop where
  present : ∀ n ∈ stack, n.isEmpty = false
  deeper : stack.Pairwise fun n m => n.depth < m.depth
  bounded : ∀ n ∈ stack, n.depth ≤ d

theorem ascending_nil (d : ℕ) : Ascending d ([] : List (LlrbNode α)) :=
  ⟨by simp, List.Pairwise.nil, by simp⟩

theorem Ascending.cons {d : ℕ} {stack : List (LlrbNode α)} {n : LlrbNode α}
    (h : Ascending d stack) (hn : n.isEmpty = false) (hlt : ∀ m ∈ stack, n.depth < m.depth)
    (hle : n.depth ≤ d) : Ascending d (n :: stack) :=
  ⟨List.forall_mem_cons.2 ⟨hn, h.present⟩, List.pairwise_cons.2 ⟨hlt, h.deeper⟩,
    List.forall_mem_cons.2 ⟨hle, h.bounded⟩⟩

theorem depth_left_lt (e : α) (c : Color) (s : ℕ) (l r : LlrbNode α) :
    l.depth < (node e c s l r).depth := Nat.lt_succ_of_le (Nat.le_max_left _ _)

theorem depth_right_lt (e : α) (c : Color) (s : ℕ) (l r : LlrbNode α) :
    r.depth < (node e c s l r).depth := Nat.lt_succ_of_le (Nat.le_max_right _ _)

theorem Ascending.accumulateLeft {d : ℕ} {n : LlrbNode α} {stack : List (LlrbNode α)}
    (h : Ascending d stack) (hlt : ∀ m ∈ stack, n.depth < m.depth) (hle : n.depth ≤ d) :
    Ascending d (n.accumulateLeft stack) := by
  induction n generalizing stack with
  | empty => exact h
  | node e c s l r ihl _ =>
    have hl := depth_left_lt e c s l r
    exact ihl (h.cons rfl hlt hle) (List.forall_mem_cons.2 ⟨hl, fun m hm => hl.trans (hlt m hm)⟩)
      (hl.le.trans hle)

theorem Ascending.lowerBoundFrom {d : ℕ} {n : LlrbNode (K × V)} {stack : List (LlrbNode (K × V))}
    (h : Ascending d stack) (hlt : ∀ m ∈ stack, n.depth < m.depth) (hle : n.depth ≤ d) :
    Ascending d (n.lowerBoundFrom cmp k stack) := by
  induction n generalizing stack with
  | empty => exact h
  | node e c s l r ihl ihr =>
    rw [LlrbNode.lowerBoundFrom]
    cases cmp k e.1 with
    | eq => exact h.cons rfl hlt hle
    | lt =>
      have hl := depth_left_lt e c s l r
      exact ihl (h.cons rfl hlt hle) (List.forall_mem_cons.2 ⟨hl, fun m hm => hl.trans (hlt m hm)⟩)
        (hl.le.trans hle)
    | gt =>
      have hr := depth_right_lt e c s l r
      exact ihr h (fun m hm => hr.trans (hlt m hm)) (hr.le.trans hle)

theorem Ascending.length_le {d : ℕ} {stack : List (LlrbNode α)} (h : Ascending d stack) :
    stack.length ≤ d := by
  suffices hbelow : ∀ b, (∀ n ∈ stack, b < n.depth) → stack.length ≤ d - b by
    refine hbelow 0 fun n hn => ?_
    cases n with
    | empty => exact absurd (h.present _ hn) (by simp [isEmpty])
    | node e c s l r => exact Nat.succ_pos _
  induction stack with
  | nil => exact fun b _ => Nat.zero_le _
  | cons n stack ih =>
    intro b hb
    obtain ⟨hpresent, hdeeper, hbounded⟩ := h
    have htail := ih ⟨fun m hm => hpresent m (List.mem_cons_of_mem n hm), hdeeper.tail,
      fun m hm => hbounded m (List.mem_cons_of_mem n hm)⟩ n.depth (List.pairwise_cons.1 hdeeper).1
    have hn := hb n List.mem_cons_self
    have hd := hbounded n List.mem_cons_self
    rw [List.length_cons]
    omega

theorem ascending_start (n : LlrbNode α) : Ascending n.depth (start n).stack :=
  (ascending_nil _).accumulateLeft (by simp) (Nat.le_refl _)

theorem ascending_lowerBound (n : LlrbNode (K × V)) :
    Ascending n.depth (lowerBound cmp n k).stack :=
  (ascending_nil _).lowerBoundFrom (by simp) (Nat.le_refl _)

/-! ### Reading and stepping -/

variable {it : LlrbNodeIterator α} {d : ℕ} {e : α} {es : List α}

theorem isEnd_iff (h : Ascending d it.stack) : it.isEnd = true ↔ it.rest = [] := by
  obtain ⟨stack⟩ := it
  match stack with
  | [] => simp [isEnd, rest, pending]
  | empty :: stack => exact absurd (h.present _ List.mem_cons_self) (by simp [isEmpty])
  | node e c s l r :: stack => simp [isEnd, rest]

theorem Ascending.next {it' : LlrbNodeIterator α} (h : Ascending d it.stack)
    (hnext : it.next = .ok it') : Ascending d it'.stack := by
  obtain ⟨stack⟩ := it
  match stack with
  | [] => cases hnext
  | empty :: stack => exact absurd (h.present _ List.mem_cons_self) (by simp [isEmpty])
  | node e c s l r :: stack =>
    cases hnext
    have hr := depth_right_lt e c s l r
    obtain ⟨hlt, hdeeper⟩ := List.pairwise_cons.1 h.deeper
    have htail : Ascending d stack := ⟨fun m hm => h.present m (List.mem_cons_of_mem _ hm), hdeeper,
      fun m hm => h.bounded m (List.mem_cons_of_mem _ hm)⟩
    exact htail.accumulateLeft (fun m hm => hr.trans (hlt m hm))
      (hr.le.trans (h.bounded _ List.mem_cons_self))

/-- An iterator that is not at the end reads the first of the entries that are left, and steps to
the others. -/
theorem get_next (h : Ascending d it.stack) (hrest : it.rest = e :: es) : it.get = .ok e ∧
    ∃ it', it.next = .ok it' ∧ it'.rest = es ∧ Ascending d it'.stack := by
  obtain ⟨stack⟩ := it
  match stack with
  | [] => cases hrest
  | empty :: stack => exact absurd (h.present _ List.mem_cons_self) (by simp [isEmpty])
  | node e' c s l r :: stack =>
    obtain ⟨rfl, rfl⟩ : e' = e ∧ r.toList ++ pending stack = es := by
      simpa [rest] using hrest
    exact ⟨rfl, _, rfl, pending_accumulateLeft r stack, h.next rfl⟩

end LlrbNodeIterator

end SmartWeather.Firestore
