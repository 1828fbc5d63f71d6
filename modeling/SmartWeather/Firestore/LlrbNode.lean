import Mathlib.Order.Compare
import Mathlib.Tactic

/-!
# The left-leaning red-black trees of the client

Large sorted maps of the client are red-black trees whose red links lean to the left.  `innerInsert`
and `innerErase` go down to the key and put the links right on the way back (`fixUp`); on its way
down, `innerErase` moves red links so that it never has to take an entry out of a lone black node.

A node keeps the number of entries under it, as a field of 31 bits; trees here have fewer entries.
Rotations and flips are defined for the nodes that they are called on, and leave others alone.

The lemmas here are about the entries in order, which rotations and flips leave alone.
-/

namespace SmartWeather.Firestore

inductive Color
  | black
  | red
  deriving DecidableEq

/-- `OppositeColor`. -/
def Color.opposite : Color → Color
  | black => red
  | red => black

inductive LlrbNode (α : Type)
  | empty
  | node (entry : α) (color : Color) (size : ℕ) (left right : LlrbNode α)

namespace LlrbNode

variable {α : Type}

/-! ### The parts of a node; below the empty node there are empty nodes -/

def size : LlrbNode α → ℕ
  | empty => 0
  | node _ _ size _ _ => size

def isEmpty : LlrbNode α → Bool
  | empty => true
  | node _ _ _ _ _ => false

def red : LlrbNode α → Bool
  | empty => false
  | node _ color _ _ _ => color = .red

def left : LlrbNode α → LlrbNode α
  | empty => empty
  | node _ _ _ left _ => left

def right : LlrbNode α → LlrbNode α
  | empty => empty
  | node _ _ _ _ right => right

def setLeft : LlrbNode α → LlrbNode α → LlrbNode α
  | empty, _ => empty
  | node entry color size _ right, left => node entry color size left right

def setRight : LlrbNode α → LlrbNode α → LlrbNode α
  | empty, _ => empty
  | node entry color size left _, right => node entry color size left right

def setEntry : LlrbNode α → α → LlrbNode α
  | empty, _ => empty
  | node _ color size left right, entry => node entry color size left right

/-- The node with the least key. -/
def min : LlrbNode α → LlrbNode α
  | empty => empty
  | node entry color size left right =>
    if left.isEmpty then node entry color size left right else left.min

section

variable (e : α) (c : Color) (s : ℕ) (l r : LlrbNode α)

@[simp] theorem red_empty : (empty : LlrbNode α).red = false := rfl

@[simp] theorem red_node : (node e c s l r).red = decide (c = .red) := rfl

@[simp] theorem left_node : (node e c s l r).left = l := rfl

@[simp] theorem right_node : (node e c s l r).right = r := rfl

@[simp] theorem isEmpty_node : (node e c s l r).isEmpty = false := rfl

@[simp] theorem size_empty : (empty : LlrbNode α).size = 0 := rfl

@[simp] theorem size_node : (node e c s l r).size = s := rfl

@[simp] theorem setLeft_node (l' : LlrbNode α) :
    (node e c s l r).setLeft l' = node e c s l' r := rfl

@[simp] theorem setRight_node (r' : LlrbNode α) :
    (node e c s l r).setRight r' = node e c s l r' := rfl

end

/-! ### Rotations and flips -/

/-- The constructor that computes the size. -/
def rep (entry : α) (color : Color) (left right : LlrbNode α) : LlrbNode α :=
  node entry color (left.size + 1 + right.size) left right

def setColor (color : Color) : LlrbNode α → LlrbNode α
  | empty => empty
  | node entry _ size left right => node entry color size left right

def rotateLeft : LlrbNode α → LlrbNode α
  | node entry color size left (node entry' _ _ left' right') =>
    node entry' color size (rep entry .red left left') right'
  | n => n

def rotateRight : LlrbNode α → LlrbNode α
  | node entry color size (node entry' _ _ left' right') right =>
    node entry' color size left' (rep entry .red right' right)
  | n => n

def flipColor : LlrbNode α → LlrbNode α
  | node entry color size (node entryL colorL sizeL leftL rightL)
      (node entryR colorR sizeR leftR rightR) =>
    node entry color.opposite size (node entryL colorL.opposite sizeL leftL rightL)
      (node entryR colorR.opposite sizeR leftR rightR)
  | n => n

section

variable (e e' e'' : α) (c c' c'' : Color) (s s' s'' : ℕ) (l r l' r' l'' r'' : LlrbNode α)

@[simp] theorem rotateLeft_node : rotateLeft (node e c s l (node e' c' s' l' r')) =
    node e' c s (rep e .red l l') r' := rfl

@[simp] theorem rotateRight_node : rotateRight (node e c s (node e' c' s' l' r') r) =
    node e' c s l' (rep e .red r' r) := rfl

@[simp] theorem flipColor_node :
    flipColor (node e c s (node e' c' s' l' r') (node e'' c'' s'' l'' r'')) =
      node e c.opposite s (node e' c'.opposite s' l' r') (node e'' c''.opposite s'' l'' r'') := rfl

end

/-- The first step of `FixUp`. -/
def setSize : LlrbNode α → LlrbNode α
  | empty => empty
  | node entry color _ left right => rep entry color left right

def fixUp (n : LlrbNode α) : LlrbNode α :=
  let n := n.setSize
  let n := if n.right.red && !n.left.red then n.rotateLeft else n
  let n := if n.left.red && n.left.left.red then n.rotateRight else n
  if n.left.red && n.right.red then n.flipColor else n

def fixRootColor (n : LlrbNode α) : LlrbNode α :=
  if n.red then n.setColor .black else n

def moveRedLeft (n : LlrbNode α) : LlrbNode α :=
  match n.flipColor with
  | empty => empty
  | node entry color size left right =>
    if right.left.red then (node entry color size left right.rotateRight).rotateLeft.flipColor
    else node entry color size left right

def moveRedRight (n : LlrbNode α) : LlrbNode α :=
  let n := n.flipColor
  if n.left.left.red then n.rotateRight.flipColor else n

/-- What `InnerErase` does before it goes down to the left. -/
def prepareLeft (n : LlrbNode α) : LlrbNode α :=
  if !n.left.isEmpty && !n.left.red && !n.left.left.red then n.moveRedLeft else n

/-- What `InnerErase` does before it looks at the entry or goes down to the right. -/
def prepareRight (n : LlrbNode α) : LlrbNode α :=
  let n := if n.left.red then n.rotateRight else n
  if !n.right.isEmpty && !n.right.red && !n.right.left.red then n.moveRedRight else n

/-! ### Entries in order -/

def toList : LlrbNode α → List α
  | empty => []
  | node entry _ _ left right => left.toList ++ entry :: right.toList

@[simp] theorem toList_empty : (empty : LlrbNode α).toList = [] := rfl

@[simp] theorem toList_node (e : α) (c : Color) (s : ℕ) (l r : LlrbNode α) :
    (node e c s l r).toList = l.toList ++ e :: r.toList := rfl

@[simp] theorem toList_rep (e : α) (c : Color) (l r : LlrbNode α) :
    (rep e c l r).toList = l.toList ++ e :: r.toList := rfl

@[simp] theorem toList_setColor (c : Color) (n : LlrbNode α) :
    (n.setColor c).toList = n.toList := by
  cases n <;> rfl

@[simp] theorem toList_rotateLeft (n : LlrbNode α) : n.rotateLeft.toList = n.toList := by
  match n with
  | empty => rfl
  | node e c s l empty => rfl
  | node e c s l (node e' c' s' l' r') => simp [rotateLeft]

@[simp] theorem toList_rotateRight (n : LlrbNode α) : n.rotateRight.toList = n.toList := by
  match n with
  | empty => rfl
  | node e c s empty r => rfl
  | node e c s (node e' c' s' l' r') r => simp [rotateRight]

@[simp] theorem toList_flipColor (n : LlrbNode α) : n.flipColor.toList = n.toList := by
  match n with
  | empty => rfl
  | node e c s empty r => rfl
  | node e c s (node _ _ _ _ _) empty => rfl
  | node e c s (node _ _ _ _ _) (node _ _ _ _ _) => rfl

@[simp] theorem toList_setSize (n : LlrbNode α) : n.setSize.toList = n.toList := by
  cases n <;> rfl

@[simp] theorem toList_fixUp (n : LlrbNode α) : n.fixUp.toList = n.toList := by
  simp only [fixUp]
  split_ifs <;> simp

@[simp] theorem toList_fixRootColor (n : LlrbNode α) : n.fixRootColor.toList = n.toList := by
  rw [fixRootColor]
  split_ifs <;> simp

@[simp] theorem toList_moveRedLeft (n : LlrbNode α) : n.moveRedLeft.toList = n.toList := by
  rw [moveRedLeft, ← toList_flipColor n]
  cases n.flipColor with
  | empty => rfl
  | node e c s l r =>
    dsimp only
    split_ifs <;> simp

@[simp] theorem toList_moveRedRight (n : LlrbNode α) : n.moveRedRight.toList = n.toList := by
  simp only [moveRedRight]
  split_ifs <;> simp

@[simp] theorem toList_prepareLeft (n : LlrbNode α) : n.prepareLeft.toList = n.toList := by
  rw [prepareLeft]
  split_ifs <;> simp

@[simp] theorem toList_prepareRight (n : LlrbNode α) : n.prepareRight.toList = n.toList := by
  simp only [prepareRight]
  split_ifs <;> simp

theorem isEmpty_iff {n : LlrbNode α} : n.isEmpty = true ↔ n.toList = [] := by
  cases n <;> simp [isEmpty]

theorem length_left_lt {n : LlrbNode α} (h : n.isEmpty = false) :
    n.left.toList.length < n.toList.length := by
  cases n with
  | empty => cases h
  | node e c s l r =>
    rw [left, toList_node, List.length_append, List.length_cons]
    omega

theorem length_right_lt {n : LlrbNode α} (h : n.isEmpty = false) :
    n.right.toList.length < n.toList.length := by
  cases n with
  | empty => cases h
  | node e c s l r =>
    rw [right, toList_node, List.length_append, List.length_cons]
    omega

theorem isEmpty_congr {n m : LlrbNode α} (h : n.toList = m.toList) : n.isEmpty = m.isEmpty := by
  rw [Bool.eq_iff_iff, isEmpty_iff, isEmpty_iff, h]

theorem exists_min {n : LlrbNode α} (hn : n.isEmpty = false) :
    ∃ e c s l r, n.min = node e c s l r ∧ n.toList = e :: n.toList.tail := by
  induction n with
  | empty => cases hn
  | node e c s l r ihl _ =>
    cases hl : l.isEmpty with
    | true => exact ⟨e, c, s, l, r, by rw [min, if_pos hl], by simp [isEmpty_iff.1 hl]⟩
    | false =>
      obtain ⟨e', c', s', l', r', hmin, hlist⟩ := ihl hl
      refine ⟨e', c', s', l', r', ?_, ?_⟩
      · rw [min, hl]
        exact hmin
      · rw [toList_node, hlist]
        rfl

theorem min_of_isEmpty {n : LlrbNode α} (hn : n.isEmpty = true) : n.min = empty := by
  cases n with
  | empty => rfl
  | node e c s l r => cases hn

/-! ### Insertion and removal -/

/-- A node without a left child is taken for the minimum, and its right child is not looked at. -/
def removeMin : LlrbNode α → LlrbNode α
  | empty => empty
  | node entry color size left right =>
    if left.isEmpty then empty
    else
      let n := node entry color size left right
      let n' := if !left.red && !left.left.red then n.moveRedLeft else n
      (n'.setLeft n'.left.removeMin).fixUp
termination_by n => n.toList.length
decreasing_by
  have hlist : n'.toList = n.toList := by
    simp only [n']
    split_ifs <;> simp
  exact hlist ▸ length_left_lt (isEmpty_congr hlist)

/-- `removeMin` prepares its way down to the left as `innerErase` does. -/
theorem removeMin_node {e : α} {c : Color} {s : ℕ} {l r : LlrbNode α} (hl : l.isEmpty = false) :
    removeMin (node e c s l r) = ((node e c s l r).prepareLeft.setLeft
      (node e c s l r).prepareLeft.left.removeMin).fixUp := by
  rw [removeMin, hl]
  simp only [prepareLeft, left_node, hl, Bool.not_false, Bool.true_and, Bool.false_eq_true,
    if_false]

variable {K V : Type} (cmp : K → K → Ordering)

/-- A comparator that says which of two keys is less is a function to `Ordering` here. -/
def innerInsert (key : K) (value : V) : LlrbNode (K × V) → LlrbNode (K × V)
  | empty => rep (key, value) .red empty empty
  | node (key', value') color size left right =>
    match cmp key key' with
    | .lt => fixUp (node (key', value') color size (innerInsert key value left) right)
    | .gt => fixUp (node (key', value') color size left (innerInsert key value right))
    | .eq => node (key', value) color size left right

def insert (key : K) (value : V) (n : LlrbNode (K × V)) : LlrbNode (K × V) :=
  (n.innerInsert cmp key value).fixRootColor

/-- Is this node the one of the key? -/
def hasKey (key : K) : LlrbNode (K × V) → Bool
  | empty => false
  | node entry _ _ _ _ => cmp key entry.1 = .eq

def innerErase (key : K) : LlrbNode (K × V) → LlrbNode (K × V)
  | empty => empty
  | node entry color size left right =>
    if cmp key entry.1 = .lt then
      let n := (node entry color size left right).prepareLeft
      (n.setLeft (n.left.innerErase key)).fixUp
    else
      let n := (node entry color size left right).prepareRight
      if n.hasKey cmp key then
        match n.right.min with
        | empty => empty
        | node smallest _ _ _ _ => ((n.setEntry smallest).setRight n.right.removeMin).fixUp
      else (n.setRight (n.right.innerErase key)).fixUp
termination_by n => n.toList.length
decreasing_by
  · have hlist : n.toList = (node entry color size left right).toList := toList_prepareLeft _
    exact hlist ▸ length_left_lt (isEmpty_congr hlist)
  · have hlist : n.toList = (node entry color size left right).toList := toList_prepareRight _
    exact hlist ▸ length_right_lt (isEmpty_congr hlist)

def erase (key : K) (n : LlrbNode (K × V)) : LlrbNode (K × V) :=
  (n.innerErase cmp key).fixRootColor

end LlrbNode

end SmartWeather.Firestore
