import SmartWeather.Firestore.LlrbNodeIterator
import SmartWeather.Library.Runs

/-!
# The immutable sorted maps of the client

An `immutable::SortedMap` with few entries is a sorted array of at most `kFixedSize` entries.  The
insertion that might overflow the array turns it into a left-leaning red-black tree, and the tree
stays one until its last entry is erased.

The maps used by the rest of the client are `SortedMap`s, lists of entries.  `Refines` connects the
two: the entries are the same, the array has room for them and the tree is wellformed.  Whatever is
inserted and erased, no assertion fails and the two agree (`run_ok`), so that lookups, positions and
loops are those of the list.
-/

namespace SmartWeather.Firestore.Immutable

variable {K V : Type}

/-- `kFixedSize`. -/
def fixedSize : ℕ := 25

/-- `FixedArray::append`. -/
def FixedArray.append {α : Type} (contents more : List α) : Except HardFail (List α) :=
  if contents.length + more.length ≤ fixedSize then .ok (contents ++ more) else .error .arrayFull

theorem FixedArray.append_ok {α : Type} {contents more : List α}
    (h : (contents ++ more).length ≤ fixedSize) :
    FixedArray.append contents more = .ok (contents ++ more) :=
  if_pos (by rwa [List.length_append] at h)

structure ArraySortedMap (K V : Type) where
  array : List (K × V)

namespace ArraySortedMap

variable [LinearOrder K]

def size (m : ArraySortedMap K V) : ℕ := m.array.length

/-- `std::lower_bound`: the position of the first entry that is not before the key. -/
def lowerBound (m : ArraySortedMap K V) (key : K) : ℕ :=
  m.array.findIdx fun e => !decide (e.1 < key)

/-- The position of the key, or the end. -/
def find (m : ArraySortedMap K V) (key : K) : ℕ :=
  match m.array[m.lowerBound key]? with
  | none => m.size
  | some e => if !decide (key < e.1) then m.lowerBound key else m.size

def insert [DecidableEq V] (m : ArraySortedMap K V) (key : K) (value : V) :
    Except HardFail (ArraySortedMap K V) := do
  let pos := m.lowerBound key
  let atPos := m.array[pos]?
  let replacingEntry := atPos.any fun e => !decide (key < e.1)
  if replacingEntry && atPos.any (fun e => value = e.2) then return m
  let copy ← FixedArray.append [] (m.array.take pos)
  let copy ← FixedArray.append copy [(key, value)]
  let copy ← FixedArray.append copy (m.array.drop (if replacingEntry then pos + 1 else pos))
  return ⟨copy⟩

def erase (m : ArraySortedMap K V) (key : K) : Except HardFail (ArraySortedMap K V) := do
  let pos := m.find key
  if pos = m.size then return m
  else if m.size ≤ 1 then return ⟨[]⟩
  else
    let copy ← FixedArray.append [] (m.array.take pos)
    let copy ← FixedArray.append copy (m.array.drop (pos + 1))
    return ⟨copy⟩

def contains (m : ArraySortedMap K V) (key : K) : Bool := m.find key ≠ m.size

/-- `none` is `npos`. -/
def findIndex (m : ArraySortedMap K V) (key : K) : Option ℕ :=
  if m.find key = m.size then none else some (m.find key)

variable {m : ArraySortedMap K V} {k : K} {v : V}

theorem lowerBound_eq (m : ArraySortedMap K V) (k : K) :
    m.lowerBound k = SortedList.rank Prod.fst compare k m.array := by
  rw [lowerBound, SortedList.rank]
  congr 1
  funext e
  by_cases he : e.1 < k
  · simp [he, compare_gt_iff_gt.2 he]
  · have hgt : compare k e.1 ≠ .gt := fun hgt => he (compare_gt_iff_gt.1 hgt)
    simp [he, hgt]

variable (hinc : SortedList.Increasing Prod.fst compare m.array)

include hinc

theorem find_eq : m.find k =
    if (SortedList.find Prod.fst compare k m.array).isSome then
      SortedList.rank Prod.fst compare k m.array else m.size := by
  rw [find, lowerBound_eq, SortedList.find_eq_filter hinc]
  cases hget : m.array[SortedList.rank Prod.fst compare k m.array]? with
  | none => rfl
  | some e =>
    have hdrop := List.head?_drop ▸ hget
    have hne : compare k e.1 ≠ .gt := by
      obtain ⟨l', hl'⟩ := List.head?_eq_some_iff.1 hdrop
      exact SortedList.ne_gt_of_drop_rank hl'
    cases hk : compare k e.1 with
    | gt => exact absurd hk hne
    | lt => simp [hk, compare_lt_iff_lt.1 hk]
    | eq => simp [compare_eq_iff_eq.1 hk]

theorem contains_eq : m.contains k = (SortedList.find Prod.fst compare k m.array).isSome := by
  rw [contains, find_eq hinc]
  cases hfind : SortedList.find Prod.fst compare k m.array with
  | none => simp
  | some e =>
    have hlt : SortedList.rank Prod.fst compare k m.array < m.size :=
      (List.getElem?_eq_some_iff.1 (SortedList.getElem?_rank hinc hfind)).1
    simp [hlt.ne]

theorem findIndex_eq : m.findIndex k = (SortedList.find Prod.fst compare k m.array).map fun _ =>
    SortedList.rank Prod.fst compare k m.array := by
  rw [findIndex, find_eq hinc]
  cases hfind : SortedList.find Prod.fst compare k m.array with
  | none => simp
  | some e =>
    have hlt : SortedList.rank Prod.fst compare k m.array < m.size :=
      (List.getElem?_eq_some_iff.1 (SortedList.getElem?_rank hinc hfind)).1
    simp [hlt.ne]

omit hinc in
/-- The array has room for what insertion makes of it. -/
theorem insert_ok [DecidableEq V]
    (hroom : (SortedList.insert Prod.fst compare (k, v) m.array).length ≤ fixedSize) :
    m.insert k v = .ok ⟨SortedList.insert Prod.fst compare (k, v) m.array⟩ := by
  have hcopy : ∀ {a b : List (K × V)}, (a ++ (k, v) :: b).length ≤ fixedSize →
      (do
        let copy ← FixedArray.append [] a
        let copy ← FixedArray.append copy [(k, v)]
        let copy ← FixedArray.append copy b
        return (⟨copy⟩ : ArraySortedMap K V)) = .ok ⟨a ++ (k, v) :: b⟩ := by
    intro a b h
    rw [List.length_append, List.length_cons] at h
    rw [FixedArray.append_ok (by rw [List.nil_append]; omega)]
    change FixedArray.append ([] ++ a) [(k, v)] >>= _ = _
    rw [List.nil_append, FixedArray.append_ok (by rw [List.length_append]; simp; omega)]
    change FixedArray.append (a ++ [(k, v)]) b >>= _ = _
    rw [FixedArray.append_ok (by simp; omega), ← List.append_cons]
    rfl
  rw [SortedList.insert_drop_rank] at hroom ⊢
  rw [insert, lowerBound_eq]
  simp only [← List.head?_drop]
  cases hdrop : m.array.drop (SortedList.rank Prod.fst compare k m.array) with
  | nil =>
    rw [hdrop] at hroom
    simp only [List.head?_nil, Option.any_none, Bool.false_and, Bool.false_eq_true, if_false, hdrop]
    exact hcopy hroom
  | cons b l =>
    obtain ⟨k', v'⟩ := b
    rw [hdrop, SortedList.insert] at hroom
    rw [SortedList.insert]
    simp only [List.head?_cons, Option.any_some]
    cases hk : compare k k' with
    | gt => exact absurd hk (SortedList.ne_gt_of_drop_rank hdrop)
    | lt =>
      rw [hk] at hroom
      simp only [compare_lt_iff_lt.1 hk, decide_true, Bool.not_true, Bool.false_and,
        Bool.false_eq_true, if_false, hdrop]
      exact hcopy hroom
    | eq =>
      rw [hk] at hroom
      obtain rfl : k = k' := compare_eq_iff_eq.1 hk
      have htail : m.array.drop (SortedList.rank Prod.fst compare k m.array + 1) = l := by
        rw [← List.drop_drop, hdrop, List.drop_one, List.tail_cons]
      by_cases hv : v = v'
      · subst hv
        have hself :
            m = ⟨m.array.take (SortedList.rank Prod.fst compare k m.array) ++ (k, v) :: l⟩ := by
          rw [← hdrop, List.take_append_drop]
        simp only [lt_irrefl, decide_false, Bool.not_false, decide_true, Bool.and_true, if_true]
        exact congrArg Except.ok hself
      · simp only [lt_irrefl, decide_false, Bool.not_false, hv, Bool.and_false,
          Bool.false_eq_true, if_false, if_true, htail]
        exact hcopy hroom

theorem erase_ok (hroom : m.size ≤ fixedSize) :
    m.erase k = .ok ⟨SortedList.erase Prod.fst compare k m.array⟩ := by
  rw [erase, find_eq hinc]
  cases hfind : SortedList.find Prod.fst compare k m.array with
  | none =>
    rw [SortedList.erase_of_find_none hfind]
    simp
    rfl
  | some e =>
    have hlt : SortedList.rank Prod.fst compare k m.array < m.size :=
      (List.getElem?_eq_some_iff.1 (SortedList.getElem?_rank hinc hfind)).1
    rw [SortedList.erase_eq_eraseIdx hinc hfind, List.eraseIdx_eq_take_drop_succ]
    generalize SortedList.rank Prod.fst compare k m.array = r at hlt ⊢
    simp only [Option.isSome_some, if_true, hlt.ne, if_false]
    rw [size] at hlt hroom
    split_ifs with hone
    · rw [size] at hone
      have htake : m.array.take r = [] := by
        rw [List.take_eq_nil_iff]
        omega
      have hdrop : m.array.drop (r + 1) = [] := by
        rw [List.drop_eq_nil_iff]
        omega
      rw [htake, hdrop]
      rfl
    · rw [FixedArray.append_ok (by simp; omega)]
      change FixedArray.append (m.array.take r) _ >>= _ = _
      rw [FixedArray.append_ok (by simp; omega)]
      rfl

end ArraySortedMap

/-! ### Arrays and trees -/

inductive SortedMap (K V : Type)
  | array (array : ArraySortedMap K V)
  | tree (root : LlrbNode (K × V))

/-- `TreeSortedMap::Create`. -/
def createTree [LinearOrder K] (range : List (K × V)) : LlrbNode (K × V) :=
  range.foldl (fun node element => node.insert compare element.1 element.2) .empty

namespace SortedMap

variable [LinearOrder K]

def empty : SortedMap K V := array ⟨[]⟩

def isEmpty : SortedMap K V → Bool
  | array m => m.size = 0
  | tree root => root.isEmpty

def size : SortedMap K V → ℕ
  | array m => m.size
  | tree root => root.size

def insert [DecidableEq V] (key : K) (value : V) : SortedMap K V → Except HardFail (SortedMap K V)
  | array m =>
    if m.size ≥ fixedSize then .ok (tree ((createTree m.array).insert compare key value))
    else array <$> m.insert key value
  | tree root => .ok (tree (root.insert compare key value))

def erase (key : K) : SortedMap K V → Except HardFail (SortedMap K V)
  | array m => array <$> m.erase key
  | tree root =>
    let result := root.erase compare key
    .ok (if result.isEmpty then empty else tree result)

def contains (key : K) : SortedMap K V → Bool
  | array m => m.contains key
  | tree root => root.contains compare key

def findIndex (key : K) : SortedMap K V → Option ℕ
  | array m => m.findIndex key
  | tree root => root.findIndex compare key 0

end SortedMap

/-- A position in an array, or an iterator of a tree. -/
inductive SortedMapIterator (K V : Type)
  | array (entries : List (K × V)) (pos : ℕ)
  | tree (it : LlrbNodeIterator (K × V))

namespace SortedMapIterator

/-- Reading an array past its end is undefined behaviour. -/
def get : SortedMapIterator K V → Except HardFail (K × V)
  | array entries pos =>
    match entries[pos]? with
    | none => .error .iteratorAtEnd
    | some entry => .ok entry
  | tree it => it.get

def next : SortedMapIterator K V → Except HardFail (SortedMapIterator K V)
  | array entries pos =>
    if pos < entries.length then .ok (array entries (pos + 1)) else .error .iteratorAtEnd
  | tree it => tree <$> it.next

/-- Is it `end()`? -/
def isEnd : SortedMapIterator K V → Bool
  | array entries pos => pos = entries.length
  | tree it => it.isEnd

/-- `count` rounds of a loop over the entries. -/
def visit : ℕ → SortedMapIterator K V → Except HardFail (List (K × V) × SortedMapIterator K V)
  | 0, it => .ok ([], it)
  | count + 1, it => do
    let entry ← it.get
    let it ← it.next
    let (entries, it) ← visit count it
    return (entry :: entries, it)

/-- The entries that are left. -/
def rest : SortedMapIterator K V → List (K × V)
  | array entries pos => entries.drop pos
  | tree it => it.rest

/-- An iterator within its array, or within a tree of depth `d`. -/
def Within (d : ℕ) : SortedMapIterator K V → Prop
  | array entries pos => pos ≤ entries.length
  | tree it => LlrbNodeIterator.Ascending d it.stack

variable {it : SortedMapIterator K V} {d : ℕ} {e : K × V} {es : List (K × V)}

theorem Within.next {it' : SortedMapIterator K V} (h : it.Within d) (hnext : it.next = .ok it') :
    it'.Within d := by
  cases it with
  | array entries pos =>
    rw [SortedMapIterator.next] at hnext
    split_ifs at hnext with hlt
    cases hnext
    exact hlt
  | tree it =>
    obtain ⟨it₁, hit, rfl⟩ := Runs.map_eq_ok.1 hnext
    exact LlrbNodeIterator.Ascending.next h hit

theorem Within.visit {it' : SortedMapIterator K V} {count : ℕ} (h : it.Within d)
    (hvisit : it.visit count = .ok (es, it')) : it'.Within d := by
  induction count generalizing it es with
  | zero =>
    cases hvisit
    exact h
  | succ count ih =>
    obtain ⟨e, -, hvisit⟩ := Runs.bind_eq_ok.1 hvisit
    obtain ⟨it₁, hnext, hvisit⟩ := Runs.bind_eq_ok.1 hvisit
    obtain ⟨⟨es', it₂⟩, hvisit', heq⟩ := Runs.bind_eq_ok.1 hvisit
    cases heq
    exact ih (h.next hnext) hvisit'

theorem isEnd_iff (h : it.Within d) : it.isEnd = true ↔ it.rest = [] := by
  cases it with
  | array entries pos =>
    rw [Within] at h
    rw [isEnd, rest, List.drop_eq_nil_iff, decide_eq_true_iff]
    omega
  | tree it => exact LlrbNodeIterator.isEnd_iff h

theorem get_next (h : it.Within d) (hrest : it.rest = e :: es) : it.get = .ok e ∧
    ∃ it', it.next = .ok it' ∧ it'.rest = es ∧ it'.Within d := by
  cases it with
  | array entries pos =>
    have hdrop : entries.drop pos = e :: es := hrest
    have hget : entries[pos]? = some e := by rw [← List.head?_drop, hdrop, List.head?_cons]
    have hlt : pos < entries.length := (List.getElem?_eq_some_iff.1 hget).1
    refine ⟨by rw [get, hget], _, if_pos hlt, ?_, hlt⟩
    rw [rest, ← List.drop_drop, hdrop, List.drop_one, List.tail_cons]
  | tree it =>
    obtain ⟨hget, it', hnext, hes, h'⟩ := LlrbNodeIterator.get_next h hrest
    exact ⟨hget, tree it', by rw [next, hnext]; rfl, hes, h'⟩

/-- The loop reads the entries that are left, in order. -/
theorem visit_ok (h : it.Within d) {count : ℕ} (hcount : count ≤ it.rest.length) :
    ∃ it', it.visit count = .ok (it.rest.take count, it') ∧ it'.rest = it.rest.drop count ∧
      it'.Within d := by
  induction count generalizing it with
  | zero => exact ⟨it, rfl, rfl, h⟩
  | succ count ih =>
    cases hrest : it.rest with
    | nil => rw [hrest] at hcount; cases hcount
    | cons e es =>
      obtain ⟨hget, it₁, hnext, rfl, h₁⟩ := get_next h hrest
      rw [hrest, List.length_cons] at hcount
      obtain ⟨it₂, hvisit, hdrop, h₂⟩ := ih h₁ (Nat.le_of_succ_le_succ hcount)
      refine ⟨it₂, ?_, hdrop, h₂⟩
      simp only [visit, hget, hnext, hvisit, bind, Except.bind, List.take_succ_cons]
      rfl

end SortedMapIterator

namespace SortedMap

open SortedMapIterator

variable [LinearOrder K]

/-- `begin`. -/
def start : SortedMap K V → SortedMapIterator K V
  | array m => .array m.array 0
  | tree root => .tree (.start root)

def lowerBound (key : K) : SortedMap K V → SortedMapIterator K V
  | array m => .array m.array (m.lowerBound key)
  | tree root => .tree (.lowerBound compare root key)

/-- `TreeSortedMap::find` compares the key with the entry at the lower bound. -/
def findInTree (root : LlrbNode (K × V)) (key : K) : Except HardFail (LlrbNodeIterator (K × V)) :=
  let found := LlrbNodeIterator.lowerBound compare root key
  if found.isEnd then .ok ⟨[]⟩
  else do
    let entry ← found.get
    return if !decide (key < entry.1) then found else ⟨[]⟩

def find (key : K) : SortedMap K V → Except HardFail (SortedMapIterator K V)
  | array m => .ok (.array m.array (m.find key))
  | tree root => .tree <$> findInTree root key

/-! ### The list of the entries -/

def entries : SortedMap K V → List (K × V)
  | array m => m.array
  | tree root => root.toList

def Wellformed : SortedMap K V → Prop
  | array m => SortedList.Increasing Prod.fst compare m.array ∧ m.size ≤ fixedSize
  | tree root => root.Wellformed compare ∧ root.isEmpty = false

/-- The sizes in the nodes of a tree fit into their fields. -/
def SizesFit : SortedMap K V → Prop
  | array _ => True
  | tree root => root.SizesFit

/-- The map has the entries of `M`. -/
structure Refines (m : SortedMap K V) (M : Firestore.SortedMap K V) : Prop where
  wellformed : m.Wellformed
  entries_eq : m.entries = M.entries

theorem refines_empty : Refines (empty : SortedMap K V) Firestore.SortedMap.empty :=
  ⟨⟨SortedList.increasing_nil, Nat.zero_le _⟩, rfl⟩

/-- A tree made from a sorted array has its entries. -/
theorem createTree_spec {l : List (K × V)} (hl : SortedList.Increasing Prod.fst compare l) :
    (createTree l).Wellformed compare ∧ (createTree l).toList = l := by
  induction l using List.reverseRecOn with
  | nil => exact ⟨LlrbNode.wellformed_empty, rfl⟩
  | append_singleton l e ih =>
    obtain ⟨hinc, -, hlt, -⟩ := SortedList.increasing_append_cons.1 hl
    obtain ⟨hwell, hlist⟩ := ih hinc
    have hstep : createTree (l ++ [e]) = (createTree l).insert compare e.1 e.2 := by
      rw [createTree, List.foldl_concat]
      rfl
    rw [hstep]
    refine ⟨hwell.insert, ?_⟩
    rw [LlrbNode.toList_insert hwell, hlist]
    exact SortedList.insert_eq_append hlt

variable {m : SortedMap K V} {M : Firestore.SortedMap K V}

theorem Refines.insert [DecidableEq V] (h : m.Refines M) (k : K) (v : V) :
    ∃ m', m.insert k v = .ok m' ∧ m'.Refines (M.insert k v) := by
  obtain ⟨hwell, hentries⟩ := h
  have hinc := M.increasing.insert (k, v)
  have htree : ∀ {root : LlrbNode (K × V)}, root.Wellformed compare → root.toList = M.entries →
      (tree (root.insert compare k v)).Refines (M.insert k v) := by
    intro root hroot hlist
    have hlist' : (root.insert compare k v).toList = (M.insert k v).entries := by
      rw [LlrbNode.toList_insert hroot, hlist]
      rfl
    refine ⟨⟨hroot.insert, Bool.eq_false_iff.2 fun hnil => ?_⟩, hlist'⟩
    have hmem : (k, v) ∈ (M.insert k v).entries :=
      (SortedList.mem_insert M.increasing).2 (Or.inl rfl)
    rw [← hlist', LlrbNode.isEmpty_iff.1 hnil] at hmem
    cases hmem
  cases m with
  | array a =>
    rw [SortedMap.insert]
    split_ifs with hfull
    · obtain ⟨hroot, hlist⟩ := createTree_spec hwell.1
      exact ⟨_, rfl, htree hroot (hlist.trans hentries)⟩
    · have hroom : (SortedList.insert Prod.fst compare (k, v) a.array).length ≤ fixedSize := by
        have hlen : (SortedList.insert Prod.fst compare (k, v) a.array).length ≤
            a.array.length + 1 := SortedList.length_insert_le (k, v) a.array
        rw [ArraySortedMap.size] at hfull
        omega
      refine ⟨array ⟨SortedList.insert Prod.fst compare (k, v) a.array⟩, ?_, ⟨?_, hroom⟩, ?_⟩
      · rw [ArraySortedMap.insert_ok hroom]
        rfl
      · exact hwell.1.insert (k, v)
      · exact congrArg (SortedList.insert Prod.fst compare (k, v)) hentries
  | tree root => exact ⟨_, rfl, htree hwell.1 hentries⟩

theorem Refines.erase (h : m.Refines M) (k : K) :
    ∃ m', m.erase k = .ok m' ∧ m'.Refines (M.erase k) := by
  obtain ⟨hwell, hentries⟩ := h
  cases m with
  | array a =>
    refine ⟨array ⟨SortedList.erase Prod.fst compare k a.array⟩, ?_, ⟨hwell.1.erase k, ?_⟩, ?_⟩
    · rw [SortedMap.erase, ArraySortedMap.erase_ok hwell.1 hwell.2]
      rfl
    · exact (SortedList.erase_sublist.length_le).trans hwell.2
    · exact congrArg (SortedList.erase Prod.fst compare k) hentries
  | tree root =>
    have hlist : (root.erase compare k).toList = (M.erase k).entries := by
      rw [LlrbNode.toList_erase hwell.1]
      exact congrArg (SortedList.erase Prod.fst compare k) hentries
    refine ⟨_, rfl, ?_⟩
    cases hempty : (root.erase compare k).isEmpty with
    | true =>
      rw [if_pos rfl]
      refine ⟨⟨SortedList.increasing_nil, Nat.zero_le _⟩, ?_⟩
      rw [← hlist, LlrbNode.isEmpty_iff.1 hempty]
      rfl
    | false => exact ⟨⟨hwell.1.erase, hempty⟩, hlist⟩

theorem Refines.increasing (h : m.Refines M) :
    SortedList.Increasing Prod.fst compare m.entries := h.entries_eq ▸ M.increasing

theorem Refines.size (h : m.Refines M) : m.size = M.size := by
  rw [Firestore.SortedMap.size, ← h.entries_eq]
  cases m with
  | array a => rfl
  | tree root => exact h.wellformed.1.sized.size_eq

theorem Refines.contains (h : m.Refines M) (k : K) : m.contains k = (M.find k).isSome := by
  rw [Firestore.SortedMap.find, Option.isSome_map, ← h.entries_eq]
  cases m with
  | array a => exact ArraySortedMap.contains_eq h.increasing
  | tree root => exact LlrbNode.contains_eq h.increasing

theorem Refines.findIndex (h : m.Refines M) (k : K) : m.findIndex k =
    (M.find k).map fun _ => SortedList.rank Prod.fst compare k M.entries := by
  rw [Firestore.SortedMap.find, Option.map_map, ← h.entries_eq]
  cases m with
  | array a => exact ArraySortedMap.findIndex_eq h.increasing
  | tree root =>
    rw [SortedMap.findIndex, LlrbNode.findIndex_eq h.increasing h.wellformed.1.sized]
    simp only [Nat.zero_add]
    rfl

/-! ### Iterators -/

/-- How deep the tree is. -/
def depth : SortedMap K V → ℕ
  | array _ => 0
  | tree root => root.depth

theorem Refines.lowerBound (h : m.Refines M) (k : K) : (m.lowerBound k).Within m.depth ∧
    (m.lowerBound k).rest = M.entries.filter fun e => k ≤ e.1 := by
  have hle : (fun e : K × V => decide (k ≤ e.1)) = fun e => compare e.1 k != .lt := by
    funext e
    rw [Bool.eq_iff_iff, decide_eq_true_iff, bne_iff_ne, ne_eq, compare_lt_iff_lt, not_lt]
  rw [← h.entries_eq, hle, ← SortedList.drop_rank_eq_filter h.increasing]
  cases m with
  | array a =>
    rw [SortedMap.lowerBound, ArraySortedMap.lowerBound_eq]
    exact ⟨SortedList.rank_le_length, rfl⟩
  | tree root =>
    exact ⟨LlrbNodeIterator.ascending_lowerBound root,
      LlrbNodeIterator.rest_lowerBound h.increasing⟩

theorem Refines.start (h : m.Refines M) : m.start.Within m.depth ∧ m.start.rest = M.entries := by
  rw [← h.entries_eq]
  cases m with
  | array a => exact ⟨Nat.zero_le _, rfl⟩
  | tree root => exact ⟨LlrbNodeIterator.ascending_start root, LlrbNodeIterator.rest_start root⟩

theorem Refines.depth_le (h : m.Refines M) : m.depth ≤ 2 * Nat.log 2 (M.size + 1) := by
  rw [Firestore.SortedMap.size, ← h.entries_eq]
  cases m with
  | array a => exact Nat.zero_le _
  | tree root => exact h.wellformed.1.balanced.choose_spec.depth_le_log

theorem findInTree_spec {root : LlrbNode (K × V)} {k : K}
    (hinc : SortedList.Increasing Prod.fst compare root.toList) : ∃ it,
      findInTree root k = .ok it ∧
      (SortedList.find Prod.fst compare k root.toList = none → it.isEnd = true) ∧
      ∀ e, SortedList.find Prod.fst compare k root.toList = some e → it.get = .ok e := by
  have hin : LlrbNodeIterator.Ascending root.depth
      (LlrbNodeIterator.lowerBound compare root k).stack :=
    LlrbNodeIterator.ascending_lowerBound root
  have hrest := LlrbNodeIterator.rest_lowerBound (k := k) hinc
  rw [findInTree, SortedList.find_eq_filter hinc, ← List.head?_drop, ← hrest]
  generalize LlrbNodeIterator.lowerBound compare root k = found at hin hrest ⊢
  cases hfound : found.rest with
  | nil =>
    rw [if_pos ((LlrbNodeIterator.isEnd_iff hin).2 hfound)]
    exact ⟨_, rfl, fun _ => rfl, fun e he => by cases he⟩
  | cons e es =>
    have hend : ¬ found.isEnd = true := by
      rw [LlrbNodeIterator.isEnd_iff hin, hfound]
      exact List.cons_ne_nil e es
    have hget : found.get = .ok e := (LlrbNodeIterator.get_next hin hfound).1
    rw [if_neg hend, hget, List.head?_cons]
    cases hk : compare k e.1 with
    | gt => exact absurd hk (SortedList.ne_gt_of_drop_rank (hrest ▸ hfound))
    | lt =>
      refine ⟨⟨[]⟩, ?_, fun _ => rfl, fun e' he' => ?_⟩
      · simp [compare_lt_iff_lt.1 hk, bind, Except.bind, pure, Except.pure]
      · rw [Option.filter_some_neg (by simp [hk])] at he'
        cases he'
    | eq =>
      refine ⟨found, ?_, fun hnone => ?_, fun e' he' => ?_⟩
      · simp [compare_eq_iff_eq.1 hk, bind, Except.bind, pure, Except.pure]
      · rw [Option.filter_some_pos (by simp [hk])] at hnone
        cases hnone
      · rw [Option.filter_some_pos (by simp [hk]), Option.some.injEq] at he'
        rw [hget, he']

/-- `find` is at the entry with the key, and at the end if there is none. -/
theorem Refines.find (h : m.Refines M) (k : K) : ∃ it, m.find k = .ok it ∧
    (M.find k = none → it.isEnd = true) ∧ ∀ v, M.find k = some v → it.get = .ok (k, v) := by
  have hinc := h.increasing
  have hpos : ∃ it, m.find k = .ok it ∧
      (SortedList.find Prod.fst compare k m.entries = none → it.isEnd = true) ∧
      ∀ e, SortedList.find Prod.fst compare k m.entries = some e → it.get = .ok e := by
    cases m with
    | array a =>
      refine ⟨_, rfl, fun hnone => ?_, fun e he => ?_⟩
      · rw [entries] at hnone hinc
        rw [SortedMapIterator.isEnd, ArraySortedMap.find_eq hinc, hnone]
        exact decide_eq_true rfl
      · rw [entries] at he hinc
        rw [SortedMapIterator.get, ArraySortedMap.find_eq hinc, he, Option.isSome_some, if_pos rfl,
          SortedList.getElem?_rank hinc he]
    | tree root =>
      obtain ⟨it, hit, hend, hget⟩ := findInTree_spec (k := k) hinc
      exact ⟨.tree it, by rw [SortedMap.find, hit]; rfl, hend, hget⟩
  obtain ⟨it, hit, hend, hget⟩ := hpos
  refine ⟨it, hit, fun hnone => hend ?_, fun v hv => ?_⟩
  · rw [Firestore.SortedMap.find, Option.map_eq_none_iff] at hnone
    rw [h.entries_eq, hnone]
  · rw [Firestore.SortedMap.find] at hv
    obtain ⟨e, he, rfl⟩ := Option.map_eq_some_iff.1 hv
    have hk : k = e.1 := compare_eq_iff_eq.1 ((SortedList.find_eq_some_iff M.increasing).1 he).2
    rw [hget e (h.entries_eq ▸ he), hk]

theorem Refines.sizesFit {m : SortedMap K V} {M : Firestore.SortedMap K V} (h : m.Refines M)
    (hlt : M.size < 2 ^ 31) : m.SizesFit := by
  cases m with
  | array a => exact trivial
  | tree root =>
    refine h.wellformed.1.sized.sizesFit ?_
    rwa [← h.size] at hlt

/-! ### Runs -/

end SortedMap

inductive Op (K V : Type)
  | insert (key : K) (value : V)
  | erase (key : K)

namespace Op

variable [LinearOrder K] [DecidableEq V]

def apply (m : SortedMap K V) : Op K V → Except HardFail (SortedMap K V)
  | insert key value => m.insert key value
  | erase key => m.erase key

def applyToList (M : Firestore.SortedMap K V) : Op K V → Firestore.SortedMap K V
  | insert key value => M.insert key value
  | erase key => M.erase key

/-- The map after a sequence of operations, from the empty map on. -/
def run (ops : List (Op K V)) : Except HardFail (SortedMap K V) := Runs.run apply .empty ops

/-- The same with lists of entries. -/
def runOnList (ops : List (Op K V)) : Firestore.SortedMap K V := ops.foldl applyToList .empty

theorem run_ok (ops : List (Op K V)) : ∃ m, run ops = .ok m ∧ m.Refines (runOnList ops) := by
  refine Runs.run_refines SortedMap.refines_empty fun m M h op => ?_
  cases op with
  | insert key value => exact h.insert key value
  | erase key => exact h.erase key

/-- Whatever was inserted and erased, no assertion has failed, and the map looks its keys up as the
list of entries does. -/
theorem run_lookups (ops : List (Op K V)) : ∃ m, run ops = .ok m ∧
    ((runOnList ops).size < 2 ^ 31 → m.SizesFit) ∧ m.size = (runOnList ops).size ∧
    ∀ k, m.contains k = ((runOnList ops).find k).isSome ∧
      m.findIndex k = (((runOnList ops).find k).map fun _ =>
        SortedList.rank Prod.fst compare k (runOnList ops).entries) ∧
      ∃ it, m.find k = .ok it ∧ ((runOnList ops).find k = none → it.isEnd = true) ∧
        ∀ v, (runOnList ops).find k = some v → it.get = .ok (k, v) := by
  obtain ⟨m, hm, h⟩ := run_ok ops
  exact ⟨m, hm, h.sizesFit, h.size, fun k => ⟨h.contains k, h.findIndex k, h.find k⟩⟩

/-- A loop over the map reads its entries in order, from the first one on or from a lower bound on,
and then is at the end. -/
theorem run_loops (ops : List (Op K V)) : ∃ m, run ops = .ok m ∧
    ((runOnList ops).size < 2 ^ 31 → m.SizesFit) ∧
    (∃ it, m.start.visit (runOnList ops).size = .ok ((runOnList ops).entries, it) ∧
      it.isEnd = true) ∧
    ∀ k, ∃ it, (m.lowerBound k).visit ((runOnList ops).entries.filter fun e => k ≤ e.1).length =
      .ok ((runOnList ops).entries.filter fun e => k ≤ e.1, it) ∧ it.isEnd = true := by
  obtain ⟨m, hm, h⟩ := run_ok ops
  have hloop : ∀ {it : SortedMapIterator K V}, it.Within m.depth → ∃ it',
      it.visit it.rest.length = .ok (it.rest, it') ∧ it'.isEnd = true := by
    intro it hit
    obtain ⟨it', hvisit, hrest, hit'⟩ := SortedMapIterator.visit_ok hit (Nat.le_refl _)
    rw [List.take_length] at hvisit
    rw [List.drop_length] at hrest
    exact ⟨it', hvisit, (SortedMapIterator.isEnd_iff hit').2 hrest⟩
  refine ⟨m, hm, h.sizesFit, ?_, fun k => ?_⟩
  · obtain ⟨hstart, hrest⟩ := h.start
    rw [Firestore.SortedMap.size, ← hrest]
    exact hloop hstart
  · obtain ⟨hlower, hrest⟩ := h.lowerBound k
    exact hrest ▸ hloop hlower

/-- A map that is an array has room for it.  A map that is a tree is a balanced one, its depth is
logarithmic, and so is the stack of an iterator in any loop. -/
theorem run_balanced (ops : List (Op K V)) : ∃ m, run ops = .ok m ∧
    ((runOnList ops).size < 2 ^ 31 → m.SizesFit) ∧
    (∀ a, m = .array a → a.size ≤ fixedSize) ∧
    ∀ root, m = .tree root → (∃ h, root.Balanced .black h) ∧
      root.depth ≤ 2 * Nat.log 2 (root.size + 1) ∧
      ∀ k count es it, (m.lowerBound k).visit count = .ok (es, .tree it) →
        it.stack.length ≤ 2 * Nat.log 2 (root.size + 1) := by
  obtain ⟨m, hm, h⟩ := run_ok ops
  refine ⟨m, hm, h.sizesFit, ?_, ?_⟩
  · rintro a rfl
    exact h.wellformed.2
  · rintro root rfl
    have hdepth := h.depth_le
    rw [← h.size] at hdepth
    refine ⟨h.wellformed.1.balanced, hdepth, fun k count es it hvisit => ?_⟩
    have hin : (SortedMapIterator.tree it).Within root.depth := (h.lowerBound k).1.visit hvisit
    exact (LlrbNodeIterator.Ascending.length_le hin).trans hdepth

end Op

end SmartWeather.Firestore.Immutable
