import SmartWeather.Firestore.TreeSortedDictionary

/-!
# Arrays and trees of the client's dictionaries

A dictionary with few keys is a sorted array.  The key that does not fit in puts all of them, in
whatever order a hash table names them, into a tree, which the dictionary stays from then on.

`Wellformed` says what holds of both.  A new key is then inserted, and a key removed, as in a sorted
list, on either side of the change from array to tree.
-/

namespace SmartWeather.Firestore

open SortedList Std

variable {α K V : Type} {cmp : K → K → Ordering} {k : K} {v : V}

/-- `kSortedDictionaryArrayToRBTreeSizeThreshold`. -/
def sortedDictionaryArrayToRBTreeSizeThreshold : ℕ := 25

/-- The order in which a hash table names its entries. -/
structure HashOrder (α : Type) where
  enumerate : List α → List α
  perm : ∀ entries, (enumerate entries).Perm entries

/-! ### Arrays -/

namespace ArraySortedDictionary

/-- `findInsertPositionForKey:`, the first position where the key is not before the given one. -/
def findInsertPosition (cmp : K → K → Ordering) (key : K) (entries : List (K × V)) : ℕ :=
  entries.findIdx fun e => cmp e.1 key != .lt

/-- `none` is `NSNotFound`. -/
def findKey (cmp : K → K → Ordering) (key : K) : List (K × V) → Option ℕ
  | [] => none
  | e :: entries =>
    match cmp key e.1 with
    | .eq => some 0
    | .lt => none
    | .gt => (findKey cmp key entries).map (· + 1)

variable [TransCmp cmp] {entries : List (K × V)}

theorem findInsertPosition_eq (cmp : K → K → Ordering) [TransCmp cmp] (k : K)
    (entries : List (K × V)) : findInsertPosition cmp k entries = rank Prod.fst cmp k entries := by
  rw [findInsertPosition, rank]
  congr 1
  funext e
  have hswap : cmp e.1 k = (cmp k e.1).swap := OrientedCmp.eq_swap
  rw [hswap]
  cases cmp k e.1 <;> rfl

theorem findKey_eq (hinc : Increasing Prod.fst cmp entries) :
    findKey cmp k entries = (SortedList.find Prod.fst cmp k entries).map fun _ =>
      rank Prod.fst cmp k entries := by
  induction entries with
  | nil => rfl
  | cons e entries ih =>
    obtain ⟨hlt, htail⟩ := increasing_cons.1 hinc
    rw [findKey, rank_cons, SortedList.find, List.find?_cons, ih htail]
    cases hk : cmp k e.1 with
    | eq => rfl
    | gt =>
      show Option.map _ (Option.map _ (SortedList.find Prod.fst cmp k entries)) = _
      rw [Option.map_map]
      rfl
    | lt =>
      -- the key is before all that follow, too
      have hnone : SortedList.find Prod.fst cmp k entries = none := by
        refine find_eq_none_iff.2 fun e' he' heq => ?_
        rw [TransCmp.lt_trans hk (hlt e' he')] at heq
        cases heq
      exact (congrArg (Option.map _) hnone).symm

end ArraySortedDictionary

/-! ### Dictionaries -/

/-- The keys of an array with the values beside them, or a tree. -/
inductive SortedDictionary (K V : Type)
  | array (entries : List (K × V))
  | tree (root : LlrbNode (K × V))

/-- `dictionaryWithDictionary:` makes a tree. -/
def treeWithDictionary (cmp : K → K → Ordering) (dictionary : List (K × V)) : LlrbNode (K × V) :=
  dictionary.foldl (fun dict e => dict.settingObject cmp e.2 e.1) .empty

namespace SortedDictionary

open ArraySortedDictionary

def empty : SortedDictionary K V := array []

/-- `dictionaryBySettingObject:forKey:`. -/
def settingObject (order : HashOrder (K × V)) (cmp : K → K → Ordering) (value : V) (key : K) :
    SortedDictionary K V → SortedDictionary K V
  | array entries =>
    match findKey cmp key entries with
    | none =>
      if entries.length ≥ sortedDictionaryArrayToRBTreeSizeThreshold then
        tree (treeWithDictionary cmp (order.enumerate (entries ++ [(key, value)])))
      else array (entries.insertIdx (findInsertPosition cmp key entries) (key, value))
    | some pos => array (entries.set pos (key, value))
  | tree root => tree (root.settingObject cmp value key)

/-- `dictionaryByRemovingObjectForKey:`. -/
def removingObject (cmp : K → K → Ordering) (key : K) : SortedDictionary K V → SortedDictionary K V
  | array entries =>
    match findKey cmp key entries with
    | none => array entries
    | some pos => array (entries.eraseIdx pos)
  | tree root => tree (root.removingObject cmp key)

/-- `none` is `NSNotFound`. -/
def indexOfKey (cmp : K → K → Ordering) (key : K) : SortedDictionary K V → Option ℕ
  | array entries => findKey cmp key entries
  | tree root => root.findIndex cmp key 0

def maxKey : SortedDictionary K V → Option K
  | array entries => (entries.map Prod.fst).getLast?
  | tree root => root.maxKey

/-- The entries in the order in which `enumerateKeysAndObjectsUsingBlock:` names them. -/
def toList : SortedDictionary K V → List (K × V)
  | array entries => entries
  | tree root => root.toList

/-- An array in order that is not too long, or a balanced tree. -/
def Wellformed (cmp : K → K → Ordering) : SortedDictionary K V → Prop
  | array entries => Increasing Prod.fst cmp entries ∧
      entries.length ≤ sortedDictionaryArrayToRBTreeSizeThreshold
  | tree root => root.Wellformed cmp

theorem wellformed_empty : (empty : SortedDictionary K V).Wellformed cmp :=
  ⟨increasing_nil, Nat.zero_le _⟩

/-- The counts in the nodes of a tree are small. -/
def SizesFit : SortedDictionary K V → Prop
  | array _ => True
  | tree root => root.SizesFit

variable {d : SortedDictionary K V}

theorem Wellformed.increasing (hd : d.Wellformed cmp) : Increasing Prod.fst cmp d.toList := by
  cases d with
  | array entries => exact hd.1
  | tree root => exact LlrbNode.Wellformed.increasing hd

theorem Wellformed.sizesFit (hd : d.Wellformed cmp) (hlt : d.toList.length < 2 ^ 31) :
    d.SizesFit := by
  cases d with
  | array entries => exact trivial
  | tree root =>
    have hroot : root.Wellformed cmp := hd
    refine hroot.sized.sizesFit ?_
    rwa [hroot.sized.size_eq]

theorem maxKey_eq (d : SortedDictionary K V) : d.maxKey = (d.toList.map Prod.fst).getLast? := by
  cases d with
  | array entries => rfl
  | tree root => exact LlrbNode.maxKey_eq root

variable [TransCmp cmp]

theorem indexOfKey_eq (hd : d.Wellformed cmp) :
    d.indexOfKey cmp k = (SortedList.find Prod.fst cmp k d.toList).map fun _ =>
      rank Prod.fst cmp k d.toList := by
  cases d with
  | array entries => exact findKey_eq hd.1
  | tree root =>
    have hroot : root.Wellformed cmp := hd
    rw [indexOfKey, LlrbNode.findIndex_eq hroot.increasing hroot.sized, Nat.zero_add]
    rfl

/-- Keys that are new to a tree and to each other all get into it. -/
theorem foldl_settingObject {entries : List (K × V)} {n : LlrbNode (K × V)}
    (hn : n.Wellformed cmp) (hnew : ∀ e ∈ entries, SortedList.find Prod.fst cmp e.1 n.toList = none)
    (hne : entries.Pairwise fun a b => cmp a.1 b.1 ≠ .eq) :
    (entries.foldl (fun dict e => dict.settingObject cmp e.2 e.1) n).Wellformed cmp ∧
      ∀ x, x ∈ (entries.foldl (fun dict e => dict.settingObject cmp e.2 e.1) n).toList ↔
        x ∈ n.toList ∨ x ∈ entries := by
  induction entries generalizing n with
  | nil => exact ⟨hn, fun x => by simp⟩
  | cons e entries ih =>
    obtain ⟨hhead, htail⟩ := List.pairwise_cons.1 hne
    have hnone := find_eq_none_iff.1 (hnew e List.mem_cons_self)
    have hkey : ∀ e' ∈ n.toList, cmp e.1 e'.1 = .eq → e.1 = e'.1 := fun e' he' heq =>
      absurd heq (hnone e' he')
    have hset : n.settingObject cmp e.2 e.1 = n.insert cmp e.1 e.2 := LlrbNode.settingObject_eq hn
    have hlist : (n.settingObject cmp e.2 e.1).toList =
        SortedList.insert Prod.fst cmp e n.toList := by
      rw [hset]
      exact LlrbNode.toList_insert_of_key hn hkey
    have hwell : (n.settingObject cmp e.2 e.1).Wellformed cmp := hset ▸ hn.insert_of_key hkey
    obtain ⟨hrest, hmem⟩ := ih hwell (fun e' he' => by
      rw [hlist, find_insert hn.increasing, if_neg ?_]
      · exact hnew e' (List.mem_cons_of_mem e he')
      · exact fun heq => hhead e' he' (OrientedCmp.eq_symm heq)) htail
    refine ⟨hrest, fun x => ?_⟩
    rw [List.foldl_cons, hmem, hlist, mem_insert hn.increasing, List.mem_cons]
    constructor
    · rintro ((rfl | ⟨hx, -⟩) | hx)
      · exact Or.inr (Or.inl rfl)
      · exact Or.inl hx
      · exact Or.inr (Or.inr hx)
    · rintro (hx | rfl | hx)
      · exact Or.inl (Or.inr ⟨hx, hnone x hx⟩)
      · exact Or.inl (Or.inl rfl)
      · exact Or.inr hx

/-- The tree that an array turns into has its entries and the new one, whatever their order. -/
theorem treeWithDictionary_spec {entries dictionary : List (K × V)}
    (hinc : Increasing Prod.fst cmp entries)
    (hnew : SortedList.find Prod.fst cmp k entries = none)
    (hperm : dictionary.Perm (entries ++ [(k, v)])) :
    (treeWithDictionary cmp dictionary).Wellformed cmp ∧
      (treeWithDictionary cmp dictionary).toList =
        SortedList.insert Prod.fst cmp (k, v) entries := by
  rw [find_eq_none_iff] at hnew
  have hne : dictionary.Pairwise fun a b => cmp a.1 b.1 ≠ .eq := by
    refine (hperm.pairwise_iff fun hab hba => hab (OrientedCmp.eq_symm hba)).2 ?_
    refine List.pairwise_append.2 ⟨?_, List.pairwise_singleton _ _, ?_⟩
    · refine List.Pairwise.imp (fun hlt heq => ?_) hinc
      rw [hlt] at heq
      cases heq
    · intro a ha b hb heq
      rw [List.mem_singleton.1 hb] at heq
      exact hnew a ha (OrientedCmp.eq_symm heq)
  have hempty : LlrbNode.Wellformed cmp (.empty : LlrbNode (K × V)) := LlrbNode.wellformed_empty
  obtain ⟨hwell, hmem⟩ := foldl_settingObject hempty (fun _ _ => rfl) hne
  refine ⟨hwell, ext_of_mem hwell.increasing (hinc.insert (k, v)) fun x => ?_⟩
  rw [treeWithDictionary, hmem, hperm.mem_iff, mem_insert hinc, List.mem_append,
    List.mem_singleton]
  constructor
  · rintro (hx | hx | rfl)
    · cases hx
    · exact Or.inr ⟨hx, hnew x hx⟩
    · exact Or.inl rfl
  · rintro (rfl | ⟨hx, -⟩)
    · exact Or.inr (Or.inr rfl)
    · exact Or.inr (Or.inl hx)

/-- A new key is inserted. -/
theorem settingObject_spec (order : HashOrder (K × V)) (hd : d.Wellformed cmp)
    (hnew : SortedList.find Prod.fst cmp k d.toList = none) :
    (d.settingObject order cmp v k).Wellformed cmp ∧
      (d.settingObject order cmp v k).toList =
        SortedList.insert Prod.fst cmp (k, v) d.toList := by
  cases d with
  | array entries =>
    obtain ⟨hinc, hlen⟩ := hd
    have hnone : SortedList.find Prod.fst cmp k entries = none := hnew
    have hkey : findKey cmp k entries = none := by
      rw [findKey_eq hinc, hnone]
      rfl
    simp only [settingObject, hkey]
    split_ifs with hfull
    · exact treeWithDictionary_spec hinc hnone (order.perm _)
    · have hinsert : SortedList.insert Prod.fst cmp (k, v) entries =
          entries.insertIdx (rank Prod.fst cmp k entries) (k, v) := insert_eq_insertIdx hinc hnone
      have hlength : (SortedList.insert Prod.fst cmp (k, v) entries).length ≤ entries.length + 1 :=
        length_insert_le (k, v) entries
      rw [findInsertPosition_eq, ← hinsert]
      refine ⟨⟨hinc.insert (k, v), ?_⟩, rfl⟩
      omega
  | tree root =>
    have hroot : root.Wellformed cmp := hd
    have hkey : ∀ e ∈ root.toList, cmp k e.1 = .eq → k = e.1 := fun e he heq =>
      absurd heq (find_eq_none_iff.1 hnew e he)
    have hset := LlrbNode.settingObject_eq (k := k) (v := v) hroot
    rw [settingObject, hset]
    exact ⟨hroot.insert_of_key hkey, LlrbNode.toList_insert_of_key hroot hkey⟩

theorem removingObject_spec (hd : d.Wellformed cmp) :
    (d.removingObject cmp k).Wellformed cmp ∧
      (d.removingObject cmp k).toList = SortedList.erase Prod.fst cmp k d.toList := by
  cases d with
  | tree root => exact ⟨LlrbNode.Wellformed.removingObject hd, LlrbNode.toList_removingObject hd⟩
  | array entries =>
    obtain ⟨hinc, hlen⟩ := hd
    have hlist : (array entries).removingObject cmp k =
        array (SortedList.erase Prod.fst cmp k entries) := by
      rw [removingObject, findKey_eq hinc]
      cases hfind : SortedList.find Prod.fst cmp k entries with
      | none => rw [erase_of_find_none hfind]; rfl
      | some e => rw [erase_eq_eraseIdx hinc hfind]; rfl
    rw [hlist]
    exact ⟨⟨hinc.erase k, erase_sublist.length_le.trans hlen⟩, rfl⟩

end SortedDictionary

end SmartWeather.Firestore
