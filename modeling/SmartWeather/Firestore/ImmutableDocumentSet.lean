import SmartWeather.Firestore.ImmutableSortedDictionary

/-!
# Document sets as dictionaries

The client keeps the documents of a set twice: in an index by key, and in the order of the query in
an immutable sorted set, a dictionary whose keys are the documents.  `FSTDocumentSet` has a list in
its place; `run_agrees` says that the two agree, whatever is added and removed.

Two documents that the order of the query does not tell apart have the same key, and a document is
taken out before one with its key is put in.  So the dictionary never finds the document that it is
to insert, and keeps no old one.
-/

namespace SmartWeather.Firestore

open SortedList

variable {K D : Type} [LinearOrder K] {q : FSTQuery K D}

namespace FSTDocumentSet

variable {s : FSTDocumentSet q} {key : K}

theorem remove_of_none (h : s.documentForKey key = none) : s.remove key = s := by
  rw [remove]
  split
  · rfl
  · rename_i hd
    cases h.symm.trans hd

theorem index_remove {doc : FSTDocument K D} (h : s.documentForKey key = some doc) :
    (s.remove key).index = s.index.erase key := by
  rw [remove]
  split
  · rename_i hd
    cases h.symm.trans hd
  · rfl

end FSTDocumentSet

/-- The index by key, and the documents in the order of the query. -/
structure ImmutableDocumentSet (q : FSTQuery K D) where
  index : SortedMap K (FSTDocument K D)
  sortedSet : SortedDictionary (FSTDocument K D) Unit

namespace ImmutableDocumentSet

def empty (q : FSTQuery K D) : ImmutableDocumentSet q := ⟨.empty, .empty⟩

def count (s : ImmutableDocumentSet q) : ℕ := s.index.size

def documentForKey (s : ImmutableDocumentSet q) (key : K) : Option (FSTDocument K D) :=
  s.index.find key

def lastDocument (s : ImmutableDocumentSet q) : Option (FSTDocument K D) := s.sortedSet.maxKey

def indexOfKey (s : ImmutableDocumentSet q) (key : K) : Option ℕ :=
  (s.documentForKey key).bind fun doc => s.sortedSet.indexOfKey q.comparator doc

/-- `documentEnumerator`. -/
def documents (s : ImmutableDocumentSet q) : List (FSTDocument K D) :=
  s.sortedSet.toList.map Prod.fst

/-- `documentSetByRemovingKey`. -/
def remove (s : ImmutableDocumentSet q) (key : K) : ImmutableDocumentSet q :=
  match s.documentForKey key with
  | none => s
  | some doc => ⟨s.index.erase key, s.sortedSet.removingObject q.comparator doc⟩

/-- `documentSetByAddingDocument`. -/
def add (order : HashOrder (FSTDocument K D × Unit)) (s : ImmutableDocumentSet q)
    (doc : FSTDocument K D) : ImmutableDocumentSet q :=
  let removed := s.remove doc.key
  ⟨removed.index.insert doc.key doc, removed.sortedSet.settingObject order q.comparator () doc⟩

/-- The dictionary is wellformed and has the documents of the list. -/
structure Refines (t : ImmutableDocumentSet q) (s : FSTDocumentSet q) : Prop where
  index : t.index = s.index
  wellformed : t.sortedSet.Wellformed q.comparator
  documents : t.documents = s.documents

variable {t : ImmutableDocumentSet q} {s : FSTDocumentSet q}

omit [LinearOrder K] in
/-- The keys of the dictionary are the documents themselves. -/
theorem id_fst (e : FSTDocument K D × Unit) : id (Prod.fst e) = Prod.fst e := rfl

theorem refines_empty : (empty q).Refines (FSTDocumentSet.empty q) :=
  ⟨rfl, SortedDictionary.wellformed_empty, rfl⟩

theorem Refines.documentForKey_eq (h : t.Refines s) (key : K) :
    t.documentForKey key = s.documentForKey key := by
  rw [documentForKey, h.index]
  rfl

theorem Refines.remove (h : t.Refines s) (key : K) : (t.remove key).Refines (s.remove key) := by
  cases hfind : s.documentForKey key with
  | none =>
    have ht : t.remove key = t := by
      rw [ImmutableDocumentSet.remove, h.documentForKey_eq, hfind]
    rwa [ht, FSTDocumentSet.remove_of_none hfind]
  | some doc =>
    have ht : t.remove key =
        ⟨t.index.erase key, t.sortedSet.removingObject q.comparator doc⟩ := by
      rw [ImmutableDocumentSet.remove, h.documentForKey_eq, hfind]
    rw [ht]
    obtain ⟨hwell, hlist⟩ := SortedDictionary.removingObject_spec (k := doc) h.wellformed
    refine ⟨?_, hwell, ?_⟩
    · rw [FSTDocumentSet.index_remove hfind, ← h.index]
    · rw [FSTDocumentSet.documents_remove hfind, ← h.documents]
      show (t.sortedSet.removingObject q.comparator doc).toList.map Prod.fst = _
      rw [hlist]
      exact map_erase id_fst doc _

theorem Refines.add (order : HashOrder (FSTDocument K D × Unit)) (h : t.Refines s)
    (doc : FSTDocument K D) : (t.add order doc).Refines (s.add doc) := by
  have hremoved := h.remove doc.key
  -- no document with the key is left
  have hnew : find Prod.fst q.comparator doc (t.remove doc.key).sortedSet.toList = none := by
    refine find_eq_none_iff.2 fun e he heq => ?_
    have hmem : e.1 ∈ (s.remove doc.key).documents :=
      hremoved.documents ▸ List.mem_map_of_mem he
    have hfind := FSTDocumentSet.mem_documents.1 hmem
    rw [← FSTQuery.key_eq_of_comparator heq, FSTDocumentSet.documentForKey_remove,
      if_pos rfl] at hfind
    cases hfind
  obtain ⟨hwell, hlist⟩ := SortedDictionary.settingObject_spec (v := ()) order
    hremoved.wellformed hnew
  refine ⟨?_, hwell, ?_⟩
  · show (t.remove doc.key).index.insert doc.key doc = _
    rw [hremoved.index]
    rfl
  · rw [FSTDocumentSet.documents_add, ← hremoved.documents]
    exact (congrArg (List.map Prod.fst) hlist).trans (map_insert id_fst (doc, ()) _)

theorem Refines.indexOfKey_eq (h : t.Refines s) (key : K) :
    t.indexOfKey key = s.indexOfKey key := by
  have hlist : s.sortedSet = t.sortedSet.toList.map Prod.fst := h.documents.symm
  rw [indexOfKey, FSTDocumentSet.indexOfKey, h.documentForKey_eq, hlist]
  refine congrArg (Option.bind _) (funext fun doc => ?_)
  rw [SortedDictionary.indexOfKey_eq h.wellformed, find_map id_fst, rank_map id_fst,
    Option.map_map]
  rfl

theorem Refines.sizesFit (h : t.Refines s) (hlt : s.count < 2 ^ 31) : t.sortedSet.SizesFit := by
  have hlength : t.documents.length = t.sortedSet.toList.length := List.length_map ..
  refine h.wellformed.sizesFit ?_
  rwa [FSTDocumentSet.count_eq_length, ← h.documents, hlength] at hlt

theorem Refines.lastDocument_eq (h : t.Refines s) : t.lastDocument = s.lastDocument := by
  rw [lastDocument, SortedDictionary.maxKey_eq]
  exact congrArg List.getLast? h.documents

/-! ### Runs -/

/-- What the client does to a document set. -/
inductive Change (K D : Type)
  | add (doc : FSTDocument K D)
  | remove (key : K)

def change (order : HashOrder (FSTDocument K D × Unit)) (t : ImmutableDocumentSet q) :
    Change K D → ImmutableDocumentSet q
  | .add doc => t.add order doc
  | .remove key => t.remove key

/-- Every change has a hash order of its own. -/
def run (q : FSTQuery K D) (changes : List (HashOrder (FSTDocument K D × Unit) × Change K D)) :
    ImmutableDocumentSet q :=
  changes.foldl (fun t c => t.change c.1 c.2) (empty q)

end ImmutableDocumentSet

namespace FSTDocumentSet

open ImmutableDocumentSet

def change (s : FSTDocumentSet q) : Change K D → FSTDocumentSet q
  | .add doc => s.add doc
  | .remove key => s.remove key

def run (q : FSTQuery K D) (changes : List (Change K D)) : FSTDocumentSet q :=
  changes.foldl change (empty q)

end FSTDocumentSet

namespace ImmutableDocumentSet

variable {t : ImmutableDocumentSet q} {s : FSTDocumentSet q}

theorem Refines.change (order : HashOrder (FSTDocument K D × Unit)) (h : t.Refines s)
    (c : Change K D) : (t.change order c).Refines (s.change c) := by
  cases c with
  | add doc => exact h.add order doc
  | remove key => exact h.remove key

theorem refines_run (q : FSTQuery K D)
    (changes : List (HashOrder (FSTDocument K D × Unit) × Change K D)) :
    (run q changes).Refines (FSTDocumentSet.run q (changes.map Prod.snd)) := by
  rw [run, FSTDocumentSet.run]
  have hstart : (empty q).Refines (FSTDocumentSet.empty q) := refines_empty
  generalize empty q = t at hstart ⊢
  generalize FSTDocumentSet.empty q = s at hstart ⊢
  induction changes generalizing t s with
  | nil => exact hstart
  | cons c changes ih => exact ih _ _ (hstart.change c.1 c.2)

/-- Whatever is added and removed: the dictionary is an array in order or a balanced tree, and shows
what the list shows. -/
theorem run_agrees (q : FSTQuery K D)
    (changes : List (HashOrder (FSTDocument K D × Unit) × Change K D)) :
    let t := run q changes
    let s := FSTDocumentSet.run q (changes.map Prod.snd)
    t.sortedSet.Wellformed q.comparator ∧ (s.count < 2 ^ 31 → t.sortedSet.SizesFit) ∧
      t.documents = s.documents ∧ t.count = s.count ∧ t.lastDocument = s.lastDocument ∧
      ∀ key, t.documentForKey key = s.documentForKey key ∧ t.indexOfKey key = s.indexOfKey key := by
  have h := refines_run q changes
  have hcount : (run q changes).count = (FSTDocumentSet.run q (changes.map Prod.snd)).count :=
    congrArg SortedMap.size h.index
  exact ⟨h.wellformed, h.sizesFit, h.documents, hcount, h.lastDocument_eq, fun key =>
    ⟨h.documentForKey_eq key, h.indexOfKey_eq key⟩⟩

end ImmutableDocumentSet

end SmartWeather.Firestore
