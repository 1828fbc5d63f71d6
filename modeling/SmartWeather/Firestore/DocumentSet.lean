import SmartWeather.Library.SortedList

/-!
# Documents, queries and document sets of the Firestore client

Keys `K` are ordered, the data `D` of a document can be compared for equality.  A query orders
documents by its sort orders, the last of which is the order of keys, so that documents that compare
as equal have the same key (`key_eq_of_comparator`).

`SortedMap` is the immutable sorted map of the client, `FSTDocumentSet` its set of documents: a map
from keys to documents beside the documents in the order of the query.  That the two agree is part
of the type.  The spec lemmas say what `add` and `remove` do to the lookup by key; the documents in
order are determined by it (`documents_ext`).
-/

namespace SmartWeather.Firestore

/-- The failed assertions of the client. -/
inductive HardFail
  | mismatchingKey
  | unsupportedCombination
  | refilledTwice
  | needsRefill
  | modifiedNotFound
  | limboBeforeAck
  | noFirstSnapshot
  | limboByOnlineState
  | noChanges
  | initialEventTwice
  | notAnAddition
  | indexNotFound
  | arrayFull
  | iteratorAtEnd
  deriving DecidableEq

inductive FSTDocumentState
  | localMutations
  | committedMutations
  | synced
  deriving DecidableEq

structure FSTDocument (K D : Type) where
  key : K
  data : D
  documentState : FSTDocumentState
  deriving DecidableEq

inductive FSTMaybeDocument (K D : Type)
  | document (doc : FSTDocument K D)
  | deletedDocument (key : K)
  | unknownDocument (key : K)

variable {K D : Type}

def FSTDocument.hasLocalMutations (d : FSTDocument K D) : Bool :=
  d.documentState = .localMutations

def FSTDocument.hasCommittedMutations (d : FSTDocument K D) : Bool :=
  d.documentState = .committedMutations

/-- A document without its state. -/
def FSTDocument.bare (d : FSTDocument K D) : K × D := (d.key, d.data)

/-! ### Queries -/

/-- An order of documents by their keys, or by a field, whose values are compared by `compare`. -/
inductive FSTSortOrder (D : Type)
  | key (ascending : Bool)
  | field (compare : D → D → Ordering) (lawful : Std.TransCmp compare) (ascending : Bool)

namespace FSTSortOrder

def isAscending : FSTSortOrder D → Bool
  | key ascending => ascending
  | field _ _ ascending => ascending

def isKey : FSTSortOrder D → Bool
  | key _ => true
  | field _ _ _ => false

variable [LinearOrder K]

def compareDocument (o : FSTSortOrder D) (d e : FSTDocument K D) : Ordering :=
  let result :=
    match o with
    | key _ => compare d.key e.key
    | field compare _ _ => compare d.data e.data
  if o.isAscending then result else result.swap

/-- The comparator of a list of sort orders: the first one that tells the documents apart. -/
def comparator : List (FSTSortOrder D) → FSTDocument K D → FSTDocument K D → Ordering
  | [] => fun _ _ => .eq
  | o :: orders => compareLex o.compareDocument (comparator orders)

instance (o : FSTSortOrder D) :
    Std.TransCmp (o.compareDocument : FSTDocument K D → FSTDocument K D → Ordering) := by
  cases o with
  | key ascending =>
    have h : Std.TransCmp fun d e : FSTDocument K D => compare d.key e.key :=
      SortedList.transCmp_on FSTDocument.key compare
    cases ascending with
    | true => exact h
    | false => exact SortedList.transCmp_swap _
  | field compareData lawful ascending =>
    have h : Std.TransCmp fun d e : FSTDocument K D => compareData d.data e.data :=
      SortedList.transCmp_on FSTDocument.data compareData
    cases ascending with
    | true => exact h
    | false => exact SortedList.transCmp_swap _

instance instTransCmpComparator (orders : List (FSTSortOrder D)) :
    Std.TransCmp (comparator orders : FSTDocument K D → FSTDocument K D → Ordering) := by
  induction orders with
  | nil => exact { eq_swap := rfl, isLE_trans := fun _ _ => rfl }
  | cons o orders ih => exact inferInstanceAs (Std.TransCmp (compareLex _ _))

/-- The comparator looks at keys and data only. -/
theorem comparator_congr (orders : List (FSTSortOrder D)) {d d' e e' : FSTDocument K D}
    (hk : d.key = d'.key) (hd : d.data = d'.data) (hk' : e.key = e'.key) (hd' : e.data = e'.data) :
    comparator orders d e = comparator orders d' e' := by
  induction orders with
  | nil => rfl
  | cons o orders ih =>
    have ho : o.compareDocument d e = o.compareDocument d' e' := by
      simp only [compareDocument, hk, hd, hk', hd']
    show (o.compareDocument d e).then (comparator orders d e) = _
    rw [ho, ih]
    rfl

theorem key_eq_of_comparator_orders {orders : List (FSTSortOrder D)}
    (hkey : ∃ o ∈ orders, o.isKey) {d e : FSTDocument K D} (h : comparator orders d e = .eq) :
    d.key = e.key := by
  induction orders with
  | nil => simp at hkey
  | cons o orders ih =>
    obtain ⟨ho, horders⟩ := Ordering.then_eq_eq.1 h
    cases o with
    | key ascending =>
      have hcmp : compare d.key e.key = .eq := by
        cases ascending <;> simpa [compareDocument, isAscending] using ho
      exact compare_eq_iff_eq.1 hcmp
    | field cmp lawful ascending =>
      obtain ⟨o', ho', hk⟩ := hkey
      rcases List.mem_cons.1 ho' with rfl | ho'
      · simp [isKey] at hk
      · exact ih ⟨o', ho', hk⟩ horders

end FSTSortOrder

/-- A query; without a limit it has all documents that match. -/
structure FSTQuery (K D : Type) where
  matchesDocument : K → D → Bool
  explicitSortOrders : List (FSTSortOrder D) := []
  limit : Option ℕ := none

namespace FSTQuery

/-- The explicit sort orders and, unless it is one of them, the order of keys in the direction of
the last explicit order. -/
def sortOrders (q : FSTQuery K D) : List (FSTSortOrder D) :=
  if q.explicitSortOrders.any FSTSortOrder.isKey then q.explicitSortOrders
  else
    let lastIsAscending := (q.explicitSortOrders.getLast?.map FSTSortOrder.isAscending).getD true
    q.explicitSortOrders ++ [FSTSortOrder.key lastIsAscending]

theorem exists_isKey_sortOrders (q : FSTQuery K D) : ∃ o ∈ q.sortOrders, o.isKey := by
  rw [sortOrders]
  split
  · rename_i h
    simpa using h
  · exact ⟨_, List.mem_append_right _ (List.mem_singleton_self _), rfl⟩

variable [LinearOrder K]

def comparator (q : FSTQuery K D) : FSTDocument K D → FSTDocument K D → Ordering :=
  FSTSortOrder.comparator q.sortOrders

variable (q : FSTQuery K D)

instance : Std.TransCmp q.comparator := FSTSortOrder.instTransCmpComparator q.sortOrders

variable {q} in
theorem key_eq_of_comparator {d e : FSTDocument K D} (h : q.comparator d e = .eq) :
    d.key = e.key := FSTSortOrder.key_eq_of_comparator_orders q.exists_isKey_sortOrders h

end FSTQuery

/-! ### Sorted maps -/

/-- A sorted map, as the list of its entries. -/
structure SortedMap (K V : Type) [LinearOrder K] where
  entries : List (K × V)
  increasing : SortedList.Increasing Prod.fst compare entries

namespace SortedMap

variable [LinearOrder K] {V : Type}

def empty : SortedMap K V := ⟨[], SortedList.increasing_nil⟩

def find (m : SortedMap K V) (k : K) : Option V :=
  (SortedList.find Prod.fst compare k m.entries).map Prod.snd

def insert (m : SortedMap K V) (k : K) (v : V) : SortedMap K V :=
  ⟨SortedList.insert Prod.fst compare (k, v) m.entries, m.increasing.insert (k, v)⟩

def erase (m : SortedMap K V) (k : K) : SortedMap K V :=
  ⟨SortedList.erase Prod.fst compare k m.entries, m.increasing.erase k⟩

def size (m : SortedMap K V) : ℕ := m.entries.length

@[simp] theorem find_empty (k : K) : (empty : SortedMap K V).find k = none := rfl

@[simp] theorem find_insert (m : SortedMap K V) (k k' : K) (v : V) :
    (m.insert k v).find k' = if k' = k then some v else m.find k' := by
  simp only [find, insert, SortedList.find_insert m.increasing, compare_eq_iff_eq]
  split <;> rfl

@[simp] theorem find_erase (m : SortedMap K V) (k k' : K) :
    (m.erase k).find k' = if k' = k then none else m.find k' := by
  simp only [find, erase, SortedList.find_erase m.increasing, compare_eq_iff_eq]
  split <;> rfl

theorem mem_entries {m : SortedMap K V} {k : K} {v : V} :
    (k, v) ∈ m.entries ↔ m.find k = some v := by
  rw [find, Option.map_eq_some_iff]
  constructor
  · intro h
    exact ⟨(k, v), (SortedList.find_eq_some_iff m.increasing).2 ⟨h, compare_eq_iff_eq.2 rfl⟩, rfl⟩
  · rintro ⟨⟨k', v'⟩, h, rfl⟩
    obtain ⟨hmem, hk⟩ := (SortedList.find_eq_some_iff m.increasing).1 h
    rwa [compare_eq_iff_eq.1 hk]

theorem nodup_keys (m : SortedMap K V) : (m.entries.map Prod.fst).Nodup := by
  rw [List.Nodup, List.pairwise_map]
  refine List.Pairwise.imp (fun {a b} hlt heq => ?_) m.increasing
  rw [heq] at hlt
  exact SortedList.lt_irrefl _ hlt

/-- The values that `f` keeps, changed by it. -/
def filterMap {W : Type} (m : SortedMap K V) (f : V → Option W) : SortedMap K W where
  entries := m.entries.filterMap fun e => (f e.2).map (e.1, ·)
  increasing := by
    refine List.pairwise_filterMap.2 (List.Pairwise.imp (fun {a b} hab a' ha b' hb => ?_)
      m.increasing)
    obtain ⟨v, -, rfl⟩ := Option.map_eq_some_iff.1 ha
    obtain ⟨w, -, rfl⟩ := Option.map_eq_some_iff.1 hb
    exact hab

@[simp] theorem find_filterMap {W : Type} (m : SortedMap K V) (f : V → Option W) (k : K) :
    (m.filterMap f).find k = (m.find k).bind f := by
  refine Option.ext fun w => ?_
  rw [← mem_entries, Option.bind_eq_some_iff]
  simp only [filterMap, List.mem_filterMap, Option.map_eq_some_iff, Prod.mk.injEq, Prod.exists]
  constructor
  · rintro ⟨k', v, hmem, w', hw, rfl, rfl⟩
    exact ⟨v, mem_entries.1 hmem, hw⟩
  · rintro ⟨v, hfind, hw⟩
    exact ⟨k, v, mem_entries.2 hfind, w, hw, rfl, rfl⟩

end SortedMap

/-! ### Document sets -/

/-- The documents of a query, by key and in the order of the query. -/
structure FSTDocumentSet [LinearOrder K] (q : FSTQuery K D) where
  index : SortedMap K (FSTDocument K D)
  sortedSet : List (FSTDocument K D)
  increasing : SortedList.Increasing id q.comparator sortedSet
  key_of_find : ∀ k d, index.find k = some d → d.key = k
  mem_iff : ∀ d, d ∈ sortedSet ↔ index.find d.key = some d

namespace FSTDocumentSet

variable [LinearOrder K] {q : FSTQuery K D}

/-- `documentSetWithComparator`. -/
def empty (q : FSTQuery K D) : FSTDocumentSet q where
  index := SortedMap.empty
  sortedSet := []
  increasing := SortedList.increasing_nil
  key_of_find := by simp
  mem_iff := by simp

def count (s : FSTDocumentSet q) : ℕ := s.index.size

def isEmpty (s : FSTDocumentSet q) : Bool := s.index.entries.isEmpty

def documentForKey (s : FSTDocumentSet q) (k : K) : Option (FSTDocument K D) := s.index.find k

def containsKey (s : FSTDocumentSet q) (k : K) : Bool := (s.documentForKey k).isSome

def lastDocument (s : FSTDocumentSet q) : Option (FSTDocument K D) := s.sortedSet.getLast?

/-- `documentEnumerator`. -/
def documents (s : FSTDocumentSet q) : List (FSTDocument K D) := s.sortedSet

/-- The keys and data of a document set, in order. -/
def contents (s : FSTDocumentSet q) : List (K × D) := s.documents.map FSTDocument.bare

def indexOfKey (s : FSTDocumentSet q) (k : K) : Option ℕ :=
  (s.documentForKey k).bind fun doc =>
    (SortedList.find id q.comparator doc s.sortedSet).map fun _ =>
      SortedList.rank id q.comparator doc s.sortedSet

theorem key_eq {s : FSTDocumentSet q} {k : K} {d : FSTDocument K D}
    (h : s.documentForKey k = some d) : d.key = k := s.key_of_find k d h

theorem mem_documents {s : FSTDocumentSet q} {d : FSTDocument K D} :
    d ∈ s.documents ↔ s.documentForKey d.key = some d := s.mem_iff d

theorem mem_documents_of_find {s : FSTDocumentSet q} {k : K} {d : FSTDocument K D}
    (h : s.documentForKey k = some d) : d ∈ s.documents := by
  rw [mem_documents, key_eq h, h]

/-- `documentSetByRemovingKey`. -/
def remove (s : FSTDocumentSet q) (k : K) : FSTDocumentSet q :=
  match h : s.documentForKey k with
  | none => s
  | some doc =>
    { index := s.index.erase k
      sortedSet := SortedList.erase id q.comparator doc s.sortedSet
      increasing := s.increasing.erase doc
      key_of_find := by
        intro k' d hd
        rw [SortedMap.find_erase] at hd
        split at hd
        · cases hd
        · exact s.key_of_find k' d hd
      mem_iff := by
        intro d
        rw [SortedList.mem_erase s.increasing, s.mem_iff, SortedMap.find_erase]
        have hkey : doc.key = k := key_eq h
        constructor
        · rintro ⟨hd, hne⟩
          rw [if_neg ?_, hd]
          intro hk
          rw [hk, show s.index.find k = some doc from h] at hd
          cases hd
          exact hne (Std.ReflCmp.compare_self)
        · intro hd
          split at hd
          · cases hd
          · rename_i hk
            exact ⟨hd, fun heq => hk (hkey ▸ (FSTQuery.key_eq_of_comparator heq).symm)⟩ }

@[simp] theorem documentForKey_empty (k : K) : (empty q).documentForKey k = none := rfl

@[simp] theorem documents_empty : (empty q).documents = [] := rfl

@[simp] theorem documentForKey_remove (s : FSTDocumentSet q) (k k' : K) :
    (s.remove k).documentForKey k' = if k' = k then none else s.documentForKey k' := by
  rw [remove]
  split
  · rename_i h
    split
    · rename_i hk
      rw [hk, h]
    · rfl
  · exact SortedMap.find_erase s.index k k'

theorem documents_remove {s : FSTDocumentSet q} {k : K} {d : FSTDocument K D}
    (h : s.documentForKey k = some d) :
    (s.remove k).documents = SortedList.erase id q.comparator d s.documents := by
  rw [remove]
  split
  · rename_i hn
    rw [h] at hn
    cases hn
  · rename_i e he
    rw [h] at he
    cases he
    rfl

/-- `documentSetByAddingDocument`. -/
def add (s : FSTDocumentSet q) (doc : FSTDocument K D) : FSTDocumentSet q :=
  let removed := s.remove doc.key
  { index := removed.index.insert doc.key doc
    sortedSet := SortedList.insert id q.comparator doc removed.sortedSet
    increasing := removed.increasing.insert doc
    key_of_find := by
      intro k d hd
      rw [SortedMap.find_insert] at hd
      split at hd
      · rename_i hk
        cases hd
        exact hk.symm
      · exact removed.key_of_find k d hd
    mem_iff := by
      intro d
      rw [SortedList.mem_insert removed.increasing, removed.mem_iff, SortedMap.find_insert]
      have hnone : removed.index.find doc.key = none := by
        have := s.documentForKey_remove doc.key doc.key
        rwa [if_pos rfl] at this
      constructor
      · rintro (rfl | ⟨hd, -⟩)
        · rw [if_pos rfl]
        · rwa [if_neg]
          intro hk
          rw [hk, hnone] at hd
          cases hd
      · intro hd
        split at hd
        · cases hd
          exact Or.inl rfl
        · rename_i hk
          exact Or.inr ⟨hd, fun heq => hk (FSTQuery.key_eq_of_comparator heq).symm⟩ }

@[simp] theorem documentForKey_add (s : FSTDocumentSet q) (d : FSTDocument K D) (k : K) :
    (s.add d).documentForKey k = if k = d.key then some d else s.documentForKey k := by
  show (((s.remove d.key).index).insert d.key d).find k = _
  rw [SortedMap.find_insert]
  split
  · rfl
  · rename_i hk
    exact (documentForKey_remove s d.key k).trans (if_neg hk)

theorem documentForKey_remove_eq (s : FSTDocumentSet q) (k : K) :
    (s.remove k).documentForKey = Function.update s.documentForKey k none := by
  funext k'
  rw [documentForKey_remove, Function.update_apply]

theorem documentForKey_add_eq (s : FSTDocumentSet q) (d : FSTDocument K D) :
    (s.add d).documentForKey = Function.update s.documentForKey d.key (some d) := by
  funext k'
  rw [documentForKey_add, Function.update_apply]

theorem documents_add (s : FSTDocumentSet q) (d : FSTDocument K D) :
    (s.add d).documents = SortedList.insert id q.comparator d (s.remove d.key).documents := rfl

/-- The documents in order are determined by the lookup. -/
theorem documents_ext {s t : FSTDocumentSet q}
    (h : ∀ k, s.documentForKey k = t.documentForKey k) : s.documents = t.documents := by
  refine SortedList.ext_of_mem s.increasing t.increasing fun d => ?_
  show d ∈ s.documents ↔ d ∈ t.documents
  rw [mem_documents, mem_documents, h]

theorem indexOfKey_eq {s : FSTDocumentSet q} {k : K} {d : FSTDocument K D}
    (h : s.documentForKey k = some d) :
    s.indexOfKey k = some (SortedList.rank id q.comparator d s.documents) := by
  have hfind : SortedList.find id q.comparator d s.sortedSet = some d :=
    (SortedList.find_eq_some_iff s.increasing).2
      ⟨mem_documents_of_find h, Std.ReflCmp.compare_self⟩
  rw [indexOfKey, h, Option.bind_some, hfind]
  rfl

/-- A document is at its index, and taking it out erases that position. -/
theorem documents_remove_eq_eraseIdx {s : FSTDocumentSet q} {k : K} {d : FSTDocument K D}
    (h : s.documentForKey k = some d) : ∃ i, s.indexOfKey k = some i ∧
      s.documents[i]? = some d ∧ (s.remove k).documents = s.documents.eraseIdx i := by
  have hfind : SortedList.find id q.comparator d s.documents = some d :=
    (SortedList.find_eq_some_iff s.increasing).2
      ⟨mem_documents_of_find h, Std.ReflCmp.compare_self⟩
  refine ⟨_, indexOfKey_eq h, SortedList.getElem?_rank s.increasing hfind, ?_⟩
  rw [documents_remove h]
  exact SortedList.erase_eq_eraseIdx s.increasing hfind

section AddNew

variable {s : FSTDocumentSet q} {d : FSTDocument K D} (h : s.documentForKey d.key = none)

include h

theorem documents_add_new :
    (s.add d).documents = SortedList.insert id q.comparator d s.documents := by
  have hremove : (s.remove d.key).documents = s.documents := documents_ext fun k => by
    rw [documentForKey_remove]
    split
    · rename_i hk
      rw [hk, h]
    · rfl
  rw [documents_add, hremove]

theorem indexOfKey_add_new : (s.add d).indexOfKey d.key =
    some (SortedList.rank id q.comparator d s.documents) := by
  have hself : (s.add d).documentForKey d.key = some d := by simp
  rw [indexOfKey_eq hself, documents_add_new h]
  exact congrArg some (SortedList.rank_insert s.increasing)

/-- A new document is inserted at the index that it has afterwards. -/
theorem documents_add_eq_insertIdx : ∃ i, (s.add d).indexOfKey d.key = some i ∧
    i ≤ s.documents.length ∧ (s.add d).documents = s.documents.insertIdx i d := by
  have hnone : SortedList.find id q.comparator d s.documents = none := by
    refine SortedList.find_eq_none_iff.2 fun e he heq => ?_
    have hkey : d.key = e.key := FSTQuery.key_eq_of_comparator heq
    have he' := mem_documents.1 he
    rw [← hkey, h] at he'
    cases he'
  refine ⟨_, indexOfKey_add_new h, SortedList.rank_le_length, ?_⟩
  rw [documents_add_new h]
  exact SortedList.insert_eq_insertIdx s.increasing hnone

/-- A new document behind all others comes last. -/
theorem documents_add_last (hlast : ∀ e ∈ s.documents, q.comparator e d = .lt) :
    (s.add d).indexOfKey d.key = some s.documents.length ∧
      (s.add d).documents = s.documents ++ [d] := by
  constructor
  · rw [indexOfKey_add_new h]
    exact congrArg some (SortedList.rank_eq_length hlast)
  · rw [documents_add_new h]
    exact SortedList.insert_eq_append hlast

end AddNew

theorem mem_contents {s : FSTDocumentSet q} {e : K × D} : e ∈ s.contents ↔
    (s.documentForKey e.1).map FSTDocument.data = some e.2 := by
  rw [contents, List.mem_map, Option.map_eq_some_iff]
  constructor
  · rintro ⟨d, hd, rfl⟩
    exact ⟨d, mem_documents.1 hd, rfl⟩
  · rintro ⟨d, hd, hdata⟩
    exact ⟨d, mem_documents_of_find hd, Prod.ext (key_eq hd) hdata⟩

/-- Equal data for every key gives equal data in order. -/
theorem contents_ext {s t : FSTDocumentSet q} (h : ∀ k,
    (s.documentForKey k).map FSTDocument.data = (t.documentForKey k).map FSTDocument.data) :
    s.contents = t.contents := by
  let mk : K × D → FSTDocument K D := fun e => ⟨e.1, e.2, .synced⟩
  have hcmp : ∀ d e : FSTDocument K D,
      q.comparator (mk d.bare) (mk e.bare) = q.comparator d e := fun d e =>
    FSTSortOrder.comparator_congr q.sortOrders rfl rfl rfl rfl
  have hsorted : ∀ u : FSTDocumentSet q,
      SortedList.Increasing mk q.comparator u.contents := fun u =>
    List.pairwise_map.2 (List.Pairwise.imp (fun {a b} hab => by
      rw [hcmp]
      exact hab) u.increasing)
  refine SortedList.ext_of_mem (hsorted s) (hsorted t) fun e => ?_
  rw [mem_contents, mem_contents, h]

theorem count_eq_length (s : FSTDocumentSet q) : s.count = s.documents.length := by
  have hnodup : (s.index.entries.map Prod.snd).Nodup := by
    refine List.Nodup.of_map FSTDocument.key ?_
    rw [List.map_map]
    refine (List.map_congr_left fun e he => ?_).symm ▸ s.index.nodup_keys
    exact s.key_of_find _ _ (SortedMap.mem_entries.1 he)
  have hperm : (s.index.entries.map Prod.snd).Perm s.documents := by
    refine (List.perm_ext_iff_of_nodup hnodup s.increasing.nodup).2 fun d => ?_
    show _ ↔ d ∈ s.documents
    rw [mem_documents]
    constructor
    · intro hd
      obtain ⟨⟨k, d'⟩, he, rfl⟩ := List.mem_map.1 hd
      have hfind := SortedMap.mem_entries.1 he
      show s.index.find d'.key = some d'
      rw [s.key_of_find _ _ hfind, hfind]
    · intro hd
      exact List.mem_map.2 ⟨(d.key, d), SortedMap.mem_entries.2 hd, rfl⟩
  rw [← hperm.length_eq, List.length_map]
  rfl

theorem isEmpty_iff {s : FSTDocumentSet q} :
    s.isEmpty = true ↔ ∀ k, s.documentForKey k = none := by
  rw [isEmpty, List.isEmpty_iff, List.eq_nil_iff_forall_not_mem]
  constructor
  · intro h k
    refine Option.eq_none_iff_forall_ne_some.2 fun d hd => ?_
    exact h (k, d) (SortedMap.mem_entries.2 hd)
  · rintro h ⟨k, d⟩ he
    have hfind := SortedMap.mem_entries.1 he
    rw [show s.index.find k = none from h k] at hfind
    cases hfind

theorem nodup_keys (s : FSTDocumentSet q) : (s.documents.map FSTDocument.key).Nodup := by
  refine List.Nodup.map_on (fun d hd e he hk => ?_) s.increasing.nodup
  have hd' := mem_documents.1 hd
  have he' := mem_documents.1 he
  rw [hk, he'] at hd'
  cases hd'
  rfl

end FSTDocumentSet

end SmartWeather.Firestore
