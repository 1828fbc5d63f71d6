import SmartWeather.Firestore.Snapshots

/-!
# The view and the local store

The sync engine keeps the view of a query in step with the documents of the local store: it computes
the changes from those that the store reports, once more from all matching documents if the view
needs a refill, and applies them.  The store is given by its documents and by what it reports
(`Reports`): the present version of every document that has changed.

`InStep` is the invariant.  The view shows the first documents of a set that agrees with the
matching documents of the store (`Shows`), but for documents whose synced version the view waits
for.  `emitNewSnapshot_ok` keeps it, and with it no assertion fails: in particular a refill never
asks for another refill.  `InStep.contents_eq` is what it means: unless the store has committed
writes that have not come back from the backend, the view has exactly the first matching documents
of the store, so that no document is lost at the limit.
-/

namespace SmartWeather.Firestore

open Runs DocumentViewChange DocumentViewChangeSet

variable {K D : Type} [LinearOrder K]

/-- The documents of the local store. -/
structure LocalStore (K D : Type) [LinearOrder K] where
  docs : SortedMap K (FSTDocument K D)
  key_eq : ∀ k d, docs.find k = some d → d.key = k

/-- The document, if it exists. -/
def FSTMaybeDocument.toDocument? : FSTMaybeDocument K D → Option (FSTDocument K D)
  | .document d => some d
  | _ => none

namespace LocalStore

theorem key_eq_empty (k : K) (d : FSTDocument K D) (h : SortedMap.empty.find k = some d) :
    d.key = k := by
  simp at h

def empty : LocalStore K D := ⟨SortedMap.empty, key_eq_empty⟩

/-- `executeQuery`: the matching documents, whatever the limit. -/
def executeQuery (L : LocalStore K D) (q : FSTQuery K D) : SortedMap K (FSTMaybeDocument K D) :=
  L.docs.filterMap fun d => if q.matchesDocument d.key d.data then some (.document d) else none

/-- The matching documents by key. -/
def matching (L : LocalStore K D) (q : FSTQuery K D) : Lookup K D := fun k =>
  (L.docs.find k).filter fun d => q.matchesDocument d.key d.data

/-- The store reports present versions of documents: at least of those whose version that matches
the query is not the same in `L` and in `L'`. -/
structure Reports (q : FSTQuery K D) (L L' : LocalStore K D)
    (changes : SortedMap K (FSTMaybeDocument K D)) : Prop where
  present : ∀ k m, changes.find k = some m → m.toDocument? = L'.docs.find k
  complete : ∀ k, changes.find k = none → L.matching q k = L'.matching q k

variable {L L' : LocalStore K D} {q : FSTQuery K D}
  {changes : SortedMap K (FSTMaybeDocument K D)}

omit [LinearOrder K] in
theorem select_eq (m : FSTMaybeDocument K D) : q.select m =
    m.toDocument?.filter fun d => q.matchesDocument d.key d.data := by
  cases m with
  | document d =>
    rw [FSTQuery.select, FSTMaybeDocument.toDocument?, Option.filter_some]
  | deletedDocument k => rfl
  | unknownDocument k => rfl

theorem Reports.keyed (h : Reports q L L' changes) : Keyed changes := fun k d hd =>
  L'.key_eq k d (h.present k _ hd).symm

theorem Reports.select (h : Reports q L L' changes) {k : K} {m : FSTMaybeDocument K D}
    (hm : changes.find k = some m) : q.select m = L'.matching q k := by
  rw [select_eq, h.present k m hm, matching]

/-! ### One document -/

/-- The store after a version of a document has come. -/
def put (L : LocalStore K D) (d : FSTDocument K D) : LocalStore K D where
  docs := L.docs.insert d.key d
  key_eq k e := by
    rw [SortedMap.find_insert]
    split_ifs with hk
    · rintro ⟨⟩
      exact hk.symm
    · exact L.key_eq k e

/-- The store after a document has been deleted. -/
def drop (L : LocalStore K D) (k : K) : LocalStore K D where
  docs := L.docs.erase k
  key_eq k' e := by
    rw [SortedMap.find_erase]
    split_ifs
    · rintro ⟨⟩
    · exact L.key_eq k' e

/-- The report of one document. -/
def report (k : K) (m : FSTMaybeDocument K D) : SortedMap K (FSTMaybeDocument K D) :=
  SortedMap.empty.insert k m

theorem reports_of_forall_ne {k : K} {m : FSTMaybeDocument K D}
    (hk : m.toDocument? = L'.docs.find k) (hne : ∀ k', k' ≠ k → L.docs.find k' = L'.docs.find k') :
    Reports q L L' (report k m) where
  present k' m' h := by
    rw [report, SortedMap.find_insert, SortedMap.find_empty] at h
    split_ifs at h with heq
    cases h
    rwa [heq]
  complete k' h := by
    rw [report, SortedMap.find_insert, SortedMap.find_empty] at h
    split_ifs at h with heq
    rw [matching, matching, hne k' heq]

theorem reports_put (L : LocalStore K D) (d : FSTDocument K D) :
    Reports q L (L.put d) (report d.key (.document d)) := by
  refine reports_of_forall_ne ?_ fun k hk => ?_
  · rw [put, SortedMap.find_insert, if_pos rfl]
    rfl
  · rw [put, SortedMap.find_insert, if_neg hk]

theorem reports_drop (L : LocalStore K D) (k : K) :
    Reports q L (L.drop k) (report k (.deletedDocument k)) := by
  refine reports_of_forall_ne ?_ fun k' hk' => ?_
  · rw [drop, SortedMap.find_erase, if_pos rfl]
    rfl
  · rw [drop, SortedMap.find_erase, if_neg hk']

/-! ### Queries -/

/-- What a query without its limit means: the matching documents, in its order. -/
def queryResult (L : LocalStore K D) (q : FSTQuery K D) : FSTDocumentSet q :=
  let found := L.docs.filterMap fun d => if q.matchesDocument d.key d.data then some d else none
  found.entries.foldl (fun s e => s.add e.2) (FSTDocumentSet.empty q)

theorem foldl_add (l : List (K × FSTDocument K D)) (hl : ∀ e ∈ l, e.2.key = e.1)
    (hnodup : (l.map Prod.fst).Nodup) (s : FSTDocumentSet q) :
    (∀ e ∈ l, (l.foldl (fun s e => s.add e.2) s).documentForKey e.1 = some e.2) ∧
      ∀ k, k ∉ l.map Prod.fst →
        (l.foldl (fun s e => s.add e.2) s).documentForKey k = s.documentForKey k := by
  induction l generalizing s with
  | nil => exact ⟨fun _ h => (List.not_mem_nil h).elim, fun _ _ => rfl⟩
  | cons e l ih =>
    rw [List.map_cons, List.nodup_cons] at hnodup
    obtain ⟨hmem, hrest⟩ := ih (fun e he => hl e (List.mem_cons_of_mem _ he)) hnodup.2 (s.add e.2)
    have hkey := hl e List.mem_cons_self
    refine ⟨fun e' he' => ?_, fun k hk => ?_⟩
    · rcases List.mem_cons.1 he' with rfl | he'
      · rw [List.foldl_cons, hrest _ hnodup.1, FSTDocumentSet.documentForKey_add,
          if_pos hkey.symm]
      · exact hmem e' he'
    · rw [List.map_cons, List.mem_cons, not_or] at hk
      rw [List.foldl_cons, hrest k hk.2, FSTDocumentSet.documentForKey_add, if_neg (hkey ▸ hk.1)]

theorem documentForKey_queryResult (L : LocalStore K D) (q : FSTQuery K D) (k : K) :
    (L.queryResult q).documentForKey k = L.matching q k := by
  have hfind : ∀ k, (L.docs.filterMap fun d =>
      if q.matchesDocument d.key d.data then some d else none).find k = L.matching q k := by
    intro k
    rw [SortedMap.find_filterMap, matching]
    cases L.docs.find k with
    | none => rfl
    | some d => rw [Option.bind_some, Option.filter_some]
  rw [queryResult]
  generalize L.docs.filterMap _ = found at hfind
  obtain ⟨hmem, hrest⟩ := foldl_add found.entries (fun e he => by
    have he' := (hfind e.1).symm.trans (SortedMap.mem_entries.1 he)
    exact L.key_eq e.1 e.2 (Option.eq_some_of_filter_eq_some he')) found.nodup_keys
    (FSTDocumentSet.empty q)
  rw [← hfind]
  cases h : found.find k with
  | some d => exact hmem (k, d) (SortedMap.mem_entries.2 h)
  | none =>
    refine hrest k fun hk => ?_
    obtain ⟨e, he, rfl⟩ := List.mem_map.1 hk
    rw [SortedMap.mem_entries.1 he] at h
    cases h

theorem find_executeQuery (L : LocalStore K D) (q : FSTQuery K D) (k : K) :
    (L.executeQuery q).find k = (L.matching q k).map FSTMaybeDocument.document := by
  rw [executeQuery, SortedMap.find_filterMap, matching]
  cases L.docs.find k with
  | none => rfl
  | some d => cases hmatch : q.matchesDocument d.key d.data <;> simp [hmatch]

theorem executeQuery_keyed (L : LocalStore K D) (q : FSTQuery K D) :
    Keyed (L.executeQuery q) := by
  intro k d hd
  rw [find_executeQuery] at hd
  obtain ⟨e, he, heq⟩ := Option.map_eq_some_iff.1 hd
  cases heq
  exact L.key_eq k d (Option.eq_some_of_filter_eq_some he)

/-- The result of an executed query is matched by the query. -/
theorem select_executeQuery {k : K} {m : FSTMaybeDocument K D}
    (hm : (L.executeQuery q).find k = some m) :
    ∃ e, m = .document e ∧ L.matching q k = some e ∧ q.select m = some e := by
  rw [find_executeQuery] at hm
  obtain ⟨e, he, rfl⟩ := Option.map_eq_some_iff.1 hm
  have hmatch := (Option.filter_eq_some_iff.1 he).2
  exact ⟨e, rfl, he, if_pos hmatch⟩

end LocalStore

/-! ### The sync engine -/

section SyncEngine

variable {q : FSTQuery K D} [DecidableEq D] (A : Sorting.Algorithm)

/-- The changes of a view, with a refill from the local store if the view needs one. -/
def FSTView.computeWithRefill (v : FSTView q) (store : LocalStore K D)
    (changes : SortedMap K (FSTMaybeDocument K D)) :
    Except HardFail (FSTViewDocumentChanges q) := do
  let viewDocChanges ← v.computeChanges changes none
  if viewDocChanges.needsRefill then
    v.computeChanges (store.executeQuery q) (some viewDocChanges)
  else return viewDocChanges

/-- The part of `emitNewSnapshotsAndNotifyLocalStoreWithChanges` for one view. -/
def FSTView.emitNewSnapshot (v : FSTView q) (store : LocalStore K D)
    (changes : SortedMap K (FSTMaybeDocument K D)) (targetChange : Option (TargetChange K)) :
    Except HardFail (FSTView q × FSTViewChange q) := do
  let viewDocChanges ← v.computeWithRefill store changes
  v.applyChangesToDocuments A viewDocChanges targetChange

/-- `initializeViewAndComputeSnapshotForQueryData`. -/
def initializeView (q : FSTQuery K D) (store : LocalStore K D) (remoteKeys : Finset K) :
    Except HardFail (FSTView q × ViewSnapshot q) := do
  let view : FSTView q := { syncedDocuments := remoteKeys }
  let viewDocChanges ← view.computeChanges (store.executeQuery q) none
  let (view, viewChange) ← view.applyChangesToDocuments A viewDocChanges none
  if ¬ viewChange.limboChanges.isEmpty then throw .limboBeforeAck
  match viewChange.snapshot with
  | none => throw .noFirstSnapshot
  | some snapshot => return (view, snapshot)

end SyncEngine

/-! ### The invariant -/

/-- The view shows the document `new` of the store, or waits for its synced version. -/
def Shows (old new : Option (FSTDocument K D)) : Prop :=
  (old = none ∧ new = none) ∨ ∃ d e, old = some d ∧ new = some e ∧
    (d.data = e.data ∨ FSTView.shouldWaitForSyncedDocument e d = true)

/-- What the changes in the snapshots of a query mean. -/
def FSTQuery.Means (q : FSTQuery K D) : Meaning K D :=
  match q.limit with
  | none => Exact
  | some _ => Applies

omit [LinearOrder K] in
theorem FSTQuery.means_of_exact {q : FSTQuery K D} {c : DocumentViewChange K D}
    {o n : Option (FSTDocument K D)} (h : c.Exact o n) : q.Means c o n := by
  unfold FSTQuery.Means
  cases q.limit with
  | none => exact h
  | some n => exact h.applies

omit [LinearOrder K] in
theorem FSTQuery.Means.applies {q : FSTQuery K D} {c : DocumentViewChange K D}
    {o n : Option (FSTDocument K D)} (h : q.Means c o n) : c.Applies o n := by
  unfold FSTQuery.Means at h
  cases hlimit : q.limit with
  | none =>
    rw [hlimit] at h
    exact Exact.applies h
  | some n =>
    rw [hlimit] at h
    exact h

namespace FSTView

variable {q : FSTQuery K D}

omit [LinearOrder K] in
theorem limited_nil {α : Type} (q : FSTQuery K D) : q.limited ([] : List α) = [] := by
  unfold FSTQuery.limited
  rcases q.limit with _ | _ | n <;> rfl

omit [LinearOrder K] in
theorem limited_map {α β : Type} (q : FSTQuery K D) (f : α → β) (l : List α) :
    q.limited (l.map f) = (q.limited l).map f := by
  unfold FSTQuery.limited
  rcases q.limit with _ | _ | n
  · rfl
  · rfl
  · exact List.map_take.symm

omit [LinearOrder K] in
theorem limited_sublist {α : Type} (q : FSTQuery K D) (l : List α) :
    List.Sublist (q.limited l) l := by
  unfold FSTQuery.limited
  rcases q.limit with _ | _ | n
  · exact List.Sublist.refl l
  · exact List.Sublist.refl l
  · exact List.take_sublist _ _

/-- The view is in step with the store. -/
structure InStep (v : FSTView q) (L : LocalStore K D) : Prop where
  shown : ∃ S : FSTDocumentSet q, v.documentSet.documents = q.limited S.documents ∧
    ∀ k, Shows (S.documentForKey k) (L.matching q k)
  mutated : MutatedKeys v.mutatedKeys v.documentSet.documentForKey

theorem inStep_empty (remoteKeys : Finset K) :
    InStep ({ syncedDocuments := remoteKeys } : FSTView q) (LocalStore.empty : LocalStore K D) where
  shown := by
    refine ⟨FSTDocumentSet.empty q, ?_, fun k => Or.inl ⟨rfl, rfl⟩⟩
    exact (limited_nil q).symm
  mutated := by simp [MutatedKeys]

variable [DecidableEq D] {v : FSTView q} {L L' : LocalStore K D}

theorem shows_next (v : FSTView q) (old : Option (FSTDocument K D)) (m : FSTMaybeDocument K D) :
    Shows (v.next old m) (q.select m) := by
  rw [next]
  cases h : v.calculateChange old (q.select m) with
  | none => exact calculateChange_none h
  | some c =>
    cases q.select m with
    | none => exact Or.inl ⟨rfl, rfl⟩
    | some d => exact Or.inr ⟨d, d, rfl, rfl, Or.inl rfl⟩

/-! ### Document sets by their lookup -/

omit [DecidableEq D] in
/-- A document set changed at finitely many keys. -/
theorem exists_override (S : FSTDocumentSet q) (l : List (K × Option (FSTDocument K D)))
    (hl : ∀ k d, (k, some d) ∈ l → d.key = k) (hnodup : (l.map Prod.fst).Nodup) :
    ∃ S' : FSTDocumentSet q, (∀ k o, (k, o) ∈ l → S'.documentForKey k = o) ∧
      ∀ k, k ∉ l.map Prod.fst → S'.documentForKey k = S.documentForKey k := by
  induction l with
  | nil => exact ⟨S, fun _ _ h => (List.not_mem_nil h).elim, fun _ _ => rfl⟩
  | cons e l ih =>
    obtain ⟨k, o⟩ := e
    rw [List.map_cons, List.nodup_cons] at hnodup
    obtain ⟨S₁, hmem, hrest⟩ :=
      ih (fun k d h => hl k d (List.mem_cons_of_mem _ h)) hnodup.2
    obtain ⟨S', hS'⟩ : ∃ S' : FSTDocumentSet q,
        S'.documentForKey = Function.update S₁.documentForKey k o := by
      cases o with
      | none => exact ⟨S₁.remove k, FSTDocumentSet.documentForKey_remove_eq S₁ k⟩
      | some d =>
        rw [← hl k d List.mem_cons_self]
        exact ⟨S₁.add d, FSTDocumentSet.documentForKey_add_eq S₁ d⟩
    refine ⟨S', fun k' o' h => ?_, fun k' hk' => ?_⟩
    · rcases List.mem_cons.1 h with heq | hmem'
      · cases heq
        rw [hS', Function.update_self]
      · have hne : k' ≠ k := by
          rintro rfl
          exact hnodup.1 (List.mem_map.2 ⟨(k', o'), hmem', rfl⟩)
        rw [hS', Function.update_of_ne hne, hmem k' o' hmem']
    · rw [List.map_cons, List.mem_cons, not_or] at hk'
      rw [hS', Function.update_of_ne hk'.1, hrest k' hk'.2]

/-! ### The first computation -/

section First

variable {S : FSTDocumentSet q} {changes : SortedMap K (FSTMaybeDocument K D)}
  {W S' : FSTDocumentSet q}

omit [DecidableEq D] in
theorem documentForKey_of_limited (hV : v.documentSet.documents = q.limited S.documents) {k : K}
    {d : FSTDocument K D} (h : v.documentSet.documentForKey k = some d) :
    S.documentForKey k = some d := by
  have hmem := FSTDocumentSet.mem_documents_of_find h
  rw [hV] at hmem
  have := FSTDocumentSet.mem_documents.1 ((limited_sublist q _).subset hmem)
  rwa [FSTDocumentSet.key_eq h] at this

/-- The changed documents put over a document set. -/
theorem exists_next (S : FSTDocumentSet q) (hkeyed : Keyed changes) :
    ∃ S' : FSTDocumentSet q, ∀ k, S'.documentForKey k = match changes.find k with
      | none => S.documentForKey k
      | some m => v.next (v.documentSet.documentForKey k) m := by
  have hkey : ∀ k m d, changes.find k = some m →
      v.next (v.documentSet.documentForKey k) m = some d → d.key = k := by
    intro k m d hm hd
    rw [next] at hd
    split at hd
    · exact FSTDocumentSet.key_eq hd
    · exact select_key (fun d hd => hkeyed k d (by rw [hm, hd])) d hd
  obtain ⟨S', hmem, hrest⟩ := exists_override S
    (changes.entries.map fun e => (e.1, v.next (v.documentSet.documentForKey e.1) e.2))
    (by
      intro k d h
      obtain ⟨⟨k', m⟩, he, heq⟩ := List.mem_map.1 h
      obtain ⟨rfl, hd⟩ := Prod.mk.inj heq
      exact hkey k' m d (SortedMap.mem_entries.1 he) hd)
    (by
      rw [List.map_map]
      exact changes.nodup_keys)
  refine ⟨S', fun k => ?_⟩
  cases hfind : changes.find k with
  | none =>
    refine hrest k fun hk => ?_
    rw [List.map_map] at hk
    obtain ⟨⟨k', m⟩, he, hk'⟩ := List.mem_map.1 hk
    have hsome : changes.find k = some m := hk' ▸ SortedMap.mem_entries.1 he
    rw [hfind] at hsome
    cases hsome
  | some m => exact hmem k _ (List.mem_map.2 ⟨(k, m), SortedMap.mem_entries.2 hfind, rfl⟩)

/-- A change of a document in the limit that asks for no refill leaves it in the limit. -/
theorem next_le_of_turnRefills {last d : FSTDocument K D} {k : K} {m : FSTMaybeDocument K D}
    (hlast : q.lastDocInLimit v.documentSet = some last)
    (hd : v.documentSet.documentForKey k = some d) (hle : q.comparator d last ≠ .gt)
    (hm : ∀ d, m = .document d → d.key = k)
    (hrefill : v.turnRefills v.documentSet (k, m) = false) :
    ∃ d', v.next (v.documentSet.documentForKey k) m = some d' ∧ q.comparator d' last ≠ .gt := by
  rw [turnRefills, hd, hlast] at hrefill
  rw [next, hd]
  cases hc : v.calculateChange (some d) (q.select m) with
  | none => exact ⟨d, rfl, hle⟩
  | some c =>
    obtain ⟨hkey, hnew, hold⟩ := calculateChange_exact (k := k)
      (fun e he => by cases he; exact FSTDocumentSet.key_eq hd) (select_key hm) hc
    simp only [hc] at hrefill
    cases htype : c.type with
    | removed => simp [refills, htype] at hrefill
    | added => simp [htype] at hold
    | modified =>
      refine ⟨c.document, by rw [hnew, after, htype], ?_⟩
      simpa [refills, htype] using hrefill
    | metadata =>
      simp only [htype] at hold
      obtain ⟨e, he, hdata⟩ := hold
      cases he
      refine ⟨c.document, by rw [hnew, after, htype], ?_⟩
      -- the data are the same, and so is the place
      rwa [FSTQuery.comparator, FSTSortOrder.comparator_congr q.sortOrders
        (hkey.trans (FSTDocumentSet.key_eq hd).symm) hdata.symm rfl rfl]

omit [DecidableEq D] in
theorem documentForKey_eq_of_documents {s t : FSTDocumentSet q} (h : s.documents = t.documents)
    (k : K) : s.documentForKey k = t.documentForKey k := by
  refine Option.ext fun d => ?_
  constructor
  · intro hd
    have := FSTDocumentSet.mem_documents.1 (h ▸ FSTDocumentSet.mem_documents_of_find hd)
    rwa [FSTDocumentSet.key_eq hd] at this
  · intro hd
    have := FSTDocumentSet.mem_documents.1 (h.symm ▸ FSTDocumentSet.mem_documents_of_find hd)
    rwa [FSTDocumentSet.key_eq hd] at this

/-- **No document is lost at the limit.**  Where no refill is asked for, the changed documents of
the view begin like the changed documents of the whole set. -/
theorem limited_eq_of_not_refill (hV : v.documentSet.documents = q.limited S.documents)
    (hkeyed : Keyed changes)
    (hrefill : changes.entries.any (v.turnRefills v.documentSet) = false)
    (hW : ∀ k, W.documentForKey k = match changes.find k with
      | none => v.documentSet.documentForKey k
      | some m => v.next (v.documentSet.documentForKey k) m)
    (hS' : ∀ k, S'.documentForKey k = match changes.find k with
      | none => S.documentForKey k
      | some m => v.next (v.documentSet.documentForKey k) m) :
    q.limited W.documents = q.limited S'.documents := by
  -- the easy case: the view has all documents
  have hall : v.documentSet.documents = S.documents → W.documents = S'.documents := by
    intro hdocs
    refine FSTDocumentSet.documents_ext fun k => ?_
    rw [hW, hS', documentForKey_eq_of_documents hdocs]
  rcases hlimit : q.limit with _ | _ | n
  · simp only [FSTQuery.limited, hlimit] at hV ⊢
    exact hall hV
  · simp only [FSTQuery.limited, hlimit] at hV ⊢
    exact hall hV
  simp only [FSTQuery.limited, hlimit] at hV ⊢
  rcases Nat.lt_or_ge n S.documents.length with hlen | hlen
  swap
  · rw [hall (by rw [hV, List.take_of_length_le (by omega)])]
  -- the limit is filled
  have hcount : v.documentSet.documents.length = n + 1 := by
    rw [hV, List.length_take]
    omega
  obtain ⟨last, hlast⟩ : ∃ last, v.documentSet.lastDocument = some last := by
    cases h : v.documentSet.lastDocument with
    | some last => exact ⟨last, rfl⟩
    | none =>
      have hnil : v.documentSet.documents = [] := List.getLast?_eq_none_iff.1 h
      rw [hnil] at hcount
      cases hcount
  have hlastIn : q.lastDocInLimit v.documentSet = some last := by
    simp only [FSTQuery.lastDocInLimit, hlimit, FSTDocumentSet.count_eq_length, hcount, if_true,
      hlast]
  have hle : ∀ d ∈ v.documentSet.documents, q.comparator d last ≠ .gt := fun d hd =>
    SortedList.le_getLast v.documentSet.increasing hlast hd
  refine SortedList.take_eq_take W.increasing S'.increasing last (fun a ha => ?_) ?_
  · -- a document up to the last one that is in the whole set is in the view
    show a ∈ W.documents ↔ a ∈ S'.documents
    rw [FSTDocumentSet.mem_documents, FSTDocumentSet.mem_documents, hW, hS']
    cases changes.find a.key with
    | some m => exact Iff.rfl
    | none =>
      refine ⟨documentForKey_of_limited (by simp only [FSTQuery.limited, hlimit, hV]),
        fun hSa => ?_⟩
      have hmem : a ∈ S.documents := FSTDocumentSet.mem_documents.2 hSa
      rw [← List.take_append_drop (n + 1) S.documents, List.mem_append] at hmem
      rcases hmem with hmem | hmem
      · exact FSTDocumentSet.mem_documents.1 (hV ▸ hmem)
      · have hsplit := S.increasing
        rw [show S.sortedSet = S.documents from rfl,
          ← List.take_append_drop (n + 1) S.documents] at hsplit
        have hlt : q.comparator last a = .lt :=
          (List.pairwise_append.1 hsplit).2.2 last (hV ▸ List.mem_of_getLast? hlast) a hmem
        exact absurd (Std.OrientedCmp.gt_of_lt hlt) ha
  · -- every document of the view has remained before the last one
    have hsub : v.documentSet.documents.map FSTDocument.key ⊆
        (W.documents.filter fun a => q.comparator a last != .gt).map FSTDocument.key := by
      intro k hk
      obtain ⟨d, hd, rfl⟩ := List.mem_map.1 hk
      have hfind := FSTDocumentSet.mem_documents.1 hd
      obtain ⟨d', hd', hle'⟩ : ∃ d', W.documentForKey d.key = some d' ∧
          q.comparator d' last ≠ .gt := by
        rw [hW]
        cases hchange : changes.find d.key with
        | none => exact ⟨d, hfind, hle d hd⟩
        | some m =>
          refine next_le_of_turnRefills hlastIn hfind (hle d hd)
            (fun e he => hkeyed d.key e (by rw [hchange, he])) ?_
          simpa using List.any_eq_false.1 hrefill (d.key, m) (SortedMap.mem_entries.2 hchange)
      refine List.mem_map.2 ⟨d', List.mem_filter.2 ⟨FSTDocumentSet.mem_documents_of_find hd', ?_⟩,
        FSTDocumentSet.key_eq hd'⟩
      simpa using hle'
    have hlength := (v.documentSet.nodup_keys.subperm hsub).length_le
    rw [List.length_map, List.length_map, hcount] at hlength
    exact hlength

end First

omit [DecidableEq D] in
/-- **What the invariant means.**  Unless the store has committed writes that have not come back
from the backend, the view shows exactly the first matching documents of the store. -/
theorem InStep.contents_eq (hv : v.InStep L)
    (hnone : ∀ k d, L.matching q k = some d → d.hasCommittedMutations = false) :
    v.documentSet.contents = q.limited (L.queryResult q).contents := by
  obtain ⟨S, hV, hS⟩ := hv.shown
  have hdata : S.contents = (L.queryResult q).contents := by
    refine FSTDocumentSet.contents_ext fun k => ?_
    rw [LocalStore.documentForKey_queryResult]
    rcases hS k with ⟨hSk, hLk⟩ | ⟨d, e, hSk, hLk, hdata | hwait⟩
    · rw [hSk, hLk]
    · rw [hSk, hLk]
      exact congrArg some hdata
    · simp [shouldWaitForSyncedDocument, hnone k e hLk] at hwait
  rw [← hdata, FSTDocumentSet.contents, FSTDocumentSet.contents, limited_map, hV]

/-! ### The step -/

variable {changes : SortedMap K (FSTMaybeDocument K D)}

/-- The first computation never fails. -/
theorem exists_computeChanges (hkeyed : Keyed changes) :
    ∃ r, Computed q.Means v v.documentSet.documentForKey (v.start none) changes r ∧
      (q.limit = none → r.needsRefill = false) ∧ v.computeChanges changes none = .ok r := by
  cases hlimit : q.limit with
  | none =>
    obtain ⟨r, hr, hrefill, hok⟩ := computeChanges_exact (v := v) hkeyed hlimit
    refine ⟨r, ?_, fun _ => hrefill, hok⟩
    rwa [show q.Means = Exact by rw [FSTQuery.Means, hlimit]]
  | some n =>
    obtain ⟨r, hr, hok⟩ := computeChanges_ok (v := v) none hkeyed
      (describes_empty v.documentSet.documentForKey)
    refine ⟨r, ?_, fun h => (Option.some_ne_none n h).elim, ?_⟩
    · rwa [show q.Means = Applies by rw [FSTQuery.Means, hlimit]]
    · rw [hok, if_neg (by simp)]

/-- What a computation that keeps the view in step has. -/
structure Follows (v : FSTView q) (L : LocalStore K D) (r : FSTViewDocumentChanges q) : Prop where
  noRefill : r.needsRefill = false
  describes : r.changeSet.Describes q.Means v.documentSet.documentForKey r.lookup
  shown : ∃ S : FSTDocumentSet q, r.documentSet.documents = q.limited S.documents ∧
    ∀ k, Shows (S.documentForKey k) (L.matching q k)
  mutated : MutatedKeys r.mutatedKeys r.lookup

/-- A document of the first computation is shown as it is in the new store. -/
theorem shows_of_first (hv : v.InStep L) (hrep : LocalStore.Reports q L L' changes)
    {r : FSTViewDocumentChanges q}
    (hr : Computed q.Means v v.documentSet.documentForKey (v.start none) changes r) {k : K}
    {d : FSTDocument K D} (hd : r.lookup k = some d) :
    ∃ e, L'.matching q k = some e ∧
      (d.data = e.data ∨ shouldWaitForSyncedDocument e d = true) := by
  obtain ⟨S, hV, hS⟩ := hv.shown
  obtain ⟨W, hdocs, hW⟩ := hr.documents
  have hshows : Shows (some d) (L'.matching q k) := by
    have hmem := FSTDocumentSet.mem_documents_of_find hd
    rw [hdocs] at hmem
    have hWk := FSTDocumentSet.mem_documents.1 ((limited_sublist q _).subset hmem)
    rw [FSTDocumentSet.key_eq hd, hW] at hWk
    cases hfind : changes.find k with
    | none =>
      rw [hfind] at hWk
      rw [← hrep.complete k hfind, ← documentForKey_of_limited hV hWk]
      exact hS k
    | some m =>
      rw [hfind] at hWk
      rw [← hrep.select hfind, ← hWk]
      exact shows_next v _ m
  rcases hshows with ⟨hnone, -⟩ | ⟨d', e, hd', he, hdata⟩
  · cases hnone
  · cases hd'
    exact ⟨e, he, hdata⟩

/-- A refill brings no other refill. -/
theorem refill_ok (hv : v.InStep L) (hrep : LocalStore.Reports q L L' changes)
    {r : FSTViewDocumentChanges q}
    (hr : Computed q.Means v v.documentSet.documentForKey (v.start none) changes r)
    (hlimit : q.limit ≠ none) :
    ∃ r', v.computeChanges (L'.executeQuery q) (some r) = .ok r' ∧ Follows v L' r' := by
  have hmeans : q.Means = Applies := by
    rw [FSTQuery.Means]
    cases hl : q.limit with
    | none => exact absurd hl hlimit
    | some n => rfl
  rw [hmeans] at hr
  have hshown := fun {k d} (hd : r.lookup k = some d) => shows_of_first hv hrep (hmeans ▸ hr) hd
  obtain ⟨r', hr', hok⟩ := computeChanges_ok (v := v) (some r)
    (L'.executeQuery_keyed q) hr.describes
  -- the documents of the first computation agree with the store, so that there are only additions
  have hturns : ∀ kv ∈ (L'.executeQuery q).entries, v.turnRefills r.documentSet kv = false := by
    rintro ⟨k, m⟩ hmem
    obtain ⟨e, rfl, he, hsel⟩ := LocalStore.select_executeQuery (SortedMap.mem_entries.1 hmem)
    rw [turnRefills]
    cases hc : v.calculateChange (r.documentSet.documentForKey k) (q.select (.document e)) with
    | none => rfl
    | some c =>
      show refills q (q.lastDocInLimit r.documentSet) c = false
      rw [hsel] at hc
      obtain ⟨-, hnew, -⟩ := calculateChange_exact (k := k)
        (fun d hd => FSTDocumentSet.key_eq hd) (fun d hd => by
          cases hd
          exact L'.key_eq k e (Option.eq_some_of_filter_eq_some he)) hc
      cases htype : c.type with
      | removed => rw [after, htype] at hnew; cases hnew
      | added => unfold refills; split <;> simp_all
      | metadata => unfold refills; split <;> simp_all
      | modified =>
        cases hd : r.documentSet.documentForKey k with
        | none =>
          rw [hd] at hc
          cases hc
          cases htype
        | some d =>
          rw [hd] at hc
          obtain ⟨hne, hwait⟩ := not_shouldWait_of_modified hc htype
          obtain ⟨e', he', hdata | hw⟩ := hshown hd
          · rw [he] at he'
            cases he'
            exact absurd hdata hne
          · rw [he] at he'
            cases he'
            rw [hwait] at hw
            cases hw
  have hnoRefill : r'.needsRefill = false := by
    rw [hr'.needsRefill, List.any_eq_false]
    intro kv hkv
    rw [Bool.not_eq_true]
    exact hturns kv hkv
  refine ⟨r', by rw [hok, if_neg (by simp [hnoRefill])], hnoRefill, hmeans ▸ hr'.describes, ?_,
    hr'.mutated (hr.mutated hv.mutated)⟩
  obtain ⟨W, hdocs, hW⟩ := hr'.documents
  refine ⟨W, hdocs, fun k => ?_⟩
  rw [hW]
  cases hfind : (L'.executeQuery q).find k with
  | some m =>
    obtain ⟨e, rfl, he, hsel⟩ := LocalStore.select_executeQuery hfind
    rw [he, ← hsel]
    exact shows_next v _ _
  | none =>
    have hmatching : L'.matching q k = none := by
      rw [LocalStore.find_executeQuery, Option.map_eq_none_iff] at hfind
      exact hfind
    refine Or.inl ⟨?_, hmatching⟩
    by_contra hne
    obtain ⟨d, hd⟩ := Option.ne_none_iff_exists'.1 hne
    obtain ⟨e, he, -⟩ := hshown hd
    rw [hmatching] at he
    cases he

/-- The changes of a view in step with the store, refilled where necessary. -/
theorem computeWithRefill_ok (hv : v.InStep L) (hrep : LocalStore.Reports q L L' changes) :
    ∃ r, v.computeWithRefill L' changes = .ok r ∧ Follows v L' r := by
  obtain ⟨r, hr, hlimit, hok⟩ := exists_computeChanges (v := v) hrep.keyed
  cases hrefill : r.needsRefill with
  | true =>
    obtain ⟨r', hok', hfollows⟩ := refill_ok hv hrep hr fun h => by
      rw [hlimit h] at hrefill
      cases hrefill
    refine ⟨r', ?_, hfollows⟩
    rw [computeWithRefill, hok]
    show (if r.needsRefill = true then _ else _) = _
    rw [if_pos hrefill, hok']
  | false =>
    refine ⟨r, ?_, hrefill, hr.describes, ?_, hr.mutated hv.mutated⟩
    · rw [computeWithRefill, hok]
      show (if r.needsRefill = true then _ else _) = _
      rw [if_neg (by simp [hrefill])]
      rfl
    · obtain ⟨S, hV, hS⟩ := hv.shown
      obtain ⟨W, hdocs, hW⟩ := hr.documents
      obtain ⟨S', hS'⟩ := exists_next (v := v) S hrep.keyed
      refine ⟨S', ?_, fun k => ?_⟩
      · rw [hdocs]
        exact limited_eq_of_not_refill hV hrep.keyed (hr.needsRefill ▸ hrefill) hW hS'
      · rw [hS']
        cases hfind : changes.find k with
        | none =>
          rw [← hrep.complete k hfind]
          exact hS k
        | some m =>
          rw [← hrep.select hfind]
          exact shows_next v _ m

/-- **A change of the store.**  No assertion fails, the snapshot is faithful, and the view is in
step with the new store. -/
theorem emitNewSnapshot_ok (A : Sorting.Algorithm) (hv : v.InStep L)
    (hrep : LocalStore.Reports q L L' changes) {targetChange : Option (TargetChange K)}
    (hfits : v.Fits targetChange) :
    ∃ v' change r, v.emitNewSnapshot A L' changes targetChange = .ok (v', change) ∧
      Applied q.Means v r v' change ∧ v'.InStep L' := by
  obtain ⟨r, hr, hfollows⟩ := computeWithRefill_ok hv hrep
  obtain ⟨v', change, hok⟩ := exists_applyChangesToDocuments A hfollows.noRefill hfits
  have happlied := applyChangesToDocuments_ok A FSTQuery.Means.applies hfollows.describes hok
  refine ⟨v', change, r, ?_, happlied, ?_, ?_⟩
  · rw [emitNewSnapshot, hr]
    exact hok
  · rw [happlied.documentSet]
    exact hfollows.shown
  · rw [happlied.mutatedKeys, happlied.documentSet]
    exact hfollows.mutated

end FSTView

end SmartWeather.Firestore
