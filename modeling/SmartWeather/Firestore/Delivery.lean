import Mathlib.Data.String.Basic
import SmartWeather.Database.Mirror
import SmartWeather.Firestore.ClientRuns

/-!
# The snapshots that the app gets

The query of the app has no limit, so that the changes of its snapshots say in full what happened.
`documentChanges` is what the app reads of a snapshot.  It is the difference between the collection
before and after the snapshot (`isDiff_documentChanges`); hence the snapshots of a client run, one
after the other, are a faithful feed of the collection (`run_feed`).
-/

namespace SmartWeather

/-! ### Differences and edits -/

/-- The contents of a document after a change. -/
def DocumentChange.after (c : DocumentChange) : Option Fields :=
  match c.type with
  | .removed => none
  | _ => some c.document.data

theorem DocumentChange.Records.after_eq {c : DocumentChange} {old new : Collection}
    (h : c.Records old new) : new c.document.documentID = c.after := by
  unfold Records at h
  unfold after
  cases htype : c.type with
  | added => rw [htype] at h; exact h.2
  | modified => rw [htype] at h; exact h.2
  | removed => rw [htype] at h; exact h.2

/-- The collection, edited change by change. -/
def applyChanges (c : Collection) (changes : List DocumentChange) : Collection :=
  changes.foldl (fun c e => Function.update c e.document.documentID e.after) c

theorem applyChanges_of_forall_ne {c : Collection} {changes : List DocumentChange} {i : String}
    (h : ∀ e ∈ changes, e.document.documentID ≠ i) : applyChanges c changes i = c i := by
  induction changes generalizing c with
  | nil => rfl
  | cons e changes ih =>
    rw [applyChanges, List.foldl_cons]
    refine (ih fun e' he' => h e' (List.mem_cons_of_mem _ he')).trans ?_
    exact Function.update_of_ne (h e List.mem_cons_self).symm _ _

theorem applyChanges_of_mem {c : Collection} {changes : List DocumentChange}
    (hnodup : (changes.map fun e => e.document.documentID).Nodup) {e : DocumentChange}
    (he : e ∈ changes) : applyChanges c changes e.document.documentID = e.after := by
  induction changes generalizing c with
  | nil => exact (List.not_mem_nil he).elim
  | cons e' changes ih =>
    rw [List.map_cons, List.nodup_cons] at hnodup
    rw [applyChanges, List.foldl_cons]
    rcases List.mem_cons.1 he with rfl | he
    · refine (applyChanges_of_forall_ne fun e' he' heq => ?_).trans (Function.update_self ..)
      exact hnodup.1 (heq ▸ List.mem_map_of_mem (f := fun e => e.document.documentID) he')
    · exact ih hnodup.2 he

/-- Edited by its differences, the old state becomes the new one. -/
theorem IsDiff.applyChanges_eq {old new : Collection} {changes : List DocumentChange}
    (h : IsDiff old new changes) : applyChanges old changes = new := by
  funext i
  by_cases hi : ∃ e ∈ changes, e.document.documentID = i
  · obtain ⟨e, he, rfl⟩ := hi
    rw [applyChanges_of_mem h.nodup he, (h.records e he).after_eq]
  · have hne : ∀ e ∈ changes, e.document.documentID ≠ i := fun e he heq => hi ⟨e, he, heq⟩
    rw [applyChanges_of_forall_ne hne, h.eq_of_forall_ne hne]

namespace Firestore

open Runs DocumentViewChange

variable {K D : Type}

/-- How the app sees keys and data. -/
structure DocumentReader (K D : Type) where
  documentID : K ↪ String
  data : D ↪ Fields

namespace DocumentReader

variable (reader : DocumentReader K D)

def document (d : FSTDocument K D) : Document := ⟨reader.documentID d.key, reader.data d.data⟩

def documentChange (c : FIRDocumentChange K D) : DocumentChange :=
  ⟨c.type, reader.document c.document.document⟩

/-- The collection with the given documents. -/
def collection (docs : List (K × D)) : Collection := fun i =>
  (docs.find? fun e => reader.documentID e.1 = i).map fun e => reader.data e.2

variable [LinearOrder K] {q : FSTQuery K D}

/-- The changes of a snapshot, if no assertion fails. -/
def documentChanges (s : ViewSnapshot q) : List DocumentChange :=
  match s.documentChangesForSnapshot false with
  | .ok changes => changes.map reader.documentChange
  | .error _ => []

theorem documentChanges_eq {s : ViewSnapshot q} (h : s.Faithful Applies) :
    reader.documentChanges s = (s.documentChanges.filter fun c => c.type ≠ .metadata).map
      fun c => ⟨c.type.documentChangeType, reader.document c.document⟩ := by
  obtain ⟨l, hl, hmap, -⟩ := h.documentChanges_edit false
  have hread : l.map reader.documentChange =
      (l.map fun c => (c.type, c.document)).map fun c => ⟨c.1, reader.document c.2.document⟩ := by
    rw [List.map_map]
    rfl
  rw [documentChanges, hl]
  show l.map reader.documentChange = _
  rw [hread, hmap, List.map_map]
  simp only [ViewSnapshot.Skipped, true_and]
  rfl

/-! ### The collection of a document set -/

variable {reader}

variable (reader) in
theorem collection_contents (t : FSTDocumentSet q) (k : K) :
    reader.collection t.contents (reader.documentID k) =
      (dataOf (t.documentForKey k)).map reader.data := by
  have hmem : ∀ e ∈ t.contents, e.1 = k → dataOf (t.documentForKey k) = some e.2 := by
    intro e he hk
    obtain ⟨d, hd, rfl⟩ := List.mem_map.1 he
    have hfind := FSTDocumentSet.mem_documents.1 hd
    rw [show d.key = k from hk] at hfind
    rw [hfind]
    rfl
  rw [collection]
  cases hfound : t.contents.find? fun e => reader.documentID e.1 = reader.documentID k with
  | some e =>
    have hk : e.1 = k := reader.documentID.injective (by simpa using List.find?_some hfound)
    rw [hmem e (List.mem_of_find?_eq_some hfound) hk]
    rfl
  | none =>
    cases hd : t.documentForKey k with
    | none => rfl
    | some d =>
      have := List.find?_eq_none.1 hfound d.bare
        (List.mem_map_of_mem (FSTDocumentSet.mem_documents_of_find hd))
      simp [FSTDocument.bare, FSTDocumentSet.key_eq hd] at this

omit [LinearOrder K] in
theorem collection_of_forall_ne {docs : List (K × D)} {i : String}
    (h : ∀ k, reader.documentID k ≠ i) : reader.collection docs i = none := by
  rw [collection, List.find?_eq_none.2 fun e _ => by simpa using h e.1]
  rfl

/-! ### A snapshot -/

/-- What a change says in full is what it records. -/
theorem records_of_exact {s t : FSTDocumentSet q} {c : DocumentViewChange K D}
    (h : c.Exact (s.documentForKey c.document.key) (t.documentForKey c.document.key))
    (hmeta : c.type ≠ .metadata) :
    DocumentChange.Records ⟨c.type.documentChangeType, reader.document c.document⟩
      (reader.collection s.contents) (reader.collection t.contents) := by
  have hs := collection_contents reader s c.document.key
  have ht := collection_contents reader t c.document.key
  obtain ⟨hnew, hold⟩ := h
  unfold DocumentChange.Records document
  cases htype : c.type with
  | metadata => exact absurd htype hmeta
  | added =>
    rw [htype] at hold
    rw [hold] at hs
    rw [hnew, after, htype] at ht
    exact ⟨hs, ht⟩
  | removed =>
    rw [htype] at hold
    rw [hold] at hs
    rw [hnew, after, htype] at ht
    exact ⟨hs, ht⟩
  | modified =>
    rw [htype] at hold
    obtain ⟨d, hd, hne⟩ := hold
    rw [hd] at hs
    rw [hnew, after, htype] at ht
    exact ⟨⟨_, hs, fun heq => hne (reader.data.injective heq)⟩, ht⟩

/-- **The changes of a snapshot are the differences of the collection.** -/
theorem isDiff_documentChanges {s : ViewSnapshot q} (h : s.Faithful Exact) :
    IsDiff (reader.collection s.oldDocuments.contents) (reader.collection s.documents.contents)
      (reader.documentChanges s) := by
  rw [reader.documentChanges_eq (h.mono Exact.applies)]
  refine ⟨?_, ?_, fun i hi => ?_⟩
  · rw [List.map_map]
    have hkeys : ((s.documentChanges.filter fun c => c.type ≠ .metadata).map
        fun c => c.document.key).Nodup := (List.filter_sublist.map _).nodup h.nodup
    have := hkeys.map reader.documentID.injective
    rwa [List.map_map] at this
  · intro c hc
    obtain ⟨c', hc', rfl⟩ := List.mem_map.1 hc
    obtain ⟨hmem, hmeta⟩ := List.mem_filter.1 hc'
    exact records_of_exact (h.means c' hmem) (by simpa using hmeta)
  · obtain ⟨k, rfl⟩ : ∃ k, reader.documentID k = i := by
      by_contra hne
      rw [not_exists] at hne
      exact hi (by rw [collection_of_forall_ne hne, collection_of_forall_ne hne])
    rw [collection_contents, collection_contents] at hi
    obtain ⟨c, hc, rfl, hmeta⟩ := h.complete k fun heq => hi (by rw [heq])
    exact ⟨_, List.mem_map_of_mem (List.mem_filter.2 ⟨hc, by simpa using hmeta⟩), rfl⟩

end DocumentReader

/-! ### The feed of a listener -/

section Feed

variable [LinearOrder K] {q : FSTQuery K D} {ι σ : Type} (reader : DocumentReader K D)
  (order : ViewSnapshot q → Shuffle (WeakObjectWrapper ι))

/-- What has happened in the collection when a snapshot comes, and the snapshot. -/
def feedEvents (s : ViewSnapshot q) : List (FeedEvent ι) :=
  (reader.documentChanges s).map (fun c => .edit c.document.documentID c.after) ++
    [.snapshot (reader.documentChanges s) (order s)]

variable {reader order} {types : ι → ListenerType} {tell : ι → List SensorData → σ → σ}

theorem run_edits (ls : Listeners ι σ) (s : Feed ι σ) (changes : List DocumentChange) :
    run (Feed.step ls) s (changes.map fun c => .edit c.document.documentID c.after) =
      .ok { s with collection := applyChanges s.collection changes } := by
  induction changes generalizing s with
  | nil => rfl
  | cons c changes ih =>
    rw [List.map_cons, run_cons_ok rfl, ih]
    rfl

theorem along_edits (ls : Listeners ι σ) (s : Feed ι σ) (changes : List DocumentChange) :
    Along (Feed.step ls) Feed.Faithful s
      (changes.map fun c => .edit c.document.documentID c.after) := by
  induction changes generalizing s with
  | nil => exact trivial
  | cons c changes ih => exact ⟨trivial, fun s' _ => ih s'⟩

variable (reader order types tell) in
/-- The feed of the snapshots that have been delivered. -/
theorem Delivered.feed {G : List (K × D) → List (K × D) → Prop} {events : List (ViewSnapshot q)}
    {contents : List (K × D)} (h : Delivered G events contents) (hlimit : q.limit = none)
    (controller : FirebaseController ι) (l : σ) :
    ∃ s, run (Feed.step (totalListeners types tell)) (Feed.start Collection.empty controller l)
        (events.flatMap (feedEvents reader order)) = .ok s ∧
      s.collection = reader.collection contents ∧ s.delivered = reader.collection contents ∧
      Along (Feed.step (totalListeners types tell)) Feed.Faithful
        (Feed.start Collection.empty controller l) (events.flatMap (feedEvents reader order)) := by
  induction h with
  | nil => exact ⟨_, rfl, rfl, rfl, trivial⟩
  | @snoc events old new s _ hs _ hold hnew ih =>
    obtain ⟨m, hm, hcollection, hdelivered, halong⟩ := ih
    have hmeans : q.Means = Exact := by rw [FSTQuery.Means, hlimit]
    have hdiff : IsDiff (reader.collection old) (reader.collection new)
        (reader.documentChanges s) := by
      rw [← hold, ← hnew]
      exact DocumentReader.isDiff_documentChanges (hmeans ▸ hs)
    -- the edits before the snapshot, and then the snapshot
    have hedits := run_edits (totalListeners types tell) m (reader.documentChanges s)
    rw [hcollection, hdiff.applyChanges_eq] at hedits
    obtain ⟨l', hl'⟩ := Feed.step_snapshot_eq types tell
      { m with collection := reader.collection new } (reader.documentChanges s) (order s)
    refine ⟨⟨reader.collection new, reader.collection new, { m.controller with
      dataList := m.controller.dataList ++ (reader.documentChanges s).filterMap recordOf? }, l'⟩,
      ?_, rfl, rfl, ?_⟩
    · rw [List.flatMap_append, run_append_ok hm, List.flatMap_singleton, feedEvents,
        run_append_ok hedits, run_cons_ok hl', run_nil]
    · rw [List.flatMap_append, along_append]
      refine ⟨halong, fun t ht => ?_⟩
      rw [hm] at ht
      cases ht
      rw [List.flatMap_singleton, feedEvents, along_append]
      refine ⟨along_edits _ m _, fun t ht => ?_⟩
      rw [hedits] at ht
      cases ht
      refine ⟨?_, fun _ _ => trivial⟩
      show IsDiff m.delivered (reader.collection new) (reader.documentChanges s)
      rwa [hdelivered]

end Feed

namespace Client

variable [LinearOrder K] [DecidableEq D] {q : FSTQuery K D} {ι κ σ : Type} [DecidableEq κ]
  (A : Sorting.Algorithm) (reader : DocumentReader K D)
  (order : ViewSnapshot q → Shuffle (WeakObjectWrapper ι))
  (types : ι → ListenerType) (tell : ι → List SensorData → σ → σ)

/-- **The feed of the collection.**  In every run of the client on a query without a limit, the
snapshots that a listener gets are a faithful feed of the collection, and the last one leaves the
documents of the view. -/
theorem run_feed {L : LocalStore K D} {es : List (ClientEvent κ q)}
    (hvalid : Along (step A) Valid (start L) es) (hlimit : q.limit = none)
    (controller : FirebaseController ι) (l : σ) :
    ∃ c, run (step A) (start L) es = .ok c ∧
      ∀ info, c.info = some info → ∀ e ∈ info.listeners,
        (e.2.listener.options.waitForSyncWhenOnline = false ∨
          e.2.listener.raisedInitialEvent = true) →
        Along (Feed.step (totalListeners types tell)) Feed.Faithful
            (Feed.start Collection.empty controller l)
            (e.2.events.flatMap (feedEvents reader order)) ∧
          ∃ s, run (Feed.step (totalListeners types tell))
              (Feed.start Collection.empty controller l)
              (e.2.events.flatMap (feedEvents reader order)) = .ok s ∧
            s.delivered = reader.collection info.view.documentSet.contents := by
  obtain ⟨c, hc, hinstep, -⟩ := run_ok A steps_true hvalid (along_allowed_true A _ es)
  refine ⟨c, hc, fun info hinfo e he hcalled => ?_⟩
  have hdelivered := ((hinstep info hinfo).listeners e he).delivered hcalled
  obtain ⟨s, hs, -, hs', halong⟩ := hdelivered.feed reader order types tell hlimit controller l
  exact ⟨halong, s, hs, hs'⟩

end Client

/-! ### A run -/

/-- All documents of a collection of numbers. -/
def numbers : FSTQuery String ℤ where
  matchesDocument _ _ := true

/-- Every field of the document of a number has this number. -/
def numberReader : DocumentReader String ℤ where
  documentID := Function.Embedding.refl String
  data := ⟨fun n _ => some (.integer n), fun m n h => by simpa using congrFun h ""⟩

/-- A listener is added.  Two documents come, and the backend is current; then the first document
changes, and the second one is deleted. -/
def numbersRun : List (ClientEvent ℕ numbers) :=
  [.addListener 0 {} ∅,
    .storeChange (LocalStore.empty.put ⟨"a", 7, .synced⟩)
      (LocalStore.report "a" (.document ⟨"a", 7, .synced⟩)) none,
    .storeChange ((LocalStore.empty.put ⟨"a", 7, .synced⟩).put ⟨"b", 8, .synced⟩)
      (LocalStore.report "b" (.document ⟨"b", 8, .synced⟩)) (some ⟨true, {"a", "b"}, ∅, ∅⟩),
    .storeChange
      (((LocalStore.empty.put ⟨"a", 7, .synced⟩).put ⟨"b", 8, .synced⟩).put ⟨"a", 9, .synced⟩)
      (LocalStore.report "a" (.document ⟨"a", 9, .synced⟩)) none,
    .storeChange
      ((((LocalStore.empty.put ⟨"a", 7, .synced⟩).put ⟨"b", 8, .synced⟩).put
        ⟨"a", 9, .synced⟩).drop "b")
      (LocalStore.report "b" (.deletedDocument "b")) (some ⟨true, ∅, ∅, {"b"}⟩)]

theorem numbersRun_valid :
    Along (Client.step Sorting.insertion) Client.Valid (.start .empty) numbersRun := by
  refine Client.along_of_inTurn _ (fun _ _ => ReportsChange.valid) ⟨trivial, ⟨?_, ?_⟩, ⟨?_, ?_⟩,
    ⟨?_, ?_⟩, ⟨?_, ?_⟩, trivial⟩
  · exact LocalStore.reports_put _ _
  · exact fun _ h => (Option.some_ne_none _ h.symm).elim
  · exact LocalStore.reports_put _ _
  · rintro _ ⟨⟩
    exact Finset.empty_subset _
  · exact LocalStore.reports_put _ _
  · exact fun _ h => (Option.some_ne_none _ h.symm).elim
  · exact LocalStore.reports_drop _ _
  · rintro _ ⟨⟩
    exact Finset.empty_subset _

theorem run_feed_numbers :
    ∃ c, run (Client.step Sorting.insertion) (.start .empty) numbersRun = .ok c ∧
      ∀ info, c.info = some info → ∀ e ∈ info.listeners,
        (e.2.listener.options.waitForSyncWhenOnline = false ∨
          e.2.listener.raisedInitialEvent = true) →
        Along (Feed.step noListeners) Feed.Faithful emptyFeed
            (e.2.events.flatMap (feedEvents numberReader fun _ => Shuffle.id _)) ∧
          ∃ s, run (Feed.step noListeners) emptyFeed
              (e.2.events.flatMap (feedEvents numberReader fun _ => Shuffle.id _)) = .ok s ∧
            s.delivered = numberReader.collection info.view.documentSet.contents :=
  Client.run_feed Sorting.insertion numberReader (fun _ => Shuffle.id _) _ _ numbersRun_valid rfl
    {} ()

end Firestore

end SmartWeather
