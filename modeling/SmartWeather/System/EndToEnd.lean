import Mathlib.Data.String.Basic
import SmartWeather.Firestore.Publishing
import SmartWeather.Screens.DeliveryOrder
import SmartWeather.Sensor.Format
import SmartWeather.Sensor.Posted
import SmartWeather.Sensor.Records

/-!
# From the sensors to the screens

The sensor program adds readings to the collection, the Firestore client of the app keeps up with
the collection in steps of its own, and its listener hands the snapshots to the controller, while
the screens come and go.  `end_to_end` follows the readings all the way: whatever the devices, the
network, the client and the user do, nothing traps, and once the client has caught up and the app
has handled its snapshots the list has the record of every reading in the collection, exactly once.
-/

namespace SmartWeather

open Runs Effects

/-! ### Snapshots at the app -/

/-- The changes of a snapshot event. -/
def AppEvent.snapshotChanges : AppEvent → Option (List DocumentChange)
  | .snapshot changes _ => some changes
  | _ => none

theorem flatMap_changes (es : List AppEvent) :
    es.flatMap AppEvent.changes = (es.filterMap AppEvent.snapshotChanges).flatten := by
  induction es with
  | nil => rfl
  | cons e es ih =>
    rw [List.flatMap_cons, ih]
    cases e <;> rfl

/-- The app handles some of the snapshots that bring the documents, in whatever it does besides: it
does not trap, its list has their records, and all records once it has handled all. -/
theorem handled_ok (lib : StandardLibrary) {docs : List Document}
    {changes : List (List DocumentChange)} {es : List AppEvent}
    (hwf : ∀ d ∈ docs, checkFields d.data = true)
    (hconv : ∀ d ∈ docs, Convertible (recordOf d))
    (hchanges : changes.flatten.Perm (docs.map Document.added))
    (hes : es.filterMap AppEvent.snapshotChanges <+: changes) :
    ∃ a, run (App.step lib) {} es = .ok a ∧ App.Current lib a ∧
      a.controller.dataList.Subperm (docs.map recordOf) ∧
      (es.filterMap AppEvent.snapshotChanges = changes →
        a.controller.dataList.Perm (docs.map recordOf)) := by
  obtain ⟨rest, hrest⟩ := hes
  have hsplit : changes.flatten = es.flatMap AppEvent.changes ++ rest.flatten := by
    rw [← hrest, List.flatten_append, flatMap_changes]
  -- the documents whose additions have been handled
  have hadded : ∀ c ∈ es.flatMap AppEvent.changes, c.document ∈ docs ∧ c = c.document.added := by
    intro c hc
    have hmem : c ∈ docs.map Document.added :=
      hchanges.mem_iff.1 (hsplit ▸ List.mem_append_left _ hc)
    obtain ⟨d, hd, rfl⟩ := List.mem_map.1 hmem
    exact ⟨hd, rfl⟩
  let handled := (es.flatMap AppEvent.changes).map DocumentChange.document
  have hmap : es.flatMap AppEvent.changes = handled.map Document.added := by
    rw [List.map_map]
    conv_lhs => rw [← List.map_id (es.flatMap AppEvent.changes)]
    exact List.map_congr_left fun c hc => (hadded c hc).2
  have hmem : ∀ d ∈ handled, d ∈ docs := by
    intro d hd
    obtain ⟨c, hc, rfl⟩ := List.mem_map.1 hd
    exact (hadded c hc).1
  obtain ⟨a, ha, hcurrent, hperm⟩ := delivery_ok lib (fun d hd => hwf d (hmem d hd))
    (fun d hd => hconv d (hmem d hd)) (List.Perm.of_eq hmap)
  have hdocs : docs.Perm (handled ++ rest.flatten.map DocumentChange.document) := by
    have hd := (hchanges.map DocumentChange.document).symm
    rw [List.map_map, hsplit, List.map_append] at hd
    have hid : docs.map (DocumentChange.document ∘ Document.added) = docs := List.map_id docs
    rwa [hid] at hd
  refine ⟨a, ha, hcurrent, ?_, fun hall => ?_⟩
  · refine hperm.subperm.trans ?_
    refine List.Subperm.trans ?_ (hdocs.map recordOf).symm.subperm
    rw [List.map_append]
    exact (List.sublist_append_left _ _).subperm
  · obtain rfl : rest = [] := by
      rw [hall] at hrest
      exact List.append_right_eq_self.1 hrest
    rw [List.flatten_nil, List.map_nil, List.append_nil] at hdocs
    exact hperm.trans (hdocs.map recordOf).symm

/-! ### Readings as documents -/

namespace Sensor

open Firestore

/-- A reading, as the data of a document. -/
abbrev Posted := {d : Dict // IsReading d}

/-- What the app reads of a document with a reading. -/
def readingFields (p : Posted) : Fields := fun a => (p.1.lookup a).map PyValue.stored

theorem PyValue.stored_injective : Function.Injective PyValue.stored := by
  intro v w h
  cases v <;> cases w <;> cases h <;> rfl

theorem readingFields_injective : Function.Injective readingFields := fun p p' h =>
  Subtype.ext (p.2.ext p'.2 fun key =>
    Option.map_injective PyValue.stored_injective (congrFun h key))

/-- Documents with readings, as the app sees them. -/
def reader : DocumentReader String Posted where
  documentID := Function.Embedding.refl String
  data := ⟨readingFields, readingFields_injective⟩

/-- The query of the app: all documents of the collection. -/
def dataCollection : FSTQuery String Posted where
  matchesDocument _ _ := true

/-- The record of a document with a reading. -/
def recordOfPosted (e : String × Posted) : SensorData := recordOf (document e.1 e.2.1)

theorem posted_ok (e : String × Posted) :
    checkFields (document e.1 e.2.1).data = true ∧ Convertible (recordOfPosted e) := by
  obtain ⟨id, d, i, m, rfl⟩ := e
  exact ⟨checkFields_document id i m, convertible_written id i m⟩

/-- The readings that a run has put in the collection. -/
def posted (u : StartUp) (cs : List Cycle) : List Posted :=
  (final (sensorPy u cs) {}).cloud.attach.map fun d =>
    ⟨d.1, cloud_isReading u cs (fun _ h => (List.not_mem_nil h).elim) d.1 d.2⟩

/-- The records of the documents that have the readings of a run. -/
def postedRecords (u : StartUp) (cs : List Cycle) (ids : List String) : List SensorData :=
  (ids.zip (posted u cs)).map recordOfPosted

end Sensor

/-! ### The whole way -/

section System

open Firestore Sensor

variable (A : Sorting.Algorithm) (lib : StandardLibrary) {ι : Type} [DecidableEq ι]

/-- **From the sensors to the screens.**  The sensor program has run.  The client has run on the
query of the app, and others have added documents to the collection meanwhile; the last change of
the store has brought it to the readings of the sensor program, under some identifiers.  If the app
has handled some of the snapshots of the listener, in whatever it did besides, it has not trapped
and its screens are current.  Its list has only records of the readings, each of them at most once,
and all of them once the app has handled all snapshots. -/
theorem end_to_end (u : StartUp) (cs : List Cycle) {es : List (ClientEvent ι dataCollection)}
    (hvalid : Along (Client.step A) Client.Valid (.start .empty) es)
    (hes : Along (Client.step A) Client.Publishes (.start .empty) es) (ids : List String)
    (hstore : ((es.foldl ClientEvent.storeAfter .empty).queryResult dataCollection).contents.Perm
      (ids.zip (posted u cs))) :
    ∃ c, run (Client.step A) (.start .empty) es = .ok c ∧
      ∀ info, c.info = some info → ∀ e ∈ info.listeners,
        (e.2.listener.options.waitForSyncWhenOnline = false ∨
          e.2.listener.raisedInitialEvent = true) →
      ∀ as : List AppEvent,
        as.filterMap AppEvent.snapshotChanges <+: e.2.events.map reader.documentChanges →
        ∃ a, run (App.step lib) {} as = .ok a ∧ App.Current lib a ∧
          a.controller.dataList.Subperm (postedRecords u cs ids) ∧
          (as.filterMap AppEvent.snapshotChanges = e.2.events.map reader.documentChanges →
            a.controller.dataList.Perm (postedRecords u cs ids)) := by
  obtain ⟨c, hc, hunwritten, hcstore, hinstep⟩ :=
    Client.run_publishes_ok A rfl LocalStore.unwritten_empty hvalid hes
  rw [← hcstore] at hstore
  refine ⟨c, hc, fun info hinfo e he hcalled as has => ?_⟩
  have hi := hinstep info hinfo
  have hadded := ((hi.listeners e he).delivered hcalled).added reader rfl
  rw [hi.view.contents_eq_queryResult hunwritten rfl] at hadded
  generalize (c.store.queryResult dataCollection).contents = contents at hstore hadded
  let docs := contents.map fun e => document e.1 e.2.1
  have hrecords : (docs.map recordOf).Perm (postedRecords u cs ids) := by
    rw [List.map_map]
    exact hstore.map recordOfPosted
  have hok : ∀ d ∈ docs, checkFields d.data = true ∧ Convertible (recordOf d) := by
    intro d hd
    obtain ⟨e, -, rfl⟩ := List.mem_map.1 hd
    exact posted_ok e
  have hchanges : (e.2.events.map reader.documentChanges).flatten.Perm
      (docs.map Document.added) := by
    rw [List.map_map]
    exact hadded
  obtain ⟨a, ha, hcurrent, hsub, hall⟩ := handled_ok lib (fun d hd => (hok d hd).1)
    (fun d hd => (hok d hd).2) hchanges has
  exact ⟨a, ha, hcurrent, hsub.trans hrecords.subperm, fun h => (hall h).trans hrecords⟩

end System

/-! ### A run -/

section Sample

open Firestore Sensor

/-- Rounds with the network, without it, and with it. -/
def samplePosts : List Cycle := twoStores ++ [sampleCycle .ok .succeeds]

/-- What the first round posts, and what the last one does. -/
def firstPost : Posted :=
  ⟨newData 1 (measurement 0xB9 (sampleCycle .ok .succeeds)), 1, _, rfl⟩

def lastPost : Posted :=
  ⟨newData 1 (measurement 0x39 (sampleCycle .ok .succeeds)), 1, _, rfl⟩

theorem posted_samplePosts : posted sampleStart samplePosts = [firstPost, lastPost] := by
  refine List.map_injective_iff.2 Subtype.val_injective ?_
  have hcloud : (posted sampleStart samplePosts).map Subtype.val =
      (final (sensorPy sampleStart samplePosts) {}).cloud := by
    rw [posted, List.map_map]
    exact List.attach_map_subtype_val _
  rw [hcloud]
  rfl

/-- The app adds its listener, and the documents come one after the other. -/
def sampleClientRun : List (ClientEvent ℕ dataCollection) :=
  [.addListener 0 {} ∅,
    .storeChange (LocalStore.empty.put ⟨"a", firstPost, .synced⟩)
      (LocalStore.report "a" (.document ⟨"a", firstPost, .synced⟩)) (some ⟨true, {"a"}, ∅, ∅⟩),
    .storeChange
      ((LocalStore.empty.put ⟨"a", firstPost, .synced⟩).put ⟨"b", lastPost, .synced⟩)
      (LocalStore.report "b" (.document ⟨"b", lastPost, .synced⟩)) (some ⟨true, {"b"}, ∅, ∅⟩)]

theorem sampleClientRun_valid :
    Along (Client.step Sorting.insertion) Client.Valid (.start .empty) sampleClientRun := by
  refine Client.along_of_inTurn _ (fun _ _ => ReportsChange.valid) ⟨trivial, ⟨?_, ?_⟩, ⟨?_, ?_⟩,
    trivial⟩
  · exact LocalStore.reports_put _ _
  · rintro _ ⟨⟩
    exact Finset.empty_subset _
  · exact LocalStore.reports_put _ _
  · rintro _ ⟨⟩
    exact Finset.empty_subset _

theorem sampleClientRun_publishes :
    Along (Client.step Sorting.insertion) Client.Publishes (.start .empty) sampleClientRun := by
  have hempty : (LocalStore.empty : LocalStore String Posted).Unwritten dataCollection :=
    LocalStore.unwritten_empty
  refine Client.along_of_inTurn (Q := fun L e => (Client.start L).Publishes e) _
    (fun _ e h => by cases e <;> exact h) ⟨trivial, ?_, ?_, trivial⟩
  · exact publishes_put hempty rfl rfl
  · exact publishes_put (hempty.put rfl) rfl rfl

/-- The store of the client comes to have the two readings that have been posted. -/
theorem end_to_end_sample :
    ∃ c, run (Client.step Sorting.insertion) (.start .empty) sampleClientRun = .ok c ∧
      ∀ info, c.info = some info → ∀ e ∈ info.listeners,
        (e.2.listener.options.waitForSyncWhenOnline = false ∨
          e.2.listener.raisedInitialEvent = true) →
      ∀ as : List AppEvent,
        as.filterMap AppEvent.snapshotChanges <+: e.2.events.map reader.documentChanges →
        ∃ a, run (App.step .reference) {} as = .ok a ∧ App.Current .reference a ∧
          a.controller.dataList.Subperm (postedRecords sampleStart samplePosts ["a", "b"]) ∧
          (as.filterMap AppEvent.snapshotChanges = e.2.events.map reader.documentChanges →
            a.controller.dataList.Perm (postedRecords sampleStart samplePosts ["a", "b"])) := by
  refine end_to_end Sorting.insertion .reference sampleStart samplePosts sampleClientRun_valid
    sampleClientRun_publishes ["a", "b"] ?_
  rw [posted_samplePosts]
  exact List.Perm.of_eq rfl

/-- The listener gets a snapshot for each of them. -/
example : (run (Client.step Sorting.insertion) (.start .empty) sampleClientRun).toOption.bind
    (fun c => c.info.map fun info => info.listeners.map fun e => e.2.events.length) =
      some [2] := rfl

end Sample

end SmartWeather
