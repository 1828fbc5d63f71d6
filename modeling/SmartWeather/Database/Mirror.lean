import SmartWeather.Database.FirebaseController
import SmartWeather.Library.Runs

/-!
# Does the list of records mirror the collection?

A `Feed` is the collection, the state of it that was delivered last, and the controller with its
listeners.  The collection is edited one document at a time; a snapshot delivers the differences
between the last delivered state and the present one; an error delivers nothing.  The listeners may
do anything with the lists they are told of.

`Mirrors dataList c` says that the list has exactly one record for each document of `c` that passes
`dataChecker`, with its identifier and contents.  The controller appends a record for every accepted
change, whatever its type, and never takes one out.  `mirrors_append_iff` is what one snapshot does
to a mirror, `mirrors_iff` the same for whole runs: the list mirrors the collection after every
snapshot exactly if no snapshot touches a document that was well formed when it was last delivered.
-/

namespace SmartWeather

open Runs

/-- The list has exactly one record for each accepted document of `c`, and no other record. -/
structure Mirrors (dataList : List SensorData) (c : Collection) : Prop where
  nodup : (dataList.map SensorData.id).Nodup
  mem_iff : ∀ r, r ∈ dataList ↔ ∃ i f, c i = some f ∧ checkFields f = true ∧ r = recordOf ⟨i, f⟩

theorem mirrors_empty : Mirrors [] Collection.empty := by
  refine ⟨List.nodup_nil, fun r => ?_⟩
  simp [Collection.empty]

/-- No change is about a document that was accepted when it was last delivered. -/
def TouchesNoRecord (old : Collection) (changes : List DocumentChange) : Prop :=
  ∀ c ∈ changes, ∀ f, old c.document.documentID = some f → checkFields f = false

section Snapshot

variable {old new : Collection} {changes : List DocumentChange} {dataList : List SensorData}

theorem map_id_filterMap_sublist (changes : List DocumentChange) :
    List.Sublist ((changes.filterMap recordOf?).map SensorData.id)
      (changes.map fun c => c.document.documentID) := by
  induction changes with
  | nil => exact List.Sublist.slnil
  | cons c changes ih =>
    cases h : dataChecker c with
    | false => simpa [recordOf?, h] using ih.cons _
    | true => simpa [recordOf?, h] using ih.cons_cons c.document.documentID

theorem mirrors_append (hm : Mirrors dataList old) (hd : IsDiff old new changes)
    (ht : TouchesNoRecord old changes) :
    Mirrors (dataList ++ changes.filterMap recordOf?) new := by
  constructor
  · rw [List.map_append, List.nodup_append']
    refine ⟨hm.nodup, (map_id_filterMap_sublist changes).nodup hd.nodup, ?_⟩
    -- a common identifier would be that of a document with a record
    intro i hi hi'
    obtain ⟨r, hr, rfl⟩ := List.mem_map.1 hi
    obtain ⟨j, f, hf, hacc, rfl⟩ := (hm.mem_iff r).1 hr
    obtain ⟨c, hc, hci⟩ := List.mem_map.1 ((map_id_filterMap_sublist changes).subset hi')
    rw [recordOf_id] at hci
    simp [ht c hc f (hci ▸ hf)] at hacc
  · intro r
    rw [List.mem_append, mem_filterMap_recordOf?]
    constructor
    · rintro (hr | ⟨c, hc, hacc, rfl⟩)
      · -- a record of the list belongs to a document that no change touches
        obtain ⟨i, f, hf, hacc, rfl⟩ := (hm.mem_iff r).1 hr
        refine ⟨i, f, ?_, hacc, rfl⟩
        rw [← hd.eq_of_forall_ne fun c hc hci => ?_, hf]
        simp [ht c hc f (hci ▸ hf)] at hacc
      · have hrec := hd.records c hc
        unfold DocumentChange.Records at hrec
        cases htype : c.type with
        | added => rw [htype] at hrec; exact ⟨_, _, hrec.2, hacc, rfl⟩
        | modified => rw [htype] at hrec; exact ⟨_, _, hrec.2, hacc, rfl⟩
        | removed =>
          -- the document of a removal is the one delivered last, which had no record
          rw [htype] at hrec
          exact absurd hacc (by rw [dataChecker, ht c hc _ hrec.1]; simp)
    · rintro ⟨i, f, hf, hacc, rfl⟩
      by_cases htouch : ∃ c ∈ changes, c.document.documentID = i
      · obtain ⟨c, hc, rfl⟩ := htouch
        refine Or.inr ⟨c, hc, ?_⟩
        have hrec := hd.records c hc
        unfold DocumentChange.Records at hrec
        have hdata : f = c.document.data := by
          cases htype : c.type <;> rw [htype] at hrec <;> simp_all
        subst hdata
        exact ⟨hacc, rfl⟩
      · -- an untouched document was there before, and had its record
        refine Or.inl ((hm.mem_iff _).2 ⟨i, f, ?_, hacc, rfl⟩)
        rw [hd.eq_of_forall_ne fun c hc hci => htouch ⟨c, hc, hci⟩, hf]

/-- **One snapshot.**  A mirror of the old state becomes a mirror of the new one exactly if the
snapshot touches no document that has a record. -/
theorem mirrors_append_iff (hm : Mirrors dataList old) (hd : IsDiff old new changes) :
    Mirrors (dataList ++ changes.filterMap recordOf?) new ↔ TouchesNoRecord old changes := by
  refine ⟨fun hnew c hc f hf => ?_, mirrors_append hm hd⟩
  by_contra hacc
  rw [Bool.not_eq_false] at hacc
  have hold : recordOf ⟨c.document.documentID, f⟩ ∈ dataList :=
    (hm.mem_iff _).2 ⟨_, f, hf, hacc, rfl⟩
  have hrec := hd.records c hc
  unfold DocumentChange.Records at hrec
  by_cases hdoc : dataChecker c = true
  · -- a second record with the same identifier has been appended
    have happ : recordOf c.document ∈ changes.filterMap recordOf? :=
      mem_filterMap_recordOf?.2 ⟨c, hc, hdoc, rfl⟩
    have hnd := hnew.nodup
    rw [List.map_append, List.nodup_append'] at hnd
    exact hnd.2.2 (List.mem_map_of_mem hold)
      (List.mem_map.2 ⟨recordOf c.document, happ, rfl⟩)
  · -- the record of the former contents is still there
    obtain ⟨i, f', hf', hacc', heq⟩ := (hnew.mem_iff _).1 (List.mem_append_left _ hold)
    have hi : c.document.documentID = i := congrArg SensorData.id heq
    subst hi
    cases htype : c.type <;> rw [htype] at hrec <;> simp_all [dataChecker]

end Snapshot

/-! ### Runs -/

variable {ι σ : Type}

/-- Listeners that handle every list. -/
def totalListeners (types : ι → ListenerType) (tell : ι → List SensorData → σ → σ) :
    Listeners ι σ := ⟨types, fun l dataList s => .ok (tell l dataList s)⟩

theorem foldlM_total (types : ι → ListenerType) (tell : ι → List SensorData → σ → σ)
    (dataList : List SensorData) (os : List ι) (s : σ) :
    os.foldlM (fun s o => (totalListeners types tell).onDataListChange o dataList s) s =
      .ok (os.foldl (fun s o => tell o dataList s) s) := by
  induction os generalizing s with
  | nil => rfl
  | cons o os ih => exact ih (tell o dataList s)

/-- The collection, what was delivered of it, and the controller with its listeners. -/
structure Feed (ι σ : Type) where
  collection : Collection
  delivered : Collection
  controller : FirebaseController ι
  listeners : σ

inductive FeedEvent (ι : Type)
  /-- A document is written (`some`) or deleted (`none`). -/
  | edit (id : String) (contents : Option Fields)
  | snapshot (changes : List DocumentChange) (order : Shuffle (WeakObjectWrapper ι))
  | error (message : String)

namespace Feed

variable (ls : Listeners ι σ)

def step (s : Feed ι σ) : FeedEvent ι → Except Trap (Feed ι σ)
  | .edit i contents => .ok { s with collection := Function.update s.collection i contents }
  | .snapshot changes order =>
      (FirebaseController.snapshotListener ls (fun _ => true) order (some ⟨changes⟩) none
        s.controller s.listeners).map fun (controller, listeners) =>
          { s with delivered := s.collection, controller, listeners }
  | .error message =>
      (FirebaseController.snapshotListener ls (fun _ => true) (Shuffle.id _) none (some message)
        s.controller s.listeners).map fun (controller, listeners) =>
          { s with controller, listeners }

/-- A snapshot delivers exactly what changed since the last delivery. -/
def Faithful (s : Feed ι σ) : FeedEvent ι → Prop
  | .snapshot changes _ => IsDiff s.delivered s.collection changes
  | _ => True

/-- After a snapshot the list mirrors the collection. -/
def MirrorsAfter (s : Feed ι σ) : FeedEvent ι → Prop
  | .snapshot changes order => ∀ s', step ls s (.snapshot changes order) = .ok s' →
      Mirrors s'.controller.dataList s'.collection
  | _ => True

/-- A snapshot touches no document that was accepted when it was last delivered. -/
def OnlyNewRecords (s : Feed ι σ) : FeedEvent ι → Prop
  | .snapshot changes _ => TouchesNoRecord s.delivered changes
  | _ => True

/-- The app has just subscribed to the collection `c`. -/
def start (c : Collection) (controller : FirebaseController ι) (listeners : σ) : Feed ι σ :=
  ⟨c, Collection.empty, controller, listeners⟩

variable {ls} {types : ι → ListenerType} {tell : ι → List SensorData → σ → σ}

variable (types tell) in
theorem step_snapshot_eq (s : Feed ι σ) (changes : List DocumentChange)
    (order : Shuffle (WeakObjectWrapper ι)) :
    ∃ l, step (totalListeners types tell) s (.snapshot changes order) =
      .ok ⟨s.collection, s.collection,
        { s.controller with
          dataList := s.controller.dataList ++ changes.filterMap recordOf? }, l⟩ := by
  have halive : s.controller.listeners.AllAlive fun _ => true := fun _ _ => rfl
  obtain ⟨os, -, h⟩ := FirebaseController.snapshotListener_eq (totalListeners types tell)
    s.listeners order ⟨changes⟩ none halive
  simp only [foldlM_total] at h
  exact ⟨_, by rw [step, h]; rfl⟩

theorem mirrorsAfter_iff {s : Feed ι σ} {e : FeedEvent ι}
    (hinv : Mirrors s.controller.dataList s.delivered) (hf : Faithful s e) :
    MirrorsAfter (totalListeners types tell) s e ↔ OnlyNewRecords s e := by
  cases e with
  | edit i contents => exact Iff.rfl
  | error message => exact Iff.rfl
  | snapshot changes order =>
    obtain ⟨l, hl⟩ := step_snapshot_eq types tell s changes order
    rw [OnlyNewRecords, ← mirrors_append_iff hinv hf]
    constructor
    · exact fun h => h _ hl
    · intro h s' hs'
      rw [hl] at hs'
      cases hs'
      exact h

/-- A step that leaves a mirror behind keeps the invariant of the run. -/
theorem mirrors_delivered_step {s s' : Feed ι σ} {e : FeedEvent ι}
    (hinv : Mirrors s.controller.dataList s.delivered)
    (hm : MirrorsAfter (totalListeners types tell) s e)
    (hs : step (totalListeners types tell) s e = .ok s') :
    Mirrors s'.controller.dataList s'.delivered := by
  cases e with
  | edit i contents => cases hs; exact hinv
  | error message => cases hs; exact hinv
  | snapshot changes order =>
    have h := hm s' hs
    obtain ⟨l, hl⟩ := step_snapshot_eq types tell s changes order
    rw [hl] at hs
    cases hs
    exact h

/-- **When the list mirrors the collection.**  In every run from the subscription on, the list
mirrors the collection after every snapshot exactly if no snapshot touches a document that was
accepted when it was last delivered. -/
theorem mirrors_iff (c : Collection) (controller : FirebaseController ι) (l : σ)
    (hempty : controller.dataList = []) (es : List (FeedEvent ι))
    (hf : Along (step (totalListeners types tell)) Faithful (start c controller l) es) :
    Along (step (totalListeners types tell)) (MirrorsAfter (totalListeners types tell))
        (start c controller l) es ↔
      Along (step (totalListeners types tell)) OnlyNewRecords (start c controller l) es := by
  refine along_iff (I := fun s => Mirrors s.controller.dataList s.delivered) hf ?_ ?_ ?_
  · rw [start, hempty]
    exact mirrors_empty
  · exact fun s e => mirrorsAfter_iff
  · exact fun s e s' hinv _ => mirrors_delivered_step hinv

end Feed

/-! ### Documents that are added, and one that is then edited -/

/-- Contents that are malformed: every field is a text. -/
def onlyText (value : String) : Fields := fun _ => some (.string value)

/-- The app without screens. -/
def noListeners : Listeners Empty Unit := totalListeners (fun _ => .data) fun _ _ s => s

/-- The subscription to a collection without documents. -/
def emptyFeed : Feed Empty Unit := Feed.start Collection.empty {} ()

/-- A document and a malformed one are written and delivered. -/
def addedRun : List (FeedEvent Empty) :=
  [.edit "a" (some (sampleFields "Red" "1.0")), .edit "m" (some (onlyText "1.0")),
   .snapshot [(Document.mk "a" (sampleFields "Red" "1.0")).added,
     (Document.mk "m" (onlyText "1.0")).added] (Shuffle.id _)]

/-- The collection that has been delivered then. -/
def deliveredFirst : Collection :=
  Function.update (Function.update Collection.empty "a" (some (sampleFields "Red" "1.0"))) "m"
    (some (onlyText "1.0"))

/-- Another document is written, the malformed one is changed, and both are delivered. -/
def thirdRun : List (FeedEvent Empty) :=
  [.edit "b" (some (sampleFields "Red" "3.0")), .edit "m" (some (onlyText "2.0")),
   .snapshot [(Document.mk "b" (sampleFields "Red" "3.0")).added,
     ⟨.modified, ⟨"m", onlyText "2.0"⟩⟩] (Shuffle.id _)]

/-- The red value of the first document is changed and delivered. -/
def editedRun : List (FeedEvent Empty) :=
  [.edit "a" (some (sampleFields "Red" "2.0")),
   .snapshot [⟨.modified, ⟨"a", sampleFields "Red" "2.0"⟩⟩] (Shuffle.id _)]

theorem isDiff_added : IsDiff Collection.empty deliveredFirst
    [(Document.mk "a" (sampleFields "Red" "1.0")).added,
      (Document.mk "m" (onlyText "1.0")).added] := by
  refine IsDiff.snoc (IsDiff.snoc (isDiff_refl _) (c := (Document.mk "a" _).added) ?_ ?_)
    (c := (Document.mk "m" _).added) ?_ ?_
  · simp
  · exact ⟨rfl, Function.update_self ..⟩
  · simp [Document.added]
  · exact ⟨rfl, Function.update_self ..⟩

theorem isDiff_third : IsDiff deliveredFirst
    (Function.update (Function.update deliveredFirst "b" (some (sampleFields "Red" "3.0"))) "m"
      (some (onlyText "2.0")))
    [(Document.mk "b" (sampleFields "Red" "3.0")).added, ⟨.modified, ⟨"m", onlyText "2.0"⟩⟩] := by
  have hne : onlyText "1.0" ≠ onlyText "2.0" := fun h => by
    have hvalue := congrFun h "Red"
    simp [onlyText] at hvalue
  refine IsDiff.snoc (IsDiff.snoc (isDiff_refl _) (c := (Document.mk "b" _).added) ?_ ?_)
    (c := ⟨.modified, ⟨"m", _⟩⟩) ?_ ?_
  · simp
  · exact ⟨rfl, Function.update_self ..⟩
  · simp [Document.added]
  · exact ⟨⟨_, Function.update_self .., hne⟩, Function.update_self ..⟩

theorem isDiff_edited : IsDiff deliveredFirst
    (Function.update deliveredFirst "a" (some (sampleFields "Red" "2.0")))
    [⟨.modified, ⟨"a", sampleFields "Red" "2.0"⟩⟩] := by
  have hne : sampleFields "Red" "1.0" ≠ sampleFields "Red" "2.0" := fun h => by
    have hvalue := congrFun h "Red"
    simp [sampleFields] at hvalue
  refine IsDiff.snoc (isDiff_refl _) (c := ⟨.modified, ⟨"a", _⟩⟩) ?_ ?_
  · simp
  · exact ⟨⟨_, rfl, hne⟩, Function.update_self ..⟩

theorem faithful_addedRun {es : List (FeedEvent Empty)} {s : Feed Empty Unit}
    (hs : run (Feed.step noListeners) emptyFeed addedRun = .ok s)
    (hes : Along (Feed.step noListeners) Feed.Faithful s es) :
    Along (Feed.step noListeners) Feed.Faithful emptyFeed (addedRun ++ es) := by
  refine along_append.2 ⟨.cons trivial rfl (.cons trivial rfl (.cons isDiff_added rfl trivial)),
    fun t ht => ?_⟩
  rw [hs] at ht
  cases ht
  exact hes

/-- The run of `mirrors_iff` in which the only document that changes is malformed. -/
theorem mirrors_iff_addedRun :
    Along (Feed.step noListeners) (Feed.MirrorsAfter noListeners) emptyFeed
      (addedRun ++ thirdRun) := by
  refine (Feed.mirrors_iff Collection.empty {} () rfl (addedRun ++ thirdRun) (faithful_addedRun rfl
    (.cons trivial rfl (.cons trivial rfl (.cons isDiff_third rfl trivial))))).2 ?_
  refine .cons trivial rfl (.cons trivial rfl (.cons (fun c _ f hf => ?_) rfl
    (.cons trivial rfl (.cons trivial rfl (.cons (fun c hc f hf => ?_) rfl trivial)))))
  · exact (Option.some_ne_none _ hf.symm).elim
  · rcases List.mem_pair.1 hc with rfl | rfl
    · exact (Option.some_ne_none _ hf.symm).elim
    · obtain rfl : onlyText "1.0" = f := Option.some.inj hf
      rfl

/-- After the edit the list has a record of the old contents and one of the new contents. -/
theorem editedRun_not_mirrored :
    Along (Feed.step noListeners) Feed.Faithful emptyFeed (addedRun ++ editedRun) ∧
      ¬ Along (Feed.step noListeners) (Feed.MirrorsAfter noListeners) emptyFeed
        (addedRun ++ editedRun) := by
  constructor
  · exact faithful_addedRun rfl (.cons trivial rfl (.cons isDiff_edited rfl trivial))
  · intro h
    have hlast := ((((h.2 _ rfl).2 _ rfl).2 _ rfl).2 _ rfl).1 _ rfl
    have hids : ["a", "a"].Nodup := hlast.nodup
    simp at hids

end SmartWeather
