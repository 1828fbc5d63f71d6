import SmartWeather.Firestore.EventManager

/-!
# Listeners keep in step with the query

The snapshots that a handler gets follow each other (`Delivered`): each is faithful and begins
where the one before it ended, so that a list edited as they say has the contents that the last one
left (`Delivered.docs_eq`).  `Listening.InStep` is the invariant of a listener: once its handler has
been called, it has been delivered the contents of the view; before that nothing, and the view is
empty unless the listener waits for the backend.  `deliver_ok` and `applyChangedOnlineState_ok` keep
it.

`G` restricts the steps that the view takes; it is `fun _ _ => True` for all runs.
-/

namespace SmartWeather.Firestore

open Runs DocumentViewChange

variable {K D : Type} [LinearOrder K] {q : FSTQuery K D}

/-! ### Snapshots at a handler -/

theorem followSnapshot_eq {s : ViewSnapshot q} (h : s.Faithful Applies) :
    followSnapshot s.oldDocuments.contents s = some s.documents.contents := by
  obtain ⟨l, hl, -, hedit⟩ := h.documentChanges_edit false
  rw [followSnapshot, hl]
  exact hedit

/-- The first snapshot of a listener has all documents as additions. -/
theorem faithful_fromInitialDocuments (documents : FSTDocumentSet q) (mutatedKeys : Finset K)
    (fromCache excludes : Bool) :
    (ViewSnapshot.fromInitialDocuments documents mutatedKeys fromCache excludes).Faithful
      Exact where
  nodup := by
    simpa [ViewSnapshot.fromInitialDocuments, List.map_map, Function.comp_def] using
      documents.nodup_keys
  ordered := List.pairwise_map.2 documents.increasing
  means c hc := by
    obtain ⟨d, hd, rfl⟩ := List.mem_map.1 hc
    exact ⟨FSTDocumentSet.mem_documents.1 hd, rfl⟩
  complete k hk := by
    cases hfind : documents.documentForKey k with
    | none => exact absurd (congrArg dataOf hfind.symm) hk
    | some d =>
      refine ⟨⟨d, .added⟩, List.mem_map.2 ⟨d, FSTDocumentSet.mem_documents_of_find hfind, rfl⟩,
        FSTDocumentSet.key_eq hfind, fun h => (nomatch h)⟩

/-- Without changes the contents are the same. -/
theorem ViewSnapshot.Faithful.contents_eq {R : DocumentViewChange.Meaning K D} {s : ViewSnapshot q}
    (h : s.Faithful R) (hnone : s.documentChanges = []) :
    s.oldDocuments.contents = s.documents.contents := by
  refine FSTDocumentSet.contents_ext fun k => ?_
  by_contra hne
  obtain ⟨c, hc, -⟩ := h.complete k hne
  rw [hnone] at hc
  exact (List.not_mem_nil hc).elim

theorem contents_eq_nil {s : FSTDocumentSet q} (h : s.isEmpty = true) : s.contents = [] := by
  have hdocs : s.documents = (FSTDocumentSet.empty q).documents :=
    FSTDocumentSet.documents_ext (FSTDocumentSet.isEmpty_iff.1 h)
  rw [FSTDocumentSet.contents, hdocs]
  rfl

/-! ### What a listener does with a snapshot -/

namespace FSTQueryListener

/-- The time has come for the first event. -/
def initialDue (l : FSTQueryListener q) (snapshot : ViewSnapshot q) (onlineState : OnlineState) :
    Bool :=
  !snapshot.fromCache || (!(l.options.waitForSyncWhenOnline && decide (onlineState ≠ .offline)) &&
    (!snapshot.documents.isEmpty || decide (onlineState = .offline)))

variable {l : FSTQueryListener q} {s : ViewSnapshot q}

@[simp] theorem seen_documents : (l.seen s).documents = s.documents := by
  unfold seen
  split <;> rfl

@[simp] theorem seen_oldDocuments : (l.seen s).oldDocuments = s.oldDocuments := by
  unfold seen
  split <;> rfl

theorem faithful_seen {R : DocumentViewChange.Meaning K D} (h : s.Faithful R) :
    (l.seen s).Faithful R := by
  unfold seen
  split
  · exact h
  · exact h.stripMetadata

theorem shouldRaiseInitialEvent_eq (h : l.raisedInitialEvent = false) (o : OnlineState) :
    l.shouldRaiseInitialEvent s o = .ok (l.initialDue s o) := by
  simp only [shouldRaiseInitialEvent, initialDue, h]
  cases s.fromCache <;> cases l.options.waitForSyncWhenOnline <;> cases o <;> rfl

theorem queryDidChangeViewSnapshot_raised (h : l.raisedInitialEvent = true)
    (hs : s.documentChanges ≠ [] ∨ s.syncStateChanged = true) :
    l.queryDidChangeViewSnapshot s =
      .ok ({ l with snapshot := some (l.seen s) },
        if l.shouldRaiseEvent (l.seen s) then some (l.seen s) else none) := by
  have hassert : ¬ (s.documentChanges.isEmpty = true ∧ (!s.syncStateChanged) = true) := by
    simpa [or_iff_not_imp_left] using hs
  simp only [queryDidChangeViewSnapshot, if_neg hassert, h]
  cases hraise : l.shouldRaiseEvent (l.seen s) <;> simp <;> rfl

theorem queryDidChangeViewSnapshot_waiting (h : l.raisedInitialEvent = false)
    (hs : s.documentChanges ≠ [] ∨ s.syncStateChanged = true) :
    l.queryDidChangeViewSnapshot s =
      .ok (if l.initialDue (l.seen s) l.onlineState then
        ({ l with raisedInitialEvent := true, snapshot := some (l.seen s) },
          some (.fromInitialDocuments s.documents (l.seen s).mutatedKeys (l.seen s).fromCache
            (l.seen s).excludesMetadataChanges))
        else ({ l with snapshot := some (l.seen s) }, none)) := by
  have hassert : ¬ (s.documentChanges.isEmpty = true ∧ (!s.syncStateChanged) = true) := by
    simpa [or_iff_not_imp_left] using hs
  simp only [queryDidChangeViewSnapshot, if_neg hassert, h, raiseInitialEvent,
    shouldRaiseInitialEvent_eq h]
  cases hdue : l.initialDue (l.seen s) l.onlineState <;> simp [bind, Except.bind] <;> rfl

theorem applyChangedOnlineState_waiting (options : FSTListenOptions) (before o : OnlineState)
    (s : ViewSnapshot q) :
    applyChangedOnlineState ⟨options, false, before, some s⟩ o =
      .ok (if initialDue ⟨options, false, o, some s⟩ s o then
        (⟨options, true, o, some s⟩,
          some (.fromInitialDocuments s.documents s.mutatedKeys s.fromCache
            s.excludesMetadataChanges))
        else (⟨options, false, o, some s⟩, none)) := by
  have hdue := shouldRaiseInitialEvent_eq (l := ⟨options, false, o, some s⟩) (s := s) rfl o
  simp only [applyChangedOnlineState, raiseInitialEvent, hdue]
  cases initialDue (⟨options, false, o, some s⟩ : FSTQueryListener q) s o <;> rfl

/-- A listener whose time has not come is online, with nothing to show from the cache unless it
waits for the backend. -/
theorem isEmpty_of_not_initialDue {o : OnlineState} (h : l.initialDue s o = false)
    (hwait : l.options.waitForSyncWhenOnline = false) : s.documents.isEmpty = true := by
  simp only [initialDue, hwait, Bool.false_and, Bool.not_false, Bool.true_and, Bool.or_eq_false_iff,
    Bool.not_eq_false'] at h
  exact h.2.1

end FSTQueryListener

/-! ### The snapshots at the handler -/

/-- Snapshots of a query one after the other, from no documents to the given contents, with the
steps that `G` allows. -/
inductive Delivered (G : List (K × D) → List (K × D) → Prop) :
    List (ViewSnapshot q) → List (K × D) → Prop
  | nil : Delivered G [] []
  | snoc {events : List (ViewSnapshot q)} {old new : List (K × D)} {s : ViewSnapshot q}
      (before : Delivered G events old) (faithful : s.Faithful q.Means) (allowed : G old new)
      (hold : s.oldDocuments.contents = old) (hnew : s.documents.contents = new) :
      Delivered G (events ++ [s]) new

/-- The steps are no restriction on what happens first, and none where nothing happens. -/
structure Steps (G : List (K × D) → List (K × D) → Prop) : Prop where
  first : ∀ l, G [] l
  none : ∀ l, G l l

omit [LinearOrder K] in
theorem steps_true : Steps fun _ _ : List (K × D) => True := ⟨fun _ => trivial, fun _ => trivial⟩

variable {G : List (K × D) → List (K × D) → Prop}

/-- **A handler that keeps a list** has the contents that it has been delivered. -/
theorem Delivered.foldlM_eq {events : List (ViewSnapshot q)} {contents : List (K × D)}
    (h : Delivered G events contents) : events.foldlM followSnapshot [] = some contents := by
  induction h with
  | nil => rfl
  | snoc _ hs _ hold hnew ih =>
    have hfollow := followSnapshot_eq (hs.mono FSTQuery.Means.applies)
    rw [List.foldlM_append, ih, ← hold, ← hnew]
    show [_].foldlM followSnapshot _ = _
    rw [List.foldlM_cons, hfollow]
    rfl

theorem Delivered.faithful_of_mem {events : List (ViewSnapshot q)} {contents : List (K × D)}
    (h : Delivered G events contents) : ∀ s ∈ events, s.Faithful q.Means := by
  induction h with
  | nil => exact fun s hs => (List.not_mem_nil hs).elim
  | snoc _ hs _ _ _ ih =>
    intro t ht
    rcases List.mem_append.1 ht with ht | ht
    · exact ih t ht
    · rwa [List.mem_singleton.1 ht]

namespace Listening

/-- The listener is in step with a view with the given contents. -/
structure InStep (G : List (K × D) → List (K × D) → Prop) (l : Listening q)
    (contents : List (K × D)) : Prop where
  raised : l.listener.raisedInitialEvent = true → Delivered G l.events contents
  waiting : l.listener.raisedInitialEvent = false → l.events = [] ∧
    (∀ s, l.listener.snapshot = some s → s.documents.contents = contents) ∧
    (l.listener.options.waitForSyncWhenOnline = false → contents = [])

/-- A listener that does not wait for the backend has been delivered the contents of the view. -/
theorem InStep.delivered {l : Listening q} {contents : List (K × D)} (h : l.InStep G contents)
    (hwait : l.listener.options.waitForSyncWhenOnline = false ∨
      l.listener.raisedInitialEvent = true) : Delivered G l.events contents := by
  cases hraised : l.listener.raisedInitialEvent with
  | true => exact h.raised hraised
  | false =>
    obtain ⟨hevents, -, hempty⟩ := h.waiting hraised
    rw [hevents, hempty (hwait.resolve_right (by simp [hraised]))]
    exact Delivered.nil

theorem InStep.faithful {l : Listening q} {contents : List (K × D)} (h : l.InStep G contents) :
    ∀ s ∈ l.events, s.Faithful q.Means := by
  cases hraised : l.listener.raisedInitialEvent with
  | true => exact (h.raised hraised).faithful_of_mem
  | false =>
    rw [(h.waiting hraised).1]
    exact fun s hs => (List.not_mem_nil hs).elim

variable {l : Listening q} {s : ViewSnapshot q}

/-- The first event brings all documents. -/
theorem delivered_initial (hG : Steps G) (documents : FSTDocumentSet q) (mutatedKeys : Finset K)
    (fromCache excludes : Bool) :
    Delivered G [.fromInitialDocuments documents mutatedKeys fromCache excludes]
      documents.contents :=
  Delivered.snoc Delivered.nil
    ((faithful_fromInitialDocuments documents mutatedKeys fromCache excludes).mono
      FSTQuery.means_of_exact) (hG.first _) rfl rfl

/-- **A snapshot at a listener.** -/
theorem deliver_ok (hG : Steps G) (hs : s.Faithful q.Means)
    (hsome : s.documentChanges ≠ [] ∨ s.syncStateChanged = true)
    (hraised : l.listener.raisedInitialEvent = true →
      Delivered G l.events s.oldDocuments.contents ∧
        G s.oldDocuments.contents s.documents.contents)
    (hwaiting : l.listener.raisedInitialEvent = false → l.events = []) :
    ∃ l', l.deliver s = .ok l' ∧ l'.InStep G s.documents.contents ∧
      l'.listener.options = l.listener.options := by
  have hseen : (l.listener.seen s).Faithful q.Means := FSTQueryListener.faithful_seen hs
  rw [deliver]
  cases h : l.listener.raisedInitialEvent with
  | true =>
    obtain ⟨hdelivered, hallowed⟩ := hraised h
    rw [FSTQueryListener.queryDidChangeViewSnapshot_raised h hsome]
    refine ⟨_, rfl, ⟨fun _ => ?_, fun hfalse => ?_⟩, rfl⟩
    · cases hraise : l.listener.shouldRaiseEvent (l.listener.seen s) with
      | true =>
        refine Delivered.snoc hdelivered hseen hallowed ?_ ?_
        · rw [FSTQueryListener.seen_oldDocuments]
        · rw [FSTQueryListener.seen_documents]
      | false =>
        -- nothing is passed on, and nothing has happened to the documents
        have hnone : (l.listener.seen s).documentChanges = [] := by
          by_contra hne
          rw [FSTQueryListener.shouldRaiseEvent, if_pos (by simpa using hne)] at hraise
          cases hraise
        have hcontents := hseen.contents_eq hnone
        rw [FSTQueryListener.seen_oldDocuments, FSTQueryListener.seen_documents] at hcontents
        rw [← hcontents]
        show Delivered G (l.events ++ []) _
        rwa [List.append_nil]
    · have hfalse' : l.listener.raisedInitialEvent = false := hfalse
      rw [h] at hfalse'
      cases hfalse'
  | false =>
    rw [FSTQueryListener.queryDidChangeViewSnapshot_waiting h hsome]
    cases hdue : l.listener.initialDue (l.listener.seen s) l.listener.onlineState with
    | true =>
      refine ⟨_, rfl, ⟨fun _ => ?_, fun hfalse => (nomatch hfalse)⟩, rfl⟩
      show Delivered G (l.events ++ [_]) _
      rw [hwaiting h]
      exact delivered_initial hG _ _ _ _
    | false =>
      refine ⟨_, rfl, ⟨fun htrue => ?_, fun _ => ⟨?_, ?_, fun hwait => ?_⟩⟩, rfl⟩
      · have htrue' : l.listener.raisedInitialEvent = true := htrue
        rw [h] at htrue'
        cases htrue'
      · show l.events ++ [] = []
        rw [hwaiting h, List.append_nil]
      · intro s' hs'
        cases hs'
        rw [FSTQueryListener.seen_documents]
      · have hempty := FSTQueryListener.isEmpty_of_not_initialDue hdue hwait
        rw [FSTQueryListener.seen_documents] at hempty
        exact contents_eq_nil hempty

/-- **A change of the connection at a listener.** -/
theorem applyChangedOnlineState_ok (hG : Steps G) {contents : List (K × D)}
    (h : l.InStep G contents) (o : OnlineState) :
    ∃ l', l.applyChangedOnlineState o = .ok l' ∧ l'.InStep G contents ∧
      l'.listener.options = l.listener.options := by
  obtain ⟨⟨options, raised, before, snapshot⟩, events⟩ := l
  have hsame : (handle ⟨⟨options, raised, before, snapshot⟩, events⟩
      (⟨options, raised, o, snapshot⟩, none)).InStep G contents := by
    rw [handle, Option.toList_none, List.append_nil]
    exact ⟨h.raised, h.waiting⟩
  cases snapshot with
  | none => exact ⟨_, rfl, hsame, rfl⟩
  | some s =>
    cases raised with
    | true => exact ⟨_, rfl, hsame, rfl⟩
    | false =>
      obtain ⟨hevents, hsnapshot, -⟩ := h.waiting rfl
      rw [applyChangedOnlineState, FSTQueryListener.applyChangedOnlineState_waiting]
      cases hdue : FSTQueryListener.initialDue ⟨options, false, o, some s⟩ s o with
      | true =>
        refine ⟨_, rfl, ⟨fun _ => ?_, fun hfalse => (nomatch hfalse)⟩, rfl⟩
        show Delivered G (events ++ [_]) _
        rw [show events = [] from hevents, ← hsnapshot s rfl]
        exact delivered_initial hG _ _ _ _
      | false => exact ⟨_, rfl, hsame, rfl⟩

end Listening

end SmartWeather.Firestore
