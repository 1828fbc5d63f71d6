import SmartWeather.Firestore.ClientRuns

/-!
# Initial events

A listener calls its handler for the first time when the view is synced, or when there is something
to show from the cache and the listener does not wait for the backend, or when the client is offline
(`initialDue`).  This may come with a snapshot, with a change of the connection, or at once.

`run_called` says that no listener misses its time.  The invariant is that a listener that has not
called its handler knows the present connection and has seen a snapshot that shows the view as it is
(`ShowsView`), and that its time has not come with these (`Waits`).
-/

namespace SmartWeather.Firestore

open Runs

variable {K D : Type} [LinearOrder K] {q : FSTQuery K D} {ι : Type}

/-- The snapshot has the documents of the view, and says whether they are from the cache. -/
def ViewSnapshot.ShowsView (s : ViewSnapshot q) (v : FSTView q) : Prop :=
  s.fromCache = decide (v.syncState = .localOnly) ∧
    s.documents.contents = v.documentSet.contents

theorem FSTDocumentSet.isEmpty_of_contents {s : FSTDocumentSet q} (h : s.contents ≠ []) :
    s.isEmpty = false := by
  rw [← Bool.not_eq_true]
  exact fun hempty => h (contents_eq_nil hempty)

/-! ### Listeners -/

namespace Listening

/-- The listener knows the connection, and has called its handler or waits for its time. -/
structure Waits (l : Listening q) (v : FSTView q) (o : OnlineState) : Prop where
  online : l.listener.onlineState = o
  called : l.listener.raisedInitialEvent = true → l.events ≠ []
  waiting : l.listener.raisedInitialEvent = false →
    ∃ s, l.listener.snapshot = some s ∧ s.ShowsView v ∧ l.listener.initialDue s o = false

variable {l l' : Listening q} {v v' : FSTView q} {o o' : OnlineState} {s : ViewSnapshot q}

theorem showsView_seen (h : s.ShowsView v) : (l.listener.seen s).ShowsView v := by
  unfold FSTQueryListener.seen
  split
  · exact h
  · exact h

/-- A snapshot of the view at a listener. -/
theorem deliver_waits (hcalled : l.listener.raisedInitialEvent = true → l.events ≠ [])
    (hs : s.ShowsView v) (hsome : s.documentChanges ≠ [] ∨ s.syncStateChanged = true)
    (h : l.deliver s = .ok l') : l'.Waits v l.listener.onlineState := by
  rw [deliver] at h
  cases hraised : l.listener.raisedInitialEvent with
  | true =>
    rw [FSTQueryListener.queryDidChangeViewSnapshot_raised hraised hsome] at h
    cases h
    refine ⟨rfl, fun _ => ?_, fun hfalse => ?_⟩
    · exact List.append_ne_nil_of_left_ne_nil (hcalled hraised) _
    · have hfalse' : l.listener.raisedInitialEvent = false := hfalse
      rw [hraised] at hfalse'
      cases hfalse'
  | false =>
    rw [FSTQueryListener.queryDidChangeViewSnapshot_waiting hraised hsome] at h
    cases hdue : l.listener.initialDue (l.listener.seen s) l.listener.onlineState with
    | true =>
      rw [hdue] at h
      cases h
      exact ⟨rfl, fun _ => List.append_ne_nil_of_right_ne_nil _ (List.cons_ne_nil _ _),
        fun hfalse => Bool.noConfusion hfalse⟩
    | false =>
      rw [hdue] at h
      cases h
      refine ⟨rfl, fun htrue => ?_, fun _ => ⟨_, rfl, showsView_seen hs, hdue⟩⟩
      have htrue' : l.listener.raisedInitialEvent = true := htrue
      rw [hraised] at htrue'
      cases htrue'

/-- A change of the connection at a listener. -/
theorem applyChangedOnlineState_waits (hl : l.Waits v o)
    (h : l.applyChangedOnlineState o' = .ok l') : l'.Waits v o' := by
  obtain ⟨⟨options, raised, before, snapshot⟩, events⟩ := l
  cases raised with
  | true =>
    have hsame : l' = ⟨⟨options, true, o', snapshot⟩, events ++ []⟩ := by
      cases snapshot <;> cases h <;> rfl
    subst hsame
    exact ⟨rfl, fun _ => List.append_ne_nil_of_left_ne_nil (hl.called rfl) _,
      fun hfalse => Bool.noConfusion hfalse⟩
  | false =>
    obtain ⟨s, hsnapshot, hs, -⟩ := hl.waiting rfl
    have hsnapshot' : snapshot = some s := hsnapshot
    subst hsnapshot'
    rw [applyChangedOnlineState, FSTQueryListener.applyChangedOnlineState_waiting] at h
    cases hdue : FSTQueryListener.initialDue ⟨options, false, o', some s⟩ s o' with
    | true =>
      rw [hdue] at h
      cases h
      exact ⟨rfl, fun _ => List.append_ne_nil_of_right_ne_nil _ (List.cons_ne_nil _ _),
        fun hfalse => Bool.noConfusion hfalse⟩
    | false =>
      rw [hdue] at h
      cases h
      exact ⟨rfl, fun htrue => Bool.noConfusion htrue, fun _ => ⟨s, rfl, hs, hdue⟩⟩

/-- The reasons of a listener whose handler has not been called. -/
theorem Waits.reasons (h : l.Waits v o) (hevents : l.events = []) :
    v.syncState = .localOnly ∧ o ≠ .offline ∧
      (l.listener.options.waitForSyncWhenOnline = true ∨ v.documentSet.contents = []) := by
  have hraised : l.listener.raisedInitialEvent = false := by
    rw [← Bool.not_eq_true]
    exact fun htrue => h.called htrue hevents
  obtain ⟨s, -, ⟨hcache, hcontents⟩, hdue⟩ := h.waiting hraised
  rw [FSTQueryListener.initialDue, Bool.or_eq_false_iff, hcache] at hdue
  obtain ⟨hlocal, hdue⟩ := hdue
  refine ⟨by simpa using hlocal, ?_, ?_⟩
  · rintro rfl
    simp at hdue
  · by_contra hnone
    rw [not_or, Bool.not_eq_true] at hnone
    have hempty := FSTDocumentSet.isEmpty_of_contents (s := s.documents) (hcontents ▸ hnone.2)
    simp [hnone.1, hempty] at hdue

end Listening

/-! ### The view -/

/-- What a change of the view from `v` to `v'` tells the listeners. -/
def FSTView.Tells (v v' : FSTView q) : Option (ViewSnapshot q) → Prop
  | none => v'.syncState = v.syncState ∧ v'.documentSet.contents = v.documentSet.contents
  | some s => s.ShowsView v' ∧ (s.documentChanges ≠ [] ∨ s.syncStateChanged = true)

namespace FSTView

variable {v v' : FSTView q} {r : FSTViewDocumentChanges q} {change : FSTViewChange q}

theorem Applied.tells (h : Applied q.Means v r v' change) : v.Tells v' change.snapshot := by
  have hissues := h.issues
  cases hs : change.snapshot with
  | none =>
    rw [hs] at hissues
    exact ⟨(h.of_none hs).1, hissues.symm⟩
  | some s =>
    obtain ⟨-, -, hdocs, -, hcache, hsome⟩ := h.of_some s hs
    exact ⟨⟨hcache, by rw [hdocs, h.documentSet]⟩, hsome⟩

theorem tells_of_applyChangedOnlineState [DecidableEq D] {A : Sorting.Algorithm} {o : OnlineState}
    (h : v.applyChangedOnlineState A o = .ok (v', change)) : v.Tells v' change.snapshot := by
  rw [applyChangedOnlineState] at h
  split at h
  · have happlied := applyChangesToDocuments_ok A (R := q.Means) FSTQuery.Means.applies
      (DocumentViewChangeSet.describes_empty v.documentSet.documentForKey) h
    exact happlied.tells
  · cases h
    exact ⟨rfl, rfl⟩

end FSTView

/-! ### The listeners of a query -/

namespace QueryInfo

/-- The last snapshot shows the view, and all listeners are called or wait for their time. -/
structure Waits (info : QueryInfo ι q) (o : OnlineState) : Prop where
  last : ∃ s, info.viewSnapshot = some s ∧ s.ShowsView info.view ∧
    (s.documentChanges ≠ [] ∨ s.syncStateChanged = true)
  listeners : ∀ e ∈ info.listeners, e.2.Waits info.view o

variable {info info' : QueryInfo ι q} {o : OnlineState} {v' : FSTView q}

/-- A snapshot of the view at all listeners. -/
theorem handleViewSnapshot_some_waits {s : ViewSnapshot q}
    (hlisteners : ∀ e ∈ info.listeners, e.2.listener.onlineState = o ∧
      (e.2.listener.raisedInitialEvent = true → e.2.events ≠ []))
    (hs : s.ShowsView info.view) (hsome : s.documentChanges ≠ [] ∨ s.syncStateChanged = true)
    (h : info.handleViewSnapshot (some s) = .ok info') : info'.Waits o := by
  obtain ⟨info₁, hinfo₁, h⟩ := bind_eq_ok.1 h
  cases h
  obtain ⟨hview, -, -, hall⟩ := of_forListeners hinfo₁
  refine ⟨⟨s, rfl, hview ▸ hs, hsome⟩, fun e' he' => ?_⟩
  obtain ⟨e, he, hdeliver⟩ := hall e' he'
  obtain ⟨honline, hcalled⟩ := hlisteners e he
  have hwaits := Listening.deliver_waits hcalled hs hsome hdeliver
  rw [honline] at hwaits
  exact hview ▸ hwaits

/-- A new view at all listeners. -/
theorem handleViewSnapshot_waits {snapshot : Option (ViewSnapshot q)} (hinfo : info.Waits o)
    (htells : info.view.Tells v' snapshot)
    (h : { info with view := v' }.handleViewSnapshot snapshot = .ok info') : info'.Waits o := by
  cases snapshot with
  | none =>
    cases h
    obtain ⟨hsync, hcontents⟩ := htells
    have hshows : ∀ s : ViewSnapshot q, s.ShowsView info.view → s.ShowsView v' := fun s hs =>
      ⟨by rw [hsync]; exact hs.1, by rw [hcontents]; exact hs.2⟩
    obtain ⟨s, hsnapshot, hs, hsome⟩ := hinfo.last
    refine ⟨⟨s, hsnapshot, hshows s hs, hsome⟩, fun e he => ?_⟩
    obtain ⟨honline, hcalled, hwaiting⟩ := hinfo.listeners e he
    refine ⟨honline, hcalled, fun hraised => ?_⟩
    obtain ⟨s, hseen, hs, hdue⟩ := hwaiting hraised
    exact ⟨s, hseen, hshows s hs, hdue⟩
  | some s =>
    refine handleViewSnapshot_some_waits (fun e he => ?_) htells.1 htells.2 h
    exact ⟨(hinfo.listeners e he).online, (hinfo.listeners e he).called⟩

end QueryInfo

/-! ### Runs -/

namespace Client

variable [DecidableEq D] [DecidableEq ι] (A : Sorting.Algorithm) {c c' : Client ι q}
  {e : ClientEvent ι q}

/-- All listeners are called or wait for their time. -/
def Waits (c : Client ι q) : Prop := ∀ info, c.info = some info → info.Waits c.onlineState

omit [DecidableEq ι] in
theorem addListener_waits (hc : c.Waits) (i : ι) (options : FSTListenOptions)
    (remoteKeys : Finset K) (h : c.addListener A i options remoteKeys = .ok c') : c'.Waits := by
  rw [addListener] at h
  obtain ⟨l, hl, h⟩ := bind_eq_ok.1 h
  rw [new_applyChangedOnlineState] at hl
  cases hl
  cases hinfo : c.info with
  | none =>
    rw [hinfo] at h
    obtain ⟨v, s, hv, -, -, hissues, hcache⟩ := initializeView_ok A (q := q) (L := c.store)
      remoteKeys
    obtain ⟨_, hfirst, h⟩ := bind_eq_ok.1 h
    rw [hv] at hfirst
    cases hfirst
    obtain ⟨info', hinfo', h⟩ := bind_eq_ok.1 h
    cases h
    rintro _ ⟨⟩
    obtain ⟨-, -, hcontents, hsome⟩ := hissues
    refine QueryInfo.handleViewSnapshot_some_waits (fun e he => ?_) ?_ hsome hinfo'
    · rw [List.mem_singleton.1 he]
      exact ⟨rfl, fun htrue => Bool.noConfusion htrue⟩
    · exact ⟨hcache, hcontents⟩
  | some info =>
    have hi := hc info hinfo
    obtain ⟨s, hsnapshot, hs, hsome⟩ := hi.last
    rw [hinfo] at h
    simp only [hsnapshot] at h
    obtain ⟨l, hl, h⟩ := bind_eq_ok.1 h
    cases h
    rintro _ ⟨⟩
    refine ⟨⟨s, rfl, hs, hsome⟩, fun e he => ?_⟩
    rcases List.mem_append.1 he with he | he
    · exact hi.listeners e he
    · rw [List.mem_singleton.1 he]
      refine Listening.deliver_waits ?_ hs hsome hl
      exact fun htrue => Bool.noConfusion htrue

/-- **One event.** -/
theorem step_waits (hinstep : c.InStep fun _ _ => True) (hc : c.Waits) (he : c.Valid e)
    (h : c.step A e = .ok c') : c'.Waits := by
  cases e with
  | addListener i options remoteKeys => exact addListener_waits A hc i options remoteKeys h
  | error =>
    cases h
    exact fun _ h => (Option.some_ne_none _ h.symm).elim
  | removeListener i =>
    cases hinfo : c.info with
    | none =>
      simp only [step, hinfo] at h
      cases h
      exact hc
    | some info =>
      simp only [step, hinfo] at h
      cases h
      intro info' hinfo'
      simp only at hinfo'
      split at hinfo'
      · cases hinfo'
      · cases hinfo'
        have hi := hc info hinfo
        exact ⟨hi.last, fun e he => hi.listeners e (List.mem_filter.1 he).1⟩
  | storeChange store changes targetChange =>
    cases hinfo : c.info with
    | none =>
      simp only [step, hinfo] at h
      cases h
      exact fun _ hsome => (Option.some_ne_none _ hsome.symm).elim
    | some info =>
      simp only [step, hinfo] at h
      obtain ⟨v', change, r, hv', happlied, -⟩ :=
        FSTView.emitNewSnapshot_ok A (hinstep info hinfo).view he.1 (he.2 info hinfo)
      obtain ⟨_, hchanged, h⟩ := bind_eq_ok.1 h
      rw [hv'] at hchanged
      cases hchanged
      obtain ⟨info', hinfo', h⟩ := bind_eq_ok.1 h
      cases h
      rintro _ ⟨⟩
      exact QueryInfo.handleViewSnapshot_waits (hc info hinfo) happlied.tells hinfo'
  | onlineState o =>
    cases hinfo : c.info with
    | none =>
      simp only [step, hinfo] at h
      cases h
      exact fun _ hsome => (Option.some_ne_none _ hsome.symm).elim
    | some info =>
      simp only [step, hinfo] at h
      obtain ⟨⟨v', change⟩, hv', h⟩ := bind_eq_ok.1 h
      split at h
      · cases h
      · obtain ⟨info₁, hinfo₁, h⟩ := bind_eq_ok.1 h
        obtain ⟨info₂, hinfo₂, h⟩ := bind_eq_ok.1 h
        cases h
        rintro _ ⟨⟩
        have hwaits := QueryInfo.handleViewSnapshot_waits (hc info hinfo)
          (FSTView.tells_of_applyChangedOnlineState hv') hinfo₁
        obtain ⟨hview, hsnapshot, -, hall⟩ := QueryInfo.of_forListeners hinfo₂
        refine ⟨by rw [hview, hsnapshot]; exact hwaits.last, fun e' he' => ?_⟩
        obtain ⟨e, he, hl'⟩ := hall e' he'
        rw [hview]
        exact Listening.applyChangedOnlineState_waits (hwaits.listeners e he) hl'

/-- **No listener misses its time.**  In a run, a handler has been called unless its listener's view
is from the cache, the client is not offline, and the listener waits for the backend or there is
nothing to show. -/
theorem run_called {L : LocalStore K D} {es : List (ClientEvent ι q)}
    (hvalid : Along (step A) Valid (start L) es) :
    ∃ c, run (step A) (start L) es = .ok c ∧
      ∀ info, c.info = some info → ∀ e ∈ info.listeners, e.2.events = [] →
        info.view.syncState = .localOnly ∧ c.onlineState ≠ .offline ∧
          (e.2.listener.options.waitForSyncWhenOnline = true ∨
            info.view.documentSet.contents = []) := by
  have hinvariant : ∃ c, run (step A) (start L) es = .ok c ∧
      (c.InStep fun _ _ => True) ∧ c.Waits := by
    refine run_total (I := fun _ (c : Client ι q) => (c.InStep fun _ _ => True) ∧ c.Waits)
      ⟨inStep_start L, fun _ h => (Option.some_ne_none _ h.symm).elim⟩ ?_
    rintro p e rest m hes hm ⟨hinstep, hwaits⟩
    have hvalid' : m.Valid e := (hes ▸ hvalid).at_split hm
    have hallowed : m.Allowed (fun _ _ => True) e :=
      (hes ▸ along_allowed_true A (start L) es).at_split hm
    obtain ⟨m', hm', hinstep', -⟩ := step_ok A steps_true hinstep hvalid' hallowed
    exact ⟨m', hm', hinstep', step_waits A hinstep hwaits hvalid' hm'⟩
  obtain ⟨c, hc, -, hwaits⟩ := hinvariant
  exact ⟨c, hc, fun info hinfo e he hevents =>
    ((hwaits info hinfo).listeners e he).reasons hevents⟩

end Client

/-- The store has three documents, and a listener waits for the backend. -/
def waitingRun : List (ClientEvent ℕ firstTwo) :=
  [.storeChange threeDocs (threeDocs.executeQuery firstTwo) none,
   .addListener 0 { waitForSyncWhenOnline := true } ∅, .onlineState .online]

theorem run_called_waiting :
    ∃ c, run (Client.step Sorting.insertion) (.start .empty) waitingRun = .ok c ∧
      ∀ info, c.info = some info → ∀ e ∈ info.listeners, e.2.events = [] →
        info.view.syncState = .localOnly ∧ c.onlineState ≠ .offline ∧
          (e.2.listener.options.waitForSyncWhenOnline = true ∨
            info.view.documentSet.contents = []) :=
  Client.run_called Sorting.insertion
    ⟨⟨reports_executeQuery threeDocs, fun _ h => (Option.some_ne_none _ h.symm).elim⟩,
      fun _ _ => ⟨trivial, fun _ _ => ⟨trivial, fun _ _ => trivial⟩⟩⟩

/-- The handler is called when the client goes offline. -/
example : (run (Client.step Sorting.insertion) (.start .empty)
    (waitingRun ++ [.onlineState .offline])).toOption.bind
      (fun c => c.info.map fun info => info.listeners.map fun e => e.2.docs) =
        some [some [(3, 10), (2, 20)]] := by decide

end SmartWeather.Firestore
