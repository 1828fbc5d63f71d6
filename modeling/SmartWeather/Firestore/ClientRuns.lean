import SmartWeather.Firestore.ClientEvents
import SmartWeather.Firestore.Listeners

/-!
# Runs of the client

`Client.InStep` puts the invariants of the store, the view and the listeners together, and
`step_ok` is the step lemma.  `run_ok` is the result: over every run, however the changes of the
store, the state of the connection and the calls of the application interleave, no assertion fails.
A listener that does not wait for the backend has exactly the documents of the view, which are the
first matching documents of the store (`run_docs`).  A view says that it is synced exactly when the
events say that the remote target is current and has all its documents, but for local writes
(`run_synced`).
-/

namespace SmartWeather.Firestore

open Runs DocumentViewChange

variable {K D : Type} [LinearOrder K] {q : FSTQuery K D} {ι : Type}
  {G : List (K × D) → List (K × D) → Prop}

/-- What a change of the view from the contents `old` to `new` sends to the listeners. -/
def Issues (old new : List (K × D)) : Option (ViewSnapshot q) → Prop
  | none => old = new
  | some s => s.Faithful q.Means ∧ s.oldDocuments.contents = old ∧ s.documents.contents = new ∧
      (s.documentChanges ≠ [] ∨ s.syncStateChanged = true)

namespace FSTView

/-- The view is synced if the backend has said that it is current and, but for local writes, knows
of all documents of the view. -/
def SyncedOrLocal (v : FSTView q) : Prop :=
  v.syncState = .synced ↔ v.current = true ∧ ∀ k d, v.documentSet.documentForKey k = some d →
    k ∈ v.syncedDocuments ∨ d.hasLocalMutations = true

variable {v v' : FSTView q} {r : FSTViewDocumentChanges q} {change : FSTViewChange q}

theorem Applied.issues (h : Applied q.Means v r v' change) :
    Issues v.documentSet.contents v'.documentSet.contents change.snapshot := by
  cases hs : change.snapshot with
  | none =>
    refine FSTDocumentSet.contents_ext fun k => ?_
    rw [h.documentSet, (h.of_none hs).2 k]
  | some s =>
    obtain ⟨hfaithful, hold, hdocs, -, -, hsome⟩ := h.of_some s hs
    exact ⟨hfaithful, by rw [hold], by rw [hdocs, h.documentSet], hsome⟩

theorem Applied.syncedOrLocal {R : Meaning K D} (h : Applied R v r v' change) :
    v'.SyncedOrLocal := by
  rw [SyncedOrLocal, h.syncState, newSyncState]
  cases hcurrent : v'.current with
  | false => simp
  | true =>
    have hlimbo : v'.limboDocuments = ∅ ↔ ∀ k d, v'.documentSet.documentForKey k = some d →
        k ∈ v'.syncedDocuments ∨ d.hasLocalMutations = true := by
      rw [h.limbo hcurrent, Finset.eq_empty_iff_forall_notMem]
      constructor
      · intro hnone k d hd
        by_contra hnot
        rw [not_or, Bool.not_eq_true] at hnot
        exact hnone k (mem_inLimbo.2 ⟨d, hd, hnot.1, hnot.2⟩)
      · intro hall k hk
        obtain ⟨d, hd, hunknown, hlocal⟩ := mem_inLimbo.1 hk
        rcases hall k d hd with hknown | hmutated
        · exact hunknown hknown
        · rw [hlocal] at hmutated
          cases hmutated
    rw [← hlimbo]
    by_cases hempty : v'.limboDocuments = ∅
    · simp [hempty]
    · simp [hempty]

end FSTView

/-! ### The listeners of a query -/

namespace QueryInfo

/-- The last snapshot, for listeners that come later. -/
def Keeps (contents : List (K × D)) (snapshot : Option (ViewSnapshot q)) : Prop :=
  ∃ s, snapshot = some s ∧ s.Faithful q.Means ∧ s.documents.contents = contents ∧
    (s.documentChanges ≠ [] ∨ s.syncStateChanged = true)

/-- All listeners are in step with the given contents. -/
def ListenersInStep (G : List (K × D) → List (K × D) → Prop) (info : QueryInfo ι q)
    (contents : List (K × D)) : Prop :=
  ∀ e ∈ info.listeners, e.2.InStep G contents

variable {info : QueryInfo ι q}

theorem forListeners_ok {f : Listening q → Except HardFail (Listening q)}
    {contents : List (K × D)} (h : ∀ e ∈ info.listeners, ∃ l', f e.2 = .ok l' ∧
      l'.InStep G contents ∧ l'.listener.options = e.2.listener.options) :
    ∃ info', info.forListeners f = .ok info' ∧ info'.ListenersInStep G contents ∧
      info'.registered = info.registered ∧ info'.view = info.view ∧
      info'.viewSnapshot = info.viewSnapshot := by
  obtain ⟨ls, hls, hall⟩ := exists_mapM_eq_ok
    (f := fun e : ι × Listening q => (f e.2).map fun l => (e.1, l))
    (P := fun e e' => e'.1 = e.1 ∧ e'.2.InStep G contents ∧
      e'.2.listener.options = e.2.listener.options) (l := info.listeners) fun e he => by
    obtain ⟨l', hl', hstep, hopts⟩ := h e he
    exact ⟨(e.1, l'), by rw [hl']; rfl, rfl, hstep, hopts⟩
  refine ⟨{ info with listeners := ls }, ?_, ?_, ?_, rfl, rfl⟩
  · have hf : (fun e : ι × Listening q => do
        let l ← f e.2
        return (e.1, l)) = fun e => (f e.2).map fun l => (e.1, l) := by
      funext e
      cases f e.2 <;> rfl
    show (info.listeners.mapM fun e => do
      let l ← f e.2
      return (e.1, l)) >>= _ = _
    rw [hf, hls]
    rfl
  · clear hls h
    generalize info.listeners = l at hall
    induction hall with
    | nil => exact fun e he => (List.not_mem_nil he).elim
    | cons hab _ ih =>
      intro e he
      rcases List.mem_cons.1 he with rfl | he
      · exact hab.2.1
      · exact ih e he
  · clear hls h
    unfold registered
    generalize info.listeners = l at hall
    induction hall with
    | nil => rfl
    | cons hab _ ih => exact congrArg₂ List.cons (Prod.ext hab.1 hab.2.2) ih

/-- A snapshot of the view at all listeners. -/
theorem handleViewSnapshot_ok (hG : Steps G) {old new : List (K × D)}
    {snapshot : Option (ViewSnapshot q)} (hlisteners : info.ListenersInStep G old)
    (hissues : Issues old new snapshot) (hallowed : G old new)
    (hkeeps : snapshot = none → Keeps old info.viewSnapshot) :
    ∃ info', info.handleViewSnapshot snapshot = .ok info' ∧ info'.ListenersInStep G new ∧
      Keeps new info'.viewSnapshot ∧ info'.registered = info.registered ∧
      info'.view = info.view := by
  cases snapshot with
  | none =>
    have hsame : old = new := hissues
    subst hsame
    exact ⟨info, rfl, hlisteners, hkeeps rfl, rfl, rfl⟩
  | some s =>
    obtain ⟨hfaithful, hold, hnew, hsome⟩ := hissues
    have hall : ∀ e ∈ info.listeners, ∃ l', e.2.deliver s = .ok l' ∧ l'.InStep G new ∧
        l'.listener.options = e.2.listener.options := by
      intro e he
      have he' := hlisteners e he
      rw [← hnew]
      refine Listening.deliver_ok hG hfaithful hsome (fun h => ?_) fun h => (he'.waiting h).1
      rw [hold, hnew]
      exact ⟨he'.raised h, hallowed⟩
    obtain ⟨info', hinfo', hstep, hreg, hview, -⟩ := forListeners_ok (f := (·.deliver s)) hall
    refine ⟨{ info' with viewSnapshot := some s }, ?_, hstep, ⟨s, rfl, hfaithful, hnew, hsome⟩,
      hreg, hview⟩
    rw [handleViewSnapshot, hinfo']
    rfl

/-- The view, the last snapshot and the listeners of a query are in step with the store. -/
structure InStep (G : List (K × D) → List (K × D) → Prop) (info : QueryInfo ι q)
    (L : LocalStore K D) : Prop where
  view : info.view.InStep L
  synced : info.view.SyncedOrLocal
  keeps : Keeps info.view.documentSet.contents info.viewSnapshot
  listeners : info.ListenersInStep G info.view.documentSet.contents

/-- A new view at all listeners. -/
theorem viewChange_ok (hG : Steps G) {L L' : LocalStore K D} {v' : FSTView q}
    {change : FSTViewChange q} (h : info.InStep G L) (hview : v'.InStep L')
    (hsynced : v'.SyncedOrLocal)
    (hissues : Issues info.view.documentSet.contents v'.documentSet.contents change.snapshot)
    (hallowed : G info.view.documentSet.contents v'.documentSet.contents) :
    ∃ info', { info with view := v' }.handleViewSnapshot change.snapshot = .ok info' ∧
      info'.InStep G L' ∧ info'.registered = info.registered := by
  have hlisteners : { info with view := v' }.ListenersInStep G info.view.documentSet.contents :=
    h.listeners
  obtain ⟨info', hinfo', hlisteners', hkeeps, hreg, hv⟩ :=
    handleViewSnapshot_ok hG hlisteners hissues hallowed fun _ => h.keeps
  exact ⟨info', hinfo', ⟨by rwa [hv], by rwa [hv], by rwa [hv], by rwa [hv]⟩, hreg⟩

end QueryInfo

/-! ### The first listener -/

section Start

variable [DecidableEq D] (A : Sorting.Algorithm) {L : LocalStore K D}

omit [DecidableEq D] in
theorem reports_executeQuery (L : LocalStore K D) :
    LocalStore.Reports q LocalStore.empty L (L.executeQuery q) where
  present k m hm := by
    obtain ⟨e, rfl, he, -⟩ := LocalStore.select_executeQuery hm
    exact (Option.eq_some_of_filter_eq_some he).symm
  complete k hk := by
    rw [LocalStore.find_executeQuery, Option.map_eq_none_iff] at hk
    rw [hk]
    rfl

theorem initializeView_ok (remoteKeys : Finset K) : ∃ v s,
    initializeView A q L remoteKeys = .ok (v, s) ∧ v.InStep L ∧ v.SyncedOrLocal ∧
      Issues [] v.documentSet.contents (some s) ∧
      s.fromCache = decide (v.syncState = .localOnly) := by
  let view : FSTView q := { syncedDocuments := remoteKeys }
  have hstart : view.InStep LocalStore.empty := FSTView.inStep_empty remoteKeys
  obtain ⟨r, hr, hfollows⟩ := FSTView.computeWithRefill_ok hstart (reports_executeQuery L)
  -- a view without documents does not ask for a refill
  obtain ⟨r', hr', -, hok⟩ := FSTView.exists_computeChanges (v := view) (L.executeQuery_keyed q)
  have hlast : q.lastDocInLimit (view.start none).documentSet = none := by
    unfold FSTQuery.lastDocInLimit
    rcases q.limit with _ | _ | n
    · rfl
    · rfl
    · rfl
  have hnoRefill : r'.needsRefill = false := by
    rw [hr'.needsRefill, List.any_eq_false]
    intro kv _
    rw [FSTView.turnRefills, hlast]
    split
    · simp
    · simp [FSTView.refills_none]
  have hrr : r = r' := by
    rw [FSTView.computeWithRefill, hok] at hr
    have hr'' : (if r'.needsRefill = true then
        view.computeChanges (L.executeQuery q) (some r') else pure r') = .ok r := hr
    rw [if_neg (by simp [hnoRefill])] at hr''
    exact (Except.ok.inj hr'').symm
  subst hrr
  obtain ⟨v, change, hv⟩ := FSTView.exists_applyChangesToDocuments A (v := view)
    hfollows.noRefill (FSTView.fits_none view)
  have happlied := FSTView.applyChangesToDocuments_ok A FSTQuery.Means.applies
    hfollows.describes hv
  have hlimbo : change.limboChanges = [] :=
    happlied.limboChanges (congrArg RemoteTarget.current
      (FSTView.remoteTarget_of_applyChangesToDocuments A hv))
  have hissues := happlied.issues
  cases hs : change.snapshot with
  | none =>
    -- the sync state is set for the first time
    have hsync := (happlied.of_none hs).1
    rw [happlied.syncState, FSTView.newSyncState] at hsync
    split at hsync
    · cases hsync
    · cases hsync
  | some s =>
    rw [hs] at hissues
    obtain ⟨-, -, -, -, hcache, -⟩ := happlied.of_some s hs
    refine ⟨v, s, ?_, ⟨?_, ?_⟩, happlied.syncedOrLocal, hissues, hcache⟩
    · have hok' : FSTView.computeChanges (q := q) { syncedDocuments := remoteKeys }
          (L.executeQuery q) none = .ok r := hok
      have hv' : FSTView.applyChangesToDocuments (q := q) A { syncedDocuments := remoteKeys } r
          none = .ok (v, change) := hv
      simp only [initializeView, hok', hv', hlimbo, hs, bind, Except.bind]
      rfl
    · rw [happlied.documentSet]
      exact hfollows.shown
    · rw [happlied.mutatedKeys, happlied.documentSet]
      exact hfollows.mutated

end Start

/-! ### Steps -/

section OnlineState

variable (A : Sorting.Algorithm) {L : LocalStore K D} {v : FSTView q}

/-- **A change of the connection at the view.** -/
theorem applyChangedOnlineState_ok (hv : v.InStep L) (hsynced : v.SyncedOrLocal)
    (o : OnlineState) : ∃ v' change, v.applyChangedOnlineState A o = .ok (v', change) ∧
      v'.InStep L ∧ v'.SyncedOrLocal ∧ change.limboChanges = [] ∧
      v'.documentSet.contents = v.documentSet.contents ∧
      Issues v.documentSet.contents v'.documentSet.contents change.snapshot := by
  rw [FSTView.applyChangedOnlineState]
  split
  · obtain ⟨v', change, hok⟩ := FSTView.exists_applyChangesToDocuments A
      (r := ⟨v.documentSet, .empty, false, v.mutatedKeys⟩) rfl
      (FSTView.fits_none { v with current := false })
    have happlied := FSTView.applyChangesToDocuments_ok A (R := q.Means) FSTQuery.Means.applies
      (DocumentViewChangeSet.describes_empty v.documentSet.documentForKey) hok
    refine ⟨v', change, hok, ⟨?_, ?_⟩, happlied.syncedOrLocal,
      happlied.limboChanges (congrArg RemoteTarget.current
        (FSTView.remoteTarget_of_applyChangesToDocuments A hok)),
      by rw [happlied.documentSet], happlied.issues⟩
    · rw [happlied.documentSet]
      exact hv.shown
    · rw [happlied.mutatedKeys, happlied.documentSet]
      exact hv.mutated
  · exact ⟨v, ⟨none, []⟩, rfl, hv, hsynced, rfl, rfl, rfl⟩

end OnlineState

namespace Client

variable {c : Client ι q}

/-- The query, if it has listeners, is in step with the store. -/
def InStep (G : List (K × D) → List (K × D) → Prop) (c : Client ι q) : Prop :=
  ∀ info, c.info = some info → info.InStep G c.store

/-- The store reports its changes, and the backend modifies only documents of the remote target. -/
def Valid (c : Client ι q) : ClientEvent ι q → Prop
  | .storeChange store changes targetChange => LocalStore.Reports q c.store store changes ∧
      ∀ info, c.info = some info → info.view.Fits targetChange
  | _ => True

/-- A view in step with the store makes only steps that `G` allows. -/
def Allowed (G : List (K × D) → List (K × D) → Prop) (c : Client ι q) : ClientEvent ι q → Prop
  | .storeChange store _ _ => ∀ v v' : FSTView q, v.InStep c.store → v'.InStep store →
      G v.documentSet.contents v'.documentSet.contents
  | _ => True

/-- The client before the first call. -/
def start (L : LocalStore K D) : Client ι q := { store := L }

theorem inStep_start (L : LocalStore K D) : (start L : Client ι q).InStep G :=
  fun _ h => (nomatch h)

theorem heard_start [DecidableEq ι] (L : LocalStore K D) :
    (start L : Client ι q).Heard (remoteTarget ([] : List (ClientEvent ι q))) :=
  fun _ h => (Option.some_ne_none _ h.symm).elim

/-- A new listener has been told of the connection, and of nothing else. -/
theorem new_applyChangedOnlineState (options : FSTListenOptions) (o : OnlineState) :
    ({ listener := { options } } : Listening q).applyChangedOnlineState o =
      .ok { listener := { options, onlineState := o } } := rfl

theorem new_inStep (options : FSTListenOptions) (o : OnlineState) :
    ({ listener := { options, onlineState := o } } : Listening q).InStep G [] where
  raised h := (nomatch h)
  waiting _ := ⟨rfl, fun _ h => (nomatch h), fun _ => rfl⟩

variable [DecidableEq D] (A : Sorting.Algorithm)

theorem addListener_ok (hG : Steps G) (hc : c.InStep G) (i : ι) (options : FSTListenOptions)
    (remoteKeys : Finset K) :
    ∃ c', c.addListener A i options remoteKeys = .ok c' ∧ c'.InStep G ∧
      c'.registered = c.registered ++ [(i, options)] := by
  rw [addListener, new_applyChangedOnlineState]
  have hnew : ({ listener := { options, onlineState := c.onlineState } } : Listening q).InStep G
    [] := new_inStep options c.onlineState
  cases hinfo : c.info with
  | none =>
    obtain ⟨v, s, hv, hview, hsynced, hissues, -⟩ := initializeView_ok A (q := q) (L := c.store)
      remoteKeys
    have hlisteners : QueryInfo.ListenersInStep G
        ⟨[(i, { listener := { options, onlineState := c.onlineState } })], none, v⟩ [] :=
      fun e he => List.mem_singleton.1 he ▸ hnew
    obtain ⟨info', hinfo', hlisteners, hkeeps, hreg, hview'⟩ :=
      QueryInfo.handleViewSnapshot_ok hG hlisteners hissues (hG.first _) fun h =>
        (Option.some_ne_none _ h).elim
    refine ⟨{ c with info := some info' }, ?_, ?_, ?_⟩
    · simp only [bind, Except.bind, hv, hinfo']
      rfl
    · rintro _ ⟨⟩
      exact ⟨by rwa [hview'], by rwa [hview'], by rwa [hview'], by rwa [hview']⟩
    · simp only [registered, hinfo, hreg]
      rfl
  | some info =>
    have hi := hc info hinfo
    obtain ⟨s, hs, hfaithful, hcontents, hsome⟩ := hi.keeps
    obtain ⟨l, hl, hstep, hopts⟩ := Listening.deliver_ok
      (l := { listener := { options, onlineState := c.onlineState } }) hG hfaithful hsome
      (fun h => absurd h Bool.false_ne_true) fun _ => rfl
    refine ⟨{ c with info := some { info with listeners := info.listeners ++ [(i, l)] } },
      ?_, ?_, ?_⟩
    · simp only [bind, Except.bind, hs, hl]
      rfl
    · rintro _ ⟨⟩
      refine ⟨hi.view, hi.synced, hi.keeps, fun e he => ?_⟩
      rcases List.mem_append.1 he with he | he
      · exact hi.listeners e he
      · rw [List.mem_singleton.1 he]
        exact hcontents ▸ hstep
    · simp only [registered, hinfo, QueryInfo.registered, List.map_append, List.map_cons,
        List.map_nil, hopts]

variable [DecidableEq ι]

/-- **One event.** -/
theorem step_ok (hG : Steps G) (hc : c.InStep G) {e : ClientEvent ι q} (he : c.Valid e)
    (hallowed : c.Allowed G e) :
    ∃ c', c.step A e = .ok c' ∧ c'.InStep G ∧ c'.registered = e.registers c.registered := by
  cases e with
  | addListener i options remoteKeys => exact addListener_ok A hG hc i options remoteKeys
  | error => exact ⟨{ c with info := none }, rfl, fun _ h => (nomatch h), rfl⟩
  | removeListener i =>
    cases hinfo : c.info with
    | none =>
      refine ⟨c, by rw [step, hinfo], hc, ?_⟩
      simp [registered, hinfo, ClientEvent.registers]
    | some info =>
      have hi := hc info hinfo
      refine ⟨_, by simp only [step, hinfo]; rfl, ?_, ?_⟩
      · intro info' hinfo'
        simp only at hinfo'
        split at hinfo'
        · cases hinfo'
        · cases hinfo'
          exact ⟨hi.view, hi.synced, hi.keeps, fun e he => hi.listeners e (List.mem_filter.1 he).1⟩
      · have hmap : (info.listeners.filter fun e => e.1 ≠ i).map
              (fun e => (e.1, e.2.listener.options)) =
            info.registered.filter fun e => e.1 ≠ i := by
          rw [QueryInfo.registered, List.filter_map]
          rfl
        simp only [registered, ClientEvent.registers, hinfo, ← hmap]
        split
        · rename_i hempty
          split at hempty
          · rename_i hnil
            rw [List.isEmpty_iff.1 hnil]
            rfl
          · cases hempty
        · rename_i info' hsome
          split at hsome
          · cases hsome
          · cases hsome
            rfl
  | storeChange store changes targetChange =>
    obtain ⟨hreports, hfits⟩ := he
    cases hinfo : c.info with
    | none =>
      refine ⟨{ c with store }, by simp only [step, hinfo], fun info h => ?_, ?_⟩
      · rw [show c.info = some info from h] at hinfo
        cases hinfo
      · simp [registered, hinfo, ClientEvent.registers]
    | some info =>
      have hi := hc info hinfo
      obtain ⟨v', change, r, hv', happlied, hstep⟩ :=
        FSTView.emitNewSnapshot_ok A hi.view hreports (hfits info hinfo)
      obtain ⟨info', hinfo', hstep', hreg⟩ :=
        QueryInfo.viewChange_ok hG hi hstep happlied.syncedOrLocal happlied.issues
          (hallowed _ _ hi.view hstep)
      refine ⟨{ c with store, info := some info' }, ?_, ?_, ?_⟩
      · simp only [step, hinfo, hv', bind, Except.bind, hinfo']
        rfl
      · rintro _ ⟨⟩
        exact hstep'
      · simp only [registered, hinfo, hreg, ClientEvent.registers]
  | onlineState o =>
    cases hinfo : c.info with
    | none =>
      refine ⟨{ c with onlineState := o }, by simp only [step, hinfo], fun info h => ?_, ?_⟩
      · rw [show c.info = some info from h] at hinfo
        cases hinfo
      · simp [registered, hinfo, ClientEvent.registers]
    | some info =>
      have hi := hc info hinfo
      obtain ⟨v', change, hv', hstep, hsynced, hlimbo, hsame, hissues⟩ :=
        applyChangedOnlineState_ok A hi.view hi.synced o
      obtain ⟨info₁, hinfo₁, hstep₁, hreg₁⟩ :=
        QueryInfo.viewChange_ok hG hi hstep hsynced hissues (hsame ▸ hG.none _)
      have hall : ∀ e ∈ info₁.listeners, ∃ l', e.2.applyChangedOnlineState o = .ok l' ∧
          l'.InStep G info₁.view.documentSet.contents ∧
          l'.listener.options = e.2.listener.options := fun e he =>
        Listening.applyChangedOnlineState_ok hG (hstep₁.listeners e he) o
      obtain ⟨info₂, hinfo₂, hlisteners, hreg₂, hview, hsnapshot⟩ :=
        QueryInfo.forListeners_ok (f := (·.applyChangedOnlineState o)) hall
      refine ⟨{ c with onlineState := o, info := some info₂ }, ?_, ?_, ?_⟩
      · simp only [step, hinfo, hv', hlimbo, bind, Except.bind, hinfo₁, hinfo₂]
        rfl
      · rintro _ ⟨⟩
        refine ⟨hview ▸ hstep₁.view, hview ▸ hstep₁.synced, ?_, ?_⟩
        · rw [hview, hsnapshot]
          exact hstep₁.keeps
        · rw [hview]
          exact hlisteners
      · simp only [registered, hinfo, hreg₂, hreg₁, ClientEvent.registers]

/-- **Runs.**  No assertion fails, the listeners that are registered are in step, and the store and
the remote target are those of the events. -/
theorem run_ok (hG : Steps G) {L : LocalStore K D} {es : List (ClientEvent ι q)}
    (hvalid : Along (step A) Valid (start L) es)
    (hallowed : Along (step A) (Allowed G) (start L) es) :
    ∃ c, run (step A) (start L) es = .ok c ∧ c.InStep G ∧
      c.registered = es.foldl ClientEvent.registers [] ∧
      c.store = es.foldl ClientEvent.storeAfter L ∧ c.Heard (remoteTarget es) := by
  refine run_total (I := fun (p : List (ClientEvent ι q)) (c : Client ι q) =>
    c.InStep G ∧ c.registered = p.foldl ClientEvent.registers [] ∧
      c.store = p.foldl ClientEvent.storeAfter L ∧ c.Heard (remoteTarget p))
    ⟨inStep_start L, rfl, rfl, heard_start L⟩ ?_
  rintro p e q m hes hm ⟨hinstep, hreg, hstore, hheard⟩
  obtain ⟨m', hm', hinstep', hreg'⟩ :=
    step_ok A hG hinstep ((hes ▸ hvalid).at_split hm) ((hes ▸ hallowed).at_split hm)
  refine ⟨m', hm', hinstep', ?_, ?_, ?_⟩
  · rw [hreg', hreg, List.foldl_append]
    rfl
  · rw [store_of_step A hm', hstore, List.foldl_append]
    rfl
  · rw [remoteTarget_snoc, ← hreg]
    exact heard_of_step A hheard hm'

theorem along_allowed_true (c : Client ι q) (es : List (ClientEvent ι q)) :
    Along (step A) (Allowed fun _ _ => True) c es := by
  refine along_of_invariant (I := fun _ => True) trivial (fun c e _ _ => ?_)
    fun _ _ _ _ _ => trivial
  cases e <;> first | exact trivial | exact fun _ _ _ _ => trivial

/-- **What the handlers have.**  No assertion fails in a run, and the client has the store of the
last change.  The list of a handler that has been called, or whose listener does not wait for the
backend, has the documents of the view: the first matching documents of the store, if these have no
committed writes that have not come back. -/
theorem run_docs {L : LocalStore K D} {es : List (ClientEvent ι q)}
    (hvalid : Along (step A) Valid (start L) es) :
    ∃ c, run (step A) (start L) es = .ok c ∧
      c.registered = es.foldl ClientEvent.registers [] ∧
      c.store = es.foldl ClientEvent.storeAfter L ∧
      ∀ info, c.info = some info → ∀ e ∈ info.listeners,
        (e.2.listener.options.waitForSyncWhenOnline = false ∨
          e.2.listener.raisedInitialEvent = true) →
        e.2.docs = some info.view.documentSet.contents ∧
          ((∀ k d, c.store.matching q k = some d → d.hasCommittedMutations = false) →
            e.2.docs = some (q.limited (c.store.queryResult q).contents)) := by
  obtain ⟨c, hc, hinstep, hreg, hstore, -⟩ :=
    run_ok A steps_true hvalid (along_allowed_true A _ es)
  refine ⟨c, hc, hreg, hstore, fun info hinfo e he hcalled => ?_⟩
  have hi := hinstep info hinfo
  have hdocs : e.2.docs = some info.view.documentSet.contents :=
    ((hi.listeners e he).delivered hcalled).foldlM_eq
  exact ⟨hdocs, fun hnone => hdocs.trans (congrArg some (hi.view.contents_eq hnone))⟩

/-- **The document changes.**  In a run, of every snapshot that a handler has got and with either
setting for metadata changes, the loop for the first snapshot and the one for later snapshots
compute the same document changes, and the edits of these take the old documents to the new ones. -/
theorem run_changes {L : LocalStore K D} {es : List (ClientEvent ι q)}
    (hvalid : Along (step A) Valid (start L) es) :
    ∃ c, run (step A) (start L) es = .ok c ∧
      ∀ info, c.info = some info → ∀ e ∈ info.listeners, ∀ s ∈ e.2.events, ∀ inc,
        ∃ l, s.documentChangesForSnapshot inc = .ok l ∧
          s.laterChanges inc s.oldDocuments s.documentChanges = .ok l ∧
          l.foldlM FIRDocumentChange.edit s.oldDocuments.contents = some s.documents.contents := by
  obtain ⟨c, hc, hinstep, -⟩ := run_ok A steps_true hvalid (along_allowed_true A _ es)
  refine ⟨c, hc, fun info hinfo e he s hs inc => ?_⟩
  have hfaithful : s.Faithful Applies :=
    (((hinstep info hinfo).listeners e he).faithful s hs).mono FSTQuery.Means.applies
  obtain ⟨l, hl, -, hedit⟩ := hfaithful.documentChanges_edit inc
  refine ⟨l, hl, ?_, hedit⟩
  rw [← hl, ViewSnapshot.documentChangesForSnapshot]
  split
  · rename_i hempty
    exact (hfaithful.firstChanges_eq hempty inc).symm
  · rfl

/-- **Synced views.**  In a run, a view says that it is synced if and only if the backend has said
that the target is current, and all documents of the view are in it or locally written. -/
theorem run_synced {L : LocalStore K D} {es : List (ClientEvent ι q)}
    (hvalid : Along (step A) Valid (start L) es) :
    ∃ c, run (step A) (start L) es = .ok c ∧
      ∀ info, c.info = some info → (info.view.syncState = .synced ↔
        (remoteTarget es).current = true ∧ ∀ k d,
          info.view.documentSet.documentForKey k = some d →
            k ∈ (remoteTarget es).documents ∨ d.hasLocalMutations = true) := by
  obtain ⟨c, hc, hinstep, -, -, hheard⟩ := run_ok A steps_true hvalid (along_allowed_true A _ es)
  refine ⟨c, hc, fun info hinfo => ?_⟩
  rw [← (hheard info hinfo).target]
  exact (hinstep info hinfo).synced

end Client

/-! ### A run -/

/-- The two documents with the smallest data. -/
def firstTwo : FSTQuery ℕ ℕ where
  matchesDocument _ _ := true
  explicitSortOrders := [.field compare inferInstance true]
  limit := some 2

/-- Three documents. -/
def threeDocs : LocalStore ℕ ℕ :=
  ((LocalStore.empty.put ⟨1, 30, .synced⟩).put ⟨2, 20, .synced⟩).put ⟨3, 10, .synced⟩

/-- A listener is added, and the store gets three documents.  Then the backend is current, the first
document changes, and the third one is deleted. -/
def threeDocsRun : List (ClientEvent ℕ firstTwo) :=
  [.addListener 0 {} ∅, .storeChange threeDocs (threeDocs.executeQuery firstTwo) none,
    .storeChange (threeDocs.put ⟨1, 15, .synced⟩)
      (LocalStore.report 1 (.document ⟨1, 15, .synced⟩)) (some ⟨true, {1, 2, 3}, {1}, ∅⟩),
    .storeChange ((threeDocs.put ⟨1, 15, .synced⟩).drop 3)
      (LocalStore.report 3 (.deletedDocument 3)) (some ⟨true, ∅, ∅, {3}⟩)]

/-- The store reports its changes, and the backend modifies only documents that it adds. -/
def ReportsChange (L : LocalStore K D) : ClientEvent ι q → Prop
  | .storeChange store changes targetChange => LocalStore.Reports q L store changes ∧
      ∀ t, targetChange = some t → t.modifiedDocuments ⊆ t.addedDocuments
  | _ => True

theorem ReportsChange.valid {c : Client ι q} {e : ClientEvent ι q} (h : ReportsChange c.store e) :
    c.Valid e := by
  cases e with
  | storeChange store changes targetChange =>
    exact ⟨h.1, fun info _ t ht => (h.2 t ht).trans Finset.subset_union_right⟩
  | _ => trivial

theorem threeDocsRun_valid :
    Along (Client.step Sorting.insertion) Client.Valid (.start .empty) threeDocsRun := by
  refine Client.along_of_inTurn _ (fun _ _ => ReportsChange.valid) ⟨trivial, ⟨?_, ?_⟩, ⟨?_, ?_⟩,
    ⟨?_, ?_⟩, trivial⟩
  · exact reports_executeQuery threeDocs
  · exact fun _ h => (Option.some_ne_none _ h.symm).elim
  · exact LocalStore.reports_put _ _
  · rintro _ ⟨⟩
    decide
  · exact LocalStore.reports_drop _ _
  · rintro _ ⟨⟩
    decide

theorem run_docs_threeDocs :
    ∃ c, run (Client.step Sorting.insertion) (.start .empty) threeDocsRun = .ok c ∧
      c.registered = threeDocsRun.foldl ClientEvent.registers [] ∧
      c.store = threeDocsRun.foldl ClientEvent.storeAfter .empty ∧
      ∀ info, c.info = some info → ∀ e ∈ info.listeners,
        (e.2.listener.options.waitForSyncWhenOnline = false ∨
          e.2.listener.raisedInitialEvent = true) →
        e.2.docs = some info.view.documentSet.contents ∧
          ((∀ k d, c.store.matching firstTwo k = some d → d.hasCommittedMutations = false) →
            e.2.docs = some (firstTwo.limited (c.store.queryResult firstTwo).contents)) :=
  Client.run_docs Sorting.insertion threeDocsRun_valid

theorem run_changes_threeDocs :
    ∃ c, run (Client.step Sorting.insertion) (.start .empty) threeDocsRun = .ok c ∧
      ∀ info, c.info = some info → ∀ e ∈ info.listeners, ∀ s ∈ e.2.events, ∀ inc,
        ∃ l, s.documentChangesForSnapshot inc = .ok l ∧
          s.laterChanges inc s.oldDocuments s.documentChanges = .ok l ∧
          l.foldlM FIRDocumentChange.edit s.oldDocuments.contents = some s.documents.contents :=
  Client.run_changes Sorting.insertion threeDocsRun_valid

/-- The target is current, with the two documents that are left. -/
theorem run_synced_threeDocs :
    remoteTarget threeDocsRun = ⟨true, {1, 2}⟩ ∧
    ∃ c, run (Client.step Sorting.insertion) (.start .empty) threeDocsRun = .ok c ∧
      ∀ info, c.info = some info → (info.view.syncState = .synced ↔
        (remoteTarget threeDocsRun).current = true ∧ ∀ k d,
          info.view.documentSet.documentForKey k = some d →
            k ∈ (remoteTarget threeDocsRun).documents ∨ d.hasLocalMutations = true) :=
  ⟨by decide, Client.run_synced Sorting.insertion threeDocsRun_valid⟩

/-- The handler has first the two documents with the smallest data, and then those that are left,
in order; the view is synced. -/
example : ((run (Client.step Sorting.insertion) (.start .empty) threeDocsRun).toOption.bind
    (fun c => c.info.map fun info => (info.listeners.map fun e => e.2.docs, info.view.syncState))) =
      some ([some [(1, 15), (2, 20)]], .synced) := by decide

end SmartWeather.Firestore
