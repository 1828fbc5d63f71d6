import SmartWeather.Firestore.EventManager

/-!
# What the events of a client say

The events of a run determine, without the client, which listeners are registered
(`ClientEvent.registers`), which store there is (`ClientEvent.storeAfter`), and what the backend has
said of the remote target since the first of the listeners came (`remoteTarget`).  The client has
this store (`store_of_step`), and its view has kept this remote target (`heard_of_step`).

`InTurn` is a condition on the events and the stores that they bring; it holds along the run of the
client if it holds of the events (`along_of_inTurn`).
-/

namespace SmartWeather.Firestore

open Runs

variable {K D : Type} [LinearOrder K] {q : FSTQuery K D} {ι : Type}

/-! ### Events -/

namespace ClientEvent

/-- What an event does to the listeners that are registered. -/
def registers [DecidableEq ι] (registered : List (ι × FSTListenOptions)) :
    ClientEvent ι q → List (ι × FSTListenOptions)
  | .addListener i options _ => registered ++ [(i, options)]
  | .removeListener i => registered.filter fun e => e.1 ≠ i
  | .storeChange _ _ _ => registered
  | .onlineState _ => registered
  | .error => []

/-- The store after an event. -/
def storeAfter (L : LocalStore K D) : ClientEvent ι q → LocalStore K D
  | .storeChange store _ _ => store
  | _ => L

/-- What is known of the remote target after an event.  The first listener starts with the documents
that the store knows to be in it; a target that is current is so until the client goes offline. -/
def targetAfter (registered : List (ι × FSTListenOptions)) (target : RemoteTarget K) :
    ClientEvent ι q → RemoteTarget K
  | .addListener _ _ remoteKeys => if registered.isEmpty then ⟨false, remoteKeys⟩ else target
  | .storeChange _ _ targetChange => target.change targetChange
  | .onlineState o => if o = .offline then { target with current := false } else target
  | _ => target

end ClientEvent

/-- The listeners that are registered after the events, with what is known of the remote target. -/
def heard [DecidableEq ι] (es : List (ClientEvent ι q)) :
    List (ι × FSTListenOptions) × RemoteTarget K :=
  es.foldl (fun h e => (e.registers h.1, e.targetAfter h.1 h.2)) ([], {})

/-- What the events say of the remote target. -/
def remoteTarget [DecidableEq ι] (es : List (ClientEvent ι q)) : RemoteTarget K := (heard es).2

theorem heard_fst [DecidableEq ι] (es : List (ClientEvent ι q)) :
    (heard es).1 = es.foldl ClientEvent.registers [] :=
  (List.foldl_hom Prod.fst fun _ _ => rfl).symm

theorem remoteTarget_snoc [DecidableEq ι] (es : List (ClientEvent ι q)) (e : ClientEvent ι q) :
    remoteTarget (es ++ [e]) =
      e.targetAfter (es.foldl ClientEvent.registers []) (remoteTarget es) := by
  rw [← heard_fst, remoteTarget, heard, List.foldl_append]
  rfl

/-- At every event the condition holds of the store that there is and the event. -/
def InTurn (P : LocalStore K D → ClientEvent ι q → Prop) :
    LocalStore K D → List (ClientEvent ι q) → Prop
  | _, [] => True
  | L, e :: es => P L e ∧ InTurn P (e.storeAfter L) es

/-! ### Listeners -/

namespace QueryInfo

variable {info info' : QueryInfo ι q}

/-- The listeners and what they have asked for. -/
def registered (info : QueryInfo ι q) : List (ι × FSTListenOptions) :=
  info.listeners.map fun e => (e.1, e.2.listener.options)

theorem of_forListeners {f : Listening q → Except HardFail (Listening q)}
    (h : info.forListeners f = .ok info') : info'.view = info.view ∧
      info'.viewSnapshot = info.viewSnapshot ∧
      info'.listeners.length = info.listeners.length ∧
      ∀ e' ∈ info'.listeners, ∃ e ∈ info.listeners, f e.2 = .ok e'.2 := by
  obtain ⟨listeners, hlisteners, h⟩ := bind_eq_ok.1 h
  cases h
  refine ⟨rfl, rfl, length_of_mapM_eq_ok hlisteners, fun e' he' => ?_⟩
  obtain ⟨e, he, hf⟩ := exists_of_mem_mapM hlisteners e' he'
  obtain ⟨l', hl', hf⟩ := bind_eq_ok.1 hf
  cases hf
  exact ⟨e, he, hl'⟩

/-- The query has listeners, and its view has kept what the backend has said. -/
structure Heard (info : QueryInfo ι q) (target : RemoteTarget K) : Prop where
  listeners : info.listeners ≠ []
  target : info.view.remoteTarget = target

theorem Heard.of_length {target : RemoteTarget K} (h : info.Heard target)
    (hlength : info'.listeners.length = info.listeners.length) (hview : info'.view = info.view) :
    info'.Heard target where
  listeners := by
    rw [← List.length_pos_iff, hlength]
    exact List.length_pos_iff.2 h.listeners
  target := hview ▸ h.target

theorem Heard.forListeners {target : RemoteTarget K} (h : info.Heard target)
    {f : Listening q → Except HardFail (Listening q)} (hf : info.forListeners f = .ok info') :
    info'.Heard target := by
  obtain ⟨hview, -, hlength, -⟩ := of_forListeners hf
  exact h.of_length hlength hview

theorem Heard.handleViewSnapshot {target : RemoteTarget K} (h : info.Heard target)
    {snapshot : Option (ViewSnapshot q)} (hs : info.handleViewSnapshot snapshot = .ok info') :
    info'.Heard target := by
  cases snapshot with
  | none =>
    cases hs
    exact h
  | some s =>
    obtain ⟨info₁, hinfo₁, hs⟩ := bind_eq_ok.1 hs
    cases hs
    exact (h.forListeners hinfo₁).of_length rfl rfl

end QueryInfo

/-! ### Views -/

section Views

variable [DecidableEq D] (A : Sorting.Algorithm) {v v' : FSTView q} {L : LocalStore K D}

theorem remoteTarget_of_emitNewSnapshot {changes : SortedMap K (FSTMaybeDocument K D)}
    {targetChange : Option (TargetChange K)} {change : FSTViewChange q}
    (h : v.emitNewSnapshot A L changes targetChange = .ok (v', change)) :
    v'.remoteTarget = v.remoteTarget.change targetChange := by
  obtain ⟨r, -, h⟩ := bind_eq_ok.1 h
  exact FSTView.remoteTarget_of_applyChangesToDocuments A h

theorem remoteTarget_of_initializeView {remoteKeys : Finset K} {s : ViewSnapshot q}
    (h : initializeView A q L remoteKeys = .ok (v, s)) : v.remoteTarget = ⟨false, remoteKeys⟩ := by
  obtain ⟨r, -, h⟩ := bind_eq_ok.1 h
  obtain ⟨⟨v', change⟩, hv', h⟩ := bind_eq_ok.1 h
  have htarget := FSTView.remoteTarget_of_applyChangesToDocuments A hv'
  simp only at h
  split at h
  · cases h
  · split at h
    · cases h
    · cases h
      exact htarget

omit [DecidableEq D] in
theorem remoteTarget_of_applyChangedOnlineState {o : OnlineState} {change : FSTViewChange q}
    (h : v.applyChangedOnlineState A o = .ok (v', change)) : v'.remoteTarget =
      if o = .offline then { v.remoteTarget with current := false } else v.remoteTarget := by
  rw [FSTView.applyChangedOnlineState] at h
  split at h
  · rename_i hgoes
    rw [FSTView.remoteTarget_of_applyChangesToDocuments A h, if_pos hgoes.2]
    rfl
  · rename_i hstays
    cases h
    split_ifs with ho
    · -- the view has not been current anyway
      have hcurrent : v.current = false := by simpa [ho] using hstays
      rw [FSTView.remoteTarget, hcurrent]
    · rfl

end Views

/-! ### The client -/

namespace Client

variable {c c' : Client ι q} {e : ClientEvent ι q}

def registered (c : Client ι q) : List (ι × FSTListenOptions) :=
  match c.info with
  | none => []
  | some info => info.registered

/-- What the view of the query, if it has listeners, has heard. -/
def Heard (c : Client ι q) (target : RemoteTarget K) : Prop :=
  ∀ info, c.info = some info → info.Heard target

variable [DecidableEq D] [DecidableEq ι] (A : Sorting.Algorithm)

/-- **The store.** -/
theorem store_of_step (h : c.step A e = .ok c') : c'.store = e.storeAfter c.store := by
  cases e with
  | error => cases h; rfl
  | removeListener i =>
    rw [step] at h
    split at h <;> cases h <;> rfl
  | addListener i options remoteKeys =>
    rw [step, addListener] at h
    obtain ⟨l, -, h⟩ := bind_eq_ok.1 h
    split at h
    · split at h
      · cases h
        rfl
      · obtain ⟨l', -, h⟩ := bind_eq_ok.1 h
        cases h
        rfl
    · obtain ⟨⟨v, s⟩, -, h⟩ := bind_eq_ok.1 h
      obtain ⟨info, -, h⟩ := bind_eq_ok.1 h
      cases h
      rfl
  | storeChange store changes targetChange =>
    rw [step] at h
    split at h
    · cases h
      rfl
    · obtain ⟨⟨v, change⟩, -, h⟩ := bind_eq_ok.1 h
      obtain ⟨info, -, h⟩ := bind_eq_ok.1 h
      cases h
      rfl
  | onlineState o =>
    rw [step] at h
    split at h
    · cases h
      rfl
    · obtain ⟨⟨v, change⟩, -, h⟩ := bind_eq_ok.1 h
      simp only at h
      split at h
      · cases h
      · obtain ⟨info, -, h⟩ := bind_eq_ok.1 h
        obtain ⟨info', -, h⟩ := bind_eq_ok.1 h
        cases h
        rfl

theorem along_of_inTurn {P : Client ι q → ClientEvent ι q → Prop}
    {Q : LocalStore K D → ClientEvent ι q → Prop} (hPQ : ∀ c e, Q c.store e → P c e)
    {es : List (ClientEvent ι q)} (h : InTurn Q c.store es) : Along (step A) P c es := by
  induction es generalizing c with
  | nil => exact trivial
  | cons e es ih =>
    obtain ⟨he, hes⟩ := h
    refine ⟨hPQ c e he, fun c' hc' => ih ?_⟩
    rwa [store_of_step A hc']

omit [DecidableEq ι] in
theorem heard_of_addListener {i : ι} {options : FSTListenOptions} {remoteKeys : Finset K}
    {target : RemoteTarget K} (hc : c.Heard target)
    (h : c.addListener A i options remoteKeys = .ok c') :
    c'.Heard (if c.registered.isEmpty then ⟨false, remoteKeys⟩ else target) := by
  rw [addListener] at h
  obtain ⟨l, -, h⟩ := bind_eq_ok.1 h
  cases hinfo : c.info with
  | none =>
    simp only [hinfo] at h
    obtain ⟨⟨v, s⟩, hv, h⟩ := bind_eq_ok.1 h
    obtain ⟨info, hs, h⟩ := bind_eq_ok.1 h
    cases h
    rintro _ ⟨⟩
    rw [registered, hinfo]
    refine QueryInfo.Heard.handleViewSnapshot ⟨List.cons_ne_nil _ _, ?_⟩ hs
    exact remoteTarget_of_initializeView A hv
  | some info =>
    simp only [hinfo] at h
    obtain ⟨hlisteners, htarget⟩ := hc info hinfo
    have hreg : c.registered.isEmpty = false := by
      rw [registered, hinfo, List.isEmpty_eq_false_iff]
      exact mt List.map_eq_nil_iff.1 hlisteners
    rw [hreg]
    split at h
    · cases h
      rintro _ ⟨⟩
      exact ⟨List.append_ne_nil_of_left_ne_nil hlisteners _, htarget⟩
    · obtain ⟨l', -, h⟩ := bind_eq_ok.1 h
      cases h
      rintro _ ⟨⟩
      exact ⟨List.append_ne_nil_of_left_ne_nil hlisteners _, htarget⟩

/-- **The remote target.** -/
theorem heard_of_step {target : RemoteTarget K} (hc : c.Heard target) (h : c.step A e = .ok c') :
    c'.Heard (e.targetAfter c.registered target) := by
  cases e with
  | addListener i options remoteKeys => exact heard_of_addListener A hc h
  | error =>
    cases h
    exact fun _ hinfo => (Option.some_ne_none _ hinfo.symm).elim
  | removeListener i =>
    cases hinfo : c.info with
    | none =>
      simp only [step, hinfo] at h
      cases h
      exact hc
    | some info =>
      simp only [step, hinfo] at h
      cases h
      intro info' hinfo'
      simp only at hinfo'
      split at hinfo'
      · cases hinfo'
      · rename_i hne
        cases hinfo'
        exact ⟨fun hnil => hne (List.isEmpty_iff.2 hnil), (hc info hinfo).target⟩
  | storeChange store changes targetChange =>
    cases hinfo : c.info with
    | none =>
      simp only [step, hinfo] at h
      cases h
      exact fun _ hsome => (Option.some_ne_none _ hsome.symm).elim
    | some info =>
      simp only [step, hinfo] at h
      obtain ⟨⟨v', change⟩, hv', h⟩ := bind_eq_ok.1 h
      obtain ⟨info', hinfo', h⟩ := bind_eq_ok.1 h
      cases h
      rintro _ ⟨⟩
      obtain ⟨hlisteners, rfl⟩ := hc info hinfo
      have hview : { info with view := v' }.Heard (info.view.remoteTarget.change targetChange) :=
        ⟨hlisteners, remoteTarget_of_emitNewSnapshot A hv'⟩
      exact hview.handleViewSnapshot hinfo'
  | onlineState o =>
    cases hinfo : c.info with
    | none =>
      simp only [step, hinfo] at h
      cases h
      exact fun _ hsome => (Option.some_ne_none _ hsome.symm).elim
    | some info =>
      simp only [step, hinfo] at h
      obtain ⟨⟨v', change⟩, hv', h⟩ := bind_eq_ok.1 h
      split at h
      · cases h
      · obtain ⟨info₁, hinfo₁, h⟩ := bind_eq_ok.1 h
        obtain ⟨info₂, hinfo₂, h⟩ := bind_eq_ok.1 h
        cases h
        rintro _ ⟨⟩
        obtain ⟨hlisteners, rfl⟩ := hc info hinfo
        have hview : { info with view := v' }.Heard
            (ClientEvent.targetAfter c.registered info.view.remoteTarget
              (.onlineState o : ClientEvent ι q)) :=
          ⟨hlisteners, remoteTarget_of_applyChangedOnlineState A hv'⟩
        exact (hview.handleViewSnapshot hinfo₁).forListeners hinfo₂

end Client

end SmartWeather.Firestore
