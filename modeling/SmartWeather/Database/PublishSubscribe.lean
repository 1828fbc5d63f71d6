import SmartWeather.Database.Mirror

/-!
# Publish and subscribe

A `Hub` is the controller together with everything its listeners have received.  Listeners are
added and removed, snapshots and errors are delivered, and listeners that are not registered may be
deallocated (`Hub.Sound`), in any order.

`Hub.Current` is the invariant: no object is stored twice, every stored object is alive, and the
last list that each of them received is the controller's list.  Every event keeps it
(`current_step`), and what an event does besides is `Hub.Reaction`; `publish_subscribe` puts both
together over runs, with who is registered read off the history (`subscribed`).
-/

namespace SmartWeather

open Runs

variable {ι : Type} [DecidableEq ι]

/-- The controller, the living objects, and the lists each listener has received, oldest first. -/
structure Hub (ι : Type) where
  heap : Heap ι
  controller : FirebaseController ι
  received : ι → List (List SensorData)

inductive HubEvent (ι : Type)
  | addListener (listener : ι) (touch : Touch (WeakObjectWrapper ι))
  | removeListener (listener : ι) (touch : Touch (WeakObjectWrapper ι))
  | snapshot (snapshot : QuerySnapshot) (order : Shuffle (WeakObjectWrapper ι))
  | error (message : String)
  | dealloc (object : ι)

/-- Listeners that keep every list they receive. -/
def recorders (types : ι → ListenerType) : Listeners ι (ι → List (List SensorData)) :=
  totalListeners types fun l dataList received =>
    Function.update received l (received l ++ [dataList])

namespace Hub

variable (types : ι → ListenerType)

def step (h : Hub ι) : HubEvent ι → Except Trap (Hub ι)
  | .addListener l touch =>
      (FirebaseController.addListener (recorders types) h.heap touch l h.controller
        h.received).map fun (controller, received) => { h with controller, received }
  | .removeListener l touch =>
      (FirebaseController.removeListener h.heap touch l h.controller).map fun controller =>
        { h with controller }
  | .snapshot snapshot order =>
      (FirebaseController.snapshotListener (recorders types) h.heap order (some snapshot) none
        h.controller h.received).map fun (controller, received) => { h with controller, received }
  | .error message =>
      (FirebaseController.snapshotListener (recorders types) h.heap (Shuffle.id _) none
        (some message) h.controller h.received).map fun (controller, received) =>
          { h with controller, received }
  | .dealloc o => .ok { h with heap := Function.update h.heap o false }

/-- The app has just started; no object has been deallocated. -/
def start : Hub ι := ⟨fun _ => true, {}, fun _ => []⟩

/-- The listener named by a call is alive, and a listener is not deallocated while it is
registered. -/
def Sound (h : Hub ι) : HubEvent ι → Prop
  | .addListener l _ => h.heap l = true
  | .removeListener l _ => h.heap l = true
  | .dealloc o => o ∉ h.controller.registered
  | _ => True

/-- Registered objects are alive and stored once, and the last list each received is the list. -/
structure Current (h : Hub ι) : Prop where
  alive : h.controller.listeners.AllAlive h.heap
  nodup : h.controller.registered.Nodup
  fresh : ∀ l ∈ h.controller.registered, (h.received l).getLast? = some h.controller.dataList

/-- What an event does to the lists and to what the listeners have received. -/
def Reaction (h : Hub ι) (e : HubEvent ι) (h' : Hub ι) : Prop :=
  h.controller.dataList <+: h'.controller.dataList ∧
  match e with
  | .addListener l _ => h'.controller.dataList = h.controller.dataList ∧
      ∀ k, h'.received k =
        if k = l then h.received l ++ [h.controller.dataList] else h.received k
  | .snapshot _ _ => ∀ k, h'.received k =
      if k ∈ h.controller.registered then h.received k ++ [h'.controller.dataList]
      else h.received k
  | _ => h'.controller.dataList = h.controller.dataList ∧ h'.received = h.received

/-- Telling the objects of a list without repetitions adds one list to each of them. -/
theorem foldl_tell (dataList : List SensorData) (os : List ι) (hnd : os.Nodup)
    (received : ι → List (List SensorData)) (k : ι) :
    os.foldl (fun s o => Function.update s o (s o ++ [dataList])) received k =
      if k ∈ os then received k ++ [dataList] else received k := by
  induction os generalizing received with
  | nil => simp
  | cons o os ih =>
    rw [List.nodup_cons] at hnd
    rw [List.foldl_cons, ih hnd.2]
    by_cases hk : k = o
    · subst hk
      simp [hnd.1]
    · simp [hk]

/-- The objects registered after an event. -/
def registeredAfter (h : Hub ι) : HubEvent ι → List ι
  | .addListener l _ =>
      if l ∈ h.controller.registered then h.controller.registered
      else h.controller.registered ++ [l]
  | .removeListener l _ => h.controller.registered.erase l
  | _ => h.controller.registered

/-- **One event.**  A sound event goes through, and says what it does. -/
theorem step_spec {h : Hub ι} (hc : h.Current) {e : HubEvent ι} (he : h.Sound e) :
    ∃ h', step types h e = .ok h' ∧ Reaction h e h' ∧
      h'.controller.registered = h.registeredAfter e ∧
      ∀ k ∈ h'.controller.registered, h'.heap k = true := by
  have halive : ∀ k ∈ h.controller.registered, h.heap k = true := hc.alive
  cases e with
  | addListener l touch =>
    obtain ⟨c', hdata, hreg, heq⟩ := FirebaseController.addListener_eq
      (recorders types) h.received touch l hc.alive he
    refine ⟨_, by rw [step, heq]; rfl, ⟨?_, hdata, fun k => ?_⟩, hreg, ?_⟩
    · exact hdata ▸ List.prefix_refl _
    · by_cases hk : k = l
      · subst hk
        simp
      · simp [hk]
    · intro k hk
      change k ∈ c'.registered at hk
      rw [hreg] at hk
      split_ifs at hk
      · exact halive k hk
      · rcases List.mem_append.1 hk with hk | hk
        · exact halive k hk
        · exact List.mem_singleton.1 hk ▸ he
  | removeListener l touch =>
    obtain ⟨c', hdata, hreg, heq⟩ := FirebaseController.removeListener_eq touch hc.alive he
    refine ⟨{ h with controller := c' }, by rw [step, heq]; rfl, ⟨?_, hdata, rfl⟩, hreg,
      fun k hk => ?_⟩
    · exact hdata ▸ List.prefix_refl _
    · change k ∈ c'.registered at hk
      rw [hreg] at hk
      exact halive k (List.mem_of_mem_erase hk)
  | snapshot snapshot order =>
    obtain ⟨os, hos, heq⟩ := FirebaseController.snapshotListener_eq
      (recorders types) h.received order snapshot none hc.alive
    simp only [recorders, foldlM_total] at heq
    refine ⟨{ h with
      controller := { h.controller with
        dataList := h.controller.dataList ++ snapshot.documentChanges.filterMap recordOf? }
      received := _ }, by rw [step, recorders, heq]; rfl,
      ⟨List.prefix_append _ _, fun k => ?_⟩, rfl, halive⟩
    simp only [foldl_tell _ os (hos.nodup_iff.2 hc.nodup), hos.mem_iff]
  | error message => exact ⟨h, rfl, ⟨List.prefix_refl _, rfl, rfl⟩, rfl, halive⟩
  | dealloc o =>
    refine ⟨_, rfl, ⟨List.prefix_refl _, rfl, rfl⟩, rfl, fun k hk => ?_⟩
    have hne : k ≠ o := fun hko => he (hko ▸ hk)
    simpa [Function.update_of_ne hne] using halive k hk

theorem nodup_registeredAfter {h : Hub ι} (hnd : h.controller.registered.Nodup) (e : HubEvent ι) :
    (h.registeredAfter e).Nodup := by
  cases e with
  | addListener l touch =>
    rw [registeredAfter]
    split_ifs with hl
    · exact hnd
    · exact List.Nodup.append hnd (List.nodup_singleton l) (by simpa using hl)
  | removeListener l touch => exact hnd.erase l
  | snapshot snapshot order => exact hnd
  | error message => exact hnd
  | dealloc o => exact hnd

/-- Every sound event keeps the invariant. -/
theorem current_step {h h' : Hub ι} (hc : h.Current) {e : HubEvent ι}
    (hr : Reaction h e h') (hreg : h'.controller.registered = h.registeredAfter e)
    (hheap : ∀ k ∈ h'.controller.registered, h'.heap k = true) : h'.Current := by
  refine ⟨hheap, hreg ▸ nodup_registeredAfter hc.nodup e, fun k hk => ?_⟩
  rw [hreg] at hk
  obtain ⟨-, hr⟩ := hr
  cases e with
  | addListener l touch =>
    rw [hr.2 k, hr.1]
    by_cases hkl : k = l
    · simp [hkl]
    · rw [if_neg hkl]
      refine hc.fresh k ?_
      rw [registeredAfter] at hk
      split_ifs at hk
      · exact hk
      · simpa [hkl] using hk
  | removeListener l touch =>
    rw [hr.1, hr.2]
    exact hc.fresh k (List.mem_of_mem_erase hk)
  | snapshot snapshot order =>
    have hk : k ∈ h.controller.registered := hk
    rw [hr k, if_pos hk]
    simp
  | error message => rw [hr.1, hr.2]; exact hc.fresh k hk
  | dealloc o => rw [hr.1, hr.2]; exact hc.fresh k hk

omit [DecidableEq ι] in
theorem current_start : (start : Hub ι).Current :=
  ⟨fun _ ho => by simp [start, MulticastDelegate.objects] at ho,
    by simp [start, FirebaseController.registered, MulticastDelegate.objects],
    fun _ ho => by simp [start, FirebaseController.registered, MulticastDelegate.objects] at ho⟩

/-- The last addition or removal that names `l` is an addition. -/
def subscribed (l : ι) (es : List (HubEvent ι)) : Prop :=
  es.foldl (fun b e => match e with
    | .addListener k _ => if k = l then True else b
    | .removeListener k _ => if k = l then False else b
    | _ => b) False

theorem mem_registeredAfter_iff {h : Hub ι} (hnd : h.controller.registered.Nodup)
    {es : List (HubEvent ι)} (hreg : ∀ l, l ∈ h.controller.registered ↔ subscribed l es)
    (e : HubEvent ι) (l : ι) : l ∈ h.registeredAfter e ↔ subscribed l (es ++ [e]) := by
  rw [subscribed, List.foldl_append, List.foldl_cons, List.foldl_nil]
  cases e with
  | addListener k touch =>
    simp only [registeredAfter]
    by_cases hkl : k = l
    · subst hkl
      split_ifs <;> simp_all
    · rw [if_neg hkl]
      split_ifs
      · exact hreg l
      · simp [Ne.symm hkl, hreg l, subscribed]
  | removeListener k touch =>
    simp only [registeredAfter]
    by_cases hkl : k = l
    · subst hkl
      simp [hnd.not_mem_erase]
    · rw [if_neg hkl, List.mem_erase_of_ne (Ne.symm hkl)]
      exact hreg l
  | snapshot snapshot order => exact hreg l
  | error message => exact hreg l
  | dealloc o => exact hreg l

/-- **Publish and subscribe.**  After every sound sequence of events: registered is who was added
last and not removed since; every registered listener has received the controller's list last; and
the next sound event reacts as `Reaction` says. -/
theorem publish_subscribe (es : List (HubEvent ι)) (hs : Along (step types) Sound start es) :
    ∃ h, run (step types) start es = .ok h ∧
      (∀ l, l ∈ h.controller.registered ↔ subscribed l es) ∧
      (∀ l ∈ h.controller.registered, (h.received l).getLast? = some h.controller.dataList) ∧
      ∀ e, Sound h e → ∃ h', step types h e = .ok h' ∧ Reaction h e h' := by
  have hall : ∃ h, run (step types) start es = .ok h ∧ h.Current ∧
      ∀ l, l ∈ h.controller.registered ↔ subscribed l es := by
    refine run_total (I := fun (p : List (HubEvent ι)) (h : Hub ι) =>
      h.Current ∧ ∀ l, l ∈ h.controller.registered ↔ subscribed l p) ⟨current_start, fun l => ?_⟩ ?_
    · simp [start, FirebaseController.registered, MulticastDelegate.objects, subscribed]
    · rintro p e q m hes hm ⟨hc, hreg⟩
      obtain ⟨m', hm', hr, hreg', hheap⟩ := step_spec types hc ((hes ▸ hs).at_split hm)
      refine ⟨m', hm', current_step hc hr hreg' hheap, fun l => ?_⟩
      rw [hreg', mem_registeredAfter_iff hc.nodup hreg]
  obtain ⟨h, hrun, hc, hreg⟩ := hall
  refine ⟨h, hrun, hreg, hc.fresh, fun e he => ?_⟩
  obtain ⟨h', hstep, hr, -⟩ := step_spec types hc he
  exact ⟨h', hstep, hr⟩

/-- A listener is added, receives a snapshot with a document, is removed and deallocated; another
one is added. -/
def lateRun : List (HubEvent ℕ) :=
  [.addListener 0 (Touch.none _),
   .snapshot ⟨[(Document.mk "a" (sampleFields "Red" "1.0")).added]⟩ (Shuffle.id _),
   .removeListener 0 (Touch.none _), .dealloc 0, .addListener 1 (Touch.none _)]

theorem publish_subscribe_lateRun :
    ∃ h, run (step fun _ => .data) start lateRun = .ok h ∧
      (∀ l, l ∈ h.controller.registered ↔ subscribed l lateRun) ∧
      (∀ l ∈ h.controller.registered, (h.received l).getLast? = some h.controller.dataList) ∧
      ∀ e, Sound h e → ∃ h', step (fun _ => .data) h e = .ok h' ∧ Reaction h e h' := by
  refine publish_subscribe (fun _ => .data) lateRun ?_
  exact .cons rfl rfl (.cons trivial rfl (.cons rfl rfl (.cons List.not_mem_nil rfl
    (.cons rfl rfl trivial))))

end Hub

end SmartWeather
