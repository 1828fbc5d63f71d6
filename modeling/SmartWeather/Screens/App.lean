import SmartWeather.Database.FirebaseController
import SmartWeather.Library.Runs
import SmartWeather.Screens.HistoryScreen

/-!
# The app: the controller and its three screens

The screens are the listeners of the controller.  They appear and disappear, the history table lays
out its rows, the delayed blocks of the colour screen run, and snapshots and errors are delivered,
in any order.

`Shows` says what a screen shows of a list.  `step_ok` is the step lemma: as long as the records of
the list are `Showable`, every event goes through, and every registered screen shows the
controller's list; `run_ok` is the same for whole runs.
-/

namespace SmartWeather

open Binary Runs

inductive Screen
  | home
  | color
  | history
  deriving DecidableEq

structure Screens where
  home : HomeScreen := {}
  color : ColorScreen := {}
  history : HistoryScreen := {}

/-- The screens as listeners. -/
def Screens.listeners (lib : StandardLibrary) : Listeners Screen Screens where
  listenerType _ := .data
  onDataListChange screen dataList s :=
    match screen with
    | .home => (s.home.onDataListChange lib dataList).map fun home => { s with home }
    | .color => (s.color.onDataListChange lib dataList).map fun color => { s with color }
    | .history => (s.history.onDataListChange lib dataList).map fun history => { s with history }

structure App where
  controller : FirebaseController Screen := {}
  screens : Screens := {}

inductive AppEvent
  | snapshot (changes : List DocumentChange) (order : Shuffle (WeakObjectWrapper Screen))
  | error (message : String)
  | appear (screen : Screen) (touch : Touch (WeakObjectWrapper Screen))
  | disappear (screen : Screen) (touch : Touch (WeakObjectWrapper Screen))
  /-- The first of the waiting delayed blocks runs. -/
  | gaugeBlock
  | layoutRow (row : ℕ)

/-- The changes an event delivers. -/
def AppEvent.changes : AppEvent → List DocumentChange
  | .snapshot changes _ => changes
  | _ => []

/-- The records of the changes an event delivers. -/
def AppEvent.records (e : AppEvent) : List SensorData := e.changes.filterMap recordOf?

namespace App

/-- The screens are never deallocated. -/
def heap : Heap Screen := fun _ => true

/-- `viewWillAppear`. -/
def viewWillAppear (lib : StandardLibrary) (screen : Screen)
    (touch : Touch (WeakObjectWrapper Screen)) (a : App) : Except Trap App := do
  let (controller, screens) ← FirebaseController.addListener (Screens.listeners lib) heap touch
    screen a.controller a.screens
  match screen with
  | .home => return ⟨controller, { screens with home := screens.home.showTemperature }⟩
  | _ => return ⟨controller, screens⟩

/-- `viewWillDisappear`. -/
def viewWillDisappear (screen : Screen) (touch : Touch (WeakObjectWrapper Screen)) (a : App) :
    Except Trap App := do
  let controller ← FirebaseController.removeListener heap touch screen a.controller
  return { a with controller }

def step (lib : StandardLibrary) (a : App) : AppEvent → Except Trap App
  | .snapshot changes order =>
      (FirebaseController.snapshotListener (Screens.listeners lib) heap order (some ⟨changes⟩) none
        a.controller a.screens).map fun (controller, screens) => ⟨controller, screens⟩
  | .error message =>
      (FirebaseController.snapshotListener (Screens.listeners lib) heap (Shuffle.id _) none
        (some message) a.controller a.screens).map fun (controller, screens) =>
          ⟨controller, screens⟩
  | .appear screen touch => a.viewWillAppear lib screen touch
  | .disappear screen touch => a.viewWillDisappear screen touch
  | .gaugeBlock =>
      match a.screens.color.pendingGauges with
      | 0 => .ok a
      | n + 1 => do
        let color ← ({ a.screens.color with pendingGauges := n } : ColorScreen).gaugeBlock
        return { a with screens := { a.screens with color } }
  | .layoutRow row =>
      if row < a.screens.history.numberOfRowsInSection then do
        let _ ← a.screens.history.cellForRowAt row
        return a
      else .ok a

end App

/-! ### What a screen shows of a list -/

/-- All records can be coloured, and the newest one has a room temperature and gauge values. -/
structure Showable (lib : StandardLibrary) (dataList : List SensorData) : Prop where
  colored : ∀ r ∈ dataList, Colored r
  room : ∀ r, newest lib dataList = some r → (roomDegrees r).isSome
  gauges : ∀ r, newest lib dataList = some r → (ColorScreen.gaugeValues r).isSome

/-- All conversions that the screens make of a record succeed. -/
structure Convertible (r : SensorData) : Prop where
  colored : Colored r
  room : (roomDegrees r).isSome
  gauges : (ColorScreen.gaugeValues r).isSome

/-- A list of convertible records is showable. -/
theorem showable_of_convertible {lib : StandardLibrary} {dataList : List SensorData}
    (h : ∀ r ∈ dataList, Convertible r) : Showable lib dataList where
  colored r hr := (h r hr).colored
  room r hr := (h r (mem_of_newest hr)).room
  gauges r hr := (h r (mem_of_newest hr)).gauges

/-- The screen shows the list. -/
def Screens.Shows (lib : StandardLibrary) (dataList : List SensorData) (s : Screens) :
    Screen → Prop
  | .home => s.home.latestData = (newest lib dataList).getD {}
  | .color => s.color.latestData = (newest lib dataList).getD {} ∧
      s.color.colorImageView = (newest lib dataList).bind (colorOf · 0.85) ∧
      s.color.swatches = ColorScreen.paint (newestFirst lib dataList) (fun _ => none) ∧
      (dataList = [] → s.color.pendingGauges = 0)
  | .history => s.history.sensorDataList = newestFirst lib dataList

namespace Screens

variable {lib : StandardLibrary} {dataList old : List SensorData} {s : Screens}

/-- Before the first list the screens show nothing. -/
theorem shows_nil (lib : StandardLibrary) (screen : Screen) :
    ({} : Screens).Shows lib [] screen := by
  have hnil : newestFirst lib [] = [] := (newestFirst_perm lib []).eq_nil
  have hnewest : newest lib [] = none := newest_eq_none.2 rfl
  cases screen with
  | home => simp [Shows, hnewest]
  | color =>
    refine ⟨by simp [hnewest], by simp [hnewest], ?_, fun _ => rfl⟩
    funext v
    simp [ColorScreen.paint, hnil]
  | history => simp [Shows, hnil]

/-- A longer list paints over everything that a shorter one has painted. -/
theorem paint_paint (h : old.length ≤ dataList.length) (swatches : Swatch → Option UIColor) :
    ColorScreen.paint (newestFirst lib dataList)
        (ColorScreen.paint (newestFirst lib old) swatches) =
      ColorScreen.paint (newestFirst lib dataList) swatches := by
  funext v
  unfold ColorScreen.paint
  cases hv : (newestFirst lib dataList)[v.place]? with
  | some r => rfl
  | none =>
    rw [List.getElem?_eq_none_iff, (newestFirst_perm lib dataList).length_eq] at hv
    rw [List.getElem?_eq_none (by rw [(newestFirst_perm lib old).length_eq]; omega)]

/-- Once the colour screen has shown the list that it was told of, it shows it. -/
theorem shows_showing {r : SensorData} (hold : s.Shows lib old .color)
    (hlen : old.length ≤ dataList.length) (hr : newest lib dataList = some r) :
    ({ s with color := s.color.showing (newestFirst lib dataList) r } : Screens).Shows lib dataList
      .color := by
  obtain ⟨-, -, hpaint, -⟩ := hold
  refine ⟨by simp [ColorScreen.showing, hr], by simp [ColorScreen.showing, hr], ?_, fun hnil => ?_⟩
  · simp only [ColorScreen.showing, hpaint]
    exact paint_paint hlen _
  · simp [newest_eq_none.2 hnil] at hr

/-- While a delayed block is pending, the colour screen holds the newest record. -/
theorem newest_of_pending {n : ℕ} (hs : s.Shows lib dataList .color)
    (hn : s.color.pendingGauges = n + 1) : newest lib dataList = some s.color.latestData := by
  obtain ⟨hlatest, -, -, hpending⟩ := hs
  have hne : dataList ≠ [] := fun hnil => by simp [hpending hnil] at hn
  obtain ⟨r, hr⟩ := exists_newest lib hne
  rw [hlatest, hr, Option.getD_some]

/-- The delayed block shows the same list. -/
theorem shows_gauged {n : ℕ} (hs : s.Shows lib dataList .color)
    (hn : s.color.pendingGauges = n + 1) (v₁ v₂ : ℤ) :
    ({ s with color := ({ s.color with pendingGauges := n } : ColorScreen).gauged v₁ v₂ }
      : Screens).Shows lib dataList .color := by
  have hnewest := newest_of_pending hs hn
  obtain ⟨hlatest, himage, hpaint, -⟩ := hs
  exact ⟨hlatest, himage, hpaint, fun hnil => by simp [newest_eq_none.2 hnil] at hnewest⟩

/-- **One notification.**  A screen that is told of a showable list, not shorter than the one it
shows, shows it; the other screens are left alone. -/
theorem notify_ok (hd : Showable lib dataList) {screen : Screen} (hold : s.Shows lib old screen)
    (hlen : old.length ≤ dataList.length) :
    ∃ s', (listeners lib).onDataListChange screen dataList s = .ok s' ∧
      s'.Shows lib dataList screen ∧
      ∀ other ≠ screen, ∀ l, s'.Shows lib l other ↔ s.Shows lib l other := by
  by_cases hne : dataList = []
  · -- only a screen that shows nothing can be told of an empty list
    subst hne
    obtain rfl : old = [] := List.length_eq_zero_iff.1 (by simpa using hlen)
    refine ⟨s, ?_, ?_, fun _ _ _ => Iff.rfl⟩
    · cases screen with
      | home => rfl
      | color => rfl
      | history =>
        have : s.history.sensorDataList = newestFirst lib [] := hold
        simp [listeners, HistoryScreen.onDataListChange, ← this, Except.map]
    · exact hold
  · obtain ⟨r, hr⟩ := exists_newest lib hne
    cases screen with
    | home =>
      obtain ⟨t, ht⟩ := Option.isSome_iff_exists.1 (hd.room r hr)
      obtain ⟨temp, hp, ht⟩ := Option.bind_eq_some_iff.1 ht
      refine ⟨{ s with home := s.home.showing r temp t }, ?_, ?_, ?_⟩
      · simp only [listeners, HomeScreen.onDataListChange_eq hr hp ht]
        rfl
      · simp [Shows, HomeScreen.showing, hr]
      · intro other hother l
        cases other <;> first | exact absurd rfl hother | exact Iff.rfl
    | color =>
      refine ⟨{ s with color := s.color.showing (newestFirst lib dataList) r }, ?_,
        shows_showing hold hlen hr, ?_⟩
      · simp only [listeners, ColorScreen.onDataListChange_eq hr hd.colored]
        rfl
      · intro other hother l
        cases other <;> first | exact absurd rfl hother | exact Iff.rfl
    | history =>
      refine ⟨{ s with history := ⟨newestFirst lib dataList⟩ }, rfl, rfl, ?_⟩
      intro other hother l
      cases other <;> first | exact absurd rfl hother | exact Iff.rfl

/-- Notifying some of the screens, in any order. -/
theorem foldlM_notify_ok (hd : Showable lib dataList) (os : List Screen)
    (hold : ∀ screen, ∃ old, old.length ≤ dataList.length ∧ s.Shows lib old screen) :
    ∃ s', os.foldlM (fun s o => (listeners lib).onDataListChange o dataList s) s = .ok s' ∧
      (∀ screen ∈ os, s'.Shows lib dataList screen) ∧
      ∀ screen ∉ os, ∀ l, s'.Shows lib l screen ↔ s.Shows lib l screen := by
  induction os generalizing s with
  | nil => exact ⟨s, rfl, fun _ h => absurd h List.not_mem_nil, fun _ _ _ => Iff.rfl⟩
  | cons o os ih =>
    obtain ⟨old, hlen, hshow⟩ := hold o
    obtain ⟨m, hm, hmo, hmother⟩ := notify_ok hd hshow hlen
    obtain ⟨s', hs', hin, hout⟩ := ih (s := m) fun screen => by
      by_cases h : screen = o
      · exact ⟨dataList, le_rfl, h ▸ hmo⟩
      · obtain ⟨old, hlen, hshow⟩ := hold screen
        exact ⟨old, hlen, (hmother screen h old).2 hshow⟩
    refine ⟨s', by rw [List.foldlM_cons, hm]; exact hs', fun screen hmem => ?_,
      fun screen hmem l => ?_⟩
    · by_cases h : screen ∈ os
      · exact hin screen h
      · obtain rfl : screen = o := by simpa [h] using hmem
        exact (hout _ h dataList).2 hmo
    · rw [List.mem_cons, not_or] at hmem
      exact (hout screen hmem.2 l).trans (hmother screen hmem.1 l)

end Screens

namespace App

variable {lib : StandardLibrary} {a a' : App}

/-- Every screen shows a showable list that was the controller's list once, and still is if the
screen is registered. -/
def Current (lib : StandardLibrary) (a : App) : Prop :=
  ∀ screen, ∃ l, l <+: a.controller.dataList ∧ Showable lib l ∧ a.screens.Shows lib l screen ∧
    (screen ∈ a.controller.registered → l = a.controller.dataList)

theorem current_init (lib : StandardLibrary) : Current lib {} := by
  intro screen
  have hnone : newest lib [] = none := newest_eq_none.2 rfl
  exact ⟨[], List.prefix_refl _, ⟨by simp, by simp [hnone], by simp [hnone]⟩,
    Screens.shows_nil lib screen, fun _ => rfl⟩

theorem allAlive (a : App) : a.controller.listeners.AllAlive heap := fun _ _ => rfl

/-- What `viewWillAppear` does besides registering leaves what the screens show. -/
theorem shows_showTemperature {s : Screens} {l : List SensorData} {screen : Screen} :
    Screens.Shows lib l { s with home := s.home.showTemperature } screen ↔
      s.Shows lib l screen := by
  cases screen <;> exact Iff.rfl

theorem snapshot_ok (hc : Current lib a) (changes : List DocumentChange)
    (order : Shuffle (WeakObjectWrapper Screen))
    (hd : Showable lib (a.controller.dataList ++ changes.filterMap recordOf?)) :
    ∃ a', step lib a (.snapshot changes order) = .ok a' ∧ Current lib a' ∧
      a'.controller.dataList = a.controller.dataList ++ changes.filterMap recordOf? := by
  obtain ⟨os, hos, heq⟩ := FirebaseController.snapshotListener_eq (Screens.listeners lib)
    a.screens order ⟨changes⟩ none a.allAlive
  obtain ⟨s', hs', hin, hout⟩ := Screens.foldlM_notify_ok hd os (s := a.screens) fun screen => by
    obtain ⟨l, hl, -, hshow, -⟩ := hc screen
    exact ⟨l, (hl.trans (List.prefix_append _ _)).length_le, hshow⟩
  simp only [hs'] at heq
  refine ⟨_, by rw [step, heq]; rfl, fun screen => ?_, rfl⟩
  by_cases h : screen ∈ os
  · exact ⟨_, List.prefix_refl _, hd, hin screen h, fun _ => rfl⟩
  · -- a screen that is not told keeps its list, and is not registered
    obtain ⟨l, hl, hshowable, hshow, -⟩ := hc screen
    exact ⟨l, hl.trans (List.prefix_append _ _), hshowable, (hout screen h l).2 hshow,
      fun hreg => absurd (hos.mem_iff.2 hreg) h⟩

theorem appear_ok (hc : Current lib a) (screen : Screen) (touch : Touch (WeakObjectWrapper Screen))
    (hd : Showable lib a.controller.dataList) :
    ∃ a', step lib a (.appear screen touch) = .ok a' ∧ Current lib a' ∧
      a'.controller.dataList = a.controller.dataList := by
  obtain ⟨c', hdata, hreg, heq⟩ := FirebaseController.addListener_eq
    (Screens.listeners lib) a.screens touch screen a.allAlive rfl
  obtain ⟨l, hl, -, hshow, -⟩ := hc screen
  obtain ⟨s', hs', hin, hout⟩ := Screens.notify_ok hd hshow hl.length_le
  rw [hs'] at heq
  have hcurrent : Current lib ⟨c', s'⟩ := by
    intro other
    by_cases h : other = screen
    · exact ⟨_, by rw [hdata], hd, h ▸ hin, fun _ => hdata.symm⟩
    · obtain ⟨l, hl, hshowable, hshow, hregistered⟩ := hc other
      refine ⟨l, hdata ▸ hl, hshowable, (hout other h l).2 hshow, fun hmem => ?_⟩
      rw [hdata]
      refine hregistered ?_
      rw [hreg] at hmem
      split_ifs at hmem
      · exact hmem
      · simpa [h] using hmem
  cases screen with
  | home =>
    refine ⟨⟨c', { s' with home := s'.home.showTemperature }⟩, ?_, fun other => ?_, hdata⟩
    · rw [step, viewWillAppear, heq]
      rfl
    · simp only [shows_showTemperature]
      exact hcurrent other
  | color => exact ⟨⟨c', s'⟩, by rw [step, viewWillAppear, heq]; rfl, hcurrent, hdata⟩
  | history => exact ⟨⟨c', s'⟩, by rw [step, viewWillAppear, heq]; rfl, hcurrent, hdata⟩

theorem disappear_ok (hc : Current lib a) (screen : Screen)
    (touch : Touch (WeakObjectWrapper Screen)) :
    ∃ a', step lib a (.disappear screen touch) = .ok a' ∧ Current lib a' ∧
      a'.controller.dataList = a.controller.dataList := by
  obtain ⟨c', hdata, hreg, heq⟩ := FirebaseController.removeListener_eq (l := screen) touch
    a.allAlive rfl
  refine ⟨⟨c', a.screens⟩, by rw [step, viewWillDisappear, heq]; rfl, fun other => ?_, hdata⟩
  obtain ⟨l, hl, hshowable, hshow, hregistered⟩ := hc other
  refine ⟨l, hdata ▸ hl, hshowable, hshow, fun hmem => ?_⟩
  rw [hdata]
  exact hregistered (List.mem_of_mem_erase (hreg ▸ hmem))

theorem gaugeBlock_ok (hc : Current lib a) :
    ∃ a', step lib a .gaugeBlock = .ok a' ∧ Current lib a' ∧
      a'.controller.dataList = a.controller.dataList := by
  cases hn : a.screens.color.pendingGauges with
  | zero => exact ⟨a, by rw [step, hn], hc, rfl⟩
  | succ n =>
    obtain ⟨l, hl, hshowable, hshow, hregistered⟩ := hc .color
    have hnewest := Screens.newest_of_pending hshow hn
    obtain ⟨⟨v, w⟩, hv⟩ := Option.isSome_iff_exists.1 (hshowable.gauges _ hnewest)
    let before : ColorScreen := { a.screens.color with pendingGauges := n }
    have hgauge : before.gaugeBlock = .ok (before.gauged v w) :=
      ColorScreen.gaugeBlock_eq_ok_iff.2 ⟨v, w, hv, rfl⟩
    refine ⟨{ a with screens := { a.screens with color := before.gauged v w } }, ?_, ?_, rfl⟩
    · rw [step, hn]
      exact bind_eq_ok.2 ⟨_, hgauge, rfl⟩
    · intro screen
      cases screen with
      | home => exact hc .home
      | color => exact ⟨l, hl, hshowable, Screens.shows_gauged hshow hn v w, hregistered⟩
      | history => exact hc .history

theorem layoutRow_ok (hc : Current lib a) (row : ℕ) : step lib a (.layoutRow row) = .ok a := by
  rw [step]
  split_ifs with hrow
  · obtain ⟨l, -, hshowable, hshow, -⟩ := hc .history
    have hmem : ∀ r ∈ a.screens.history.sensorDataList, r ∈ l := fun r hr =>
      (newestFirst_perm lib l).mem_iff.1 (hshow ▸ hr)
    obtain ⟨cell, hcell⟩ := (HistoryScreen.cellForRowAt_eq_ok_iff
      (List.getElem?_eq_getElem hrow)).2 (hshowable.colored _ (hmem _ (List.getElem_mem hrow)))
    rw [hcell]
    rfl
  · rfl

/-- **One event.**  If the list stays showable, the event goes through and every registered screen
shows the controller's list. -/
theorem step_ok (hc : Current lib a) (e : AppEvent)
    (hd : Showable lib (a.controller.dataList ++ e.records)) :
    ∃ a', step lib a e = .ok a' ∧ Current lib a' ∧
      a'.controller.dataList = a.controller.dataList ++ e.records := by
  cases e with
  | snapshot changes order => exact snapshot_ok hc changes order hd
  | error message => exact ⟨a, rfl, hc, (List.append_nil _).symm⟩
  | appear screen touch =>
    rw [show (AppEvent.appear screen touch).records = [] from rfl, List.append_nil] at hd ⊢
    exact appear_ok hc screen touch hd
  | disappear screen touch =>
    rw [show (AppEvent.disappear screen touch).records = [] from rfl, List.append_nil]
    exact disappear_ok hc screen touch
  | gaugeBlock =>
    rw [show AppEvent.gaugeBlock.records = [] from rfl, List.append_nil]
    exact gaugeBlock_ok hc
  | layoutRow row => exact ⟨a, layoutRow_ok hc row, hc, (List.append_nil _).symm⟩

/-- **A run.**  If the list is showable after every beginning of the run, the run goes through, and
at its end every registered screen shows the controller's list. -/
theorem run_ok {es : List AppEvent}
    (hd : ∀ p, p <+: es → Showable lib (p.flatMap AppEvent.records)) :
    ∃ a, run (step lib) {} es = .ok a ∧ Current lib a ∧
      a.controller.dataList = es.flatMap AppEvent.records := by
  refine run_total (I := fun p a => Current lib a ∧
    a.controller.dataList = p.flatMap AppEvent.records) ⟨current_init lib, rfl⟩ ?_
  intro p e q m hes _ ⟨hc, hdata⟩
  have hnext : m.controller.dataList ++ e.records = (p ++ [e]).flatMap AppEvent.records := by
    simp [hdata]
  obtain ⟨m', hm', hc', hdata'⟩ := step_ok hc e (by
    rw [hnext]
    exact hd _ ⟨q, by simp [hes]⟩)
  exact ⟨m', hm', hc', hdata'.trans hnext⟩

end App

end SmartWeather
