import SmartWeather.Screens.App

/-!
# Which documents the screens can show

`dataChecker` looks at the types of the fields only, the screens convert their texts to numbers by
force.  `runs_ok_iff` says which sequences of snapshots no order of events can turn into a trap:
those whose lists are all `Showable`.
-/

namespace SmartWeather

open Runs

/-- The snapshot an event delivers. -/
def AppEvent.snapshot? : AppEvent → Option (List DocumentChange)
  | .snapshot changes _ => some changes
  | _ => none

/-- The records of some snapshots. -/
def snapshotRecords (ss : List (List DocumentChange)) : List SensorData :=
  ss.flatMap fun changes => changes.filterMap recordOf?

theorem snapshotRecords_filterMap (es : List AppEvent) :
    snapshotRecords (es.filterMap AppEvent.snapshot?) = es.flatMap AppEvent.records := by
  induction es with
  | nil => rfl
  | cons e es ih =>
    cases e with
    | snapshot changes order => exact congrArg (changes.filterMap recordOf? ++ ·) ih
    | error message => exact ih
    | appear screen touch => exact ih
    | disappear screen touch => exact ih
    | gaugeBlock => exact ih
    | layoutRow row => exact ih

namespace App

variable {lib : StandardLibrary}

/-- The delivery of some snapshots. -/
def deliver (ss : List (List DocumentChange)) : List AppEvent :=
  ss.map fun changes => .snapshot changes (Shuffle.id _)

theorem filterMap_deliver (ss : List (List DocumentChange)) :
    (deliver ss).filterMap AppEvent.snapshot? = ss := by
  induction ss with
  | nil => rfl
  | cons s ss ih => simpa [deliver, AppEvent.snapshot?] using ih

/-- While no screen is registered, snapshots change the list only. -/
theorem run_deliver (ss : List (List DocumentChange)) (dataList : List SensorData) :
    run (step lib) ⟨⟨{}, dataList⟩, {}⟩ (deliver ss) =
      .ok ⟨⟨{}, dataList ++ snapshotRecords ss⟩, {}⟩ := by
  induction ss generalizing dataList with
  | nil => simp [deliver, snapshotRecords]
  | cons changes ss ih =>
    obtain ⟨os, hos, heq⟩ := FirebaseController.snapshotListener_eq (Screens.listeners lib) {}
      (Shuffle.id _) ⟨changes⟩ none (App.allAlive ⟨⟨{}, dataList⟩, {}⟩)
    -- no screen is registered, so none is told
    obtain rfl : os = [] := hos.eq_nil
    have hstep : step lib ⟨⟨{}, dataList⟩, {}⟩ (.snapshot changes (Shuffle.id _)) =
        .ok ⟨⟨{}, dataList ++ changes.filterMap recordOf?⟩, {}⟩ := by
      rw [step, heq]
      rfl
    rw [deliver, List.map_cons, run_cons_ok hstep]
    refine (ih _).trans ?_
    simp [snapshotRecords, List.append_assoc]

/-- A screen that appears after some snapshots is told of their records. -/
theorem appear_eq (screen : Screen) (dataList : List SensorData) {a : App}
    (h : step lib ⟨⟨{}, dataList⟩, {}⟩ (.appear screen (Touch.none _)) = .ok a) :
    ∃ s, (Screens.listeners lib).onDataListChange screen dataList {} = .ok s ∧
      (a.screens = s ∨ a.screens = { s with home := s.home.showTemperature }) := by
  obtain ⟨c', -, -, heq⟩ := FirebaseController.addListener_eq (Screens.listeners lib) {}
    (Touch.none _) screen (App.allAlive ⟨⟨{}, dataList⟩, {}⟩) rfl
  obtain ⟨⟨c, s⟩, hadd, h⟩ := bind_eq_ok.1 h
  rw [heq] at hadd
  obtain ⟨s', hs', hpair⟩ := map_eq_ok.1 hadd
  cases hpair
  refine ⟨s, hs', ?_⟩
  cases screen <;> cases h
  · exact Or.inr rfl
  · exact Or.inl rfl
  · exact Or.inl rfl

/-- The events can follow the snapshots. -/
theorem exists_run_of_initial {ss p : List (List DocumentChange)} (hp : p <+: ss)
    (h : ∀ es : List AppEvent, es.filterMap AppEvent.snapshot? = ss →
      ∃ a, run (step lib) {} es = .ok a)
    {es : List AppEvent} (hes : es.filterMap AppEvent.snapshot? = []) :
    ∃ a, run (step lib) ⟨⟨{}, snapshotRecords p⟩, {}⟩ es = .ok a := by
  obtain ⟨q, rfl⟩ := hp
  obtain ⟨a, ha⟩ := h (deliver p ++ (es ++ deliver q)) (by
    simp only [List.filterMap_append, filterMap_deliver, hes, List.nil_append])
  rw [run_append_ok (run_deliver p [])] at ha
  obtain ⟨m, hm, -⟩ := run_append_eq_ok ha
  exact ⟨m, hm⟩

section Demands

variable {dataList : List SensorData} (h : ∀ es : List AppEvent,
  es.filterMap AppEvent.snapshot? = [] → ∃ a, run (step lib) ⟨⟨{}, dataList⟩, {}⟩ es = .ok a)

include h

/-- The history screen may lay out any row. -/
theorem colored_of_runs : ∀ r ∈ dataList, Colored r := by
  intro r hr
  obtain ⟨i, hi⟩ := List.mem_iff_getElem?.1 ((newestFirst_perm lib dataList).mem_iff.2 hr)
  obtain ⟨b, hb⟩ := h [.appear .history (Touch.none _), .layoutRow i] rfl
  obtain ⟨a, ha, hb⟩ := run_cons_eq_ok hb
  obtain ⟨s, hs, hscreens⟩ := appear_eq .history dataList ha
  cases hs
  have hhistory : a.screens.history.sensorDataList = newestFirst lib dataList := by
    rcases hscreens with h' | h' <;> rw [h']
  obtain ⟨_, hlayout, -⟩ := run_cons_eq_ok hb
  rw [step, HistoryScreen.numberOfRowsInSection, hhistory,
    if_pos (List.getElem?_eq_some_iff.1 hi).1] at hlayout
  obtain ⟨cell, hcell, -⟩ := bind_eq_ok.1 hlayout
  exact (HistoryScreen.cellForRowAt_eq_ok_iff (by rw [hhistory, hi])).1 ⟨cell, hcell⟩

/-- The home screen may appear. -/
theorem room_of_runs : ∀ r, newest lib dataList = some r → (roomDegrees r).isSome := by
  intro r hr
  obtain ⟨b, hb⟩ := h [.appear .home (Touch.none _)] rfl
  obtain ⟨a, ha, -⟩ := run_cons_eq_ok hb
  obtain ⟨s, hs, -⟩ := appear_eq .home dataList ha
  obtain ⟨home, hhome, -⟩ := map_eq_ok.1 hs
  exact HomeScreen.roomDegrees_isSome hr hhome

/-- The colour screen may appear, and its delayed block may run. -/
theorem gauges_of_runs :
    ∀ r, newest lib dataList = some r → (ColorScreen.gaugeValues r).isSome := by
  intro r hr
  obtain ⟨b, hb⟩ := h [.appear .color (Touch.none _), .gaugeBlock] rfl
  obtain ⟨a, ha, hb⟩ := run_cons_eq_ok hb
  obtain ⟨s, hs, hscreens⟩ := appear_eq .color dataList ha
  have hcolor := ColorScreen.onDataListChange_eq (c := {}) hr (colored_of_runs h)
  obtain ⟨color, hcolor', hscreen⟩ := map_eq_ok.1 hs
  rw [hcolor] at hcolor'
  cases hcolor'
  have hshown : a.screens.color = ColorScreen.showing (newestFirst lib dataList) r {} := by
    rcases hscreens with h' | h' <;> rw [h', ← hscreen]
  obtain ⟨_, hgauge, -⟩ := run_cons_eq_ok hb
  rw [step, hshown] at hgauge
  obtain ⟨_, hblock, -⟩ := bind_eq_ok.1 hgauge
  obtain ⟨n, m, hvalues, -⟩ := ColorScreen.gaugeBlock_eq_ok_iff.1 hblock
  exact Option.isSome_iff_exists.2 ⟨_, hvalues⟩

end Demands

/-- **When no screen can trap.**  Whatever the screens do between and after the snapshots `ss`, no
listener, delayed block or row traps, exactly if the list is showable after every one of them. -/
theorem runs_ok_iff (lib : StandardLibrary) (ss : List (List DocumentChange)) :
    (∀ es : List AppEvent, es.filterMap AppEvent.snapshot? = ss →
        ∃ a, run (step lib) {} es = .ok a) ↔
      ∀ p, p <+: ss → Showable lib (snapshotRecords p) := by
  constructor
  · intro h p hp
    have hruns : ∀ es : List AppEvent, es.filterMap AppEvent.snapshot? = [] → _ :=
      fun es hes => exists_run_of_initial hp h hes
    exact ⟨colored_of_runs hruns, room_of_runs hruns, gauges_of_runs hruns⟩
  · rintro h es rfl
    obtain ⟨a, ha, -⟩ : ∃ a, run (step lib) {} es = .ok a ∧ _ := run_ok fun p hp => by
      rw [← snapshotRecords_filterMap]
      obtain ⟨q, rfl⟩ := hp
      exact h _ ⟨_, (List.filterMap_append ..).symm⟩
    exact ⟨a, ha⟩

/-- A document whose temperature is not a number. -/
def blankDocument : Document := ⟨"a", sampleFields "Temperature" ""⟩

/-- The document passes the check, and the home screen traps on it. -/
theorem blankDocument_traps : dataChecker blankDocument.added = true ∧
    ¬ ∀ es : List AppEvent, es.filterMap AppEvent.snapshot? = [[blankDocument.added]] →
      ∃ a, run (step StandardLibrary.reference) {} es = .ok a := by
  refine ⟨checkFields_sampleFields (by decide) _, fun h => ?_⟩
  obtain ⟨a, ha⟩ := h [.snapshot [blankDocument.added] (Shuffle.id _),
    .appear .home (Touch.none _)] rfl
  have htrap : (run (step StandardLibrary.reference) {} [.snapshot [blankDocument.added]
      (Shuffle.id _), .appear .home (Touch.none _)]).toBool = false := by decide +kernel
  rw [ha] at htrap
  exact absurd htrap (by simp [Except.toBool])

end App

end SmartWeather
