import SmartWeather.Sensor.Bus

/-!
# Which runs keep to the modes of the barometer

`loop_pressure`: the published pressures depend on the contents for the pressure only, in every run.
`modesKept_iff`: in a run of the program the blocks are read in the modes they are decoded for, and
the published altitudes and pressures depend on their own contents only, exactly if the program does
not come to read the altitude a second time.
-/

namespace SmartWeather

open Effects Rounding

namespace Sensor

/-! ### Rounds that differ in the contents of the barometer -/

/-- The rounds are the same, except for what the barometer holds for the pressure. -/
def EqualButPressure (c c' : Cycle) : Prop :=
  ∃ p q, c' = { c with
    first := { c.first with pressure := p }, second := { c.second with pressure := q } }

/-- The rounds are the same, except for what the barometer holds for the altitude. -/
def EqualButAltitude (c c' : Cycle) : Prop :=
  ∃ p q, c' = { c with
    first := { c.first with altitude := p }, second := { c.second with altitude := q } }

variable {c c' : Cycle} {cs cs' : List Cycle} {s t : Pi} {u : StartUp} {key : String}

theorem lookup_altitude (i : ℤ) (m : Measurement) : (newData i m).lookup "Altitude" =
    some (.str (pyStr (toPlaces 2 (altitude m.barometer6)))) := by
  simp [newData, List.lookup_cons]

theorem lookup_pressure (i : ℤ) (m : Measurement) : (newData i m).lookup "Pressure" =
    some (.str (pyStr (toPlaces 2 (pressure m.barometer4)))) := by
  simp [newData, List.lookup_cons]

theorem altitude_congr {ctrl : UInt8} (hmode : altimeterMode ctrl = true)
    (h : EqualButPressure c c') (i : ℤ) :
    (newData i (measurement ctrl c)).lookup "Altitude" =
      (newData i (measurement ctrl c')).lookup "Altitude" := by
  obtain ⟨p, q, rfl⟩ := h
  have hout : outputs ctrl { c.first with pressure := p } = outputs ctrl c.first := by
    simp only [outputs, hmode, if_true]
  simp only [lookup_altitude, measurement, hout]

theorem pressure_congr (ctrl : UInt8) (h : EqualButAltitude c c') (i : ℤ) :
    (newData i (measurement ctrl c)).lookup "Pressure" =
      (newData i (measurement ctrl c')).lookup "Pressure" := by
  obtain ⟨p, q, rfl⟩ := h
  have hmode : altimeterMode 0x39 = false := by decide
  have hout : outputs 0x39 { c.second with altitude := q } = outputs 0x39 c.second := by
    simp only [outputs, hmode, Bool.false_eq_true, if_false]
  simp only [lookup_pressure, measurement, hout]

/-! ### States that agree under a key -/

/-- The states agree in what is published under the key, and in all that the program uses. -/
structure SameUnder (key : String) (s t : Pi) : Prop where
  cloud : s.cloud.map (·.lookup key) = t.cloud.map (·.lookup key)
  offline : s.offline.map (·.lookup key) = t.offline.map (·.lookup key)
  log : s.log.map (·.lookup key) = t.log.map (·.lookup key)
  ctrl : s.ctrl = t.ctrl
  rgbEnabled : s.rgbEnabled = t.rgbEnabled
  i : s.i = t.i
  file : s.file = t.file

/-- What is published under a key: in the cloud, in the file for lost connections, in the log. -/
def published (key : String) (s : Pi) : List (Option PyValue) × List (Option PyValue) ×
    List (Option PyValue) :=
  (s.cloud.map (·.lookup key), s.offline.map (·.lookup key), s.log.map (·.lookup key))

theorem SameUnder.published (h : SameUnder key s t) :
    Sensor.published key s = Sensor.published key t := by
  rw [Sensor.published, h.cloud, h.offline, h.log]
  rfl

theorem SameUnder.rfl : SameUnder key s s := by constructor <;> exact Eq.refl _

theorem map_snoc {f : Dict → Option PyValue} {ds es : List Dict} {d e : Dict}
    (h : ds.map f = es.map f) (hd : f d = f e) : (ds ++ [d]).map f = (es ++ [e]).map f := by
  rw [List.map_append, List.map_append, h, List.map_singleton, List.map_singleton, hd]

/-! ### The parts of the program, twice -/

theorem reach_coupled (c : Cycle) (p : Point) :
    Coupled Eq (SameUnder key) (reach c p) (reach c p) := by
  unfold reach
  split
  · exact Coupled.throw _
  · exact Coupled.pure rfl

theorem checkNetwork_coupled (k : Check) :
    Coupled Eq (SameUnder key) (checkNetwork k) (checkNetwork k) := by
  cases k
  · exact Coupled.pure rfl
  · exact Coupled.pure rfl
  · exact Coupled.throw _

theorem withOpen_coupled (name : String) {body body' : Py Unit}
    (h : Coupled Eq (SameUnder key) body body') :
    Coupled Eq (SameUnder key) (withOpen name body) (withOpen name body') := by
  refine Coupled.bind (Coupled.update fun s t hR => ?_) fun _ _ _ => h.finally fun s t hR => ?_
  all_goals exact { hR with file := rfl }

section Store

variable {d d' : Dict}

theorem addDocument_coupled (c : Cycle) (hd : d.lookup key = d'.lookup key) :
    Coupled Eq (SameUnder key) (addDocument c d) (addDocument c d') := by
  unfold addDocument
  split
  · exact Coupled.update fun s t hR => { hR with cloud := map_snoc hR.cloud hd }
  · exact Coupled.throw _

theorem publish_coupled (c : Cycle) (hd : d.lookup key = d'.lookup key) :
    Coupled Eq (SameUnder key) (publish c d) (publish c d') := by
  refine (reach_coupled c _).bind fun _ _ _ => (checkNetwork_coupled _).bind fun b b' hb => ?_
  subst hb
  split
  · exact (reach_coupled c _).bind fun _ _ _ => addDocument_coupled c hd
  · refine (reach_coupled c _).bind fun _ _ _ => withOpen_coupled _ ?_
    exact (reach_coupled c _).bind fun _ _ _ =>
      Coupled.update fun s t hR => { hR with offline := map_snoc hR.offline hd }

theorem writeLog_coupled (c : Cycle) (hd : d.lookup key = d'.lookup key) :
    Coupled Eq (SameUnder key) (writeLog c d) (writeLog c d') := by
  refine (reach_coupled c _).bind fun _ _ _ => withOpen_coupled _ ?_
  exact (reach_coupled c _).bind fun _ _ _ =>
    Coupled.update fun s t hR => { hR with log := map_snoc hR.log hd }

theorem store_coupled (c : Cycle) (hd : d.lookup key = d'.lookup key) :
    Coupled Eq (SameUnder key) (store c d) (store c d') :=
  (publish_coupled c hd).bind fun _ _ _ => writeLog_coupled c hd

end Store

theorem closeFile_coupled : Coupled Eq (SameUnder key) closeFile closeFile := by
  refine Coupled.get.bind fun s t hR => ?_
  rw [hR.file]
  split
  · exact Coupled.throw _
  · exact Coupled.update fun s t hR => { hR with file := rfl }

/-- What is published under the key is the same for both measurements. -/
def SameReading (key : String) : Option Measurement → Option Measurement → Prop :=
  Option.Rel fun m m' => ∀ i, (newData i m).lookup key = (newData i m').lookup key

/-- The reads of a round leave the same state behind, up to the contents. -/
theorem SameUnder.measured (h : SameUnder key s t) : SameUnder key (measured s) (measured t) :=
  { h with ctrl := Eq.refl _ }

theorem measure_alike {m m' : Contents} (hR : SameUnder key s t)
    (hkey : ∀ i, (newData i (measurement s.ctrl c)).lookup key =
      (newData i (measurement s.ctrl { c with first := m, second := m' })).lookup key) :
    Alike (SameReading key) (SameUnder key) ((measure c).run s)
      ((measure { c with first := m, second := m' }).run t) := by
  rw [measure_run, measure_run, ← hR.ctrl, ← hR.rgbEnabled]
  cases c.interrupt with
  | none =>
    dsimp only
    split
    · exact ⟨.some hkey, hR.measured⟩
    · exact ⟨.none, hR.measured⟩
  | some p =>
    cases p with
    | readAltitude => exact ⟨rfl, hR⟩
    | writeBarometer => exact ⟨rfl, { hR with ctrl := rfl, rgbEnabled := rfl }⟩
    | sleepBarometer | readPressure => exact ⟨rfl, { hR with ctrl := rfl, rgbEnabled := rfl }⟩
    | readRgb | sleepRgb =>
      dsimp only
      split
      · exact ⟨rfl, hR.measured⟩
      · exact ⟨.none, hR.measured⟩
    | printFailed | breakLoop =>
      dsimp only
      split
      · exact ⟨.some hkey, hR.measured⟩
      · exact ⟨rfl, hR.measured⟩
    | _ =>
      dsimp only
      split
      · exact ⟨.some hkey, hR.measured⟩
      · exact ⟨.none, hR.measured⟩

theorem cycle_alike {m m' : Contents} (hR : SameUnder key s t)
    (hkey : ∀ i, (newData i (measurement s.ctrl c)).lookup key =
      (newData i (measurement s.ctrl { c with first := m, second := m' })).lookup key) :
    Alike Eq (SameUnder key) ((cycle c).run s)
      ((cycle { c with first := m, second := m' }).run t) := by
  refine (measure_alike hR hkey).bind fun o o' s' t' _ ho hR' => ?_
  cases ho with
  | none => exact ⟨rfl, hR'⟩
  | some hm =>
    refine Coupled.bind (reach_coupled c _) (fun _ _ _ => ?_) s' t' hR'
    refine Coupled.get.bind fun s t hst => ?_
    have hd := hm s.i
    rw [← hst.i]
    exact (store_coupled c hd).bind fun _ _ _ => Coupled.pure rfl

/-! ### Runs -/

/-- The published pressures do not depend on the contents for the altitude. -/
theorem loop_pressure (h : List.Forall₂ EqualButAltitude cs cs') :
    Coupled Eq (SameUnder "Pressure") (loop cs) (loop cs') := by
  induction h with
  | nil => exact Coupled.pure rfl
  | @cons c c' cs cs' hc _ ih =>
    refine Coupled.bind (V := Eq) (fun s t hR => ?_) fun b b' hb => ?_
    · have hkey := pressure_congr s.ctrl hc
      obtain ⟨p, q, rfl⟩ := hc
      exact cycle_alike hR hkey
    · subst hb
      split
      · exact ih
      · exact Coupled.pure rfl

/-- Up to the second read, the published altitudes do not depend on the contents for the
pressure. -/
theorem loop_altitude (hu : Starts u) (h : ¬ SecondRead u cs)
    (hcs : List.Forall₂ EqualButPressure cs cs') :
    Alike Eq (SameUnder "Altitude") ((loop cs).run (ready u s)) ((loop cs').run (ready u s)) := by
  cases hcs with
  | nil => exact ⟨rfl, .rfl⟩
  | @cons c c' cs cs' hc hcs =>
    have hkey := altitude_congr (show altimeterMode 0xB9 = true by decide) hc
    obtain ⟨p, q, rfl⟩ := hc
    refine (cycle_alike (s := ready u s) .rfl hkey).bind fun b b' s' t' hrun hb hR => ?_
    subst hb
    cases b with
    | false => exact ⟨rfl, hR⟩
    | true =>
      obtain rfl | ⟨d, rest, rfl, hd⟩ := loop_rest hu h hrun
      · cases hcs
        exact ⟨rfl, hR⟩
      · cases hcs with
        | @cons _ d' _ _ hdd' _ =>
          -- the interrupt strikes both runs at the same instant
          have hd' : d'.interrupt = some .readAltitude := by
            obtain ⟨_, _, rfl⟩ := hdd'
            exact hd
          rw [if_pos rfl, if_pos rfl, loop_of_readAltitude hd, loop_of_readAltitude hd']
          exact ⟨rfl, hR⟩

/-- What holds side by side of two loops holds of the program with them. -/
theorem sensorPy_published (h : Starts u →
    Alike Eq (SameUnder key) ((loop cs).run (ready u s)) ((loop cs').run (ready u s))) :
    published key (final (sensorPy u cs') s) = published key (final (sensorPy u cs) s) := by
  rw [sensorPy_final, sensorPy_final]
  split_ifs with hu
  · have hmain : Alike Eq (SameUnder key) ((main cs).run (ready u s))
        ((main cs').run (ready u s)) := by
      refine (h hu).tryCatch fun e => ?_
      cases e with
      | keyboardInterrupt => exact closeFile_coupled
      | _ => exact Coupled.throw _
    exact hmain.states.published.symm
  · rfl

/-- In a run of the program the blocks are read in the modes they are decoded for, and what is
published under "Altitude" and "Pressure" depends on the contents for that only. -/
structure ModesKept (u : StartUp) (cs : List Cycle) (s : Pi) : Prop where
  readsInMode : ReadsInMode (final (sensorPy u cs) s).bus
  altitude : ∀ cs', List.Forall₂ EqualButPressure cs cs' →
    published "Altitude" (final (sensorPy u cs') s) =
      published "Altitude" (final (sensorPy u cs) s)
  pressure : ∀ cs', List.Forall₂ EqualButAltitude cs cs' →
    published "Pressure" (final (sensorPy u cs') s) =
      published "Pressure" (final (sensorPy u cs) s)

/-- **Which runs keep to the modes.**  Of all runs of the program, from any state of the devices and
the files, however the outside behaves. -/
theorem modesKept_iff (u : StartUp) (cs : List Cycle) (s : Pi) (hs : s.bus = []) :
    ModesKept u cs s ↔ ¬ SecondRead u cs := by
  constructor
  · intro h hsecond
    exact not_readsInMode_secondRead (h.readsInMode.of_initial (bus_of_secondRead hs hsecond))
  · intro h
    exact
      { readsInMode := readsInMode_firstRound.of_initial (bus_of_not_secondRead hs h)
        altitude := fun cs' hcs => sensorPy_published fun hu => loop_altitude hu h hcs
        pressure := fun cs' hcs =>
          sensorPy_published fun _ => loop_pressure hcs _ _ .rfl }

/-- The barometer is read in one round, and the second round is interrupted before its first
read. -/
theorem modesKept_iff_interrupted :
    ModesKept ⟨0x44, .ok, .listed⟩
      [sampleCycle .ok .succeeds,
        { sampleCycle .ok .succeeds with interrupt := some .readAltitude }] {} :=
  (modesKept_iff _ _ _ rfl).2 fun h => h.2.2.2 rfl

/-- In the second of two rounds the block for the altitude is read in barometer mode. -/
theorem twoRounds_not_modesKept :
    ¬ ModesKept ⟨0x44, .ok, .listed⟩ [sampleCycle .ok .succeeds, sampleCycle .ok .succeeds] {} := by
  intro h
  have hsecond : SecondRead ⟨0x44, .ok, .listed⟩
      [sampleCycle .ok .succeeds, sampleCycle .ok .succeeds] := by
    refine ⟨rfl, by decide, ⟨rfl, by decide⟩, nofun⟩
  exact not_readsInMode_secondRead (h.readsInMode.of_initial (bus_of_secondRead rfl hsecond))

end Sensor

end SmartWeather
