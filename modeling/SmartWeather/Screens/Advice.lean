import SmartWeather.Screens.HomeWeather

/-!
# The advice and the two temperatures

The advice compares the room temperature with `apiTemperature`, which is in kelvin, at the moment a
list of records arrives; the label shows the same temperature in degrees Celsius, and a later reply
changes the label without a new comparison.

`Readings` is what a sequence of events has brought: the temperature of the last reply, the one the
last comparison was made with, the room temperature, and the temperature that is displayed.
`advice_agrees_iff` says for which readings the advice agrees with the two temperatures shown.
-/

namespace SmartWeather

open Binary Decimal Runs

/-! ### What the advice says -/

/-- The advice is that the room is warmer than outside. -/
def SaysWarmer (text : String) : Prop :=
  "Looks like you room is warmer than outside".toList <+: text.toList

/-- The advice is that the room is colder than outside. -/
def SaysColder (text : String) : Prop :=
  "Looks like you room is colder than outside".toList <+: text.toList

instance (text : String) : Decidable (SaysWarmer text) := by unfold SaysWarmer; infer_instance
instance (text : String) : Decidable (SaysColder text) := by unfold SaysColder; infer_instance

/-- No text says both: the two beginnings are equally long. -/
theorem SaysWarmer.not_saysColder {text : String} (h : SaysWarmer text) : ¬ SaysColder text := by
  intro h'
  have hlength : "Looks like you room is warmer than outside".toList.length =
      "Looks like you room is colder than outside".toList.length := by decide +kernel
  have heq := (List.prefix_of_prefix_length_le h h' hlength.le).eq_of_length hlength
  exact absurd heq (by decide +kernel)

/-- In all five moods the sentences say what their names promise. -/
theorem mood_says {m : Mood} (h : m ∈ [cold, shivering, happy, sweaty, hot]) :
    (SaysWarmer m.warmer ∧ ¬ SaysColder m.warmer) ∧
      SaysColder m.colder ∧ ¬ SaysWarmer m.colder := by
  have hboth : SaysWarmer m.warmer ∧ SaysColder m.colder := by
    simp only [List.mem_cons, List.not_mem_nil, or_false] at h
    rcases h with rfl | rfl | rfl | rfl | rfl <;> decide +kernel
  exact ⟨⟨hboth.1, hboth.1.not_saysColder⟩, hboth.2, fun hw => hw.not_saysColder hboth.2⟩

/-- The advice is right about the room temperature `t` in whole degrees and the temperature in the
label. -/
def AdviceAgrees (h : HomeScreen) : Prop :=
  ∃ t shown, h.temp.toInt 64 = some t ∧ h.apiTemp = some (toString shown ++ " °C") ∧
    (SaysWarmer h.descLabel ↔ shown < t) ∧ (SaysColder h.descLabel ↔ ¬ shown < t)

/-! ### What the events bring -/

/-- What a sequence of events has brought so far. -/
structure Readings where
  /-- The temperature of the last reply, in kelvin. -/
  outside : ℤ := 0
  /-- The temperature of the reply that was the last one when the last records arrived. -/
  compared : ℤ := 0
  /-- The temperature of the newest of the last records, and in whole degrees. -/
  room : Option (SwiftFloat × ℤ) := none
  /-- The temperature of the last reply that is displayed, in kelvin. -/
  displayed : Option ℤ := none

/-- The room temperature of a list of records. -/
def roomOf (lib : StandardLibrary) (dataList : List SensorData) : Option (SwiftFloat × ℤ) := do
  let r ← newest lib dataList
  let temp ← parse binary32 r.temperature
  let t ← temp.toInt 64
  return (temp, t)

def Readings.note (w : World) (lib : StandardLibrary) (rs : Readings) : HomeEvent → Readings
  | .dataListChanged [] => rs
  | .dataListChanged dataList =>
      { rs with compared := rs.outside, room := roomOf lib dataList }
  | .weatherAnswered k => { rs with outside := (w.kelvin k).getD rs.outside }
  | .main (.weather k) => { rs with displayed := w.kelvin k }
  | _ => rs

/-- The readings after some events. -/
def readings (w : World) (lib : StandardLibrary) (es : List HomeEvent) : Readings :=
  es.foldl (Readings.note w lib) {}

/-- The temperature in the label of a reply of `k` kelvin, as `%i` prints it. -/
def celsiusLabel (k : ℤ) : ℤ := Int.bmod (k - 273) (2 ^ 32)

/-- What the screen shows comes from the readings. -/
structure Consistent (rs : Readings) (h : HomeScreen) : Prop where
  outside : h.apiTemperature = rs.outside
  room : ∀ temp t, rs.room = some (temp, t) → h.temp = temp ∧ temp.toInt 64 = some t ∧
    h.descLabel = if rs.compared < t then (moodOf temp).warmer else (moodOf temp).colder
  displayed : ∀ k, rs.displayed = some k → h.apiTemp = some (percentI (k - 273) ++ " °C")

section Run

variable {w : World} {lib : StandardLibrary} {rs : Readings} {h h' : HomeScreen}

theorem consistent_onDataListChange (hc : Consistent rs h) {dataList : List SensorData}
    (hok : h.onDataListChange lib dataList = .ok h') :
    Consistent (rs.note w lib (.dataListChanged dataList)) h' := by
  rcases HomeScreen.onDataListChange_cases hok with ⟨rfl, rfl⟩ | ⟨r, temp, t, hr, hp, ht, rfl⟩
  · exact hc
  · cases dataList with
    | nil => simp [newest_eq_none.2] at hr
    | cons d ds =>
      have hroom : roomOf lib (d :: ds) = some (temp, t) := by
        simp [roomOf, hr, hp, ht]
      refine ⟨hc.outside, fun temp' t' h' => ?_, hc.displayed⟩
      obtain ⟨rfl, rfl⟩ : temp = temp' ∧ t = t' := by
        simpa using hroom.symm.trans h'
      refine ⟨rfl, ht, ?_⟩
      rw [HomeScreen.showing, HomeScreen.advice, hc.outside]
      rfl

/-- **One event** keeps the screen consistent with what the events have brought. -/
theorem consistent_step (hg : ∀ b ∈ h.mainQueue, b.Genuine w) (hc : Consistent rs h)
    {e : HomeEvent} (hok : HomeScreen.step w lib h e = .ok h') :
    Consistent (rs.note w lib e) h' := by
  cases e with
  | dataListChanged dataList => exact consistent_onDataListChange hc (mapError_eq_ok.1 hok)
  | locationsUpdated locations =>
    obtain ⟨lat, long, rfl⟩ := HomeScreen.locationManager_cases (mapError_eq_ok.1 hok)
    exact ⟨hc.outside, hc.room, hc.displayed⟩
  | weatherAnswered k =>
    obtain ⟨-, hok⟩ := HomeScreen.weatherAnswered_cases hok
    rcases HomeScreen.weatherCompletion_cases hok with ⟨hnone, rfl⟩ | ⟨t, ht, rfl⟩
    · have hkelvin : w.kelvin k = none := by simp [World.kelvin, World.reply, hnone]
      refine ⟨?_, hc.room, hc.displayed⟩
      simp [Readings.note, hkelvin, hc.outside]
    · exact ⟨by simp [Readings.note, ht], hc.room, hc.displayed⟩
  | iconAnswered k =>
    obtain ⟨-, rfl⟩ := HomeScreen.iconAnswered_cases hok
    exact ⟨hc.outside, hc.room, hc.displayed⟩
  | gifLoaded load =>
    obtain ⟨l, -, rfl⟩ := HomeScreen.gifLoaded_cases hok
    exact ⟨hc.outside, hc.room, hc.displayed⟩
  | main tag =>
    obtain ⟨b, hb, hok⟩ := HomeScreen.main_cases hok
    obtain ⟨hmem, rfl⟩ := HomeScreen.mem_of_find_key hb
    have hgen := hg b hmem
    cases b with
    | showWeather k resp t =>
      obtain ⟨r, weather, -, -, rfl⟩ := HomeScreen.showWeather_cases hok
      refine ⟨hc.outside, hc.room, fun k' hk' => ?_⟩
      obtain rfl : t = k' := Option.some.inj (hgen.2.symm.trans hk')
      rfl
    | showIcon k data =>
      obtain ⟨d, -, rfl⟩ := HomeScreen.showIcon_cases hok
      exact ⟨hc.outside, hc.room, hc.displayed⟩
    | showGif k name =>
      cases hok
      exact ⟨hc.outside, hc.room, hc.displayed⟩

/-- **A run.** -/
theorem consistent_run {es : List HomeEvent}
    (hrun : run (HomeScreen.step w lib) HomeScreen.viewDidLoad es = .ok h) :
    Consistent (readings w lib es) h := by
  refine run_induction (motive := fun es h => Consistent (readings w lib es) h)
    ⟨rfl, by simp [readings], by simp [readings]⟩ ?_ es h hrun
  intro p m e m' hm hc hok
  rw [readings, List.foldl_append]
  exact consistent_step (HomeScreen.genuine_run hm) hc hok

/-- **When the advice agrees with the temperatures on the screen.**  In every reachable state in
which a record and a reply have been shown: exactly if the room temperature is not between the
temperature in the label and the kelvin value it was compared with. -/
theorem advice_agrees_iff {es : List HomeEvent}
    (hrun : run (HomeScreen.step w lib) HomeScreen.viewDidLoad es = .ok h)
    {temp : SwiftFloat} {t k : ℤ} (hroom : (readings w lib es).room = some (temp, t))
    (hdisplayed : (readings w lib es).displayed = some k) :
    AdviceAgrees h ↔
      ¬ (celsiusLabel k < t ∧ t ≤ (readings w lib es).compared) ∧
        ¬ ((readings w lib es).compared < t ∧ t ≤ celsiusLabel k) := by
  have hc := consistent_run hrun
  obtain ⟨htemp, ht, hdesc⟩ := hc.room temp t hroom
  have hlabel := hc.displayed k hdisplayed
  obtain ⟨⟨hww, hwc⟩, hcc, hcw⟩ := mood_says (moodOf_mem temp)
  have hagrees : AdviceAgrees h ↔
      (SaysWarmer h.descLabel ↔ celsiusLabel k < t) ∧
        (SaysColder h.descLabel ↔ ¬ celsiusLabel k < t) := by
    constructor
    · rintro ⟨t', shown, ht', hshown, hsays⟩
      obtain rfl : t = t' := by
        rw [htemp, ht] at ht'
        exact Option.some.inj ht'
      -- the number in the label is the only one with this text
      obtain rfl : shown = celsiusLabel k := by
        rw [hlabel] at hshown
        exact (toString_injective (by simpa [percentI, celsiusLabel] using hshown)).symm
      exact hsays
    · exact fun hsays => ⟨t, celsiusLabel k, htemp ▸ ht, hlabel, hsays⟩
  rw [hagrees, hdesc]
  split_ifs with hcomp
  · simp only [hww, hwc, true_iff, false_iff, not_not]
    omega
  · simp only [hcc, hcw, true_iff, false_iff]
    omega

end Run

/-! ### A cool room and a warm one -/

/-- It is `290` kelvin everywhere. -/
def mildWorld : World where
  decode _ := some {
    name := "Melbourne"
    id := 0
    weather := [⟨"clear sky", "01d"⟩]
    main := ⟨nearest binary64 290, nearest binary64 1000⟩ }
  isImage _ := true
  weatherReply _ := some []
  iconReply _ := some []

/-- A reply is displayed, then a record of the given temperature arrives. -/
def oneRecord (temperature : String) : List HomeEvent :=
  [.weatherAnswered 0, .main (.weather 0), .dataListChanged [{ temperature }]]

/-- The room has ten degrees. -/
theorem advice_agrees_iff_coolRoom :
    ∃ h, run (HomeScreen.step mildWorld StandardLibrary.reference) HomeScreen.viewDidLoad
      (oneRecord "10.0") = .ok h ∧ AdviceAgrees h := by
  have hok : (run (HomeScreen.step mildWorld StandardLibrary.reference) HomeScreen.viewDidLoad
      (oneRecord "10.0")).toOption.map (fun _ => ()) = some () := by decide +kernel
  have hroom : (readings mildWorld StandardLibrary.reference (oneRecord "10.0")).room.map
      Prod.snd = some 10 := by decide +kernel
  obtain ⟨⟨temp, t⟩, hroom, rfl⟩ := Option.map_eq_some_iff.1 hroom
  obtain ⟨h, hrun, -⟩ := exists_of_toOption_map hok
  exact ⟨h, hrun, (advice_agrees_iff hrun hroom (k := 290) (by decide +kernel)).2
    (by decide +kernel)⟩

/-- The room has twenty degrees, the label shows seventeen, and the advice is that the room is
colder than outside. -/
theorem warmRoom_not_agrees :
    ∃ h, run (HomeScreen.step mildWorld StandardLibrary.reference) HomeScreen.viewDidLoad
      (oneRecord "20.5") = .ok h ∧ h.mainQueue = [] ∧ h.apiTemp = some "17 °C" ∧
      h.temp.toInt 64 = some 20 ∧ SaysColder h.descLabel ∧ ¬ AdviceAgrees h := by
  have hshown : (run (HomeScreen.step mildWorld StandardLibrary.reference) HomeScreen.viewDidLoad
      (oneRecord "20.5")).toOption.map (fun h => (h.mainQueue.map MainBlock.tag, h.apiTemp,
        h.temp.toInt 64, decide (SaysColder h.descLabel))) =
      some ([], some "17 °C", some 20, true) := by decide +kernel
  obtain ⟨h, hrun, hshown⟩ := exists_of_toOption_map hshown
  simp only [Prod.mk.injEq, List.map_eq_nil_iff, decide_eq_true_eq] at hshown
  obtain ⟨hqueue, hlabel, htemp, hcolder⟩ := hshown
  refine ⟨h, hrun, hqueue, hlabel, htemp, hcolder, ?_⟩
  rintro ⟨t, shown, ht, hshown, -, hiff⟩
  rw [htemp] at ht
  rw [hlabel, show "17 °C" = toString (17 : ℤ) ++ " °C" by decide +kernel, Option.some.injEq,
    String.append_left_inj] at hshown
  obtain rfl : t = 20 := (Option.some.inj ht).symm
  obtain rfl : shown = 17 := (toString_injective hshown).symm
  exact hiff.1 hcolder (by decide)

end SmartWeather
