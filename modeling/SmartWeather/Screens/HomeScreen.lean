import SmartWeather.Database.SensorData

/-!
# The home screen: what it does with the list of records

`HomeScreen` is the state of `HomeScreenViewController`: its variables, the texts and pictures of
its outlets (with the texts of the storyboard at first), and what it has asked for and not got yet:
replies from the network, animated pictures, and blocks queued on the main queue.

`onDataListChange` sorts the list, takes the newest record and sets the labels from it; `showMood`
is one branch of `loadImageAndMood`, of which there are five, one for each band of temperatures.
The spec lemma `onDataListChange_eq` says when the call goes through and what is shown then.
-/

namespace SmartWeather

open Binary Runs

/-- The records by descending time, as all three screens sort them. -/
def newestFirst (lib : StandardLibrary) (dataList : List SensorData) : List SensorData :=
  lib.sorting.sort (fun a b => lib.stringGt a.unixTime b.unixTime) dataList

theorem newestFirst_perm (lib : StandardLibrary) (dataList : List SensorData) :
    (newestFirst lib dataList).Perm dataList := lib.sorting.perm _ _

theorem newestFirst_pairwise (lib : StandardLibrary) (dataList : List SensorData) :
    (newestFirst lib dataList).Pairwise fun a b =>
      lib.codeUnits b.unixTime ≤ lib.codeUnits a.unixTime :=
  lib.sorting.pairwise_descending (fun a : SensorData => lib.codeUnits a.unixTime) dataList

/-- The first of the sorted records. -/
def newest (lib : StandardLibrary) (dataList : List SensorData) : Option SensorData :=
  (newestFirst lib dataList).head?

theorem newest_eq_none {lib : StandardLibrary} {dataList : List SensorData} :
    newest lib dataList = none ↔ dataList = [] := by
  rw [newest, List.head?_eq_none_iff]
  constructor
  · intro h
    have := newestFirst_perm lib dataList
    rw [h] at this
    exact this.symm.eq_nil
  · rintro rfl
    exact (newestFirst_perm lib []).eq_nil

theorem exists_newest (lib : StandardLibrary) {dataList : List SensorData} (h : dataList ≠ []) :
    ∃ r, newest lib dataList = some r := Option.ne_none_iff_exists'.1 (mt newest_eq_none.1 h)

section Newest

variable {lib : StandardLibrary} {dataList : List SensorData} {r : SensorData}

theorem mem_of_newest (h : newest lib dataList = some r) : r ∈ dataList :=
  (newestFirst_perm lib dataList).mem_iff.1 (List.mem_of_mem_head? h)

theorem isEmpty_of_newest (h : newest lib dataList = some r) : dataList.isEmpty = false :=
  List.isEmpty_eq_false_iff.2 (List.ne_nil_of_mem (mem_of_newest h))

theorem element_newestFirst (h : newest lib dataList = some r) :
    element (newestFirst lib dataList) 0 = .ok r :=
  element_eq_ok.2 (List.head?_eq_getElem?.symm.trans h)

end Newest

/-! ### What the network returns -/

/-- The body of a reply. -/
abbrev Data := List UInt8

structure Weather where
  description : String
  icon : String

structure TempPressure where
  temp : SwiftDouble
  pressure : SwiftDouble

structure JsonResponse where
  name : String
  id : ℤ
  weather : List Weather
  main : TempPressure

/-- A block on the main queue, with what it has captured.  The number is that of the weather
request or of the picture load it goes back to. -/
inductive MainBlock
  | showWeather (request : ℕ) (resp : Option JsonResponse) (intTemp : ℤ)
  | showIcon (request : ℕ) (data : Option Data)
  | showGif (load : ℕ) (name : String)

/-! ### The state -/

structure HomeScreen where
  apiTemperature : ℤ := 0
  lat : String := "-37.87"
  long : String := "145.04"
  temp : SwiftFloat := nearest binary32 0
  latestData : SensorData := {}
  /-- The animated picture, by its name. -/
  imageView : Option String := none
  moodLabel : String := "Mood type label"
  timeLabel : String := "isoLabel"
  btmTempLabel : String := "Temperature"
  descLabel : String := "Description"
  apiLocationName : Option String := some "Label"
  apiDescLabel : Option String := some "apiDescription"
  apiTemp : Option String := some "Temperature"
  /-- The icon, by the data it was made from. -/
  apiIcon : Option Data := none
  /-- The coordinates of the weather requests made so far; a request is known by its place. -/
  requests : List (String × String) := []
  /-- The weather requests that are not answered. -/
  inFlight : List ℕ := []
  /-- The weather requests whose icon is requested and not answered. -/
  iconsInFlight : List ℕ := []
  /-- The picture loads that are not finished, and how many were started. -/
  gifLoads : List (ℕ × String) := []
  gifCount : ℕ := 0
  mainQueue : List MainBlock := []

/-! ### The five moods -/

/-- What one branch of `loadImageAndMood` shows: the picture, the mood, and the sentence for a room
that is warmer or colder than outside. -/
structure Mood where
  gif : String
  mood : String
  warmer : String
  colder : String
  deriving DecidableEq

def cold : Mood where
  gif := "tC"
  mood := "Feeling Cold"
  warmer :=
    "Looks like you room is warmer than outside. Wear a jacket if you are going out... Stay at home unless you are Iceman ;P"
  colder :=
    "Looks like you room is colder than outside. May be turn up the heater... Else good luck with making ice"

def shivering : Mood where
  gif := "tCN"
  mood := "Shivering"
  warmer := "Looks like you room is warmer than outside. Wear a jacket if you are going out..."
  colder := "Looks like you room is colder than outside. May be turn up the heater..."

def happy : Mood where
  gif := "tN"
  mood := "Feeling Happy"
  warmer := "Looks like you room is warmer than outside. Nice weather for a casual walk..."
  colder := "Looks like you room is colder than outside. Treat yourself with a cold drink..."

def sweaty : Mood where
  gif := "tNH"
  mood := "Sweaty"
  warmer :=
    "Looks like you room is warmer than outside. Visiting a beach and getting tanned is a good idea..."
  colder := "Looks like you room is colder than outside. Stay home and play video games..."

def hot : Mood where
  gif := "tH"
  mood := "Feeling Hot"
  warmer := "Looks like you room is warmer than outside. You are on Fire... Get some help!!!! "
  colder := "Looks like you room is colder than outside. May be going for a swim is a good idea..."

namespace HomeScreen

/-- `imageView.loadGif(name:)`: the picture is loaded on a global queue. -/
def loadGif (name : String) (h : HomeScreen) : HomeScreen :=
  { h with gifLoads := h.gifLoads ++ [(h.gifCount, name)], gifCount := h.gifCount + 1 }

/-- One branch of `loadImageAndMood`. -/
def showMood (m : Mood) (temp : SwiftFloat) (h : HomeScreen) : Except Trap HomeScreen := do
  let h := h.loadGif m.gif
  let h := { h with moodLabel := m.mood }
  let t ← intOf temp
  if h.apiTemperature < t then return { h with descLabel := m.warmer }
  else return { h with descLabel := m.colder }

def loadImageAndMood (temp : SwiftFloat) (h : HomeScreen) : Except Trap HomeScreen :=
  if temp.leRat 8 then h.showMood cold temp
  else if temp.gtRat 8 && temp.leRat 15 then h.showMood shivering temp
  else if temp.gtRat 15 && temp.leRat 25 then h.showMood happy temp
  else if temp.gtRat 25 && temp.leRat 31 then h.showMood sweaty temp
  else h.showMood hot temp

def onDataListChange (lib : StandardLibrary) (dataList : List SensorData) (h : HomeScreen) :
    Except Trap HomeScreen :=
  let datalist := newestFirst lib dataList
  if !dataList.isEmpty then do
    let latestData ← element datalist 0
    let h := { h with latestData }
    let temp ← unwrap (parse binary32 h.latestData.temperature)
    let h := { h with temp }
    let h ← h.loadImageAndMood h.temp
    let h := { h with btmTempLabel := h.latestData.temperature ++ " °C" }
    let h := { h with timeLabel := "Last refreshed at " ++ h.latestData.time }
    let temp ← unwrap (parse binary32 h.latestData.temperature)
    h.loadImageAndMood temp
  else .ok h

/-- What the animations of `viewWillAppear` change of the texts. -/
def showTemperature (h : HomeScreen) : HomeScreen :=
  { h with btmTempLabel := h.latestData.temperature ++ " °C" }

end HomeScreen

/-! ### What a call shows -/

/-- The branch that `loadImageAndMood` takes. -/
def moodOf (temp : SwiftFloat) : Mood :=
  if temp.leRat 8 then cold
  else if temp.gtRat 8 && temp.leRat 15 then shivering
  else if temp.gtRat 15 && temp.leRat 25 then happy
  else if temp.gtRat 25 && temp.leRat 31 then sweaty
  else hot

theorem moodOf_mem (temp : SwiftFloat) : moodOf temp ∈ [cold, shivering, happy, sweaty, hot] := by
  unfold moodOf
  split_ifs <;> simp

/-- The room temperature in whole degrees that a record shows, if its conversions succeed. -/
def roomDegrees (r : SensorData) : Option ℤ := (parse binary32 r.temperature).bind (·.toInt 64)

namespace HomeScreen

theorem loadImageAndMood_eq_showMood (temp : SwiftFloat) (h : HomeScreen) :
    h.loadImageAndMood temp = h.showMood (moodOf temp) temp := by
  unfold loadImageAndMood moodOf
  split_ifs <;> rfl

/-- The advice for a room of `t` degrees. -/
def advice (temp : SwiftFloat) (t : ℤ) (h : HomeScreen) : String :=
  if h.apiTemperature < t then (moodOf temp).warmer else (moodOf temp).colder

theorem loadImageAndMood_eq {temp : SwiftFloat} {t : ℤ} (ht : temp.toInt 64 = some t)
    (h : HomeScreen) :
    h.loadImageAndMood temp = .ok { h.loadGif (moodOf temp).gif with
      moodLabel := (moodOf temp).mood, descLabel := h.advice temp t } := by
  rw [loadImageAndMood_eq_showMood, showMood, intOf, ht, advice]
  show (if h.apiTemperature < t then _ else _) = _
  split_ifs <;> rfl

/-- The screen after the record `r` of temperature `temp`, or `t` degrees, has been shown. -/
def showing (r : SensorData) (temp : SwiftFloat) (t : ℤ) (h : HomeScreen) : HomeScreen :=
  { (h.loadGif (moodOf temp).gif).loadGif (moodOf temp).gif with
    latestData := r
    temp := temp
    moodLabel := (moodOf temp).mood
    descLabel := h.advice temp t
    btmTempLabel := r.temperature ++ " °C"
    timeLabel := "Last refreshed at " ++ r.time }

variable {lib : StandardLibrary} {dataList : List SensorData} {r : SensorData} {h h' : HomeScreen}

/-- The newest record is shown, if its temperature can be converted. -/
theorem onDataListChange_eq (hr : newest lib dataList = some r) {temp : SwiftFloat} {t : ℤ}
    (hp : parse binary32 r.temperature = some temp) (ht : temp.toInt 64 = some t) :
    h.onDataListChange lib dataList = .ok (h.showing r temp t) := by
  simp only [onDataListChange, isEmpty_of_newest hr, element_newestFirst hr, Bool.not_false,
    if_true]
  show (unwrap (parse binary32 r.temperature) >>= _) = _
  simp only [hp, unwrap_some]
  show (loadImageAndMood temp _ >>= _) = _
  simp only [loadImageAndMood_eq ht]
  show (unwrap (parse binary32 r.temperature) >>= _) = _
  simp only [hp, unwrap_some]
  exact loadImageAndMood_eq ht _

/-- What a call that goes through has done. -/
theorem onDataListChange_cases (hok : h.onDataListChange lib dataList = .ok h') :
    dataList = [] ∧ h' = h ∨ ∃ r temp t, newest lib dataList = some r ∧
      parse binary32 r.temperature = some temp ∧ temp.toInt 64 = some t ∧
      h' = h.showing r temp t := by
  by_cases hne : dataList = []
  · subst hne
    cases hok
    exact Or.inl ⟨rfl, rfl⟩
  · obtain ⟨r, hr⟩ := exists_newest lib hne
    have hcall := hok
    simp only [onDataListChange, isEmpty_of_newest hr, element_newestFirst hr, Bool.not_false,
      if_true] at hok
    obtain ⟨_, ⟨⟩, hok⟩ := bind_eq_ok.1 hok
    obtain ⟨temp, hp, hok⟩ := bind_eq_ok.1 hok
    obtain ⟨_, hmood, -⟩ := bind_eq_ok.1 hok
    rw [loadImageAndMood_eq_showMood] at hmood
    obtain ⟨t, ht, -⟩ := bind_eq_ok.1 hmood
    rw [unwrap_eq_ok] at hp
    rw [intOf_eq_ok] at ht
    rw [onDataListChange_eq hr hp ht] at hcall
    exact Or.inr ⟨r, temp, t, hr, hp, ht, (Except.ok.inj hcall).symm⟩

/-- A call goes through only if the temperature of the newest record can be converted. -/
theorem roomDegrees_isSome (hr : newest lib dataList = some r)
    (hok : h.onDataListChange lib dataList = .ok h') : (roomDegrees r).isSome := by
  rcases onDataListChange_cases hok with ⟨rfl, -⟩ | ⟨r', temp, t, hr', hp, ht, -⟩
  · simp [newest_eq_none.2] at hr
  · rw [hr] at hr'
    cases hr'
    exact Option.isSome_iff_exists.2 ⟨t, Option.bind_eq_some_iff.2 ⟨temp, hp, ht⟩⟩

end HomeScreen

end SmartWeather
