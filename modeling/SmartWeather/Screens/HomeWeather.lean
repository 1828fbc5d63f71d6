import SmartWeather.Library.Runs
import SmartWeather.Screens.HomeScreen

/-!
# The home screen: the weather of the current place

Every update of the location sends a weather request; its reply sets `apiTemperature` and queues a
block on the main queue that sets the labels and sends a request for an icon; the reply to that
queues a block that sets the icon.  Pictures are loaded on a global queue, and a finished load
queues a block as well.

`HomeScreen.step` handles one event.  A `World` says what the network answers to each request; an
event says only which request is answered and which block runs, so that a list of events is an order
in which things happen, whatever is answered.  The main queue runs its blocks in turn; nothing below
depends on that, and an event may take any block out of it.
-/

namespace SmartWeather

open Binary Runs

/-- What is on the other side of the network, and how its bytes are decoded. -/
structure World where
  decode : Data → Option JsonResponse
  /-- Whether `UIImage(data:)` makes a picture of the data. -/
  isImage : Data → Bool
  /-- The data of the reply to each weather request; `none` for a transport error. -/
  weatherReply : ℕ → Option Data
  /-- The data of the reply to the icon request that goes back to each weather request. -/
  iconReply : ℕ → Option Data

namespace World

/-- The decoded reply to a weather request. -/
def reply (w : World) (request : ℕ) : Option JsonResponse :=
  (w.weatherReply request).bind w.decode

/-- The whole temperature of the reply to a weather request. -/
def kelvin (w : World) (request : ℕ) : Option ℤ :=
  (w.reply request).bind fun resp => resp.main.temp.roundAway.toInt 64

/-- `UIImage(data:)`. -/
def image (w : World) (data : Data) : Option Data := if w.isImage data then some data else none

end World

/-- What a block on the main queue goes back to. -/
inductive Tag
  | weather (request : ℕ)
  | icon (request : ℕ)
  | gif (load : ℕ)
  deriving DecidableEq

def MainBlock.tag : MainBlock → Tag
  | .showWeather request _ _ => .weather request
  | .showIcon request _ => .icon request
  | .showGif load _ => .gif load

structure CLLocation where
  latitude : SwiftDouble
  longitude : SwiftDouble

inductive HomeEvent
  | dataListChanged (dataList : List SensorData)
  | locationsUpdated (locations : List CLLocation)
  | weatherAnswered (request : ℕ)
  | iconAnswered (request : ℕ)
  | gifLoaded (load : ℕ)
  /-- A block of the main queue runs. -/
  | main (tag : Tag)

/-- Why a run stops: a trap, or an event that cannot happen. -/
inductive Fault
  | trap (t : Trap)
  | notPending
  deriving DecidableEq

namespace HomeScreen

/-- `getDataFromUrl`, up to the reply. -/
def getDataFromUrl (h : HomeScreen) : HomeScreen :=
  { h with
    requests := h.requests ++ [(h.lat, h.long)]
    inFlight := h.inFlight ++ [h.requests.length] }

/-- `viewDidLoad`, on the screen as the storyboard makes it. -/
def viewDidLoad : HomeScreen := ({} : HomeScreen).getDataFromUrl

/-- `locationManager(_:didUpdateLocations:)`. -/
def locationManager (locations : List CLLocation) (h : HomeScreen) : Except Trap HomeScreen := do
  let location ← unwrap locations.getLast?
  let h := { h with lat := percentF location.latitude }
  let h := { h with long := percentF location.longitude }
  return h.getDataFromUrl

/-- The completion handler of a weather request. -/
def weatherCompletion (w : World) (request : ℕ) (data : Option Data) (h : HomeScreen) :
    Except Trap HomeScreen :=
  match data with
  | none => .ok h
  | some data => do
    let resp := w.decode data
    let temp ← unwrap (resp.map fun resp => resp.main.temp)
    let d := temp.roundAway
    let intTemp ← intOf d
    let h := { h with apiTemperature := intTemp }
    return { h with mainQueue := h.mainQueue ++ [.showWeather request resp intTemp] }

/-- `makeGetRequestImage`, up to the reply. -/
def makeGetRequestImage (request : ℕ) (h : HomeScreen) : HomeScreen :=
  { h with iconsInFlight := h.iconsInFlight ++ [request] }

/-- `weather[0]` of an optional response: the subscript is checked if there is a response. -/
def firstWeather (resp : Option JsonResponse) : Except Trap Weather :=
  match resp with
  | none => unwrap none
  | some resp => element resp.weather 0

/-- The block that a weather reply queues. -/
def showWeather (request : ℕ) (resp : Option JsonResponse) (intTemp : ℤ) (h : HomeScreen) :
    Except Trap HomeScreen := do
  let weather ← firstWeather resp
  let h := h.makeGetRequestImage request
  let h := { h with apiLocationName := resp.map JsonResponse.name }
  let h := { h with apiDescLabel := some weather.description }
  let celsius ← subInt intTemp 273
  return { h with apiTemp := some (percentI celsius ++ " °C") }

/-- The block that an icon reply queues; the data is implicitly unwrapped. -/
def showIcon (w : World) (data : Option Data) (h : HomeScreen) : Except Trap HomeScreen := do
  let data ← unwrap data
  return { h with apiIcon := w.image data }

def runBlock (w : World) (h : HomeScreen) : MainBlock → Except Trap HomeScreen
  | .showWeather request resp intTemp => h.showWeather request resp intTemp
  | .showIcon _ data => h.showIcon w data
  | .showGif _ name => .ok { h with imageView := some name }

/-- React to one event. -/
def step (w : World) (lib : StandardLibrary) (h : HomeScreen) :
    HomeEvent → Except Fault HomeScreen
  | .dataListChanged dataList => (h.onDataListChange lib dataList).mapError .trap
  | .locationsUpdated locations => (h.locationManager locations).mapError .trap
  | .weatherAnswered request =>
      if request ∈ h.inFlight then
        (weatherCompletion w request (w.weatherReply request)
          { h with inFlight := h.inFlight.erase request }).mapError .trap
      else .error .notPending
  | .iconAnswered request =>
      if request ∈ h.iconsInFlight then .ok { h with
        iconsInFlight := h.iconsInFlight.erase request
        mainQueue := h.mainQueue ++ [.showIcon request (w.iconReply request)] }
      else .error .notPending
  | .gifLoaded load =>
      match h.gifLoads.find? fun l => l.1 == load with
      | some (load, name) => .ok { h with
          gifLoads := h.gifLoads.eraseP fun l => l.1 == load
          mainQueue := h.mainQueue ++ [.showGif load name] }
      | none => .error .notPending
  | .main tag =>
      match h.mainQueue.find? fun b => b.tag == tag with
      | some block =>
          (runBlock w { h with mainQueue := h.mainQueue.eraseP fun b => b.tag == tag }
            block).mapError .trap
      | none => .error .notPending

/-! ### What an event does -/

variable {w : World} {lib : StandardLibrary} {h h' : HomeScreen}

theorem locationManager_cases {locations : List CLLocation}
    (hok : h.locationManager locations = .ok h') :
    ∃ lat long, h' = ({ h with lat := lat, long := long } : HomeScreen).getDataFromUrl := by
  obtain ⟨location, -, hok⟩ := bind_eq_ok.1 hok
  exact ⟨_, _, (Except.ok.inj hok).symm⟩

/-- A weather reply with data sets the temperature and queues a block. -/
theorem weatherCompletion_cases {request : ℕ}
    (hok : weatherCompletion w request (w.weatherReply request) h = .ok h') :
    w.weatherReply request = none ∧ h' = h ∨
      ∃ t, w.kelvin request = some t ∧ h' = { h with
        apiTemperature := t
        mainQueue := h.mainQueue ++ [.showWeather request (w.reply request) t] } := by
  unfold weatherCompletion at hok
  split at hok
  · next hnone => exact Or.inl ⟨hnone, (Except.ok.inj hok).symm⟩
  · next data hdata =>
    have hreply : w.reply request = w.decode data := by rw [World.reply, hdata]; rfl
    obtain ⟨temp, htemp, hrest⟩ := bind_eq_ok.1 hok
    obtain ⟨t, ht, hdone⟩ := bind_eq_ok.1 hrest
    rw [unwrap_eq_ok, ← hreply, Option.map_eq_some_iff] at htemp
    obtain ⟨resp, hresp, rfl⟩ := htemp
    rw [intOf_eq_ok] at ht
    refine Or.inr ⟨t, Option.bind_eq_some_iff.2 ⟨resp, hresp, ht⟩, ?_⟩
    rw [hreply]
    exact (Except.ok.inj hdone).symm

/-- A weather reply that decodes and fits goes through. -/
theorem weatherCompletion_eq {request : ℕ} {t : ℤ} (ht : w.kelvin request = some t) :
    weatherCompletion w request (w.weatherReply request) h = .ok { h with
      apiTemperature := t
      mainQueue := h.mainQueue ++ [.showWeather request (w.reply request) t] } := by
  obtain ⟨resp, hresp, htemp⟩ := Option.bind_eq_some_iff.1 ht
  obtain ⟨data, hdata, hdecode⟩ := Option.bind_eq_some_iff.1 hresp
  simp only [weatherCompletion, hdata, hresp, hdecode]
  exact bind_eq_ok.2 ⟨_, rfl, bind_eq_ok.2 ⟨t, intOf_eq_ok.2 htemp, rfl⟩⟩

theorem subInt_eq_ok {a b c : ℤ} (hok : subInt a b = .ok c) : c = a - b := by
  unfold subInt at hok
  split_ifs at hok
  exact (Except.ok.inj hok).symm

theorem showWeather_cases {request : ℕ} {resp : Option JsonResponse} {t : ℤ}
    (hok : h.showWeather request resp t = .ok h') :
    ∃ r weather, resp = some r ∧ r.weather.head? = some weather ∧ h' = { h with
      iconsInFlight := h.iconsInFlight ++ [request]
      apiLocationName := some r.name
      apiDescLabel := some weather.description
      apiTemp := some (percentI (t - 273) ++ " °C") } := by
  obtain ⟨weather, hweather, hok⟩ := bind_eq_ok.1 hok
  obtain ⟨celsius, hcelsius, hok⟩ := bind_eq_ok.1 hok
  obtain rfl := subInt_eq_ok hcelsius
  cases resp with
  | none => exact absurd hweather (by simp [firstWeather, unwrap])
  | some r =>
    refine ⟨r, weather, rfl, ?_, (Except.ok.inj hok).symm⟩
    rw [List.head?_eq_getElem?]
    exact element_eq_ok.1 hweather

theorem showWeather_eq {request : ℕ} {r : JsonResponse} {weather : Weather} {t : ℤ}
    (hweather : r.weather.head? = some weather) (hfit : subInt t 273 = .ok (t - 273)) :
    h.showWeather request (some r) t = .ok { h with
      iconsInFlight := h.iconsInFlight ++ [request]
      apiLocationName := some r.name
      apiDescLabel := some weather.description
      apiTemp := some (percentI (t - 273) ++ " °C") } := by
  rw [List.head?_eq_getElem?] at hweather
  exact bind_eq_ok.2 ⟨weather, element_eq_ok.2 hweather, bind_eq_ok.2 ⟨_, hfit, rfl⟩⟩

theorem showIcon_cases {data : Option Data} (hok : h.showIcon w data = .ok h') :
    ∃ d, data = some d ∧ h' = { h with apiIcon := w.image d } := by
  obtain ⟨d, hd, hok⟩ := bind_eq_ok.1 hok
  exact ⟨d, unwrap_eq_ok.1 hd, (Except.ok.inj hok).symm⟩

theorem weatherAnswered_cases {request : ℕ}
    (hok : step w lib h (.weatherAnswered request) = .ok h') :
    request ∈ h.inFlight ∧
      weatherCompletion w request (w.weatherReply request)
        { h with inFlight := h.inFlight.erase request } = .ok h' := by
  rw [step] at hok
  split_ifs at hok with hmem
  exact ⟨hmem, mapError_eq_ok.1 hok⟩

theorem weatherAnswered_eq {request : ℕ} {t : ℤ} (hmem : request ∈ h.inFlight)
    (ht : w.kelvin request = some t) :
    step w lib h (.weatherAnswered request) = .ok { h with
      inFlight := h.inFlight.erase request
      apiTemperature := t
      mainQueue := h.mainQueue ++ [.showWeather request (w.reply request) t] } := by
  rw [step, if_pos hmem, weatherCompletion_eq ht]
  rfl

theorem iconAnswered_cases {request : ℕ} (hok : step w lib h (.iconAnswered request) = .ok h') :
    request ∈ h.iconsInFlight ∧ h' = { h with
      iconsInFlight := h.iconsInFlight.erase request
      mainQueue := h.mainQueue ++ [.showIcon request (w.iconReply request)] } := by
  rw [step] at hok
  split_ifs at hok with hmem
  exact ⟨hmem, (Except.ok.inj hok).symm⟩

theorem iconAnswered_eq {request : ℕ} (hmem : request ∈ h.iconsInFlight) :
    step w lib h (.iconAnswered request) = .ok { h with
      iconsInFlight := h.iconsInFlight.erase request
      mainQueue := h.mainQueue ++ [.showIcon request (w.iconReply request)] } := if_pos hmem

/-- What is found under a key has this key. -/
theorem mem_of_find_key {α β : Type} [BEq β] [LawfulBEq β] {f : α → β} {k : β} {l : List α} {a : α}
    (ha : l.find? (fun x => f x == k) = some a) : a ∈ l ∧ f a = k :=
  ⟨List.mem_of_find?_eq_some ha, by simpa using List.find?_some ha⟩

theorem gifLoaded_cases {load : ℕ} (hok : step w lib h (.gifLoaded load) = .ok h') :
    ∃ l, h.gifLoads.find? (fun l => l.1 == load) = some l ∧ h' = { h with
      gifLoads := h.gifLoads.eraseP fun l => l.1 == load
      mainQueue := h.mainQueue ++ [.showGif load l.2] } := by
  rw [step] at hok
  split at hok
  · next l name hl =>
    obtain ⟨-, rfl⟩ := mem_of_find_key (f := Prod.fst) hl
    exact ⟨(l, name), hl, (Except.ok.inj hok).symm⟩
  · cases hok

theorem gifLoaded_eq {load : ℕ} {l : ℕ × String}
    (hl : h.gifLoads.find? (fun l => l.1 == load) = some l) :
    step w lib h (.gifLoaded load) = .ok { h with
      gifLoads := h.gifLoads.eraseP fun l => l.1 == load
      mainQueue := h.mainQueue ++ [.showGif load l.2] } := by
  obtain ⟨-, rfl⟩ := mem_of_find_key hl
  rw [step, hl]

theorem main_cases {tag : Tag} (hok : step w lib h (.main tag) = .ok h') :
    ∃ block, h.mainQueue.find? (fun b => b.tag == tag) = some block ∧
      runBlock w { h with mainQueue := h.mainQueue.eraseP fun b => b.tag == tag } block =
        .ok h' := by
  rw [step] at hok
  split at hok
  · next block hblock => exact ⟨block, hblock, mapError_eq_ok.1 hok⟩
  · cases hok

theorem main_eq {tag : Tag} {block : MainBlock}
    (hb : h.mainQueue.find? (fun b => b.tag == tag) = some block)
    (hok : runBlock w { h with mainQueue := h.mainQueue.eraseP fun b => b.tag == tag } block =
      .ok h') : step w lib h (.main tag) = .ok h' := by
  rw [step, hb]
  exact mapError_eq_ok.2 hok

end HomeScreen

/-! ### What the blocks have captured -/

/-- What a block has captured is what was answered. -/
def MainBlock.Genuine (w : World) : MainBlock → Prop
  | .showWeather request resp intTemp => resp = w.reply request ∧ w.kelvin request = some intTemp
  | .showIcon request data => data = w.iconReply request
  | .showGif _ _ => True

namespace HomeScreen

variable {w : World} {lib : StandardLibrary} {h h' : HomeScreen}

theorem mainQueue_runBlock {b : MainBlock} (hok : runBlock w h b = .ok h') :
    h'.mainQueue = h.mainQueue := by
  cases b with
  | showWeather k resp t =>
    obtain ⟨r, weather, -, -, rfl⟩ := showWeather_cases hok
    rfl
  | showIcon k data =>
    obtain ⟨d, -, rfl⟩ := showIcon_cases hok
    rfl
  | showGif k name =>
    cases hok
    rfl

/-- An event queues genuine blocks only. -/
theorem genuine_step (hg : ∀ b ∈ h.mainQueue, b.Genuine w) {e : HomeEvent}
    (hok : step w lib h e = .ok h') : ∀ b ∈ h'.mainQueue, b.Genuine w := by
  have happend : ∀ b : MainBlock, b.Genuine w → ∀ c ∈ h.mainQueue ++ [b], c.Genuine w :=
    fun b hb => List.forall_mem_append.2 ⟨hg, List.forall_mem_singleton.2 hb⟩
  cases e with
  | dataListChanged dataList =>
    rcases onDataListChange_cases (mapError_eq_ok.1 hok) with ⟨-, rfl⟩ | ⟨r, temp, t, -, -, -, rfl⟩
    · exact hg
    · exact hg
  | locationsUpdated locations =>
    obtain ⟨lat, long, rfl⟩ := locationManager_cases (mapError_eq_ok.1 hok)
    exact hg
  | weatherAnswered k =>
    obtain ⟨-, hok⟩ := weatherAnswered_cases hok
    rcases weatherCompletion_cases hok with ⟨-, rfl⟩ | ⟨t, ht, rfl⟩
    · exact hg
    · exact happend _ ⟨rfl, ht⟩
  | iconAnswered k =>
    obtain ⟨-, rfl⟩ := iconAnswered_cases hok
    exact happend _ rfl
  | gifLoaded load =>
    obtain ⟨l, -, rfl⟩ := gifLoaded_cases hok
    exact happend _ trivial
  | main tag =>
    obtain ⟨b, -, hok⟩ := main_cases hok
    rw [mainQueue_runBlock hok]
    exact fun c hc => hg c (List.mem_of_mem_eraseP hc)

theorem genuine_run {es : List HomeEvent} (hrun : run (step w lib) viewDidLoad es = .ok h) :
    ∀ b ∈ h.mainQueue, b.Genuine w :=
  run_induction (motive := fun _ h => ∀ b ∈ h.mainQueue, b.Genuine w)
    (fun _ hb => absurd hb List.not_mem_nil) (fun _ _ _ _ _ hg hok => genuine_step hg hok) es h hrun

end HomeScreen

end SmartWeather
