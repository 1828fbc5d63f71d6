import SmartWeather.Screens.HomeWeather

/-!
# Whose weather the home screen shows

Requests are neither cancelled nor numbered, so the panel shows the replies that were handled last:
the temperature of the weather reply that arrived last, the labels of the block that ran last, and
the icon of the icon block that ran last (`Panel`).  `showsNewest_iff`: whatever the replies
contain, the panel shows the newest place in the end, exactly if all three go back to the newest
request.
-/

namespace SmartWeather

open Binary Runs

/-! ### What an order of events says -/

def HomeEvent.answered? : HomeEvent → Option ℕ
  | .weatherAnswered request => some request
  | _ => none

def HomeEvent.shown? : HomeEvent → Option ℕ
  | .main (.weather request) => some request
  | _ => none

def HomeEvent.iconShown? : HomeEvent → Option ℕ
  | .main (.icon request) => some request
  | _ => none

def HomeEvent.isUpdate : HomeEvent → Bool
  | .locationsUpdated _ => true
  | _ => false

/-- The request that the last event selected by `f` goes back to. -/
def lastRequest (f : HomeEvent → Option ℕ) (es : List HomeEvent) : Option ℕ :=
  (es.filterMap f).getLast?

/-- The request made last: the one of `viewDidLoad` has the number `0`. -/
def newestRequest (es : List HomeEvent) : ℕ := es.countP HomeEvent.isUpdate

/-- The last weather reply, the last weather block and the last icon block go back to the newest
request. -/
def NewestLast (es : List HomeEvent) : Prop :=
  lastRequest HomeEvent.answered? es = some (newestRequest es) ∧
    lastRequest HomeEvent.shown? es = some (newestRequest es) ∧
    lastRequest HomeEvent.iconShown? es = some (newestRequest es)

instance (es : List HomeEvent) : Decidable (NewestLast es) := by unfold NewestLast; infer_instance

theorem lastRequest_snoc (f : HomeEvent → Option ℕ) (es : List HomeEvent) (e : HomeEvent) :
    lastRequest f (es ++ [e]) = (f e).or (lastRequest f es) := by
  cases h : f e <;> simp [lastRequest, h]

/-! ### The panel -/

/-- Every reply decodes to a response with a weather entry, and every icon request gets data. -/
structure World.Answers (w : World) : Prop where
  weather : ∀ k, ∃ resp, w.reply k = some resp ∧ resp.weather ≠ []
  icon : ∀ k, (w.iconReply k).isSome

/-- The labels are those of the reply to the request `k`. -/
def LabelsFrom (w : World) (k : ℕ) (h : HomeScreen) : Prop :=
  ∃ resp weather t, w.reply k = some resp ∧ resp.weather.head? = some weather ∧
    w.kelvin k = some t ∧ h.apiLocationName = some resp.name ∧
    h.apiDescLabel = some weather.description ∧ h.apiTemp = some (percentI (t - 273) ++ " °C")

/-- The icon is that of the reply to the icon request that goes back to the request `k`. -/
def IconFrom (w : World) (k : ℕ) (h : HomeScreen) : Prop :=
  ∃ data, w.iconReply k = some data ∧ h.apiIcon = w.image data

/-- No request is in flight and no block is pending. -/
def HomeScreen.Idle (h : HomeScreen) : Prop :=
  h.inFlight = [] ∧ h.iconsInFlight = [] ∧ h.mainQueue = []

/-- The panel and the stored temperature come from the replies to the request that was made with the
present coordinates, the newest one. -/
def ShowsNewest (w : World) (h : HomeScreen) : Prop :=
  ∃ n, h.requests.length = n + 1 ∧ h.requests.getLast? = some (h.lat, h.long) ∧
    w.kelvin n = some h.apiTemperature ∧ LabelsFrom w n h ∧ IconFrom w n h

/-- The panel when the newest request is `n`, and `answered`, `shown` and `icon` are the requests to
which the last weather reply, the last weather block and the last icon block go back. -/
structure Panel (w : World) (n : ℕ) (answered shown icon : Option ℕ) (h : HomeScreen) : Prop where
  requests : h.requests.length = n + 1
  place : h.requests.getLast? = some (h.lat, h.long)
  temperature : match answered with
    | some k => w.kelvin k = some h.apiTemperature
    | none => h.apiTemperature = 0
  labels : match shown with
    | some k => LabelsFrom w k h
    | none => h.apiLocationName = some "Label"
  icon : match icon with
    | some k => IconFrom w k h
    | none => h.apiIcon = none

theorem panel_viewDidLoad (w : World) : Panel w 0 none none none HomeScreen.viewDidLoad :=
  ⟨rfl, rfl, rfl, rfl, rfl⟩

section Step

variable {w : World} {lib : StandardLibrary} {h h' : HomeScreen} {n : ℕ}
  {answered shown icon : Option ℕ}

/-- The panel after the block `b` has run. -/
theorem panel_runBlock {b : MainBlock} (hp : Panel w n answered shown icon h) (hb : b.Genuine w)
    (hok : HomeScreen.runBlock w h b = .ok h') :
    Panel w n answered ((HomeEvent.main b.tag).shown?.or shown)
      ((HomeEvent.main b.tag).iconShown?.or icon) h' := by
  cases b with
  | showWeather k resp t =>
    obtain ⟨r, weather, hr, hweather, rfl⟩ := HomeScreen.showWeather_cases hok
    obtain ⟨hresp, ht⟩ := hb
    exact ⟨hp.requests, hp.place, hp.temperature,
      ⟨r, weather, t, hresp ▸ hr, hweather, ht, rfl, rfl, rfl⟩, hp.icon⟩
  | showIcon k data =>
    obtain ⟨d, hd, rfl⟩ := HomeScreen.showIcon_cases hok
    exact ⟨hp.requests, hp.place, hp.temperature, hp.labels, d,
      (show data = w.iconReply k from hb) ▸ hd, rfl⟩
  | showGif k name =>
    cases hok
    exact ⟨hp.requests, hp.place, hp.temperature, hp.labels, hp.icon⟩

/-- **One event.** -/
theorem panel_step (hw : w.Answers) (hg : ∀ b ∈ h.mainQueue, b.Genuine w)
    (hp : Panel w n answered shown icon h) {e : HomeEvent}
    (hok : HomeScreen.step w lib h e = .ok h') :
    Panel w (n + if e.isUpdate then 1 else 0) (e.answered?.or answered) (e.shown?.or shown)
      (e.iconShown?.or icon) h' := by
  cases e with
  | dataListChanged dataList =>
    rcases HomeScreen.onDataListChange_cases (mapError_eq_ok.1 hok) with
      ⟨-, rfl⟩ | ⟨r, temp, t, -, -, -, rfl⟩
    · exact hp
    · exact ⟨hp.requests, hp.place, hp.temperature, hp.labels, hp.icon⟩
  | locationsUpdated locations =>
    obtain ⟨lat, long, rfl⟩ := HomeScreen.locationManager_cases (mapError_eq_ok.1 hok)
    refine ⟨?_, ?_, hp.temperature, hp.labels, hp.icon⟩
    · simp [HomeScreen.getDataFromUrl, hp.requests, HomeEvent.isUpdate]
    · simp [HomeScreen.getDataFromUrl]
  | weatherAnswered k =>
    obtain ⟨-, hok⟩ := HomeScreen.weatherAnswered_cases hok
    rcases HomeScreen.weatherCompletion_cases hok with ⟨hnone, -⟩ | ⟨t, ht, rfl⟩
    · obtain ⟨resp, hresp, -⟩ := hw.weather k
      simp [World.reply, hnone] at hresp
    · exact ⟨hp.requests, hp.place, ht, hp.labels, hp.icon⟩
  | iconAnswered k =>
    obtain ⟨-, rfl⟩ := HomeScreen.iconAnswered_cases hok
    exact ⟨hp.requests, hp.place, hp.temperature, hp.labels, hp.icon⟩
  | gifLoaded load =>
    obtain ⟨l, -, rfl⟩ := HomeScreen.gifLoaded_cases hok
    exact ⟨hp.requests, hp.place, hp.temperature, hp.labels, hp.icon⟩
  | main tag =>
    obtain ⟨b, hb, hok⟩ := HomeScreen.main_cases hok
    obtain ⟨hmem, rfl⟩ := HomeScreen.mem_of_find_key hb
    -- taking the block out of the queue leaves the panel alone
    have hp' : Panel w n answered shown icon
        { h with mainQueue := h.mainQueue.eraseP fun c => c.tag == b.tag } :=
      ⟨hp.requests, hp.place, hp.temperature, hp.labels, hp.icon⟩
    exact panel_runBlock hp' (hg b hmem) hok

/-- **A run.** -/
theorem panel_run (hw : w.Answers) {es : List HomeEvent}
    (hrun : run (HomeScreen.step w lib) HomeScreen.viewDidLoad es = .ok h) :
    Panel w (newestRequest es) (lastRequest HomeEvent.answered? es)
      (lastRequest HomeEvent.shown? es) (lastRequest HomeEvent.iconShown? es) h := by
  refine run_induction (motive := fun es h => Panel w (newestRequest es)
    (lastRequest HomeEvent.answered? es) (lastRequest HomeEvent.shown? es)
    (lastRequest HomeEvent.iconShown? es) h) (panel_viewDidLoad w) ?_ es h hrun
  intro p m e m' hm hp hok
  have hcount : newestRequest (p ++ [e]) = newestRequest p + if e.isUpdate then 1 else 0 := by
    simp [newestRequest, List.countP_append, List.countP_singleton]
  rw [hcount]
  simp only [lastRequest_snoc]
  exact panel_step hw (HomeScreen.genuine_run hm) hp hok

end Step

/-! ### The same order of events in another world -/

/-- Two screens with the same requests and blocks pending, whatever was answered. -/
structure SameControl (h₁ h₂ : HomeScreen) : Prop where
  requests : h₁.requests.length = h₂.requests.length
  inFlight : h₁.inFlight = h₂.inFlight
  iconsInFlight : h₁.iconsInFlight = h₂.iconsInFlight
  gifLoads : h₁.gifLoads = h₂.gifLoads
  gifCount : h₁.gifCount = h₂.gifCount
  tags : h₁.mainQueue.map MainBlock.tag = h₂.mainQueue.map MainBlock.tag

/-- A world in which no reply makes the screen trap. -/
structure World.Sound (w : World) : Prop extends w.Answers where
  kelvin : ∀ k, ∃ t, w.kelvin k = some t ∧ subInt t 273 = .ok (t - 273)

section SameControl

variable {w w₁ : World} {lib : StandardLibrary} {h h' h₁ : HomeScreen}

/-- The block with the same tag runs as well, and asks for the same icon. -/
theorem sameControl_runBlock (hw₁ : w₁.Sound) (hs : SameControl h h₁) {b b₁ : MainBlock}
    (htag : b.tag = b₁.tag) (hb₁ : b₁.Genuine w₁) (hok : HomeScreen.runBlock w h b = .ok h') :
    ∃ h₁', HomeScreen.runBlock w₁ h₁ b₁ = .ok h₁' ∧ SameControl h' h₁' := by
  obtain ⟨hreq, hflight, hicons, hgifs, hcount, htags⟩ := hs
  -- blocks with the same tag are of the same kind
  cases b with
  | showWeather k resp t =>
    obtain ⟨r, weather, -, -, rfl⟩ := HomeScreen.showWeather_cases hok
    cases b₁ with
    | showWeather k₁ resp₁ t₁ =>
      cases htag
      obtain ⟨rfl, ht⟩ := hb₁
      obtain ⟨t, ht', hfit⟩ := hw₁.kelvin k
      obtain rfl : t₁ = t := Option.some.inj (ht.symm.trans ht')
      obtain ⟨r₁, hr₁, hne⟩ := hw₁.weather k
      obtain ⟨weather₁, hweather₁⟩ := Option.ne_none_iff_exists'.1 (mt List.head?_eq_none_iff.1 hne)
      refine ⟨_, by rw [HomeScreen.runBlock, hr₁, HomeScreen.showWeather_eq hweather₁ hfit], ?_⟩
      exact ⟨hreq, hflight, congrArg (· ++ [k]) hicons, hgifs, hcount, htags⟩
    | showIcon k₁ data₁ => cases htag
    | showGif k₁ name₁ => cases htag
  | showIcon k data =>
    obtain ⟨d, -, rfl⟩ := HomeScreen.showIcon_cases hok
    cases b₁ with
    | showWeather k₁ resp₁ t₁ => cases htag
    | showIcon k₁ data₁ =>
      obtain ⟨d₁, hd₁⟩ := Option.isSome_iff_exists.1 (hw₁.icon k₁)
      obtain rfl : data₁ = some d₁ := (show data₁ = w₁.iconReply k₁ from hb₁).trans hd₁
      exact ⟨_, rfl, hreq, hflight, hicons, hgifs, hcount, htags⟩
    | showGif k₁ name₁ => cases htag
  | showGif k name =>
    cases hok
    cases b₁ with
    | showWeather k₁ resp₁ t₁ => cases htag
    | showIcon k₁ data₁ => cases htag
    | showGif k₁ name₁ => exact ⟨_, rfl, hreq, hflight, hicons, hgifs, hcount, htags⟩

/-- **One event.**  What can happen in one world can happen in every sound world. -/
theorem sameControl_step (hw : w.Answers) (hw₁ : w₁.Sound) (hs : SameControl h h₁)
    (hg₁ : ∀ b ∈ h₁.mainQueue, b.Genuine w₁) {e : HomeEvent}
    (hok : HomeScreen.step w lib h e = .ok h') :
    ∃ h₁', HomeScreen.step w₁ lib h₁ e = .ok h₁' ∧ SameControl h' h₁' := by
  have ⟨hreq, hflight, hicons, hgifs, hcount, htags⟩ := hs
  cases e with
  | dataListChanged dataList =>
    rcases HomeScreen.onDataListChange_cases (mapError_eq_ok.1 hok) with
      ⟨rfl, rfl⟩ | ⟨r, temp, t, hr, hp, ht, rfl⟩
    · exact ⟨h₁, rfl, hs⟩
    · refine ⟨_, mapError_eq_ok.2 (HomeScreen.onDataListChange_eq hr hp ht), hreq, hflight, hicons,
        ?_, ?_, htags⟩
      · simp [HomeScreen.showing, HomeScreen.loadGif, hgifs, hcount]
      · simp [HomeScreen.showing, HomeScreen.loadGif, hcount]
  | locationsUpdated locations =>
    obtain ⟨location, hloc, hrest⟩ := bind_eq_ok.1 (mapError_eq_ok.1 hok)
    cases hrest
    refine ⟨_, mapError_eq_ok.2 (bind_eq_ok.2 ⟨location, hloc, rfl⟩), ?_, ?_, hicons, hgifs, hcount,
      htags⟩
    · simp [HomeScreen.getDataFromUrl, hreq]
    · simp [HomeScreen.getDataFromUrl, hflight, hreq]
  | weatherAnswered k =>
    obtain ⟨hmem, hok⟩ := HomeScreen.weatherAnswered_cases hok
    rcases HomeScreen.weatherCompletion_cases hok with ⟨hnone, -⟩ | ⟨t, -, rfl⟩
    · obtain ⟨resp, hresp, -⟩ := hw.weather k
      simp [World.reply, hnone] at hresp
    · obtain ⟨t₁, ht₁, -⟩ := hw₁.kelvin k
      refine ⟨_, HomeScreen.weatherAnswered_eq (hflight ▸ hmem) ht₁, hreq, ?_, hicons, hgifs,
        hcount, ?_⟩
      · simp [hflight]
      · simp [htags, MainBlock.tag]
  | iconAnswered k =>
    obtain ⟨hmem, rfl⟩ := HomeScreen.iconAnswered_cases hok
    refine ⟨_, HomeScreen.iconAnswered_eq (hicons ▸ hmem), hreq, hflight, ?_, hgifs, hcount, ?_⟩
    · simp [hicons]
    · simp [htags, MainBlock.tag]
  | gifLoaded load =>
    obtain ⟨l, hl, rfl⟩ := HomeScreen.gifLoaded_cases hok
    refine ⟨_, HomeScreen.gifLoaded_eq (hgifs ▸ hl), hreq, hflight, hicons, ?_, hcount, ?_⟩
    · simp [hgifs]
    · simp [htags, MainBlock.tag]
  | main tag =>
    obtain ⟨b, hb, hok⟩ := HomeScreen.main_cases hok
    have hmap : ∀ l : List MainBlock, (l.find? fun c => c.tag == tag).map MainBlock.tag =
        (l.map MainBlock.tag).find? (· == tag) := fun l => by rw [List.find?_map]; rfl
    have herase : ∀ l : List MainBlock, (l.eraseP fun c => c.tag == tag).map MainBlock.tag =
        (l.map MainBlock.tag).eraseP (· == tag) := fun l => by rw [List.eraseP_map]; rfl
    -- both queues have their blocks with this tag at the same place
    have hfind : (h₁.mainQueue.find? fun c => c.tag == tag).map MainBlock.tag = some b.tag := by
      rw [hmap, ← htags, ← hmap, hb, Option.map_some]
    obtain ⟨b₁, hb₁, htag⟩ := Option.map_eq_some_iff.1 hfind
    have hs₀ : SameControl
        { h with mainQueue := h.mainQueue.eraseP fun c => c.tag == tag }
        { h₁ with mainQueue := h₁.mainQueue.eraseP fun c => c.tag == tag } :=
      ⟨hreq, hflight, hicons, hgifs, hcount, by rw [herase, herase, htags]⟩
    obtain ⟨h₁', hok₁, hs'⟩ := sameControl_runBlock hw₁ hs₀ htag.symm
      (hg₁ b₁ (List.mem_of_find?_eq_some hb₁)) hok
    exact ⟨h₁', HomeScreen.main_eq hb₁ hok₁, hs'⟩

/-- **A run.** -/
theorem sameControl_run (hw : w.Answers) (hw₁ : w₁.Sound) {es : List HomeEvent}
    (hrun : run (HomeScreen.step w lib) HomeScreen.viewDidLoad es = .ok h) :
    ∃ h₁, run (HomeScreen.step w₁ lib) HomeScreen.viewDidLoad es = .ok h₁ ∧ SameControl h h₁ := by
  refine run_induction (motive := fun es h => ∃ h₁,
    run (HomeScreen.step w₁ lib) HomeScreen.viewDidLoad es = .ok h₁ ∧ SameControl h h₁)
    ⟨_, rfl, rfl, rfl, rfl, rfl, rfl, rfl⟩ ?_ es h hrun
  rintro p m e m' - ⟨m₁, hm₁, hs⟩ hok
  obtain ⟨m₁', hm₁', hs'⟩ := sameControl_step hw hw₁ hs (HomeScreen.genuine_run hm₁) hok
  exact ⟨m₁', by rw [run_append_ok hm₁, run_cons_ok hm₁', run_nil], hs'⟩

end SameControl

/-- The world that marks the replies to the request `n`. -/
def markWorld (n : ℕ) : World where
  decode data := some {
    name := if data = [1] then "new" else "old"
    id := 0
    weather := [⟨"clear sky", "01d"⟩]
    main := ⟨nearest binary64 (if data = [1] then 1 else 0), nearest binary64 0⟩ }
  isImage _ := true
  weatherReply k := some (if k = n then [1] else [0])
  iconReply k := some (if k = n then [1] else [0])

theorem markWorld_kelvin (n k : ℕ) : (markWorld n).kelvin k = some (if k = n then 1 else 0) := by
  have h0 : (nearest binary64 0).roundAway.toInt 64 = some 0 := by decide +kernel
  have h1 : (nearest binary64 1).roundAway.toInt 64 = some 1 := by decide +kernel
  by_cases h : k = n <;> simp [World.kelvin, World.reply, markWorld, h, h0, h1]

theorem eq_of_kelvin {n k : ℕ} (h : (markWorld n).kelvin k = (markWorld n).kelvin n) : k = n := by
  rw [markWorld_kelvin, markWorld_kelvin, if_pos rfl] at h
  by_contra hk
  rw [if_neg hk] at h
  cases h

theorem markWorld_name {n k : ℕ} {resp : JsonResponse} (h : (markWorld n).reply k = some resp) :
    resp.name = if k = n then "new" else "old" := by
  obtain rfl := Option.some.inj h
  by_cases hk : k = n <;> simp [hk]

theorem eq_of_name {n k : ℕ} {resp resp' : JsonResponse} (h : (markWorld n).reply k = some resp)
    (h' : (markWorld n).reply n = some resp') (hname : resp.name = resp'.name) : k = n := by
  rw [markWorld_name h, markWorld_name h', if_pos rfl] at hname
  by_contra hk
  rw [if_neg hk] at hname
  exact absurd hname (by decide)

theorem eq_of_image {n k : ℕ} {data data' : Data} (h : (markWorld n).iconReply k = some data)
    (h' : (markWorld n).iconReply n = some data')
    (himage : (markWorld n).image data = (markWorld n).image data') : k = n := by
  obtain rfl := Option.some.inj h
  obtain rfl := Option.some.inj h'
  by_contra hk
  rw [if_pos rfl, if_neg hk] at himage
  have hdata : ([0] : Data) = [1] := Option.some.inj himage
  exact absurd hdata (by decide)

theorem markWorld_sound (n : ℕ) : (markWorld n).Sound where
  weather k := ⟨_, rfl, by simp⟩
  icon k := rfl
  kelvin k := by
    refine ⟨_, markWorld_kelvin n k, ?_⟩
    by_cases h : k = n <;> simp only [h, if_true, if_false] <;> rfl

section Main

variable {lib : StandardLibrary} {es : List HomeEvent}

theorem showsNewest_of_newestLast {w : World} {h : HomeScreen} (hw : w.Answers)
    (hrun : run (HomeScreen.step w lib) HomeScreen.viewDidLoad es = .ok h) (hlast : NewestLast es) :
    ShowsNewest w h := by
  have hp := panel_run hw hrun
  obtain ⟨ha, hs, hi⟩ := hlast
  rw [ha, hs, hi] at hp
  exact ⟨_, hp.requests, hp.place, hp.temperature, hp.labels, hp.icon⟩

/-- In the world that marks the newest request the panel shows the mark only if everything that was
handled last goes back to it. -/
theorem newestLast_of_mark {h : HomeScreen}
    (hrun : run (HomeScreen.step (markWorld (newestRequest es)) lib) HomeScreen.viewDidLoad es =
      .ok h) (hshow : ShowsNewest (markWorld (newestRequest es)) h) : NewestLast es := by
  have hp := panel_run (markWorld_sound _).toAnswers hrun
  obtain ⟨n, hn, -, ht, ⟨resp, weather, t, hresp, -, -, hname, -⟩, data, hdata, hicon⟩ := hshow
  obtain rfl : n = newestRequest es := by
    have := hp.requests
    omega
  refine ⟨?_, ?_, ?_⟩
  · have htemp := hp.temperature
    cases hlast : lastRequest HomeEvent.answered? es with
    | none =>
      rw [hlast] at htemp
      rw [markWorld_kelvin, if_pos rfl, htemp] at ht
      cases ht
    | some k =>
      rw [hlast] at htemp
      exact congrArg some (eq_of_kelvin (htemp.trans ht.symm))
  · have hlabels := hp.labels
    cases hlast : lastRequest HomeEvent.shown? es with
    | none =>
      rw [hlast] at hlabels
      have hnew : some resp.name = some "Label" := hname.symm.trans hlabels
      rw [markWorld_name hresp, if_pos rfl] at hnew
      exact absurd hnew (by decide)
    | some k =>
      rw [hlast] at hlabels
      obtain ⟨resp', -, -, hresp', -, -, hname', -⟩ := hlabels
      exact congrArg some (eq_of_name hresp' hresp (Option.some.inj (hname'.symm.trans hname)))
  · have hicons := hp.icon
    cases hlast : lastRequest HomeEvent.iconShown? es with
    | none =>
      rw [hlast] at hicons
      exact absurd (hicon.symm.trans hicons) nofun
    | some k =>
      rw [hlast] at hicons
      obtain ⟨data', hdata', hicon'⟩ := hicons
      exact congrArg some (eq_of_image hdata' hdata (hicon'.symm.trans hicon))

/-- **When the panel shows the newest place.**  Take an order of events that can happen and leaves
nothing in flight.  Whatever the replies are, the panel and the stored temperature come from the
replies to the newest request exactly if these are handled last. -/
theorem showsNewest_iff
    (hpossible : ∃ w : World, w.Answers ∧ ∃ h,
      run (HomeScreen.step w lib) HomeScreen.viewDidLoad es = .ok h ∧ h.Idle) :
    (∀ w : World, w.Answers → ∀ h,
        run (HomeScreen.step w lib) HomeScreen.viewDidLoad es = .ok h → h.Idle →
          ShowsNewest w h) ↔ NewestLast es := by
  constructor
  · intro hshow
    obtain ⟨w, hw, h, hrun, hidle⟩ := hpossible
    obtain ⟨h₁, hrun₁, hs⟩ := sameControl_run hw (markWorld_sound (newestRequest es)) hrun
    refine newestLast_of_mark hrun₁ (hshow _ (markWorld_sound _).toAnswers h₁ hrun₁ ⟨?_, ?_, ?_⟩)
    · exact hs.inFlight ▸ hidle.1
    · exact hs.iconsInFlight ▸ hidle.2.1
    · have := hs.tags
      rw [hidle.2.2] at this
      exact List.map_eq_nil_iff.1 this.symm
  · exact fun hlast w hw h hrun _ => showsNewest_of_newestLast hw hrun hlast

end Main

/-! ### Replies in order, and a stale one -/

/-- The events can happen in the world `w` and leave nothing in flight. -/
theorem exists_run_idle (w : World) (es : List HomeEvent)
    (h : (run (HomeScreen.step w StandardLibrary.reference) HomeScreen.viewDidLoad es).toOption.map
      (fun h => (h.inFlight, h.iconsInFlight, h.mainQueue.map MainBlock.tag)) = some ([], [], [])) :
    ∃ h, run (HomeScreen.step w StandardLibrary.reference) HomeScreen.viewDidLoad es = .ok h ∧
      h.Idle := by
  obtain ⟨h', hrun, hidle⟩ := exists_of_toOption_map h
  simp only [Prod.mk.injEq, List.map_eq_nil_iff] at hidle
  exact ⟨h', hrun, hidle⟩

/-- The location is updated once, and the second request is answered after the first one. -/
def repliesInOrder : List HomeEvent :=
  [.locationsUpdated [⟨nearest binary64 0, nearest binary64 0⟩],
   .weatherAnswered 0, .main (.weather 0), .iconAnswered 0, .weatherAnswered 1, .main (.icon 0),
   .main (.weather 1), .iconAnswered 1, .main (.icon 1)]

theorem showsNewest_iff_inOrder : NewestLast repliesInOrder ∧ ∀ w : World, w.Answers → ∀ h,
    run (HomeScreen.step w StandardLibrary.reference) HomeScreen.viewDidLoad repliesInOrder =
      .ok h → h.Idle → ShowsNewest w h := by
  have hlast : NewestLast repliesInOrder := by decide
  have hpossible : ∃ w : World, w.Answers ∧ ∃ h,
      run (HomeScreen.step w StandardLibrary.reference) HomeScreen.viewDidLoad repliesInOrder =
        .ok h ∧ h.Idle :=
    ⟨markWorld 1, (markWorld_sound 1).toAnswers, exists_run_idle _ _ (by decide +kernel)⟩
  exact ⟨hlast, (showsNewest_iff hpossible).2 hlast⟩

/-- The location is updated once, and the second request is answered before the first one. -/
def staleReply : List HomeEvent :=
  [.locationsUpdated [⟨nearest binary64 0, nearest binary64 0⟩],
   .weatherAnswered 1, .main (.weather 1), .iconAnswered 1, .main (.icon 1),
   .weatherAnswered 0, .main (.weather 0), .iconAnswered 0, .main (.icon 0)]

/-- The panel then shows the former place. -/
theorem staleReply_not_newest : ¬ ∀ w : World, w.Answers → ∀ h,
    run (HomeScreen.step w StandardLibrary.reference) HomeScreen.viewDidLoad staleReply = .ok h →
      h.Idle → ShowsNewest w h := by
  intro hall
  obtain ⟨h, hrun, hidle⟩ := exists_run_idle (markWorld 1) staleReply (by decide +kernel)
  have hshow := hall (markWorld 1) (markWorld_sound 1).toAnswers h hrun hidle
  have hlast : NewestLast staleReply := newestLast_of_mark hrun hshow
  exact absurd hlast (by decide)

end SmartWeather
