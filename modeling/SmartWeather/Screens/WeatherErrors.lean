import SmartWeather.Screens.HomeWeather

/-!
# Which replies stop the home screen

A weather request without data is passed over.  With data, the reply is decoded optionally and then
unwrapped: its temperature is converted, its first weather entry is taken, 273 is subtracted, and
the data of the icon is unwrapped as well.

* `World.Good`: the reply has everything that the screen shows;
* `FailsCleanly`: an event does not trap, and without a good reply it leaves the panel alone;
* `failsCleanly_iff`: for every event of every run that answers the requests in `K` this holds
  exactly if each of them either gets no data, or gets a good reply that is not too cold and an icon
  with data.
-/

namespace SmartWeather

open Binary Runs

namespace World

/-- The reply to the request decodes, and has a weather entry and a temperature that fits an
`Int`. -/
def Good (w : World) (request : ℕ) : Prop :=
  ∃ resp, w.reply request = some resp ∧ resp.weather ≠ [] ∧ (w.kelvin request).isSome

/-- The request gets no data, or everything that its handlers unwrap. -/
def Handled (w : World) (request : ℕ) : Prop :=
  w.weatherReply request = none ∨
    w.Good request ∧ (∀ t, w.kelvin request = some t → -2 ^ 63 ≤ t - 273) ∧
      (w.iconReply request).isSome

theorem kelvin_lt {w : World} {request : ℕ} {t : ℤ} (h : w.kelvin request = some t) :
    t < 2 ^ 63 := by
  obtain ⟨resp, -, ht⟩ := Option.bind_eq_some_iff.1 h
  unfold Value.toInt at ht
  split at ht
  · split_ifs at ht with hfit
    cases ht
    exact hfit.2
  · cases ht

end World

/-- The request that an event of the network or of its blocks goes back to. -/
def HomeEvent.request? : HomeEvent → Option ℕ
  | .weatherAnswered request => some request
  | .iconAnswered request => some request
  | .main (.weather request) => some request
  | .main (.icon request) => some request
  | _ => none

/-- A completion handler or a block of the main queue. -/
def HomeEvent.isHandler : HomeEvent → Bool
  | .weatherAnswered _ => true
  | .iconAnswered _ => true
  | .main _ => true
  | _ => false

namespace HomeScreen

/-- What the replies set. -/
def panel (h : HomeScreen) :
    ℤ × Option String × Option String × Option String × Option Data :=
  (h.apiTemperature, h.apiLocationName, h.apiDescLabel, h.apiTemp, h.apiIcon)

/-- A handler does not trap; one that goes back to a request without a good reply leaves the panel
as it is. -/
def FailsCleanly (w : World) (lib : StandardLibrary) (h : HomeScreen) (e : HomeEvent) : Prop :=
  (e.isHandler = true → ∀ t, step w lib h e ≠ .error (.trap t)) ∧
    ∀ k, e.request? = some k → ¬ w.Good k → ∀ h', step w lib h e = .ok h' → h'.panel = h.panel

/-! ### Enough: every request is handled -/

/-- The blocks are genuine, and an icon is requested only for a reply with data. -/
structure Requested (w : World) (h : HomeScreen) : Prop where
  genuine : ∀ b ∈ h.mainQueue, b.Genuine w
  icons : ∀ k ∈ h.iconsInFlight, w.weatherReply k ≠ none
  iconBlocks : ∀ b ∈ h.mainQueue, ∀ k, b.tag = .icon k → w.weatherReply k ≠ none

variable {w : World} {lib : StandardLibrary} {h h' : HomeScreen}

theorem requested_viewDidLoad (w : World) : Requested w viewDidLoad :=
  ⟨fun _ hb => absurd hb List.not_mem_nil, fun _ hk => absurd hk List.not_mem_nil,
    fun _ hb => absurd hb List.not_mem_nil⟩

/-- A reply with a temperature is a reply with data. -/
theorem weatherReply_ne_none {k : ℕ} {t : ℤ} (ht : w.kelvin k = some t) :
    w.weatherReply k ≠ none := by
  intro hnone
  simp [World.kelvin, World.reply, hnone] at ht

theorem requested_step (hr : Requested w h) {e : HomeEvent} (hok : step w lib h e = .ok h') :
    Requested w h' := by
  obtain ⟨hgenuine, hicons, hblocks⟩ := hr
  have hgenuine' := genuine_step hgenuine hok
  have happend : ∀ b : MainBlock, (∀ k, b.tag = .icon k → w.weatherReply k ≠ none) →
      ∀ c ∈ h.mainQueue ++ [b], ∀ k, c.tag = .icon k → w.weatherReply k ≠ none :=
    fun b hb => List.forall_mem_append.2 ⟨hblocks, List.forall_mem_singleton.2 hb⟩
  cases e with
  | dataListChanged dataList =>
    rcases onDataListChange_cases (mapError_eq_ok.1 hok) with ⟨-, rfl⟩ | ⟨r, temp, t, -, -, -, rfl⟩
    · exact ⟨hgenuine', hicons, hblocks⟩
    · exact ⟨hgenuine', hicons, hblocks⟩
  | locationsUpdated locations =>
    obtain ⟨lat, long, rfl⟩ := locationManager_cases (mapError_eq_ok.1 hok)
    exact ⟨hgenuine', hicons, hblocks⟩
  | weatherAnswered k =>
    obtain ⟨-, hok⟩ := weatherAnswered_cases hok
    rcases weatherCompletion_cases hok with ⟨-, rfl⟩ | ⟨t, -, rfl⟩
    · exact ⟨hgenuine', hicons, hblocks⟩
    · exact ⟨hgenuine', hicons, happend _ fun j hj => nomatch hj⟩
  | iconAnswered k =>
    obtain ⟨hk, rfl⟩ := iconAnswered_cases hok
    refine ⟨hgenuine', fun j hj => hicons j (List.mem_of_mem_erase hj), happend _ fun j hj => ?_⟩
    obtain rfl : k = j := Tag.icon.inj hj
    exact hicons k hk
  | gifLoaded load =>
    obtain ⟨l, -, rfl⟩ := gifLoaded_cases hok
    exact ⟨hgenuine', hicons, happend _ fun j hj => nomatch hj⟩
  | main tag =>
    obtain ⟨b, hb, hok⟩ := main_cases hok
    refine ⟨hgenuine', ?_, fun c hc => ?_⟩
    · have hb := hgenuine b (List.mem_of_find?_eq_some hb)
      cases b with
      | showWeather k resp t =>
        obtain ⟨r, weather, -, -, rfl⟩ := showWeather_cases hok
        intro j hj
        rcases List.mem_append.1 hj with hj | hj
        · exact hicons j hj
        · obtain rfl := List.mem_singleton.1 hj
          exact weatherReply_ne_none hb.2
      | showIcon k data =>
        obtain ⟨d, -, rfl⟩ := showIcon_cases hok
        exact hicons
      | showGif k name =>
        cases hok
        exact hicons
    · rw [mainQueue_runBlock hok] at hc
      exact hblocks c (List.mem_of_mem_eraseP hc)

/-- The block of a handled request runs. -/
theorem runBlock_of_handled {b : MainBlock}
    (hw : ∀ k, (HomeEvent.main b.tag).request? = some k → w.Handled k) (hb : b.Genuine w)
    (hicon : ∀ k, b.tag = .icon k → w.weatherReply k ≠ none) (h : HomeScreen) :
    ∃ h', runBlock w h b = .ok h' := by
  cases b with
  | showWeather k resp t =>
    obtain ⟨rfl, ht⟩ := hb
    obtain ⟨⟨r, hreply, hne, -⟩, hcold, -⟩ := (hw k rfl).resolve_left (weatherReply_ne_none ht)
    obtain ⟨weather, hweather⟩ := Option.ne_none_iff_exists'.1 (mt List.head?_eq_none_iff.1 hne)
    have hfit : subInt t 273 = .ok (t - 273) := by
      have hlt := World.kelvin_lt ht
      exact if_pos ⟨hcold t ht, by omega⟩
    exact ⟨_, by rw [runBlock, hreply, showWeather_eq hweather hfit]⟩
  | showIcon k data =>
    obtain ⟨d, hd⟩ := Option.isSome_iff_exists.1 ((hw k rfl).resolve_left (hicon k rfl)).2.2
    obtain rfl : data = w.iconReply k := hb
    exact ⟨{ h with apiIcon := w.image d }, by rw [runBlock, hd]; rfl⟩
  | showGif k name => exact ⟨_, rfl⟩

/-- A handler goes through, if there is something for it to handle. -/
theorem step_of_handled {e : HomeEvent} (hw : ∀ k, e.request? = some k → w.Handled k)
    (hr : Requested w h) (he : e.isHandler = true) :
    (∃ h', step w lib h e = .ok h') ∨ step w lib h e = .error .notPending := by
  cases e with
  | weatherAnswered k =>
    by_cases hmem : k ∈ h.inFlight
    · left
      rcases hw k rfl with hnone | ⟨⟨-, -, -, hkelvin⟩, -⟩
      · exact ⟨_, by rw [step, if_pos hmem, hnone]; rfl⟩
      · obtain ⟨t, ht⟩ := Option.isSome_iff_exists.1 hkelvin
        exact ⟨_, weatherAnswered_eq hmem ht⟩
    · exact Or.inr (if_neg hmem)
  | iconAnswered k =>
    by_cases hmem : k ∈ h.iconsInFlight
    · exact Or.inl ⟨_, iconAnswered_eq hmem⟩
    · exact Or.inr (if_neg hmem)
  | main tag =>
    cases hb : h.mainQueue.find? fun b => b.tag == tag with
    | none => exact Or.inr (by rw [step, hb])
    | some b =>
      obtain ⟨hmem, rfl⟩ := mem_of_find_key hb
      obtain ⟨h', hok⟩ := runBlock_of_handled hw (hr.genuine b hmem) (hr.iconBlocks b hmem)
        { h with mainQueue := h.mainQueue.eraseP fun c => c.tag == b.tag }
      exact Or.inl ⟨h', main_eq hb hok⟩
  | dataListChanged dataList => cases he
  | locationsUpdated locations => cases he
  | gifLoaded load => cases he

/-- Without a good reply a handled request got no data, and nothing is set. -/
theorem panel_of_not_good {e : HomeEvent} {k : ℕ} (hw : w.Handled k) (hr : Requested w h)
    (he : e.request? = some k) (hbad : ¬ w.Good k) (hok : step w lib h e = .ok h') :
    h'.panel = h.panel := by
  have hnone : w.weatherReply k = none := hw.resolve_right fun hgood => hbad hgood.1
  cases e with
  | weatherAnswered j =>
    obtain rfl := Option.some.inj he
    obtain ⟨-, hok⟩ := weatherAnswered_cases hok
    rw [hnone] at hok
    cases hok
    rfl
  | iconAnswered j =>
    obtain ⟨-, rfl⟩ := iconAnswered_cases hok
    rfl
  | main tag =>
    obtain ⟨b, hb, -⟩ := main_cases hok
    obtain ⟨hmem, rfl⟩ := mem_of_find_key hb
    -- such a request has no block
    cases b with
    | showWeather j resp t =>
      obtain rfl := Option.some.inj he
      exact absurd hnone (weatherReply_ne_none (hr.genuine _ hmem).2)
    | showIcon j data =>
      obtain rfl := Option.some.inj he
      exact absurd hnone (hr.iconBlocks _ hmem j rfl)
    | showGif j name => cases he
  | dataListChanged dataList => cases he
  | locationsUpdated locations => cases he
  | gifLoaded load => cases he

theorem failsCleanly_of_handled {e : HomeEvent} (hw : ∀ k, e.request? = some k → w.Handled k)
    (hr : Requested w h) : FailsCleanly w lib h e := by
  refine ⟨fun he t htrap => ?_, fun k hk hbad h' hok => panel_of_not_good (hw k hk) hr hk hbad hok⟩
  rcases step_of_handled hw hr he with ⟨h', hok⟩ | hpending
  · rw [hok] at htrap
    cases htrap
  · rw [hpending] at htrap
    cases htrap

/-- The events go back to requests in `K` only. -/
def Within (K : ℕ → Prop) (es : List HomeEvent) : Prop :=
  ∀ e ∈ es, ∀ k, e.request? = some k → K k

theorem along_of_handled {K : ℕ → Prop} (hw : ∀ k, K k → w.Handled k) {es : List HomeEvent}
    (hes : Within K es) : Along (step w lib) (FailsCleanly w lib) viewDidLoad es :=
  along_of_invariant (requested_viewDidLoad w)
    (fun _ e he hr => failsCleanly_of_handled (fun k hk => hw k (hes e he k hk)) hr)
    fun _ _ _ hr hok => requested_step hr hok

/-! ### Needed: a run for every request -/

section Reached

variable {K : ℕ → Prop} {e : HomeEvent}

/-- The state is reached by events that go back to requests in `K`. -/
def Reached (w : World) (lib : StandardLibrary) (K : ℕ → Prop) (h : HomeScreen) : Prop :=
  ∃ es, Within K es ∧ run (step w lib) viewDidLoad es = .ok h

theorem within_snoc {es : List HomeEvent} (hes : Within K es)
    (he : ∀ k, e.request? = some k → K k) : Within K (es ++ [e]) :=
  List.forall_mem_append.2 ⟨hes, List.forall_mem_singleton.2 he⟩

theorem Reached.step (hr : Reached w lib K h) (he : ∀ k, e.request? = some k → K k)
    (hok : HomeScreen.step w lib h e = .ok h') : Reached w lib K h' := by
  obtain ⟨es, hes, hrun⟩ := hr
  exact ⟨es ++ [e], within_snoc hes he, by rw [run_append_ok hrun, run_cons_ok hok, run_nil]⟩

theorem Reached.failsCleanly (hr : Reached w lib K h) (he : ∀ k, e.request? = some k → K k)
    (hall : ∀ es, Within K es → Along (HomeScreen.step w lib) (FailsCleanly w lib) viewDidLoad es) :
    FailsCleanly w lib h e := by
  obtain ⟨es, hes, hrun⟩ := hr
  exact (hall _ (within_snoc hes he)).at_split hrun

end Reached

/-- Some place. -/
def someLocation : CLLocation := ⟨nearest binary64 0, nearest binary64 0⟩

/-- Every request is in flight at some time. -/
theorem exists_reached (w : World) (lib : StandardLibrary) (K : ℕ → Prop) (k : ℕ) :
    ∃ h, Reached w lib K h ∧ h.requests.length = k + 1 ∧ k ∈ h.inFlight ∧ h.iconsInFlight = [] ∧
      h.mainQueue = [] := by
  induction k with
  | zero =>
    have hstart : Reached w lib K viewDidLoad := ⟨[], fun _ he => absurd he List.not_mem_nil, rfl⟩
    exact ⟨viewDidLoad, hstart, rfl, List.mem_singleton.2 rfl, rfl, rfl⟩
  | succ k ih =>
    obtain ⟨h, hr, hlen, -, hicons, hqueue⟩ := ih
    obtain ⟨h', hh'⟩ : ∃ h', h' = ({ h with
        lat := percentF someLocation.latitude
        long := percentF someLocation.longitude } : HomeScreen).getDataFromUrl := ⟨_, rfl⟩
    have hok : step w lib h (.locationsUpdated [someLocation]) = .ok h' := by
      rw [hh']
      rfl
    refine ⟨h', hr.step (e := .locationsUpdated [someLocation]) nofun hok, ?_, ?_, ?_, ?_⟩
    · rw [hh']
      simp [getDataFromUrl, hlen]
    · rw [hh']
      simp [getDataFromUrl, hlen]
    · rw [hh']
      exact hicons
    · rw [hh']
      exact hqueue

/-- The reply to a request with data is handled only if it has a temperature for an `Int`. -/
theorem weather_stage {k : ℕ} (hc : FailsCleanly w lib h (.weatherAnswered k))
    (hmem : k ∈ h.inFlight) (hicons : h.iconsInFlight = []) (hqueue : h.mainQueue = [])
    (hdata : w.weatherReply k ≠ none) :
    ∃ t h', w.kelvin k = some t ∧ step w lib h (.weatherAnswered k) = .ok h' ∧
      h'.iconsInFlight = [] ∧ h'.mainQueue = [.showWeather k (w.reply k) t] := by
  cases hhandler : weatherCompletion w k (w.weatherReply k)
    { h with inFlight := h.inFlight.erase k } with
  | error t =>
    refine absurd ?_ (hc.1 rfl t)
    rw [step, if_pos hmem, hhandler]
    rfl
  | ok h' =>
    rcases weatherCompletion_cases hhandler with ⟨hnone, -⟩ | ⟨t, ht, -⟩
    · exact absurd hnone hdata
    · refine ⟨t, _, ht, weatherAnswered_eq hmem ht, hicons, ?_⟩
      rw [hqueue]
      rfl

/-- The only block of the queue is run cleanly only if it runs through. -/
theorem block_stage {b : MainBlock} (hc : FailsCleanly w lib h (.main b.tag))
    (hqueue : h.mainQueue = [b]) :
    ∃ h', runBlock w { h with mainQueue := [] } b = .ok h' ∧
      step w lib h (.main b.tag) = .ok h' := by
  have hfind : h.mainQueue.find? (fun c => c.tag == b.tag) = some b := by
    simp [hqueue]
  have herase : h.mainQueue.eraseP (fun c => c.tag == b.tag) = [] := by
    simp [hqueue]
  cases hrun : runBlock w { h with mainQueue := [] } b with
  | error t =>
    refine absurd ?_ (hc.1 rfl t)
    simp only [step, hfind, herase, hrun]
    rfl
  | ok h' => exact ⟨h', rfl, main_eq hfind (by rw [herase, hrun])⟩

theorem le_sub_of_showWeather {k : ℕ} {resp : Option JsonResponse} {t : ℤ}
    (hok : h.showWeather k resp t = .ok h') : -2 ^ 63 ≤ t - 273 := by
  obtain ⟨weather, -, hok⟩ := bind_eq_ok.1 hok
  obtain ⟨celsius, hcelsius, -⟩ := bind_eq_ok.1 hok
  unfold subInt at hcelsius
  split_ifs at hcelsius with hfit
  exact hfit.1

theorem handled_of_failsCleanly {K : ℕ → Prop} {k : ℕ} (hk : K k)
    (hall : ∀ es, Within K es → Along (step w lib) (FailsCleanly w lib) viewDidLoad es) :
    w.Handled k := by
  by_cases hdata : w.weatherReply k = none
  · exact Or.inl hdata
  have hin : ∀ e : HomeEvent, e.request? = some k → ∀ j, e.request? = some j → K j :=
    fun e he j hj => Option.some.inj (he.symm.trans hj) ▸ hk
  -- request `k` is made, answered and shown; its icon is answered and shown
  obtain ⟨h₀, hr₀, -, hmem, hicons, hqueue⟩ := exists_reached w lib K k
  obtain ⟨t, h₁, ht, hstep₁, hicons₁, hqueue₁⟩ :=
    weather_stage (hr₀.failsCleanly (hin (.weatherAnswered k) rfl) hall) hmem hicons hqueue hdata
  have hr₁ := hr₀.step (hin (.weatherAnswered k) rfl) hstep₁
  obtain ⟨h₂, hshow, hstep₂⟩ := block_stage (b := .showWeather k (w.reply k) t)
    (hr₁.failsCleanly (hin (.main (.weather k)) rfl) hall) hqueue₁
  have hr₂ := hr₁.step (hin (.main (.weather k)) rfl) hstep₂
  have hfit := le_sub_of_showWeather hshow
  obtain ⟨r, weather, hreply, hweather, rfl⟩ := showWeather_cases hshow
  have hmem₂ : k ∈ h₁.iconsInFlight ++ [k] := by simp
  have hr₃ := hr₂.step (hin (.iconAnswered k) rfl) (iconAnswered_eq hmem₂)
  obtain ⟨h₄, hicon, -⟩ := block_stage (b := .showIcon k (w.iconReply k))
    (hr₃.failsCleanly (hin (.main (.icon k)) rfl) hall) rfl
  obtain ⟨d, hd, -⟩ := showIcon_cases hicon
  refine Or.inr ⟨⟨r, hreply, ?_, Option.isSome_iff_exists.2 ⟨t, ht⟩⟩, fun t' ht' => ?_, ?_⟩
  · rintro hnil
    rw [hnil] at hweather
    cases hweather
  · obtain rfl := Option.some.inj (ht.symm.trans ht')
    exact hfit
  · exact Option.isSome_iff_exists.2 ⟨d, hd⟩

/-- **Which replies stop the home screen.**  Whatever requests `K` are answered: in every run, in
whatever order things happen, every handler fails cleanly if and only if these requests are all
handled. -/
theorem failsCleanly_iff (w : World) (lib : StandardLibrary) (K : ℕ → Prop) :
    (∀ es, Within K es → Along (step w lib) (FailsCleanly w lib) viewDidLoad es) ↔
      ∀ k, K k → w.Handled k :=
  ⟨fun hall _ hk => handled_of_failsCleanly hk hall, fun hw _ hes => along_of_handled hw hes⟩

/-- Every reply is an error message, which does not decode. -/
def errorWorld : World where
  decode _ := none
  isImage _ := true
  weatherReply _ := some []
  iconReply _ := some []

/-- The first reply stops the screen. -/
theorem errorWorld_traps :
    ¬ ∀ es, Along (step errorWorld StandardLibrary.reference)
      (FailsCleanly errorWorld StandardLibrary.reference) viewDidLoad es := by
  intro hall
  exact (hall [.weatherAnswered 0]).1.1 rfl .nilUnwrapped rfl

end HomeScreen

end SmartWeather
