import SmartWeather.Screens.WeatherOrder

/-!
# Whose mood the picture shows

Every notification with records sets the mood at once and starts two loads of the animated picture.
A finished load assigns its picture whenever its turn comes, so the picture is that of the
assignment that ran last.  Loads are numbered as they are started, hence the loads `2 * n` and
`2 * n + 1` go back to the notification `n`.

* `moods`: the moods of the notifications of a history;
* `pictures_run`: the picture and the mood after a run;
* `moodMatches_iff`: when nothing is pending, the picture is that of the mood exactly if the last
  assignment goes back to a notification with the mood of the last one.
-/

namespace SmartWeather

open Binary Runs

/-! ### What an order of events says -/

def HomeEvent.gifShown? : HomeEvent → Option ℕ
  | .main (.gif load) => some load
  | _ => none

/-- The mood of the newest record of a notification, if there is a record. -/
def HomeEvent.mood? (lib : StandardLibrary) : HomeEvent → Option Mood
  | .dataListChanged dataList =>
      (newest lib dataList).bind fun r => (parse binary32 r.temperature).map moodOf
  | _ => none

/-- The moods of the notifications with records, oldest first. -/
def moods (lib : StandardLibrary) (es : List HomeEvent) : List Mood :=
  es.filterMap (HomeEvent.mood? lib)

/-- The picture that a load brings. -/
def gifOf (ms : List Mood) (load : ℕ) : Option String := (ms[load / 2]?).map Mood.gif

/-- The last picture assigned goes back to a notification with the mood of the last one. -/
def LastGifCurrent (lib : StandardLibrary) (es : List HomeEvent) : Prop :=
  ∀ m, (moods lib es).getLast? = some m →
    ∃ load, lastRequest HomeEvent.gifShown? es = some load ∧ (moods lib es)[load / 2]? = some m

/-- The mood and the picture are those of the last notification with records. -/
def MoodMatches (lib : StandardLibrary) (es : List HomeEvent) (h : HomeScreen) : Prop :=
  ∀ m, (moods lib es).getLast? = some m → h.moodLabel = m.mood ∧ h.imageView = some m.gif

/-- No load is pending, and no assignment. -/
def HomeScreen.Settled (h : HomeScreen) : Prop :=
  h.gifLoads = [] ∧ ∀ load name, .showGif load name ∉ h.mainQueue

variable {w : World} {lib : StandardLibrary} {es : List HomeEvent} {h h' : HomeScreen}

theorem moods_snoc (lib : StandardLibrary) (es : List HomeEvent) (e : HomeEvent) :
    moods lib (es ++ [e]) = moods lib es ++ (e.mood? lib).toList := by
  cases he : e.mood? lib <;> simp [moods, he]

/-- Later notifications do not change what a load brings. -/
theorem gifOf_append {ms ns : List Mood} {load : ℕ} {name : String}
    (hgif : gifOf ms load = some name) : gifOf (ms ++ ns) load = some name := by
  obtain ⟨m, hm, rfl⟩ := Option.map_eq_some_iff.1 hgif
  obtain ⟨hlt, -⟩ := List.getElem?_eq_some_iff.1 hm
  rw [gifOf, List.getElem?_append_left hlt, hm, Option.map_some]

/-- The two loads of a notification. -/
theorem gifOf_new (ms : List Mood) (m : Mood) :
    gifOf (ms ++ [m]) (2 * ms.length) = some m.gif ∧
      gifOf (ms ++ [m]) (2 * ms.length + 1) = some m.gif := by
  have heven : 2 * ms.length / 2 = ms.length := by omega
  have hodd : (2 * ms.length + 1) / 2 = ms.length := by omega
  simp [gifOf, heven, hodd]

/-- Different moods have different pictures. -/
theorem gif_injective {m n : Mood} (hm : m ∈ [cold, shivering, happy, sweaty, hot])
    (hn : n ∈ [cold, shivering, happy, sweaty, hot]) (hgif : m.gif = n.gif) : m = n := by
  have hall : ∀ m ∈ [cold, shivering, happy, sweaty, hot],
      ∀ n ∈ [cold, shivering, happy, sweaty, hot], m.gif = n.gif → m = n := by decide +kernel
  exact hall m hm n hn hgif

theorem mem_of_mem_moods {m : Mood} (hm : m ∈ moods lib es) :
    m ∈ [cold, shivering, happy, sweaty, hot] := by
  obtain ⟨e, -, he⟩ := List.mem_filterMap.1 hm
  cases e with
  | dataListChanged dataList =>
    obtain ⟨r, -, hr⟩ := Option.bind_eq_some_iff.1 he
    obtain ⟨temp, -, rfl⟩ := Option.map_eq_some_iff.1 hr
    exact moodOf_mem temp
  | _ => cases he

/-! ### The invariant -/

/-- The loads, the assignments, the picture and the mood when the moods of the notifications are
`ms` and the load `shown` was assigned last. -/
structure Pictures (ms : List Mood) (shown : Option ℕ) (h : HomeScreen) : Prop where
  count : h.gifCount = 2 * ms.length
  loads : ∀ l ∈ h.gifLoads, gifOf ms l.1 = some l.2
  blocks : ∀ load name, .showGif load name ∈ h.mainQueue → gifOf ms load = some name
  blank : shown = none → h.imageView = none
  image : ∀ load, shown = some load → ∃ name, gifOf ms load = some name ∧ h.imageView = some name
  label : ∀ m, ms.getLast? = some m → h.moodLabel = m.mood

theorem pictures_viewDidLoad : Pictures [] none HomeScreen.viewDidLoad where
  count := rfl
  loads _ hl := absurd hl List.not_mem_nil
  blocks _ _ hb := absurd hb List.not_mem_nil
  blank _ := rfl
  image _ hload := nomatch hload
  label _ hm := nomatch hm

section Step

variable {ms : List Mood} {shown : Option ℕ}

/-- What is not a picture may be queued and set. -/
theorem Pictures.of_same (hp : Pictures ms shown h) (hcount : h'.gifCount = h.gifCount)
    (hloads : h'.gifLoads = h.gifLoads) (himage : h'.imageView = h.imageView)
    (hlabel : h'.moodLabel = h.moodLabel)
    (hblocks : ∀ load name, .showGif load name ∈ h'.mainQueue →
      .showGif load name ∈ h.mainQueue) : Pictures ms shown h' where
  count := hcount.trans hp.count
  loads := hloads ▸ hp.loads
  blocks load name hb := hp.blocks load name (hblocks load name hb)
  blank hnone := himage.trans (hp.blank hnone)
  image := himage ▸ hp.image
  label := hlabel ▸ hp.label

/-- A notification starts the two loads of its mood. -/
theorem pictures_showing (hp : Pictures ms shown h) (r : SensorData) (temp : SwiftFloat) (t : ℤ) :
    Pictures (ms ++ [moodOf temp]) shown (h.showing r temp t) where
  count := by
    simp only [HomeScreen.showing, HomeScreen.loadGif, List.length_append, List.length_singleton,
      hp.count]
    omega
  loads l hl := by
    obtain ⟨heven, hodd⟩ := gifOf_new ms (moodOf temp)
    simp only [HomeScreen.showing, HomeScreen.loadGif, List.mem_append, List.mem_singleton] at hl
    rcases hl with (hl | rfl) | rfl
    · exact gifOf_append (hp.loads l hl)
    · rw [hp.count]
      exact heven
    · rw [hp.count]
      exact hodd
  blocks load name hb := gifOf_append (hp.blocks load name hb)
  blank := hp.blank
  image load hload := by
    obtain ⟨name, hgif, himage⟩ := hp.image load hload
    exact ⟨name, gifOf_append hgif, himage⟩
  label m hm := by
    rw [List.getLast?_concat] at hm
    exact congrArg Mood.mood (Option.some.inj hm)

/-- The block `b` runs. -/
theorem pictures_runBlock {b : MainBlock} (hp : Pictures ms shown h)
    (hb : ∀ load name, b = .showGif load name → gifOf ms load = some name)
    (hok : HomeScreen.runBlock w h b = .ok h') :
    Pictures ms ((HomeEvent.main b.tag).gifShown?.or shown) h' := by
  cases b with
  | showWeather k resp t =>
    obtain ⟨r, weather, -, -, rfl⟩ := HomeScreen.showWeather_cases hok
    exact hp.of_same rfl rfl rfl rfl fun _ _ hb => hb
  | showIcon k data =>
    obtain ⟨d, -, rfl⟩ := HomeScreen.showIcon_cases hok
    exact hp.of_same rfl rfl rfl rfl fun _ _ hb => hb
  | showGif k name =>
    cases hok
    refine ⟨hp.count, hp.loads, hp.blocks, nofun, fun load hload => ?_, hp.label⟩
    obtain rfl : k = load := Option.some.inj hload
    exact ⟨name, hb k name rfl, rfl⟩

/-- **One event.** -/
theorem pictures_step (hp : Pictures ms shown h) {e : HomeEvent}
    (hok : HomeScreen.step w lib h e = .ok h') :
    Pictures (ms ++ (e.mood? lib).toList) (e.gifShown?.or shown) h' := by
  have hother : ∀ b : MainBlock, (∀ load name, .showGif load name ≠ b) → ∀ load name,
      .showGif load name ∈ h.mainQueue ++ [b] → .showGif load name ∈ h.mainQueue := by
    intro b hb load name hmem
    rcases List.mem_append.1 hmem with hmem | hmem
    · exact hmem
    · exact absurd (List.mem_singleton.1 hmem) (hb load name)
  cases e with
  | dataListChanged dataList =>
    rcases HomeScreen.onDataListChange_cases (mapError_eq_ok.1 hok) with
      ⟨rfl, rfl⟩ | ⟨r, temp, t, hr, hparse, -, rfl⟩
    · have hmood : HomeEvent.mood? lib (.dataListChanged []) = none := by
        simp [HomeEvent.mood?, newest_eq_none.2]
      rw [hmood, Option.toList_none, List.append_nil]
      exact hp
    · have hmood : HomeEvent.mood? lib (.dataListChanged dataList) = some (moodOf temp) := by
        simp [HomeEvent.mood?, hr, hparse]
      rw [hmood]
      exact pictures_showing hp r temp t
  | locationsUpdated locations =>
    obtain ⟨lat, long, rfl⟩ := HomeScreen.locationManager_cases (mapError_eq_ok.1 hok)
    show Pictures (ms ++ []) shown _
    rw [List.append_nil]
    exact hp.of_same rfl rfl rfl rfl fun _ _ hb => hb
  | weatherAnswered k =>
    obtain ⟨-, hok⟩ := HomeScreen.weatherAnswered_cases hok
    show Pictures (ms ++ []) shown _
    rw [List.append_nil]
    rcases HomeScreen.weatherCompletion_cases hok with ⟨-, rfl⟩ | ⟨t, -, rfl⟩
    · exact hp.of_same rfl rfl rfl rfl fun _ _ hb => hb
    · exact hp.of_same rfl rfl rfl rfl (hother _ nofun)
  | iconAnswered k =>
    obtain ⟨-, rfl⟩ := HomeScreen.iconAnswered_cases hok
    show Pictures (ms ++ []) shown _
    rw [List.append_nil]
    exact hp.of_same rfl rfl rfl rfl (hother _ nofun)
  | gifLoaded load =>
    obtain ⟨l, hl, rfl⟩ := HomeScreen.gifLoaded_cases hok
    obtain ⟨hmem, rfl⟩ := HomeScreen.mem_of_find_key hl
    show Pictures (ms ++ []) shown _
    rw [List.append_nil]
    refine ⟨hp.count, fun k hk => hp.loads k (List.mem_of_mem_eraseP hk), fun k name hb => ?_,
      hp.blank, hp.image, hp.label⟩
    rcases List.mem_append.1 hb with hb | hb
    · exact hp.blocks k name hb
    · -- the assignment of the finished load
      cases List.mem_singleton.1 hb
      exact hp.loads l hmem
  | main tag =>
    obtain ⟨b, hb, hok⟩ := HomeScreen.main_cases hok
    obtain ⟨hmem, rfl⟩ := HomeScreen.mem_of_find_key hb
    have hmood : HomeEvent.mood? lib (.main b.tag) = none := rfl
    rw [hmood, Option.toList_none, List.append_nil]
    have hp' : Pictures ms shown
        { h with mainQueue := h.mainQueue.eraseP fun c => c.tag == b.tag } :=
      hp.of_same rfl rfl rfl rfl fun _ _ hc => List.mem_of_mem_eraseP hc
    exact pictures_runBlock hp' (fun load name hgif => hp.blocks load name (hgif ▸ hmem)) hok

/-- **The picture after a run.** -/
theorem pictures_run (hrun : run (HomeScreen.step w lib) HomeScreen.viewDidLoad es = .ok h) :
    Pictures (moods lib es) (lastRequest HomeEvent.gifShown? es) h := by
  refine run_induction
    (motive := fun es h => Pictures (moods lib es) (lastRequest HomeEvent.gifShown? es) h)
    pictures_viewDidLoad ?_ es h hrun
  intro p m e m' _ hp hok
  rw [moods_snoc, lastRequest_snoc]
  exact pictures_step hp hok

end Step

/-! ### Picture and mood -/

/-- The picture and the mood agree exactly if the picture is not stale. -/
theorem moodMatches_of_run (hrun : run (HomeScreen.step w lib) HomeScreen.viewDidLoad es = .ok h) :
    MoodMatches lib es h ↔ LastGifCurrent lib es := by
  have hp := pictures_run hrun
  refine forall₂_congr fun m hm => ?_
  constructor
  · rintro ⟨-, himage⟩
    cases hshown : lastRequest HomeEvent.gifShown? es with
    | none =>
      rw [hp.blank hshown] at himage
      cases himage
    | some load =>
      obtain ⟨name, hgif, himage'⟩ := hp.image load hshown
      obtain rfl : name = m.gif := Option.some.inj (himage'.symm.trans himage)
      obtain ⟨n, hn, hnm⟩ := Option.map_eq_some_iff.1 hgif
      obtain rfl := gif_injective (mem_of_mem_moods (List.mem_of_getElem? hn))
        (mem_of_mem_moods (List.mem_of_getLast? hm)) hnm
      exact ⟨load, rfl, hn⟩
  · rintro ⟨load, hshown, hn⟩
    obtain ⟨name, hgif, himage⟩ := hp.image load hshown
    rw [gifOf, hn] at hgif
    exact ⟨hp.label m hm, himage.trans hgif.symm⟩

/-- **When the picture matches the mood.**  In every run: once no load and no assignment is pending,
the mood and the picture are those of the last notification, if and only if the picture that was
assigned last goes back to a notification with the same mood. -/
theorem moodMatches_iff (hrun : run (HomeScreen.step w lib) HomeScreen.viewDidLoad es = .ok h) :
    (h.Settled → MoodMatches lib es h) ↔ (h.Settled → LastGifCurrent lib es) :=
  forall_congr' fun _ => moodMatches_of_run hrun

/-! ### Loads in order, and one that overtakes -/

/-- A world in which nothing is answered. -/
def silentWorld : World where
  decode _ := none
  isImage _ := true
  weatherReply _ := none
  iconReply _ := none

/-- The room is warm, then cold; the loads finish in the order in which they were started. -/
def orderedLoads : List HomeEvent :=
  [.dataListChanged [{ temperature := "20.5" }], .dataListChanged [{ temperature := "5.0" }],
   .gifLoaded 0, .main (.gif 0), .gifLoaded 1, .main (.gif 1),
   .gifLoaded 2, .main (.gif 2), .gifLoaded 3, .main (.gif 3)]

/-- The same, but the last load of the warm picture is slow. -/
def slowLoad : List HomeEvent :=
  [.dataListChanged [{ temperature := "20.5" }], .dataListChanged [{ temperature := "5.0" }],
   .gifLoaded 0, .main (.gif 0), .gifLoaded 2, .main (.gif 2),
   .gifLoaded 3, .main (.gif 3), .gifLoaded 1, .main (.gif 1)]

theorem moodMatches_iff_orderedLoads :
    ∃ h, run (HomeScreen.step silentWorld StandardLibrary.reference) HomeScreen.viewDidLoad
        orderedLoads = .ok h ∧
      ((h.Settled → MoodMatches StandardLibrary.reference orderedLoads h) ↔
        (h.Settled → LastGifCurrent StandardLibrary.reference orderedLoads)) := by
  have hok : (run (HomeScreen.step silentWorld StandardLibrary.reference) HomeScreen.viewDidLoad
      orderedLoads).toOption.map (fun _ => ()) = some () := by decide +kernel
  obtain ⟨h, hrun, -⟩ := exists_of_toOption_map hok
  exact ⟨h, hrun, moodMatches_iff hrun⟩

/-- The screen says that it is cold and shows the warm picture. -/
theorem slowLoad_not_matches :
    ∃ h, run (HomeScreen.step silentWorld StandardLibrary.reference) HomeScreen.viewDidLoad
        slowLoad = .ok h ∧
      h.Settled ∧ h.moodLabel = "Feeling Cold" ∧ h.imageView = some "tN" ∧
      ¬ MoodMatches StandardLibrary.reference slowLoad h := by
  have hshown : (run (HomeScreen.step silentWorld StandardLibrary.reference) HomeScreen.viewDidLoad
      slowLoad).toOption.map (fun h => (h.gifLoads, h.mainQueue.map MainBlock.tag, h.moodLabel,
        h.imageView)) = some ([], [], "Feeling Cold", some "tN") := by decide +kernel
  have hmood : (moods StandardLibrary.reference slowLoad).getLast? = some cold := by
    decide +kernel
  obtain ⟨h, hrun, hshown⟩ := exists_of_toOption_map hshown
  simp only [Prod.mk.injEq, List.map_eq_nil_iff] at hshown
  obtain ⟨hloads, hqueue, hlabel, himage⟩ := hshown
  refine ⟨h, hrun, ⟨hloads, ?_⟩, hlabel, himage, fun hmatches => ?_⟩
  · rw [hqueue]
    exact fun _ _ => List.not_mem_nil
  · rw [(hmatches cold hmood).2] at himage
    exact absurd himage (by decide +kernel)

end SmartWeather
