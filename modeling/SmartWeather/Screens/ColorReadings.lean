import SmartWeather.Screens.App

/-!
# The newest readings on the colour screen

`ColorScreen.onDataListChange` is called with lists that never shrink, and the delayed blocks of
former calls run in between.  A `ColorWindow` is the screen with the needles of its gauges, which
turn when a value is set.

* `ShowsReadings s c`: the pictures show the records of the sorted list `s` by their places;
* `ShowsGauges r w`: the gauges, their labels and needles show the pressure and altitude of `r`;
* `waiting`, `pendingGauges_of_run`: how many delayed blocks wait after a run;
* `current_step`, `current_of_run`: every reachable window is `Current`;
* `shown_run`: every reachable window shows the newest eleven readings of the last list, and the
  gauges show the newest one once no delayed block waits.
-/

namespace SmartWeather

open Binary Runs

/-- `didSet` of `value`: the angle in degrees that the needle turns to. -/
def GaugeView.needleRotation (value : ℤ) : ℚ :=
  let totalAngle : ℚ := 270
  let rotation : ℚ := -135
  let needlePosition : ℚ := value / 100
  let movefrom := rotation
  let moveTo := rotation + totalAngle
  movefrom + (moveTo - movefrom) * needlePosition

/-- The colour screen with the needles of its two gauges; a needle is not turned before its value
is set. -/
structure ColorWindow where
  screen : ColorScreen := {}
  needle1 : Option ℚ := none
  needle2 : Option ℚ := none

inductive ColorEvent
  | dataListChanged (dataList : List SensorData)
  /-- One of the waiting delayed blocks runs. -/
  | gaugeBlock

/-- The list of a call. -/
def ColorEvent.dataList? : ColorEvent → Option (List SensorData)
  | .dataListChanged dataList => some dataList
  | .gaugeBlock => none

/-- The lists of the calls. -/
def calls (es : List ColorEvent) : List (List SensorData) := es.filterMap ColorEvent.dataList?

/-- The number of delayed blocks that wait after an event, when `n` waited before it.  Every call
with a list that is not empty has one wait. -/
def ColorEvent.wait (n : ℕ) : ColorEvent → ℕ
  | .dataListChanged dataList => if dataList = [] then n else n + 1
  | .gaugeBlock => n - 1

/-- The number of delayed blocks that wait after the events. -/
def waiting (es : List ColorEvent) : ℕ := es.foldl ColorEvent.wait 0

namespace ColorWindow

def step (lib : StandardLibrary) (w : ColorWindow) : ColorEvent → Except Trap ColorWindow
  | .dataListChanged dataList =>
      (w.screen.onDataListChange lib dataList).map fun screen => { w with screen }
  | .gaugeBlock =>
      match w.screen.pendingGauges with
      | 0 => .ok w
      | n + 1 =>
          ({ w.screen with pendingGauges := n } : ColorScreen).gaugeBlock.map fun screen =>
            { screen
              needle1 := some (GaugeView.needleRotation screen.gaugeView1.value)
              needle2 := some (GaugeView.needleRotation screen.gaugeView2.value) }

end ColorWindow

/-! ### What is to be shown -/

/-- The colour with the red, green and blue of the record. -/
def IsColorOf (r : SensorData) (color : Option UIColor) : Prop :=
  ∃ red green blue, parse binary32 r.red = some red ∧ parse binary32 r.green = some green ∧
    parse binary32 r.blue = some blue ∧
    color = some ⟨red.divPos 255, green.divPos 255, blue.divPos 255, 0.85⟩

/-- The main picture shows the first record, the small ones show the records at their places, and
those without a record have never been coloured. -/
structure ShowsReadings (s : List SensorData) (c : ColorScreen) : Prop where
  main : ∀ r, s[0]? = some r → IsColorOf r c.colorImageView
  small : ∀ v r, s[v.place]? = some r → IsColorOf r (c.swatches v)
  rest : ∀ v, s.length ≤ v.place → c.swatches v = none

/-- The gauges show the pressure and the altitude of the record. -/
structure ShowsGauges (r : SensorData) (w : ColorWindow) : Prop where
  values : ColorScreen.gaugeValues r = some (w.screen.gaugeView1.value, w.screen.gaugeView2.value)
  pressure : w.screen.gaugeView1.valueLabel = r.pressure ++ " kPa"
  altitude : w.screen.gaugeView2.valueLabel = r.altitude ++ " m"
  needle1 : w.needle1 = some (-135 + 270 * ((w.screen.gaugeView1.value : ℚ) / 100))
  needle2 : w.needle2 = some (-135 + 270 * ((w.screen.gaugeView2.value : ℚ) / 100))

/-- The calls are made with lists that never shrink, and whose numbers can be read. -/
structure Delivered (es : List ColorEvent) : Prop where
  grows : (calls es).Pairwise fun l l' => l.length ≤ l'.length
  numeric : ∀ l ∈ calls es, ∀ r ∈ l, Colored r ∧ (parse binary64 r.pressure).isSome ∧
    (parse binary64 r.altitude).isSome

/-- The window shows the list of the last call, sorted into `s`. -/
def Shown (lib : StandardLibrary) (es : List ColorEvent) (w : ColorWindow) : Prop :=
  ∀ l, (calls es).getLast? = some l → l ≠ [] → ∃ s : List SensorData,
    s.Perm l ∧ s.Pairwise (fun a b => lib.codeUnits b.unixTime ≤ lib.codeUnits a.unixTime) ∧
    ShowsReadings s w.screen ∧
    (waiting es = 0 → ∀ r, s[0]? = some r → ShowsGauges r w)

variable {lib : StandardLibrary} {es : List ColorEvent} {l old : List SensorData}
  {w w' : ColorWindow}

theorem calls_snoc (es : List ColorEvent) (e : ColorEvent) :
    calls (es ++ [e]) = calls es ++ e.dataList?.toList := by
  cases e <;> simp [calls, ColorEvent.dataList?]

theorem needle_eq (value : ℤ) :
    some (GaugeView.needleRotation value) = some (-135 + 270 * ((value : ℚ) / 100)) := by
  rw [GaugeView.needleRotation]
  congr 1
  ring

theorem isColorOf_colorOf {r : SensorData} (h : Colored r) : IsColorOf r (colorOf r 0.85) := by
  obtain ⟨hred, hgreen, hblue⟩ := h
  obtain ⟨red, hred⟩ := Option.isSome_iff_exists.1 hred
  obtain ⟨green, hgreen⟩ := Option.isSome_iff_exists.1 hgreen
  obtain ⟨blue, hblue⟩ := Option.isSome_iff_exists.1 hblue
  refine ⟨red, green, blue, hred, hgreen, hblue, ?_⟩
  simp only [colorOf, hred, hgreen, hblue]
  rfl

/-! ### The invariant -/

/-- The list of the last call. -/
def lastList (es : List ColorEvent) : List SensorData := (calls es).getLast?.getD []

namespace ColorWindow

/-- The window shows the list `l`, the last one; the gauges are up to date once no delayed block is
pending. -/
structure Current (lib : StandardLibrary) (l : List SensorData) (w : ColorWindow) : Prop where
  shows : ({ color := w.screen } : Screens).Shows lib l .color
  gauges : w.screen.pendingGauges = 0 → ∀ r, newest lib l = some r → ShowsGauges r w

theorem current_nil (lib : StandardLibrary) : Current lib [] {} where
  shows := Screens.shows_nil lib .color
  gauges _ r hr := by simp [newest_eq_none.2 rfl] at hr

/-- **A call** goes through if all colours can be converted; unless the list is empty, a delayed
block is pending after it. -/
theorem current_dataListChanged (hw : w.Current lib old) (hlen : old.length ≤ l.length)
    (hcol : ∀ r ∈ l, Colored r) :
    ∃ w', step lib w (.dataListChanged l) = .ok w' ∧ w'.Current lib l := by
  by_cases hne : l = []
  · subst hne
    obtain rfl : old = [] := List.length_eq_zero_iff.1 (by simpa using hlen)
    exact ⟨w, rfl, hw⟩
  · obtain ⟨r, hr⟩ := exists_newest lib hne
    refine ⟨{ w with screen := w.screen.showing (newestFirst lib l) r }, ?_,
      Screens.shows_showing hw.shows hlen hr, fun hpending => absurd hpending (Nat.succ_ne_zero _)⟩
    simp only [step, ColorScreen.onDataListChange_eq hr hcol]
    rfl

/-- **A delayed block** that goes through sets the gauges to the newest record. -/
theorem current_gaugeBlock (hw : w.Current lib l) (h : step lib w .gaugeBlock = .ok w') :
    w'.Current lib l := by
  cases hn : w.screen.pendingGauges with
  | zero =>
    simp only [step, hn] at h
    cases h
    exact hw
  | succ n =>
    have hnewest := Screens.newest_of_pending hw.shows hn
    simp only [step, hn] at h
    obtain ⟨screen, hblock, rfl⟩ := map_eq_ok.1 h
    obtain ⟨v₁, v₂, hv, rfl⟩ := ColorScreen.gaugeBlock_eq_ok_iff.1 hblock
    refine ⟨Screens.shows_gauged hw.shows hn v₁ v₂, fun _ r hr => ?_⟩
    obtain rfl : w.screen.latestData = r := Option.some.inj (hnewest.symm.trans hr)
    exact ⟨hv, rfl, rfl, needle_eq _, needle_eq _⟩

theorem exists_gaugeBlock (hw : w.Current lib l)
    (hg : ∀ r, newest lib l = some r → (ColorScreen.gaugeValues r).isSome) :
    ∃ w', step lib w .gaugeBlock = .ok w' := by
  cases hn : w.screen.pendingGauges with
  | zero => exact ⟨w, by rw [step, hn]⟩
  | succ n =>
    obtain ⟨⟨v₁, v₂⟩, hv⟩ :=
      Option.isSome_iff_exists.1 (hg _ (Screens.newest_of_pending hw.shows hn))
    let before : ColorScreen := { w.screen with pendingGauges := n }
    have hblock : before.gaugeBlock = .ok (before.gauged v₁ v₂) :=
      ColorScreen.gaugeBlock_eq_ok_iff.2 ⟨v₁, v₂, hv, rfl⟩
    simp only [step, hn]
    exact ⟨_, map_eq_ok.2 ⟨_, hblock, rfl⟩⟩

/-- A current window shows the readings of the list and, once no block is pending, the gauges. -/
theorem Current.shown (hw : w.Current lib l) (hcol : ∀ r ∈ l, Colored r) :
    ShowsReadings (newestFirst lib l) w.screen ∧
      (w.screen.pendingGauges = 0 → ∀ r, (newestFirst lib l)[0]? = some r → ShowsGauges r w) := by
  have hs : ∀ v r, (newestFirst lib l)[v]? = some r → Colored r := fun v r hr =>
    hcol r ((newestFirst_perm lib l).mem_iff.1 (List.mem_of_getElem? hr))
  have hnewest : newest lib l = (newestFirst lib l)[0]? := List.head?_eq_getElem?
  obtain ⟨-, himage, hpaint, -⟩ := hw.shows
  simp only at himage hpaint
  rw [hnewest] at himage
  refine ⟨⟨fun r hr => ?_, fun v r hr => ?_, fun v hv => ?_⟩, hnewest ▸ hw.gauges⟩
  · rw [himage, hr]
    exact isColorOf_colorOf (hs 0 r hr)
  · rw [hpaint, ColorScreen.paint, hr]
    exact isColorOf_colorOf (hs _ r hr)
  · rw [hpaint, ColorScreen.paint, List.getElem?_eq_none hv]

end ColorWindow

/-! ### The blocks that wait -/

namespace ColorWindow

theorem pendingGauges_step {e : ColorEvent} (h : step lib w e = .ok w') :
    w'.screen.pendingGauges = e.wait w.screen.pendingGauges := by
  cases e with
  | dataListChanged l =>
    obtain ⟨screen, hscreen, rfl⟩ := map_eq_ok.1 h
    by_cases hl : l = []
    · subst hl
      cases hscreen
      rfl
    · obtain ⟨r, hr⟩ := exists_newest lib hl
      rw [ColorEvent.wait, if_neg hl]
      exact (ColorScreen.onDataListChange_eq_ok hr hscreen).2
  | gaugeBlock =>
    cases hn : w.screen.pendingGauges with
    | zero =>
      simp only [step, hn] at h
      cases h
      exact hn
    | succ n =>
      simp only [step, hn] at h
      obtain ⟨screen, hblock, rfl⟩ := map_eq_ok.1 h
      obtain ⟨v₁, v₂, -, rfl⟩ := ColorScreen.gaugeBlock_eq_ok_iff.1 hblock
      rfl

/-- **The counter of the screen** counts the blocks that wait. -/
theorem pendingGauges_of_run (hrun : run (step lib) {} es = .ok w) :
    w.screen.pendingGauges = waiting es :=
  run_induction (motive := fun es w => w.screen.pendingGauges = waiting es) rfl
    (fun es e _ _ _ ih hstep => by
      rw [pendingGauges_step hstep, ih, waiting, waiting, List.foldl_append]
      rfl) es w hrun

end ColorWindow

/-! ### Runs -/

theorem lastList_mem (h : lastList es ≠ []) : lastList es ∈ calls es := by
  unfold lastList at h ⊢
  cases hl : (calls es).getLast? with
  | none => simp [hl] at h
  | some l => exact List.mem_of_getLast? hl

theorem Delivered.left {fs : List ColorEvent} (h : Delivered (es ++ fs)) : Delivered es := by
  obtain ⟨hgrows, hnumeric⟩ := h
  rw [calls, List.filterMap_append] at hgrows hnumeric
  exact ⟨(List.pairwise_append.1 hgrows).1,
    fun l hl => hnumeric l (List.mem_append_left _ hl)⟩

/-- The list of a call is not shorter than the one before, and its colours can be converted. -/
theorem Delivered.snoc (h : Delivered (es ++ [.dataListChanged l])) :
    (lastList es).length ≤ l.length ∧ ∀ r ∈ l, Colored r := by
  obtain ⟨hgrows, hnumeric⟩ := h
  rw [calls_snoc] at hgrows hnumeric
  simp only [ColorEvent.dataList?, Option.toList_some] at hgrows hnumeric
  refine ⟨?_, fun r hr => (hnumeric l (List.mem_append_right _ (List.mem_singleton_self l)) r hr).1⟩
  by_cases hnil : lastList es = []
  · simp [hnil]
  · exact (List.pairwise_append.1 hgrows).2.2 _ (lastList_mem hnil) l (List.mem_singleton_self l)

theorem Delivered.colored (h : Delivered es) : ∀ r ∈ lastList es, Colored r := fun r hr =>
  (h.numeric _ (lastList_mem (List.ne_nil_of_mem hr)) r hr).1

namespace ColorWindow

/-- **One event** keeps the window current. -/
theorem current_step {e : ColorEvent} (hes : Delivered (es ++ [e]))
    (hw : w.Current lib (lastList es)) (h : step lib w e = .ok w') :
    w'.Current lib (lastList (es ++ [e])) := by
  cases e with
  | dataListChanged l =>
    obtain ⟨hlen, hcol⟩ := hes.snoc
    obtain ⟨w'', hw'', hcurrent⟩ := current_dataListChanged hw hlen hcol
    obtain rfl : w'' = w' := Except.ok.inj (hw''.symm.trans h)
    simpa [lastList, calls_snoc, ColorEvent.dataList?] using hcurrent
  | gaugeBlock =>
    have hcurrent := current_gaugeBlock hw h
    simpa [lastList, calls_snoc, ColorEvent.dataList?] using hcurrent

/-- **Every run** keeps the window current. -/
theorem current_of_run (hes : Delivered es) (hrun : run (step lib) {} es = .ok w) :
    w.Current lib (lastList es) :=
  run_induction (motive := fun es w => Delivered es → w.Current lib (lastList es))
    (fun _ => current_nil lib)
    (fun _ _ _ _ _ ih hstep hes => current_step hes (ih hes.left) hstep) es w hrun hes

/-- A call of a run goes through. -/
theorem exists_dataListChanged {p q : List ColorEvent}
    (hes : Delivered (p ++ .dataListChanged l :: q)) (hrun : run (step lib) {} p = .ok w) :
    ∃ w', step lib w (.dataListChanged l) = .ok w' := by
  have hp : Delivered (p ++ [.dataListChanged l] ++ q) := by simpa using hes
  have hp := hp.left
  obtain ⟨hlen, hcol⟩ := hp.snoc
  obtain ⟨w', hw', -⟩ := current_dataListChanged (current_of_run hp.left hrun) hlen hcol
  exact ⟨w', hw'⟩

/-- A run goes through if the gauges can show every newest record. -/
theorem exists_run (hes : Delivered es)
    (hg : ∀ l ∈ calls es, ∀ r, newest lib l = some r → (ColorScreen.gaugeValues r).isSome) :
    ∃ w, run (step lib) {} es = .ok w := by
  let start : ColorWindow := {}
  have htotal : ∃ w, run (step lib) start es = .ok w ∧ True := by
    refine run_total (I := fun _ _ => True) trivial fun p e q w hsplit hrun _ => ?_
    subst hsplit
    suffices ∃ w', step lib w e = .ok w' from this.imp fun _ hw' => ⟨hw', trivial⟩
    cases e with
    | dataListChanged l => exact exists_dataListChanged hes hrun
    | gaugeBlock =>
      refine exists_gaugeBlock (current_of_run hes.left hrun) fun r hr => ?_
      have hmem : lastList p ∈ calls p :=
        lastList_mem fun hnil => by simp [newest_eq_none.2 hnil] at hr
      refine hg _ ?_ r hr
      rw [calls, List.filterMap_append]
      exact List.mem_append_left _ hmem
  exact htotal.imp fun _ => And.left

variable (lib) in
/-- After every sequence of calls and delayed blocks **the newest readings are shown**.  The calls
go through, and so do the blocks if the pressure and the altitude of the newest records fit the
gauges. -/
theorem shown_run (hes : Delivered es) :
    (∀ w, run (step lib) {} es = .ok w → Shown lib es w) ∧
      (∀ p l q w, es = p ++ .dataListChanged l :: q → run (step lib) {} p = .ok w →
        ∃ w', step lib w (.dataListChanged l) = .ok w') ∧
      ((∀ l ∈ calls es, ∀ r, newest lib l = some r → (ColorScreen.gaugeValues r).isSome) →
        ∃ w, run (step lib) {} es = .ok w) := by
  refine ⟨fun w hrun l hl hne => ?_, ?_, exists_run hes⟩
  · have hlast : lastList es = l := by rw [lastList, hl, Option.getD_some]
    have hshown := (current_of_run hes hrun).shown hes.colored
    rw [hlast, pendingGauges_of_run hrun] at hshown
    exact ⟨newestFirst lib l, newestFirst_perm lib l, newestFirst_pairwise lib l, hshown⟩
  · rintro p l q w rfl
    exact exists_dataListChanged hes

/-- The record of a reading at the given time, with the given amount of red. -/
def tinted (time red : String) : SensorData :=
  { unixTime := time, red, green := "64", blue := "32", pressure := "101.3", altitude := "40" }

/-- Two readings, and a delayed block between the calls. -/
def twoCalls : List ColorEvent :=
  [.dataListChanged [tinted "1570000000" "10"], .gaugeBlock,
    .dataListChanged [tinted "1570000000" "10", tinted "1570000060" "200"], .gaugeBlock]

/-- No block waits at the end, and the gauges show the second reading. -/
theorem shown_run_twoCalls :
    waiting twoCalls = 0 ∧ ∃ w, run (step StandardLibrary.reference) {} twoCalls = .ok w ∧
      Shown StandardLibrary.reference twoCalls w ∧
        ShowsGauges (tinted "1570000060" "200") w := by
  have hdelivered : Delivered twoCalls := ⟨by decide +kernel, by decide +kernel⟩
  have hall : ∀ l ∈ calls twoCalls, (newest StandardLibrary.reference l).all fun r =>
      (ColorScreen.gaugeValues r).isSome := by decide +kernel
  have hgauges : ∀ l ∈ calls twoCalls, ∀ r, newest StandardLibrary.reference l = some r →
      (ColorScreen.gaugeValues r).isSome := fun l hl r hr => by simpa [hr] using hall l hl
  obtain ⟨hshown, -, hgo⟩ := shown_run StandardLibrary.reference hdelivered
  obtain ⟨w, hw⟩ := hgo hgauges
  refine ⟨rfl, w, hw, hshown w hw, ?_⟩
  obtain ⟨s, hperm, hsorted, -, hwaiting⟩ := hshown w hw _ rfl (List.cons_ne_nil _ _)
  refine hwaiting rfl _ ?_
  rcases List.perm_pair.1 hperm with rfl | rfl
  · -- in the order of the call the list is not sorted
    exact absurd (List.rel_of_pairwise_cons hsorted (List.mem_singleton_self _)) (by decide +kernel)
  · rfl

end ColorWindow

end SmartWeather
