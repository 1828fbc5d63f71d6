import SmartWeather.Screens.HomeScreen

/-!
# The colour screen

`ColorScreen.onDataListChange` sorts the list, colours the main picture after the newest record and
the ten small ones after the records behind it, and queues a block that sets the two gauges one
second later.  The ten blocks of the source that colour `i1`, …, `i10` are `colorSwatch` with the
number of records each asks for, the index it reads and the picture it sets.

`onDataListChange_eq` says what is shown after a call: `paint` keeps the colour of a small picture
for which the list has no record.
-/

namespace SmartWeather

open Binary Runs

structure UIColor where
  red : SwiftFloat
  green : SwiftFloat
  blue : SwiftFloat
  alpha : ℚ

/-- `UIColor(red:green:blue:alpha:)` of the colour of a record, with the three forced conversions
`CGFloat(Float(…)!/255)`. -/
def recordColor (data : SensorData) (alpha : ℚ) : Except Trap UIColor := do
  let red ← unwrap (parse binary32 data.red)
  let green ← unwrap (parse binary32 data.green)
  let blue ← unwrap (parse binary32 data.blue)
  return ⟨red.divPos 255, green.divPos 255, blue.divPos 255, alpha⟩

/-- The ten small pictures. -/
inductive Swatch
  | i1 | i2 | i3 | i4 | i5 | i6 | i7 | i8 | i9 | i10
  deriving DecidableEq

structure GaugeView where
  value : ℤ := 0
  valueLabel : String := "100"
  deriving DecidableEq

structure ColorScreen where
  latestData : SensorData := {}
  laastRefreshLabel : String := "isoLabel"
  colorImageView : Option UIColor := none
  swatches : Swatch → Option UIColor := fun _ => none
  gaugeView1 : GaugeView := {}
  gaugeView2 : GaugeView := {}
  /-- How many delayed blocks wait to run. -/
  pendingGauges : ℕ := 0

namespace ColorScreen

/-- `if sortedDataList.count >= count`, the picture `view` gets the colour of the record at
`index`. -/
def colorSwatch (count index : ℕ) (view : Swatch) (sortedDataList : List SensorData)
    (c : ColorScreen) : Except Trap ColorScreen :=
  if sortedDataList.length ≥ count then do
    let data ← element sortedDataList index
    let color ← recordColor data 0.85
    return { c with swatches := Function.update c.swatches view (some color) }
  else .ok c

/-- The ten blocks. -/
def colorSwatches (sortedDataList : List SensorData) (c : ColorScreen) :
    Except Trap ColorScreen := do
  let c ← c.colorSwatch 2 1 .i1 sortedDataList
  let c ← c.colorSwatch 3 2 .i2 sortedDataList
  let c ← c.colorSwatch 4 3 .i3 sortedDataList
  let c ← c.colorSwatch 5 4 .i4 sortedDataList
  let c ← c.colorSwatch 6 5 .i5 sortedDataList
  let c ← c.colorSwatch 7 6 .i6 sortedDataList
  let c ← c.colorSwatch 8 7 .i7 sortedDataList
  let c ← c.colorSwatch 9 8 .i8 sortedDataList
  let c ← c.colorSwatch 10 9 .i9 sortedDataList
  c.colorSwatch 11 10 .i10 sortedDataList

def onDataListChange (lib : StandardLibrary) (dataList : List SensorData) (c : ColorScreen) :
    Except Trap ColorScreen :=
  let sortedDataList := newestFirst lib dataList
  if !dataList.isEmpty then do
    let latestData ← element sortedDataList 0
    let c := { c with latestData }
    let c := { c with laastRefreshLabel := "Last refreshed at " ++ c.latestData.time }
    let color ← recordColor c.latestData 0.85
    let c := { c with colorImageView := some color }
    let c ← c.colorSwatches sortedDataList
    return { c with pendingGauges := c.pendingGauges + 1 }
  else .ok c

/-- The block that runs one second after a call. -/
def gaugeBlock (c : ColorScreen) : Except Trap ColorScreen := do
  let pressure ← unwrap (parse binary64 c.latestData.pressure)
  let value1 ← intOf (pressure.sub (nearest binary64 90))
  let c := { c with gaugeView1 := { c.gaugeView1 with value := value1 } }
  let altitude ← unwrap (parse binary64 c.latestData.altitude)
  let value2 ← intOf altitude
  let c := { c with gaugeView2 := { c.gaugeView2 with value := value2 } }
  let c := { c with gaugeView1 :=
    { c.gaugeView1 with valueLabel := c.latestData.pressure ++ " kPa" } }
  return { c with gaugeView2 := { c.gaugeView2 with valueLabel := c.latestData.altitude ++ " m" } }

end ColorScreen

/-! ### Colours -/

/-- The three components of the colour of a record, if they can be converted. -/
def colorOf (data : SensorData) (alpha : ℚ) : Option UIColor := do
  let red ← parse binary32 data.red
  let green ← parse binary32 data.green
  let blue ← parse binary32 data.blue
  return ⟨red.divPos 255, green.divPos 255, blue.divPos 255, alpha⟩

theorem recordColor_eq (data : SensorData) (alpha : ℚ) :
    recordColor data alpha = unwrap (colorOf data alpha) := by
  unfold recordColor colorOf
  cases parse binary32 data.red <;> cases parse binary32 data.green <;>
    cases parse binary32 data.blue <;> rfl

/-- The colour of a record can be converted. -/
def Colored (data : SensorData) : Prop :=
  (parse binary32 data.red).isSome ∧ (parse binary32 data.green).isSome ∧
    (parse binary32 data.blue).isSome

instance (data : SensorData) : Decidable (Colored data) := by unfold Colored; infer_instance

theorem exists_color_iff {data : SensorData} (alpha : ℚ) :
    (∃ col, colorOf data alpha = some col) ↔ Colored data := by
  unfold colorOf Colored
  cases parse binary32 data.red <;> cases parse binary32 data.green <;>
    cases parse binary32 data.blue <;> simp

theorem recordColor_eq_ok_iff {data : SensorData} (alpha : ℚ) :
    (∃ col, recordColor data alpha = .ok col) ↔ Colored data := by
  simp only [recordColor_eq, unwrap_eq_ok, exists_color_iff]

/-! ### The small pictures -/

namespace Swatch

/-- The place of a picture, which is the index of the record it shows. -/
def place : Swatch → ℕ
  | i1 => 1 | i2 => 2 | i3 => 3 | i4 => 4 | i5 => 5
  | i6 => 6 | i7 => 7 | i8 => 8 | i9 => 9 | i10 => 10

/-- The pictures in the order in which they are coloured. -/
def all : List Swatch := [i1, i2, i3, i4, i5, i6, i7, i8, i9, i10]

theorem mem_all (v : Swatch) : v ∈ all := by
  cases v <;> decide

end Swatch

namespace ColorScreen

/-- The colour of every small picture after a call with the sorted list `s`. -/
def paint (s : List SensorData) (swatches : Swatch → Option UIColor) (v : Swatch) :
    Option UIColor :=
  match s[v.place]? with
  | some r => colorOf r 0.85
  | none => swatches v

theorem colorSwatch_eq {s : List SensorData} (hs : ∀ r ∈ s, Colored r) (v : Swatch)
    (c : ColorScreen) :
    c.colorSwatch (v.place + 1) v.place v s =
      .ok { c with swatches := Function.update c.swatches v (paint s c.swatches v) } := by
  unfold colorSwatch paint
  by_cases h : s.length ≥ v.place + 1
  · have hget : s[v.place]? = some (s[v.place]) := List.getElem?_eq_getElem h
    obtain ⟨col, hcol⟩ := (exists_color_iff 0.85).2 (hs _ (List.getElem_mem h))
    rw [if_pos h, element_eq_ok.2 hget, hget]
    simp only [hcol]
    show (recordColor s[v.place] 0.85 >>= _) = _
    rw [recordColor_eq, hcol]
    rfl
  · rw [if_neg h, List.getElem?_eq_none (by omega)]
    simp

/-- The blocks leave every picture painted whose place they have reached. -/
theorem foldlM_colorSwatch {s : List SensorData} (hs : ∀ r ∈ s, Colored r) (vs : List Swatch)
    (c : ColorScreen) :
    vs.foldlM (fun c v => c.colorSwatch (v.place + 1) v.place v s) c =
      .ok { c with
        swatches := fun v => if v ∈ vs then paint s c.swatches v else c.swatches v } := by
  induction vs generalizing c with
  | nil => rfl
  | cons v vs ih =>
    rw [List.foldlM_cons, colorSwatch_eq hs]
    refine (ih _).trans ?_
    -- a picture that comes again is painted the same
    congr 2
    funext w
    by_cases hw : w = v
    · subst hw
      by_cases hmem : w ∈ vs <;> simp [hmem, paint]
      split <;> rfl
    · by_cases hmem : w ∈ vs <;> simp [hw, hmem, paint]

/-- The ten blocks run over the ten pictures. -/
theorem colorSwatches_eq_foldlM (s : List SensorData) (c : ColorScreen) :
    c.colorSwatches s =
      Swatch.all.foldlM (fun c v => c.colorSwatch (v.place + 1) v.place v s) c := by
  simp only [colorSwatches, Swatch.all, List.foldlM_cons, List.foldlM_nil, Swatch.place, bind_pure]

theorem colorSwatches_eq {s : List SensorData} (hs : ∀ r ∈ s, Colored r) (c : ColorScreen) :
    c.colorSwatches s = .ok { c with swatches := paint s c.swatches } := by
  rw [colorSwatches_eq_foldlM, foldlM_colorSwatch hs]
  simp only [Swatch.mem_all, if_true]

/-- Whatever the colours are, the blocks change nothing but the small pictures. -/
theorem foldlM_colorSwatch_eq_ok {s : List SensorData} (vs : List Swatch) {c c' : ColorScreen}
    (hok : vs.foldlM (fun c v => c.colorSwatch (v.place + 1) v.place v s) c = .ok c') :
    ∃ swatches, c' = { c with swatches } := by
  induction vs generalizing c with
  | nil =>
    cases hok
    exact ⟨_, rfl⟩
  | cons v vs ih =>
    rw [List.foldlM_cons] at hok
    obtain ⟨m, hm, hrest⟩ := bind_eq_ok.1 hok
    obtain ⟨swatches, rfl⟩ := ih hrest
    unfold colorSwatch at hm
    split_ifs at hm
    · obtain ⟨data, -, hm⟩ := bind_eq_ok.1 hm
      obtain ⟨col, -, hm⟩ := bind_eq_ok.1 hm
      cases hm
      exact ⟨swatches, rfl⟩
    · cases hm
      exact ⟨swatches, rfl⟩

/-- The screen after the sorted list `s` with the newest record `r` has been shown. -/
def showing (s : List SensorData) (r : SensorData) (c : ColorScreen) : ColorScreen :=
  { c with
    latestData := r
    laastRefreshLabel := "Last refreshed at " ++ r.time
    colorImageView := colorOf r 0.85
    swatches := paint s c.swatches
    pendingGauges := c.pendingGauges + 1 }

variable {lib : StandardLibrary} {dataList : List SensorData} {r : SensorData} {c c' : ColorScreen}

/-- If all colours can be converted, the records are shown in order. -/
theorem onDataListChange_eq (hr : newest lib dataList = some r)
    (hcol : ∀ r ∈ dataList, Colored r) :
    c.onDataListChange lib dataList = .ok (c.showing (newestFirst lib dataList) r) := by
  have hs : ∀ r ∈ newestFirst lib dataList, Colored r := fun r hr =>
    hcol r ((newestFirst_perm lib dataList).mem_iff.1 hr)
  obtain ⟨col, hc⟩ := (exists_color_iff 0.85).2 (hcol r (mem_of_newest hr))
  simp only [onDataListChange, isEmpty_of_newest hr, element_newestFirst hr, Bool.not_false,
    if_true]
  show (recordColor r 0.85 >>= _) = _
  rw [recordColor_eq, hc]
  show (colorSwatches (newestFirst lib dataList) _ >>= _) = _
  rw [colorSwatches_eq hs, showing, hc]
  rfl

/-- Whatever the colours are, a call that goes through keeps the newest record and queues a
block. -/
theorem onDataListChange_eq_ok (hr : newest lib dataList = some r)
    (hok : c.onDataListChange lib dataList = .ok c') :
    c'.latestData = r ∧ c'.pendingGauges = c.pendingGauges + 1 := by
  simp only [onDataListChange, isEmpty_of_newest hr, element_newestFirst hr, Bool.not_false,
    if_true] at hok
  obtain ⟨_, ⟨⟩, hok⟩ := bind_eq_ok.1 hok
  obtain ⟨col, -, hok⟩ := bind_eq_ok.1 hok
  obtain ⟨m, hm, hok⟩ := bind_eq_ok.1 hok
  rw [colorSwatches_eq_foldlM] at hm
  obtain ⟨swatches, rfl⟩ := foldlM_colorSwatch_eq_ok _ hm
  cases hok
  exact ⟨rfl, rfl⟩

/-! ### The gauges -/

/-- The values the gauges get from a record, if they can be converted. -/
def gaugeValues (r : SensorData) : Option (ℤ × ℤ) := do
  let pressure ← parse binary64 r.pressure
  let value1 ← (pressure.sub (nearest binary64 90)).toInt 64
  let altitude ← parse binary64 r.altitude
  let value2 ← altitude.toInt 64
  return (value1, value2)

/-- The screen after the delayed block has set the gauges to `n` and `m`. -/
def gauged (n m : ℤ) (c : ColorScreen) : ColorScreen :=
  { c with
    gaugeView1 := ⟨n, c.latestData.pressure ++ " kPa"⟩
    gaugeView2 := ⟨m, c.latestData.altitude ++ " m"⟩ }

/-- The delayed block sets the gauges to the values of the record it reads. -/
theorem gaugeBlock_eq_ok_iff :
    c.gaugeBlock = .ok c' ↔ ∃ n m, gaugeValues c.latestData = some (n, m) ∧ c.gauged n m = c' := by
  simp only [gaugeValues, Option.bind_eq_bind, Option.bind_eq_some_iff, Option.pure_def,
    Option.some.injEq, Prod.mk.injEq]
  constructor
  · intro hok
    obtain ⟨p, hp, hok⟩ := bind_eq_ok.1 hok
    obtain ⟨n, hn, hok⟩ := bind_eq_ok.1 hok
    obtain ⟨a, ha, hok⟩ := bind_eq_ok.1 hok
    obtain ⟨m, hm, hok⟩ := bind_eq_ok.1 hok
    exact ⟨n, m, ⟨p, unwrap_eq_ok.1 hp, n, intOf_eq_ok.1 hn, a, unwrap_eq_ok.1 ha, m,
      intOf_eq_ok.1 hm, rfl, rfl⟩, Except.ok.inj hok⟩
  · rintro ⟨_, _, ⟨p, hp, n, hn, a, ha, m, hm, rfl, rfl⟩, rfl⟩
    simp only [gaugeBlock, hp, ha, unwrap_some]
    exact bind_eq_ok.2 ⟨p, rfl, bind_eq_ok.2 ⟨n, intOf_eq_ok.2 hn,
      bind_eq_ok.2 ⟨a, rfl, bind_eq_ok.2 ⟨m, intOf_eq_ok.2 hm, rfl⟩⟩⟩⟩

end ColorScreen

end SmartWeather
