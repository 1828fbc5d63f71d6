import SmartWeather.Screens.App
import SmartWeather.Sensor.Reading

/-!
# The writer and the reader agree on the format

`written` is the record that holds every entry of the dictionary unchanged.  `reader_agrees`: the
app accepts the document that the sensor program stores, builds `written` from it, and all its
conversions succeed.  The colours are read back exactly.  The other numbers are rounded twice, to
two decimals by the writer and to a binary format by the reader.
-/

namespace SmartWeather

open Binary Decimal Rounding

namespace Sensor

/-- A string is stored as a string, an integer as an integer. -/
def PyValue.stored : PyValue → FieldValue
  | .int n => .integer n
  | .str s => .string s

/-- The document that `add` stores. -/
def document (id : String) (d : Dict) : Document := ⟨id, fun a => (d.lookup a).map PyValue.stored⟩

/-- The record with the entries of the dictionary. -/
def written (id : String) (i : ℤ) (m : Measurement) : SensorData where
  id := id
  number := i
  green := pyStr (green m.rgb)
  blue := pyStr (blue m.rgb)
  red := pyStr (red m.rgb)
  pressure := pyStr (toPlaces 2 (pressure m.barometer4))
  altitude := pyStr (toPlaces 2 (altitude m.barometer6))
  temperature := pyStr (toPlaces 2 (cTemp m.barometer6))
  unixTime := unixTime m.clock
  date := presentDate m.now
  time := presentTime m.now

theorem checkFields_document (id : String) (i : ℤ) (m : Measurement) :
    checkFields (document id (newData i m)).data = true := by
  rw [checkFields_iff]
  refine ⟨fun a ha => ?_, i, rfl⟩
  simp only [attributes, List.mem_cons, List.not_mem_nil, or_false] at ha
  rcases ha with rfl | rfl | rfl | rfl | rfl | rfl | rfl | rfl | rfl <;> exact ⟨_, rfl⟩

theorem recordOf_document (id : String) (i : ℤ) (m : Measurement) :
    recordOf (document id (newData i m)) = written id i m := rfl

/-! ### Reading the numbers back -/

/-- The number that a text in decimal notation denotes. -/
def denotes (text : String) : Option ℚ :=
  match text.toList with
  | '-' :: cs => (literal 10 'e' 10 cs).map fun q => -q
  | cs => literal 10 'e' 10 cs

/-- The text of a rounded number denotes it. -/
theorem denotes_toPlaces {x : ℚ} (h0 : 0 ≤ x) :
    denotes (pyStr (toPlaces 2 x)) = some (toPlaces 2 x) := by
  obtain ⟨d, n, hqn, hs⟩ := shortest_of_nonneg (m := halfEven (x * 10 ^ 2)) (k := 1)
    (toPlaces_nonneg h0) (by norm_num) rfl
  have hplain : ∀ c ∈ render d n, Plain c := fun c hc => plain_of_mem_render hc
  rw [denotes, pyStr, hs, String.toList_ofList]
  split
  · next cs h =>
    -- plain notation has no sign
    exact absurd rfl (hplain '-' (by rw [h]; exact List.mem_cons_self)).ne.1
  · rw [literal_render, ← hqn]

/-- The text denotes a decimal within `0.005` of `x`, and is read as the value of the format nearest
to that decimal, which is within `0.005 + e` of `x`. -/
def ReadsNear (f : Format) (text : String) (x e : ℚ) : Prop :=
  ∃ q v h, denotes text = some q ∧ |q - x| ≤ 0.005 ∧ parse f text = some (nearest f q) ∧
    nearest f q = .finite v h ∧ |v - x| ≤ 0.005 + e

/-- The text is read as `x` exactly. -/
def ReadsExactly (f : Format) (text : String) (x : ℚ) : Prop :=
  ∃ h, parse f text = some (.finite x h)

theorem readsNear_toPlaces {f : Format} {x : ℚ} {k : ℤ} (h0 : 0 ≤ x) (hk : x + 0.005 < 2 ^ k)
    (hfin : (2 : ℚ) ^ k + f.halfUlp k ≤ 2 ^ (10 : ℤ)) (he : 10 ≤ f.emax) :
    ReadsNear f (pyStr (toPlaces 2 x)) x (f.halfUlp k) := by
  have hround : |toPlaces 2 x - x| ≤ 0.005 := (abs_toPlaces_sub_le 2 x).trans (by norm_num)
  have hnonneg : 0 ≤ toPlaces 2 x := toPlaces_nonneg h0
  have hlt : |toPlaces 2 x| < 2 ^ k := by
    rw [abs_of_nonneg hnonneg]
    linarith [(abs_le.1 hround).2]
  obtain ⟨v, h, hv, hulp⟩ := abs_nearest_sub_le hlt
    (hfin.trans (zpow_le_zpow_right₀ (by norm_num) he))
  refine ⟨toPlaces 2 x, v, h, denotes_toPlaces h0, hround, ?_, hv, ?_⟩
  · exact parse_shortest (m := halfEven (x * 10 ^ 2)) (k := 1) hnonneg (by norm_num) rfl
  · calc |v - x| = |(v - toPlaces 2 x) + (toPlaces 2 x - x)| := by ring_nf
      _ ≤ |v - toPlaces 2 x| + |toPlaces 2 x - x| := abs_add_le _ _
      _ ≤ 0.005 + f.halfUlp k := by linarith

/-- A colour value has at most sixteen significant bits. -/
theorem readsExactly_word {n : ℕ} (h : n < 2 ^ 16) :
    ReadsExactly binary32 (pyStr (n / 256)) (n / 256) := by
  have hlt : (n : ℚ) < 2 ^ 16 := by exact_mod_cast h
  have hrep : binary32.Rep (n / 256) := by
    refine ⟨?_, n, -8, by decide, ?_, ?_⟩
    · rw [abs_of_nonneg (by positivity)]
      calc (n : ℚ) / 256 < 2 ^ 16 := by linarith
        _ ≤ 2 ^ binary32.emax := by norm_num [binary32]
    · rw [abs_of_nonneg (by positivity)]
      calc (n : ℤ) < 2 ^ 16 := by exact_mod_cast h
        _ ≤ 2 ^ binary32.prec := by norm_num [binary32]
    · norm_num
      ring
  refine ⟨hrep, ?_⟩
  rw [← nearest_eq_of_rep hrep]
  refine parse_shortest (m := n * 390625) (k := 7) (by positivity) (by norm_num) ?_
  push_cast
  ring

/-- A colour value is read as the 256th part of its word. -/
theorem word_reads (high low : UInt8) :
    ReadsExactly binary32 (pyStr (word high low / 256)) (sixteenBits high low / 256) := by
  rw [← word_eq]
  exact readsExactly_word (word_lt high low)

theorem temperature_reads (m : Measurement) :
    ReadsNear binary32 (pyStr (toPlaces 2 (cTemp m.barometer6))) (cTemp m.barometer6)
      (2 ^ (-17 : ℤ)) := by
  obtain ⟨h0, h1⟩ := cTemp_bounds m.barometer6
  have hulp : binary32.halfUlp 8 = 2 ^ (-17 : ℤ) := by norm_num [Format.halfUlp, binary32]
  rw [← hulp]
  refine readsNear_toPlaces h0 (by norm_num; linarith) ?_ (by decide)
  rw [hulp]
  norm_num

theorem pressure_reads (m : Measurement) :
    ReadsNear binary64 (pyStr (toPlaces 2 (pressure m.barometer4))) (pressure m.barometer4)
      (2 ^ (-45 : ℤ)) := by
  obtain ⟨h0, h1⟩ := pressure_bounds m.barometer4
  have hulp : binary64.halfUlp 9 = 2 ^ (-45 : ℤ) := by norm_num [Format.halfUlp, binary64]
  rw [← hulp]
  refine readsNear_toPlaces h0 (by norm_num; linarith) ?_ (by decide)
  rw [hulp]
  norm_num

theorem altitude_reads (m : Measurement) :
    ReadsNear binary64 (pyStr (toPlaces 2 (altitude m.barometer6))) (altitude m.barometer6)
      (2 ^ (-46 : ℤ)) := by
  obtain ⟨h0, h1⟩ := altitude_bounds m.barometer6
  have hulp : binary64.halfUlp 8 = 2 ^ (-46 : ℤ) := by norm_num [Format.halfUlp, binary64]
  rw [← hulp]
  refine readsNear_toPlaces h0 (by norm_num; linarith) ?_ (by decide)
  rw [hulp]
  norm_num

/-- A number that is read near `x` can be converted to an integer. -/
theorem ReadsNear.toInt {f : Format} {text : String} {x e : ℚ} (h : ReadsNear f text x e)
    (hx : |x| + 0.005 + e ≤ 1000) : ∃ v n, parse f text = some v ∧ v.toInt 64 = some n := by
  obtain ⟨q, v, hrep, -, -, hparse, hv, hnear⟩ := h
  have habs : |v| ≤ (1000 : ℤ) := by
    calc |v| = |(v - x) + x| := by ring_nf
      _ ≤ |v - x| + |x| := abs_add_le _ _
      _ ≤ (1000 : ℤ) := by push_cast; linarith
  exact ⟨_, _, hparse.trans (congrArg some hv), Value.toInt_of_abs_le habs (by norm_num)⟩

/-- So can its difference to ninety. -/
theorem ReadsNear.sub_ninety {text : String} {x e : ℚ} (h : ReadsNear binary64 text x e)
    (hx : |x| + 0.005 + e ≤ 900) :
    ∃ v n, parse binary64 text = some v ∧ (v.sub (nearest binary64 90)).toInt 64 = some n := by
  obtain ⟨q, v, hrep, -, -, hparse, hv, hnear⟩ := h
  have h90 : binary64.Rep 90 := by
    refine ⟨?_, 90, 0, by decide, by decide, by norm_num⟩
    calc |(90 : ℚ)| ≤ 2 ^ (10 : ℤ) := by norm_num
      _ < 2 ^ binary64.emax := zpow_lt_zpow_right₀ (by norm_num) (by decide)
  have hsub : |v - 90| < 2 ^ (10 : ℤ) := by
    calc |v - 90| = |(v - x) + x + -90| := by ring_nf
      _ ≤ |v - x| + |x| + |-90| := abs_add_three _ _ _
      _ ≤ 990 := by norm_num; linarith
      _ < 2 ^ (10 : ℤ) := by norm_num
  have hulp : binary64.halfUlp 10 = 2 ^ (-44 : ℤ) := by norm_num [Format.halfUlp, binary64]
  obtain ⟨u, hu, hnearest, herr⟩ := abs_nearest_sub_le (f := binary64) hsub (by
    calc (2 : ℚ) ^ (10 : ℤ) + binary64.halfUlp 10 ≤ 2 ^ (11 : ℤ) := by rw [hulp]; norm_num
      _ ≤ 2 ^ binary64.emax := zpow_le_zpow_right₀ (by norm_num) (by decide))
  have habs : |u| ≤ (2000 : ℤ) := by
    calc |u| = |(u - (v - 90)) + (v - 90)| := by ring_nf
      _ ≤ |u - (v - 90)| + |v - 90| := abs_add_le _ _
      _ ≤ (2000 : ℤ) := by
        rw [hulp] at herr
        norm_num at herr hsub ⊢
        linarith
  refine ⟨_, toward0 u, hparse.trans (congrArg some hv), ?_⟩
  rw [nearest_eq_of_rep h90, Value.sub, hnearest]
  exact Value.toInt_of_abs_le habs (by norm_num)

theorem convertible_written (id : String) (i : ℤ) (m : Measurement) :
    Convertible (written id i m) where
  colored := by
    obtain ⟨_, hred⟩ := word_reads m.rgb[3] m.rgb[2]
    obtain ⟨_, hgreen⟩ := word_reads m.rgb[5] m.rgb[4]
    obtain ⟨_, hblue⟩ := word_reads m.rgb[7] m.rgb[6]
    exact ⟨Option.isSome_iff_exists.2 ⟨_, hred⟩, Option.isSome_iff_exists.2 ⟨_, hgreen⟩,
      Option.isSome_iff_exists.2 ⟨_, hblue⟩⟩
  room := by
    obtain ⟨h0, h1⟩ := cTemp_bounds m.barometer6
    obtain ⟨v, n, hv, hn⟩ := (temperature_reads m).toInt (by
      rw [abs_of_nonneg h0]
      norm_num
      linarith)
    exact Option.isSome_iff_exists.2 ⟨n, Option.bind_eq_some_iff.2 ⟨v, hv, hn⟩⟩
  gauges := by
    obtain ⟨h0, h1⟩ := pressure_bounds m.barometer4
    obtain ⟨k0, k1⟩ := altitude_bounds m.barometer6
    obtain ⟨p, n, hp, hn⟩ := (pressure_reads m).sub_ninety (by
      rw [abs_of_nonneg h0]
      norm_num
      linarith)
    obtain ⟨a, l, ha, hl⟩ := (altitude_reads m).toInt (by
      rw [abs_of_nonneg k0]
      norm_num
      linarith)
    simp [ColorScreen.gaugeValues, written, hp, hn, ha, hl]

/-- **The writer and the reader agree**, for all contents of the three blocks, all clocks and all
numbers: the document is accepted, its record holds what was written, and it can be shown. -/
theorem reader_agrees (id : String) (i : ℤ) (m : Measurement) :
    dataChecker (document id (newData i m)).added = true ∧
      sensorData (document id (newData i m)) = .ok (written id i m) ∧
      Convertible (written id i m) ∧
      ReadsExactly binary32 (written id i m).red (redWord m.rgb / 256) ∧
      ReadsExactly binary32 (written id i m).green (greenWord m.rgb / 256) ∧
      ReadsExactly binary32 (written id i m).blue (blueWord m.rgb / 256) ∧
      ReadsNear binary32 (written id i m).temperature (cTemp m.barometer6) (2 ^ (-17 : ℤ)) ∧
      ReadsNear binary64 (written id i m).pressure (pressure m.barometer4) (2 ^ (-45 : ℤ)) ∧
      ReadsNear binary64 (written id i m).altitude (altitude m.barometer6) (2 ^ (-46 : ℤ)) := by
  have hcheck := checkFields_document id i m
  refine ⟨hcheck, ?_, convertible_written id i m, word_reads _ _, word_reads _ _,
    word_reads _ _, temperature_reads m, pressure_reads m, altitude_reads m⟩
  rw [sensorData_eq hcheck, recordOf_document]

/-- Blocks of zeroes, but for the last byte of the temperature: an eighth of a degree. -/
def eighthDegree : Measurement where
  barometer6 := #v[0, 0, 0, 0, 0, 0x20]
  barometer4 := #v[0, 0, 0, 0]
  rgb := Vector.replicate 32 0
  now := sampleTime
  clock := 1572949800

/-- It is written as `0.12`, which is read as a value a little more than `0.005` below. -/
theorem eighthDegree_not_near : ¬ ∀ i m, 0 ≤ m.clock →
    ∃ v h, parse binary32 (written "a" i m).temperature = some (.finite v h) ∧
      |v - cTemp m.barometer6| ≤ 0.005 := by
  intro hall
  obtain ⟨v, h, hv, hnear⟩ := hall 1 eighthDegree (by decide +kernel)
  -- the nearest single to `0.12` lies below it
  have hbelow : (parse binary32 (written "a" 1 eighthDegree).temperature).all
      (·.leRat 0.119999998) = true := by decide +kernel
  rw [hv] at hbelow
  have hle : v ≤ 0.119999998 := of_decide_eq_true hbelow
  have hx : cTemp eighthDegree.barometer6 = 0.125 := by decide +kernel
  rw [hx] at hnear
  linarith [(abs_le.1 hnear).1]

end Sensor

end SmartWeather
