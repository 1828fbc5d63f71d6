import SmartWeather.Sensor.Format
import SmartWeather.Sensor.Records

/-!
# The temperature from the barometer to the mood

The barometer delivers its temperature as a signed number, `deviceTemperature`; the program decodes
it as an unsigned one.  From there on nothing is lost: the text is within `0.005` of what was
decoded, it is ordered as the decoded values are, and it is read on the right side of every bound
between two moods.

* `cTemp_eq`: what the program decodes;
* `publishedTemperature_newData`: what the published text says;
* `moodOf_published`: the mood that the home screen finds for it;
* `temperatureFaithful_iff`: a run is faithful exactly if no temperature is below zero.
-/

namespace SmartWeather

open Binary Decimal Effects Rounding

namespace Sensor

/-! ### The temperature of the device -/

/-- Two bytes as one word, the higher byte first. -/
def wordOf (b : Vector UInt8 2) : ℕ :=
  (b.get ⟨0, Nat.zero_lt_two⟩).toNat * 256 + (b.get ⟨1, Nat.one_lt_two⟩).toNat

/-- The twelve bits that are left-aligned in the word. -/
def twelveBits (b : Vector UInt8 2) : ℕ := wordOf b / 16

theorem twelveBits_lt (b : Vector UInt8 2) : twelveBits b < 4096 := by
  have h0 := (b.get ⟨0, Nat.zero_lt_two⟩).toNat_lt
  have h1 := (b.get ⟨1, Nat.one_lt_two⟩).toNat_lt
  unfold twelveBits wordOf
  omega

/-- The twelve bits are a number in two's complement, four of them behind the point. -/
def deviceTemperature (b : Vector UInt8 2) : ℚ :=
  ((BitVec.ofNat 12 (twelveBits b)).toInt : ℚ) / 16

theorem toInt_ofNat_twelve {n : ℕ} (hn : n < 4096) :
    (BitVec.ofNat 12 n).toInt = if n < 2048 then (n : ℤ) else n - 4096 := by
  rw [BitVec.toInt_eq_toNat_cond, BitVec.toNat_ofNat, Nat.mod_eq_of_lt (by omega)]
  split_ifs <;> omega

/-- Every multiple of a sixteenth of a degree from -128 to 127.9375 has its two bytes. -/
theorem deviceTemperature_of_word {b : Vector UInt8 2} {k : ℤ} (h0 : -2048 ≤ k) (h1 : k < 2048)
    (hb : (wordOf b : ℤ) = k % 4096 * 16) : deviceTemperature b = k / 16 := by
  have hbits : (BitVec.ofNat 12 (twelveBits b)).toInt = k := by
    rw [toInt_ofNat_twelve (twelveBits_lt b), twelveBits]
    split_ifs <;> omega
  rw [deviceTemperature, hbits]

theorem and_F0 (b : UInt8) : (b &&& 0xF0).toNat = b.toNat / 16 * 16 := by
  have hall : ∀ n : Fin 256, n.val &&& 240 = n.val / 16 * 16 := by decide +kernel
  rw [UInt8.toNat_and]
  exact hall ⟨b.toNat, b.toNat_lt⟩

/-- The program decodes the number without its sign. -/
theorem cTemp_outputs (ctrl : UInt8) (m : Contents) :
    cTemp (outputs ctrl m) = (twelveBits m.temperature : ℚ) / 16 := by
  have h0 : (outputs ctrl m)[4] = m.temperature.get ⟨0, Nat.zero_lt_two⟩ := rfl
  have h1 : (outputs ctrl m)[5] = m.temperature.get ⟨1, Nat.one_lt_two⟩ := rfl
  have hword : (m.temperature.get ⟨0, Nat.zero_lt_two⟩).toNat * 256 +
      (m.temperature.get ⟨1, Nat.one_lt_two⟩).toNat / 16 * 16 = twelveBits m.temperature * 16 := by
    unfold twelveBits wordOf
    omega
  rw [cTemp, temp, h0, h1, and_F0, hword]
  push_cast
  ring

/-- The program takes a temperature below zero for one 256 degrees higher. -/
theorem cTemp_eq (ctrl : UInt8) (m : Contents) :
    cTemp (outputs ctrl m) = deviceTemperature m.temperature +
      if deviceTemperature m.temperature < 0 then 256 else 0 := by
  have hlt := twelveBits_lt m.temperature
  have hdevice : deviceTemperature m.temperature =
      ((if twelveBits m.temperature < 2048 then (twelveBits m.temperature : ℤ)
        else twelveBits m.temperature - 4096 : ℤ) : ℚ) / 16 := by
    rw [deviceTemperature, toInt_ofNat_twelve hlt]
  rw [cTemp_outputs, hdevice]
  generalize twelveBits m.temperature = n at hlt
  have hltq : (n : ℚ) < 4096 := by exact_mod_cast hlt
  by_cases hn : n < 2048
  · have h0 : (0 : ℚ) ≤ n := Nat.cast_nonneg n
    rw [if_pos hn, if_neg (by push_cast; linarith [div_nonneg h0 (by norm_num : (0 : ℚ) ≤ 16)])]
    push_cast
    ring
  · rw [if_neg hn, if_pos (by push_cast; linarith)]
    push_cast
    ring

/-! ### What the published text says -/

/-- The number that the text of `Temperature` denotes. -/
def publishedTemperature (d : Dict) : Option ℚ :=
  (d.lookup "Temperature").bind fun
    | .str text => denotes text
    | .int _ => none

theorem publishedTemperature_newData (i : ℤ) (m : Measurement) :
    publishedTemperature (newData i m) = some (toPlaces 2 (cTemp m.barometer6)) := by
  exact denotes_toPlaces (cTemp_bounds _).1

/-! ### The mood -/

/-- The mood of a temperature, with the bounds that the home screen has. -/
def bandOf (t : ℚ) : Mood :=
  if t ≤ 8 then cold
  else if t ≤ 15 then shivering
  else if t ≤ 25 then happy
  else if t ≤ 31 then sweaty
  else hot

theorem rep_of_natCast {n : ℕ} (h : n < 256) : binary32.Rep n := by
  have hlt : (n : ℚ) < 2 ^ (8 : ℤ) := by
    norm_num
    exact_mod_cast h
  refine ⟨?_, n, 0, by decide, ?_, by simp⟩
  · rw [abs_of_nonneg (Nat.cast_nonneg n)]
    exact hlt.trans_le (zpow_le_zpow_right₀ (by norm_num) (by decide))
  · rw [Nat.abs_cast]
    have hprec : (256 : ℤ) ≤ 2 ^ binary32.prec := by norm_num [binary32]
    omega

/-- The text is read on the same side of every integer as the decoded temperature. -/
theorem exists_parse_temperature (m : Measurement) {n : ℕ} (hn : cTemp m.barometer6 = n / 16)
    (hlt : n < 4096) :
    ∃ v h, parse binary32 (pyStr (toPlaces 2 (cTemp m.barometer6))) = some (.finite v h) ∧
      ∀ bound : ℤ, v ≤ bound ↔ cTemp m.barometer6 ≤ bound := by
  have h0 : 0 ≤ cTemp m.barometer6 := (cTemp_bounds _).1
  by_cases hint : n % 16 = 0
  · -- a whole number of degrees is written and read without an error
    obtain ⟨k, rfl⟩ : ∃ k, n = 16 * k := ⟨n / 16, by omega⟩
    have hk : cTemp m.barometer6 = (k : ℤ) := by
      rw [hn]
      push_cast
      ring
    have hrep : binary32.Rep (cTemp m.barometer6) := by
      rw [hk, Int.cast_natCast]
      exact rep_of_natCast (by omega)
    have hplaces : toPlaces 2 (cTemp m.barometer6) = cTemp m.barometer6 := by
      rw [hk, toPlaces_intCast]
    refine ⟨_, hrep, ?_, fun bound => Iff.rfl⟩
    rw [hplaces, ← nearest_eq_of_rep hrep]
    exact parse_shortest (m := halfEven (cTemp m.barometer6 * 10 ^ 2)) (k := 1) h0 (by norm_num)
      hplaces.symm
  · obtain ⟨q, v, h, -, -, hparse, hv, hnear⟩ := temperature_reads m
    refine ⟨v, h, hparse.trans (congrArg some hv), fun bound => ?_⟩
    have hsmall : (0.005 : ℚ) + 2 ^ (-17 : ℤ) < 1 / 16 := by norm_num
    obtain ⟨hlow, hhigh⟩ := abs_le.1 (hnear.trans hsmall.le)
    -- otherwise the bound is at least a sixteenth of a degree away
    by_cases hle : (n : ℤ) ≤ 16 * bound
    · have hstep : ((n : ℤ) : ℚ) ≤ ((16 * bound - 1 : ℤ) : ℚ) := by
        have : (n : ℤ) ≤ 16 * bound - 1 := by omega
        exact_mod_cast this
      push_cast at hstep
      have hx : cTemp m.barometer6 ≤ bound - 1 / 16 := by rw [hn]; linarith
      exact iff_of_true (by linarith) (by linarith)
    · have hstep : ((16 * bound + 1 : ℤ) : ℚ) ≤ ((n : ℤ) : ℚ) := by
        have : 16 * bound + 1 ≤ (n : ℤ) := by omega
        exact_mod_cast this
      push_cast at hstep
      have hx : bound + 1 / 16 ≤ cTemp m.barometer6 := by rw [hn]; linarith
      have hlt' : -(1 / 16) < v - cTemp m.barometer6 := by
        have := (abs_lt.1 (hnear.trans_lt hsmall)).1
        linarith
      exact iff_of_false (by linarith) (by linarith)

/-- The mood that the home screen finds is that of the decoded temperature. -/
theorem moodOf_finite {v x : ℚ} {h : binary32.Rep v} (hside : ∀ bound : ℤ, v ≤ bound ↔ x ≤ bound) :
    moodOf (.finite v h) = bandOf x := by
  have h8 : v ≤ 8 ↔ x ≤ 8 := by exact_mod_cast hside 8
  have h15 : v ≤ 15 ↔ x ≤ 15 := by exact_mod_cast hside 15
  have h25 : v ≤ 25 ↔ x ≤ 25 := by exact_mod_cast hside 25
  have h31 : v ≤ 31 ↔ x ≤ 31 := by exact_mod_cast hside 31
  unfold moodOf bandOf
  simp only [Value.leRat, Value.gtRat, Bool.and_eq_true, decide_eq_true_eq, ← not_le, h8, h15, h25,
    h31]
  by_cases c8 : x ≤ 8
  · simp [c8]
  by_cases c15 : x ≤ 15
  · simp [c8, c15]
  by_cases c25 : x ≤ 25
  · simp [c8, c15, c25]
  by_cases c31 : x ≤ 31
  · simp [c8, c15, c25, c31]
  · simp [c8, c15, c25, c31]

/-- The home screen with the published reading as its newest record. -/
theorem onDataListChange_written {lib : StandardLibrary} {dataList : List SensorData}
    {id : String} {i : ℤ} {m : Measurement} {n : ℕ} (hn : cTemp m.barometer6 = n / 16)
    (hlt : n < 4096) (hnew : newest lib dataList = some (written id i m)) (h : HomeScreen) :
    ∃ h', h.onDataListChange lib dataList = .ok h' ∧
      h'.moodLabel = (bandOf (cTemp m.barometer6)).mood := by
  obtain ⟨v, hv, hparse, hside⟩ := exists_parse_temperature m hn hlt
  obtain ⟨t, ht⟩ := Option.isSome_iff_exists.1 (convertible_written id i m).room
  obtain ⟨temp, hp, ht⟩ := Option.bind_eq_some_iff.1 ht
  have htemp : temp = .finite v hv := Option.some.inj (hp.symm.trans hparse)
  refine ⟨_, HomeScreen.onDataListChange_eq hnew hp ht, ?_⟩
  show (moodOf temp).mood = _
  rw [htemp, moodOf_finite hside]

/-! ### Runs -/

/-- The temperature of the device when a round reads it. -/
def Cycle.deviceTemperature (c : Cycle) : ℚ := Sensor.deviceTemperature c.first.temperature

/-- The readings `ds` of the rounds `cs` say what the temperatures of the device were. -/
structure TemperatureFaithful (cs : List Cycle) (ds : List Dict) : Prop where
  near : ∀ p ∈ cs.zip ds, ∃ v, publishedTemperature p.2 = some v ∧
    |v - p.1.deviceTemperature| ≤ 0.005
  ordered : ∀ p ∈ cs.zip ds, ∀ q ∈ cs.zip ds, p.1.deviceTemperature ≤ q.1.deviceTemperature →
    ∀ v w, publishedTemperature p.2 = some v → publishedTemperature q.2 = some w → v ≤ w
  mood : ∀ p ∈ cs.zip ds, ∀ (lib : StandardLibrary) (id : String) (dataList : List SensorData)
    (h : HomeScreen), newest lib dataList = some (recordOf (document id p.2)) →
      ∃ h', h.onDataListChange lib dataList = .ok h' ∧
        h'.moodLabel = (bandOf p.1.deviceTemperature).mood

variable {c : Cycle} {cs : List Cycle} {u : StartUp} {d : Dict} {i : ℤ} {ctrl : UInt8}

/-- The reading of a round, as far as the temperature is concerned. -/
theorem RecordOf.exists_cTemp (h : RecordOf c d) :
    ∃ i m, d = newData i m ∧ (∃ n : ℕ, n < 4096 ∧ cTemp m.barometer6 = n / 16) ∧
      cTemp m.barometer6 =
        c.deviceTemperature + if c.deviceTemperature < 0 then 256 else 0 := by
  obtain ⟨i, ctrl, rfl⟩ := h
  exact ⟨i, _, rfl, ⟨_, twelveBits_lt _, cTemp_outputs ctrl c.first⟩, cTemp_eq ctrl c.first⟩

theorem temperatureFaithful_readings (hcs : ∀ c ∈ cs, 0 ≤ c.deviceTemperature) :
    TemperatureFaithful cs (readings i ctrl cs) := by
  have hall : ∀ c d, (c, d) ∈ cs.zip (readings i ctrl cs) → ∃ j m, d = newData j m ∧
      (∃ n : ℕ, n < 4096 ∧ cTemp m.barometer6 = n / 16) ∧
        cTemp m.barometer6 = c.deviceTemperature := by
    intro c d hp
    obtain ⟨j, m, hd, hn, hc⟩ := (List.forall₂_zip (recordOf_readings i ctrl cs) hp).exists_cTemp
    rw [if_neg (hcs c (List.of_mem_zip hp).1).not_gt, add_zero] at hc
    exact ⟨j, m, hd, hn, hc⟩
  refine ⟨?_, ?_, ?_⟩
  · rintro ⟨c, d⟩ hp
    obtain ⟨j, m, rfl, -, hc⟩ := hall c d hp
    refine ⟨_, publishedTemperature_newData j m, ?_⟩
    rw [← hc]
    exact (abs_toPlaces_sub_le 2 _).trans (by norm_num)
  · rintro ⟨c, d⟩ hp ⟨c', d'⟩ hp' hle v w hv hw
    obtain ⟨_, m, rfl, -, hc⟩ := hall c d hp
    obtain ⟨_, m', rfl, -, hc'⟩ := hall c' d' hp'
    rw [publishedTemperature_newData] at hv hw
    cases hv
    cases hw
    exact toPlaces_mono (by rw [hc, hc']; exact hle)
  · rintro ⟨c, d⟩ hp lib id dataList h hnew
    obtain ⟨_, m, rfl, ⟨n, hlt, hn⟩, hc⟩ := hall c d hp
    rw [recordOf_document] at hnew
    rw [← hc]
    exact onDataListChange_written hn hlt hnew h

/-- A temperature below zero is published as one above 127 degrees. -/
theorem RecordOf.not_near_of_neg {v : ℚ} (h : RecordOf c d)
    (hneg : c.deviceTemperature < 0) (hv : publishedTemperature d = some v) :
    ¬ |v - c.deviceTemperature| ≤ 0.005 := by
  obtain ⟨_, m, rfl, -, hc⟩ := h.exists_cTemp
  rw [publishedTemperature_newData] at hv
  cases hv
  rw [if_pos hneg] at hc
  have hround := (abs_le.1 (abs_toPlaces_sub_le 2 (cTemp m.barometer6))).1
  rw [hc] at hround ⊢
  intro hnear
  have hhigh := (abs_le.1 hnear).2
  norm_num at hround hhigh
  linarith

/-- A run with a temperature below zero is not faithful. -/
theorem not_faithful_of_neg {s t : Pi} {ds inCloud inFile inCloud' inFile' : List Dict}
    (hstored : Stored s t (readings i ctrl cs) inCloud inFile)
    (hds : Stored s t ds inCloud' inFile') (hc : c ∈ cs) (hneg : c.deviceTemperature < 0) :
    ¬ TemperatureFaithful cs ds := by
  intro hfaithful
  obtain rfl := List.append_cancel_left (hstored.log.symm.trans hds.log)
  have hzip : (cs.zip (readings i ctrl cs)).map Prod.fst = cs :=
    List.map_fst_zip (length_readings i ctrl cs).ge
  rw [← hzip] at hc
  obtain ⟨⟨c, d⟩, hp, rfl⟩ := List.mem_map.1 hc
  obtain ⟨v, hv, hnear⟩ := hfaithful.near _ hp
  exact (List.forall₂_zip (recordOf_readings i ctrl cs) hp).not_near_of_neg hneg hv hnear

/-- **When the temperature is faithful.**  In every run of completed rounds the published
temperatures are those of the device, within `0.005`, in their order, and with their moods on the
home screen, exactly if no temperature is below zero. -/
theorem temperatureFaithful_iff (h : Completed u cs) (s : Pi) :
    (∃ ds inCloud inFile, Stored s (final (sensorPy u cs) s) ds inCloud inFile ∧
      TemperatureFaithful cs ds) ↔ ∀ c ∈ cs, 0 ≤ c.deviceTemperature := by
  obtain ⟨inCloud, inFile, hstored⟩ := sensorPy_of_completed h s
  constructor
  · rintro ⟨ds, _, _, hds, hfaithful⟩ c hc
    by_contra hneg
    exact not_faithful_of_neg hstored hds hc (not_le.1 hneg) hfaithful
  · exact fun hcs => ⟨_, inCloud, inFile, hstored, temperatureFaithful_readings hcs⟩

theorem temperatureFaithful_iff_twoStores :
    (∃ ds inCloud inFile, Stored {} (final (sensorPy sampleStart twoStores) {}) ds inCloud inFile ∧
      TemperatureFaithful twoStores ds) ↔ ∀ c ∈ twoStores, 0 ≤ c.deviceTemperature :=
  temperatureFaithful_iff completed_twoStores {}

/-- A round at a sixteenth of a degree below zero. -/
def frost : Cycle :=
  { sampleCycle .ok .succeeds with
    first := { (sampleCycle .ok .succeeds).first with temperature := Vector.ofFn ![0xFF, 0xF0] } }

/-- It is published as 255.94 degrees. -/
theorem frost_not_faithful :
    Completed sampleStart [frost] ∧ frost.deviceTemperature = -1 / 16 ∧
      (final (sensorPy sampleStart [frost]) {}).log.map publishedTemperature = [some 255.94] ∧
      ¬ ∃ ds inCloud inFile, Stored {} (final (sensorPy sampleStart [frost]) {}) ds inCloud inFile ∧
        TemperatureFaithful [frost] ds := by
  have hcompleted : Completed sampleStart [frost] := ⟨by decide, rfl, by decide⟩
  have hfrost : frost.deviceTemperature = -1 / 16 := by
    have hword := deviceTemperature_of_word (b := frost.first.temperature) (k := -1) (by decide)
      (by decide) (by decide +kernel)
    simpa [Cycle.deviceTemperature] using hword
  refine ⟨hcompleted, hfrost, by decide +kernel, ?_⟩
  rintro ⟨ds, _, _, hds, hfaithful⟩
  obtain ⟨inCloud, inFile, hstored⟩ := sensorPy_of_completed hcompleted {}
  refine not_faithful_of_neg hstored hds List.mem_cons_self ?_ hfaithful
  rw [hfrost]
  norm_num

end Sensor

end SmartWeather
