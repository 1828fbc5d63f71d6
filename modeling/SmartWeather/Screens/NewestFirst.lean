import SmartWeather.Screens.HistoryScreen
import SmartWeather.Sensor.Reading

/-!
# Is the newest record shown first?

The screens sort by the text of the time, the sensor program writes the seconds of its clock as a
number.  The order of two texts is the order of the numbers as long as a number with fewer digits is
at most the leading digits of one with more (`Decimal.LexAgrees`); `newestInTime_iff` lifts this to
the sorted lists.
-/

namespace SmartWeather

open Decimal Rounding

namespace Sensor

/-- The whole seconds of a clock. -/
def seconds (clock : ℚ) : ℕ := ⌊clock⌋.toNat

theorem unixTime_eq {clock : ℚ} (h : 0 ≤ clock) : unixTime clock = toString (seconds clock) := by
  have hfloor := Int.floor_nonneg.2 h
  rw [unixTime, seconds, toward0_of_nonneg h, Int.toString_eq_repr, Int.repr_eq_if, if_pos hfloor]
  rfl

end Sensor

open Sensor

/-- The clock has stamped the record. -/
def Stamped (clock : SensorData → ℚ) (r : SensorData) : Prop :=
  0 ≤ clock r ∧ r.unixTime = unixTime (clock r)

/-- The history screen shows a permutation of the list with the newest records first, and the home
and the colour screen show the newest record. -/
structure NewestInTime (lib : StandardLibrary) (time : SensorData → ℕ)
    (dataList : List SensorData) : Prop where
  history : ∀ s s' : HistoryScreen, s.onDataListChange lib dataList = .ok s' →
    s'.sensorDataList.Perm dataList ∧ s'.sensorDataList.Pairwise fun a b => time b ≤ time a
  home : dataList ≠ [] → ∀ s s' : HomeScreen, s.onDataListChange lib dataList = .ok s' →
    s'.latestData ∈ dataList ∧ ∀ r ∈ dataList, time r ≤ time s'.latestData
  color : dataList ≠ [] → ∀ s s' : ColorScreen, s.onDataListChange lib dataList = .ok s' →
    s'.latestData ∈ dataList ∧ ∀ r ∈ dataList, time r ≤ time s'.latestData

section Stamps

variable {lib : StandardLibrary} {clock : SensorData → ℚ} {dataList : List SensorData}

theorem codeUnits_of_stamped {r : SensorData} (h : Stamped clock r) :
    lib.codeUnits r.unixTime = units (seconds (clock r)) := by
  rw [h.2, unixTime_eq h.1, lib.codeUnits_toString]

variable (lib) in
/-- The sorted list is in the order of time exactly if every two times compare like their texts. -/
theorem newestFirst_pairwise_iff (h : ∀ r ∈ dataList, Stamped clock r) :
    (newestFirst lib dataList).Pairwise (fun a b => seconds (clock b) ≤ seconds (clock a)) ↔
      ∀ a ∈ dataList, ∀ b ∈ dataList, LexAgrees (seconds (clock a)) (seconds (clock b)) := by
  have hmem : ∀ r, r ∈ newestFirst lib dataList ↔ r ∈ dataList := fun r =>
    (newestFirst_perm lib dataList).mem_iff
  have hsorted : (newestFirst lib dataList).Pairwise fun a b =>
      units (seconds (clock b)) ≤ units (seconds (clock a)) := by
    refine (newestFirst_pairwise lib dataList).imp_of_mem fun {a b} ha hb hab => ?_
    rwa [codeUnits_of_stamped (h a ((hmem a).1 ha)), codeUnits_of_stamped (h b ((hmem b).1 hb))]
      at hab
  simp only [← units_lt_imp_iff]
  constructor
  · intro htime a ha b hb
    let R : SensorData → SensorData → Prop := fun a b =>
      (units (seconds (clock b)) < units (seconds (clock a)) →
        seconds (clock b) ≤ seconds (clock a)) ∧
      (units (seconds (clock a)) < units (seconds (clock b)) →
        seconds (clock a) ≤ seconds (clock b))
    have hsymm : Std.Symm R := ⟨fun _ _ hab => ⟨hab.2, hab.1⟩⟩
    have hR : (newestFirst lib dataList).Pairwise R := (htime.and hsorted).imp fun hab =>
      ⟨fun _ => hab.1, fun hlt => absurd hab.2 (not_le.2 hlt)⟩
    exact (hR.forall_of_forall (fun _ _ => ⟨fun _ => le_rfl, fun _ => le_rfl⟩)
      ((hmem a).2 ha) ((hmem b).2 hb)).1
  · intro hagree
    refine hsorted.imp_of_mem fun {a b} ha hb hab => ?_
    rcases hab.lt_or_eq with hlt | heq
    · exact hagree a ((hmem a).1 ha) b ((hmem b).1 hb) hlt
    · exact (units_eq_iff.1 heq).le

/-- In a list that is in the order of time the first record is the newest. -/
theorem newest_of_pairwise {time : SensorData → ℕ} {r : SensorData}
    (h : (newestFirst lib dataList).Pairwise fun a b => time b ≤ time a)
    (hr : newest lib dataList = some r) : r ∈ dataList ∧ ∀ r' ∈ dataList, time r' ≤ time r := by
  refine ⟨mem_of_newest hr, fun r' hr' => ?_⟩
  obtain ⟨rest, hrest⟩ := List.head?_eq_some_iff.1 hr
  have hmem : r' ∈ r :: rest := hrest ▸ (newestFirst_perm lib dataList).mem_iff.2 hr'
  rw [hrest] at h
  rcases List.mem_cons.1 hmem with rfl | hmem
  · exact le_rfl
  · exact (List.pairwise_cons.1 h).1 r' hmem

/-- **When newest first means newest in time**, for records stamped by any non-negative clock. -/
theorem newestInTime_iff (h : ∀ r ∈ dataList, Stamped clock r) :
    NewestInTime lib (fun r => seconds (clock r)) dataList ↔
      ∀ a ∈ dataList, ∀ b ∈ dataList, LexAgrees (seconds (clock a)) (seconds (clock b)) := by
  rw [← newestFirst_pairwise_iff lib h]
  constructor
  · exact fun hnewest => (hnewest.history {} _ rfl).2
  · intro hpairwise
    refine ⟨?_, fun hne s s' hs => ?_, fun hne s s' hs => ?_⟩
    · rintro s _ ⟨⟩
      exact ⟨newestFirst_perm lib dataList, hpairwise⟩
    · rcases HomeScreen.onDataListChange_cases hs with ⟨hnil, -⟩ | ⟨r, temp, t, hr, -, -, rfl⟩
      · exact absurd hnil hne
      · exact newest_of_pairwise hpairwise hr
    · obtain ⟨r, hr⟩ := exists_newest lib hne
      rw [(ColorScreen.onDataListChange_eq_ok hr hs).1]
      exact newest_of_pairwise hpairwise hr

end Stamps

/-! ### Times of equal and of different length -/

/-- The seconds that the text of the time gives. -/
def writtenClock (r : SensorData) : ℚ := ofDigits 10 r.unixTime.toList

/-- A reading at the given time. -/
def readAt (time : String) : SensorData :=
  { unixTime := time, red := "64", green := "48", blue := "32", temperature := "20.0",
    pressure := "101.3", altitude := "40" }

/-- Two readings of the same day. -/
def sameLength : List SensorData := [readAt "1570000000", readAt "1570000005"]

/-- The home and the colour screen show the later one. -/
theorem newestInTime_iff_sameLength :
    (({} : HomeScreen).onDataListChange .reference sameLength).toOption.map HomeScreen.latestData =
        some (readAt "1570000005") ∧
      (({} : ColorScreen).onDataListChange .reference sameLength).toOption.map
        ColorScreen.latestData = some (readAt "1570000005") ∧
      NewestInTime StandardLibrary.reference (fun r => seconds (writtenClock r)) sameLength := by
  refine ⟨by decide +kernel, by decide +kernel, (newestInTime_iff ?_).2 ?_⟩
  · simp only [sameLength, List.forall_mem_cons, Stamped]
    exact ⟨by decide +kernel, by decide +kernel, by simp⟩
  · decide +kernel

/-- Two readings of a clock that is not set, a second apart. -/
def shortTimes : List SensorData := [readAt "999", readAt "1000"]

/-- All screens show the earlier one first. -/
theorem shortTimes_not_newestInTime : (∀ r ∈ shortTimes, Stamped writtenClock r) ∧
    (({} : HomeScreen).onDataListChange .reference shortTimes).toOption.map HomeScreen.latestData =
      some (readAt "999") ∧
    (({} : ColorScreen).onDataListChange .reference shortTimes).toOption.map
      ColorScreen.latestData = some (readAt "999") ∧
    ¬ NewestInTime StandardLibrary.reference (fun r => seconds (writtenClock r)) shortTimes := by
  refine ⟨?_, by decide +kernel, by decide +kernel, fun h => ?_⟩
  · simp only [shortTimes, List.forall_mem_cons, Stamped]
    exact ⟨by decide +kernel, by decide +kernel, by simp⟩
  · have hpairwise := (h.history {} _ rfl).2
    exact absurd hpairwise (by decide +kernel)

end SmartWeather
