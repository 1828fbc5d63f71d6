import SmartWeather.Database.Firestore

/-!
# Sensor records and how the controller builds them

`SensorData` is the record the screens show.  `parseChange` is the body of the loop of
`parseHeroesSnapshot`: a change whose document `dataChecker` rejects is skipped, for any other one
the fields are cast and a record is appended.

`recordOf?` says what one change contributes, and `appendChanges_eq` that the loop never fails and
appends these contributions in order.
-/

namespace SmartWeather

structure SensorData where
  id : String := " "
  altitude : String := " "
  unixTime : String := " "
  blue : String := " "
  pressure : String := " "
  date : String := " "
  temperature : String := " "
  number : ℤ := 0
  red : String := " "
  green : String := " "
  time : String := " "
  deriving DecidableEq, Repr

/-- The names `dataChecker` tests for a string. -/
def attributes : List String :=
  ["Red", "Blue", "Green", "Temperature", "Pressure", "Altitude", "Date", "UnixTime", "Time"]

/-- `dataChecker`, on the contents of the changed document. -/
def checkFields (data : Fields) : Bool :=
  if attributes.any fun value => (asString (data value)).isNone then false
  else if (asInt (data "Number")).isNone then false
  else true

def dataChecker (data : DocumentChange) : Bool := checkFields data.document.data

/-- The record that the forced casts build from a document. -/
def sensorData (d : Document) : Except Trap SensorData := do
  let red ← forceCast (asString (d.data "Red"))
  let green ← forceCast (asString (d.data "Green"))
  let blue ← forceCast (asString (d.data "Blue"))
  let temperature ← forceCast (asString (d.data "Temperature"))
  let pressure ← forceCast (asString (d.data "Pressure"))
  let altitude ← forceCast (asString (d.data "Altitude"))
  let number ← forceCast (asInt (d.data "Number"))
  let date ← forceCast (asString (d.data "Date"))
  let unixTime ← forceCast (asString (d.data "UnixTime"))
  let time ← forceCast (asString (d.data "Time"))
  return { red, blue, green, altitude, temperature, pressure, number, date, time, unixTime,
           id := d.documentID }

/-- One round of the loop over `documentChanges`. -/
def parseChange (dataList : List SensorData) (change : DocumentChange) :
    Except Trap (List SensorData) :=
  if !dataChecker change then .ok dataList
  else do
    let newData ← sensorData change.document
    return dataList ++ [newData]

/-- The loop over `documentChanges`. -/
def appendChanges (dataList : List SensorData) (changes : List DocumentChange) :
    Except Trap (List SensorData) :=
  changes.foldlM parseChange dataList

/-! ### What a change contributes -/

theorem checkFields_iff {data : Fields} :
    checkFields data = true ↔
      (∀ a ∈ attributes, ∃ s, asString (data a) = some s) ∧
        ∃ n, asInt (data "Number") = some n := by
  rw [checkFields]
  split_ifs with hany hint
  · obtain ⟨a, ha, hnone⟩ := List.any_eq_true.1 hany
    simp only [false_iff, not_and]
    intro hall
    obtain ⟨s, hs⟩ := hall a ha
    simp [hs] at hnone
  · simp only [false_iff, not_and]
    rintro - ⟨n, hn⟩
    simp [hn] at hint
  · simp only [true_iff]
    refine ⟨fun a ha => ?_, Option.ne_none_iff_exists'.1 (by simpa using hint)⟩
    exact Option.ne_none_iff_exists'.1 fun h =>
      hany (List.any_eq_true.2 ⟨a, ha, by rw [h]; rfl⟩)

/-- The record of a document that passes the check. -/
def recordOf (d : Document) : SensorData where
  red := (asString (d.data "Red")).getD " "
  blue := (asString (d.data "Blue")).getD " "
  green := (asString (d.data "Green")).getD " "
  altitude := (asString (d.data "Altitude")).getD " "
  temperature := (asString (d.data "Temperature")).getD " "
  pressure := (asString (d.data "Pressure")).getD " "
  number := (asInt (d.data "Number")).getD 0
  date := (asString (d.data "Date")).getD " "
  time := (asString (d.data "Time")).getD " "
  unixTime := (asString (d.data "UnixTime")).getD " "
  id := d.documentID

@[simp] theorem recordOf_id (d : Document) : (recordOf d).id = d.documentID := rfl

/-- Every forced cast of a document that passes the check succeeds. -/
theorem sensorData_eq {d : Document} (h : checkFields d.data = true) :
    sensorData d = .ok (recordOf d) := by
  obtain ⟨hstr, n, hn⟩ := checkFields_iff.1 h
  obtain ⟨red, hred⟩ := hstr "Red" (by decide)
  obtain ⟨blue, hblue⟩ := hstr "Blue" (by decide)
  obtain ⟨green, hgreen⟩ := hstr "Green" (by decide)
  obtain ⟨temperature, htemperature⟩ := hstr "Temperature" (by decide)
  obtain ⟨pressure, hpressure⟩ := hstr "Pressure" (by decide)
  obtain ⟨altitude, haltitude⟩ := hstr "Altitude" (by decide)
  obtain ⟨date, hdate⟩ := hstr "Date" (by decide)
  obtain ⟨unixTime, hunixTime⟩ := hstr "UnixTime" (by decide)
  obtain ⟨time, htime⟩ := hstr "Time" (by decide)
  simp only [sensorData, recordOf, hred, hblue, hgreen, htemperature, hpressure, haltitude, hdate,
    hunixTime, htime, hn, forceCast_some, Option.getD_some]
  rfl

/-- The record a change contributes, if its document passes the check. -/
def recordOf? (c : DocumentChange) : Option SensorData :=
  if dataChecker c then some (recordOf c.document) else none

theorem mem_filterMap_recordOf? {changes : List DocumentChange} {r : SensorData} :
    r ∈ changes.filterMap recordOf? ↔
      ∃ c ∈ changes, dataChecker c = true ∧ recordOf c.document = r := by
  simp only [List.mem_filterMap, recordOf?, Option.ite_none_right_eq_some, Option.some.injEq]

theorem parseChange_eq (dataList : List SensorData) (c : DocumentChange) :
    parseChange dataList c = .ok (dataList ++ (recordOf? c).toList) := by
  rw [parseChange, recordOf?]
  cases h : dataChecker c with
  | false => simp
  | true =>
    rw [sensorData_eq h]
    rfl

/-- **The loop never fails**, and appends the contributions of the changes in order. -/
theorem appendChanges_eq (dataList : List SensorData) (changes : List DocumentChange) :
    appendChanges dataList changes = .ok (dataList ++ changes.filterMap recordOf?) := by
  induction changes generalizing dataList with
  | nil => simp [appendChanges, pure, Except.pure]
  | cons c changes ih =>
    rw [appendChanges, List.foldlM_cons, parseChange_eq]
    show appendChanges (dataList ++ (recordOf? c).toList) changes = _
    rw [ih]
    cases hc : recordOf? c <;> simp [hc]

/-! ### A document for examples -/

/-- Contents that pass the check; the attribute `a` has the value `value`. -/
def sampleFields (a value : String) : Fields := fun b =>
  if b = a then some (.string value)
  else if b ∈ attributes then some (.string "20.5")
  else if b = "Number" then some (.integer 1)
  else none

theorem checkFields_sampleFields {a : String} (ha : a ∈ attributes) (value : String) :
    checkFields (sampleFields a value) = true := by
  rw [checkFields_iff]
  refine ⟨fun b hb => ?_, 1, ?_⟩
  · by_cases h : b = a
    · exact ⟨value, by rw [sampleFields, if_pos h]; rfl⟩
    · exact ⟨"20.5", by rw [sampleFields, if_neg h, if_pos hb]; rfl⟩
  · have hne : "Number" ≠ a := by
      rintro rfl
      exact absurd ha (by decide)
    rw [sampleFields, if_neg hne]
    rfl

end SmartWeather
