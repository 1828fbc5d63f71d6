import SmartWeather.Screens.ColorScreen

/-!
# The history screen

A table with one row for each record, newest first.  The rows are laid out when the table asks for
them (`cellForRowAt`), after the list has been stored.
-/

namespace SmartWeather

open Binary Runs

/-- A row of the table. -/
structure Cell where
  backgroundColor : UIColor
  textLabel : String
  detailTextLabel : String

structure HistoryScreen where
  sensorDataList : List SensorData := []

namespace HistoryScreen

def onDataListChange (lib : StandardLibrary) (dataList : List SensorData) (h : HistoryScreen) :
    Except Trap HistoryScreen :=
  .ok { h with sensorDataList := newestFirst lib dataList }

def numberOfRowsInSection (h : HistoryScreen) : ℕ := h.sensorDataList.length

def cellForRowAt (row : ℕ) (h : HistoryScreen) : Except Trap Cell := do
  let data ← element h.sensorDataList row
  let backgroundColor ← recordColor data 0.7
  return { backgroundColor, textLabel := "Date " ++ data.date,
           detailTextLabel := "Time: " ++ data.time }

/-- A row the table has can be laid out exactly if the colour of its record can be converted. -/
theorem cellForRowAt_eq_ok_iff {h : HistoryScreen} {row : ℕ} {r : SensorData}
    (hr : h.sensorDataList[row]? = some r) :
    (∃ cell, h.cellForRowAt row = .ok cell) ↔ Colored r := by
  rw [← recordColor_eq_ok_iff 0.7, cellForRowAt]
  constructor
  · rintro ⟨cell, hcell⟩
    obtain ⟨data, hdata, hcell⟩ := bind_eq_ok.1 hcell
    obtain ⟨col, hcol, -⟩ := bind_eq_ok.1 hcell
    rw [element_eq_ok, hr] at hdata
    cases hdata
    exact ⟨col, hcol⟩
  · rintro ⟨col, hcol⟩
    exact ⟨_, bind_eq_ok.2 ⟨r, element_eq_ok.2 hr, bind_eq_ok.2 ⟨col, hcol, rfl⟩⟩⟩

end HistoryScreen

end SmartWeather
