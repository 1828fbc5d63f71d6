import SmartWeather.Sensor.Reading

/-!
# The main loop of the sensor program

One round switches the barometer from altimeter to barometer mode between two reads, builds the
dictionary, and stores it in the cloud or in a file, and in a second file.  A `Cycle` is everything
the outside decides in a round: what the devices hold, what the clocks say, how the network behaves,
and at which instant, if any, `KeyboardInterrupt` strikes (`reach`; an instant stands for the time
since the statement before it).  An interrupt before the loop ends the program without a round; it
is left out.

`Pi` is the state of the program and of everything it writes to.  It keeps the operations on the bus
of the barometer, in order.  `measure_run` and `store_run` say what the two halves of a round do.
-/

namespace SmartWeather

namespace Sensor

inductive Exn
  | connectionError
  | firestoreError
  | notFound
  | keyboardInterrupt
  | nameError
  deriving DecidableEq

/-! ### The barometer -/

/-- What the barometer measures at some moment: the contents of its output registers. -/
structure Contents where
  status : UInt8
  altitude : Vector UInt8 3
  pressure : Vector UInt8 3
  temperature : Vector UInt8 2

/-- The control register selects altimeter mode. -/
def altimeterMode (ctrl : UInt8) : Bool := ctrl &&& 0x80 != 0

/-- The six output registers: the mode selects what the registers `1` to `3` hold. -/
def outputs (ctrl : UInt8) (m : Contents) : Vector UInt8 6 :=
  let p := if altimeterMode ctrl then m.altitude else m.pressure
  #v[m.status, p[0], p[1], p[2], m.temperature[0], m.temperature[1]]

/-- An operation on the barometer. -/
inductive BusEvent
  | write (register value : UInt8)
  | readBlock (register : UInt8) (length : ℕ)
  deriving DecidableEq

/-! ### What the outside decides -/

/-- An instant at which the program can be interrupted. -/
inductive Point
  | readAltitude
  | writeBarometer
  | sleepBarometer
  | readPressure
  | readRgb
  | sleepRgb
  | printFailed
  | breakLoop
  | newData
  | checkNetwork
  | addDocument
  | openOffline
  | printOffline
  | openLog
  | printLog
  deriving DecidableEq

/-- What `requests.get` does. -/
inductive Check
  | ok
  | notOk
  | raises
  deriving DecidableEq

/-- What the Firestore `add` does. -/
inductive Add
  | succeeds
  | raises
  deriving DecidableEq

/-- What reading all documents does. -/
inductive Documents
  | listed
  | notFound
  | raises
  deriving DecidableEq

/-- The start of the program: the version that the colour sensor reports, and the network. -/
structure StartUp where
  ver : UInt8
  check : Check
  documents : Documents

/-- One round. -/
structure Cycle where
  /-- The barometer when the first and when the second block is read. -/
  first : Contents
  second : Contents
  rgb : Vector UInt8 32
  now : DateTime
  clock : ℚ
  check : Check
  add : Add
  interrupt : Option Point

/-- The interrupt lies on the path that the round takes with a colour sensor. -/
def Cycle.strikes (c : Cycle) : Bool :=
  match c.interrupt with
  | none => false
  | some .printFailed | some .breakLoop => false
  | some .addDocument => c.check = .ok
  | some .openOffline | some .printOffline => c.check = .notOk
  | some _ => true

/-! ### The state -/

structure OpenFile where
  name : String
  closed : Bool
  deriving DecidableEq

structure Pi where
  /-- The registers `0x26` and `0x13` of the barometer. -/
  ctrl : UInt8 := 0
  dataCfg : UInt8 := 0
  bus : List BusEvent := []
  rgbEnabled : Bool := false
  i : ℤ := 1
  /-- The collection, `sensorDataNoInternet.txt` and `sensorData.txt`. -/
  cloud : List Dict := []
  offline : List Dict := []
  log : List Dict := []
  /-- The variable `file`, once it is bound. -/
  file : Option OpenFile := none

abbrev Py := EStateM Exn Pi

def writeByteData (register value : UInt8) : Py Unit := modify fun s =>
  { s with
    ctrl := if register = 0x26 then value else s.ctrl
    dataCfg := if register = 0x13 then value else s.dataCfg
    bus := s.bus ++ [.write register value] }

/-- `read_i2c_block_data(0x60, 0x00, 6)`. -/
def readBlock6 (m : Contents) : Py (Vector UInt8 6) := do
  modify fun s => { s with bus := s.bus ++ [.readBlock 0x00 6] }
  return outputs (← get).ctrl m

/-- `read_i2c_block_data(0x60, 0x00, 4)`. -/
def readBlock4 (m : Contents) : Py (Vector UInt8 4) := do
  modify fun s => { s with bus := s.bus ++ [.readBlock 0x00 4] }
  return (outputs (← get).ctrl m).take 4

/-- `KeyboardInterrupt` strikes at this instant, or does not. -/
def reach (c : Cycle) (p : Point) : Py Unit :=
  if c.interrupt = some p then throw .keyboardInterrupt else pure ()

/-- `with open(name, 'a') as file:`. -/
def withOpen (name : String) (body : Py Unit) : Py Unit := do
  modify fun s => { s with file := some ⟨name, false⟩ }
  try body finally modify fun s => { s with file := some ⟨name, true⟩ }

/-! ### The program -/

/-- The set-up of the sensors. -/
def setUp (ver : UInt8) : Py Unit := do
  modify fun s => { s with rgbEnabled := false }
  if ver = 0x44 then modify fun s => { s with rgbEnabled := true }
  writeByteData 0x26 0xB9
  writeByteData 0x13 0x07
  writeByteData 0x26 0xB9

/-- `requests.get('https://google.com').ok`. -/
def checkNetwork : Check → Py Bool
  | .ok => return true
  | .notOk => return false
  | .raises => throw .connectionError

/-- `firHeroesCollectionRef.stream()`, and the loop over it. -/
def printDocuments : Documents → Py Unit
  | .listed => return
  | .notFound => throw .notFound
  | .raises => throw .firestoreError

/-- The documents are printed before the loop begins. -/
def listDocuments (u : StartUp) : Py Unit :=
  tryCatch
    (do if ← checkNetwork u.check then printDocuments u.documents)
    fun
      | .notFound => return
      | e => throw e

/-- The first half of a round: the sensors are read.  Without a colour sensor there is no result. -/
def measure (c : Cycle) : Py (Option Measurement) := do
  reach c .readAltitude
  let barometer6 ← readBlock6 c.first
  reach c .writeBarometer
  writeByteData 0x26 0x39
  reach c .sleepBarometer
  reach c .readPressure
  let barometer4 ← readBlock4 c.second
  if (← get).rgbEnabled then
    reach c .readRgb
    let rgb := c.rgb
    reach c .sleepRgb
    return some ⟨barometer6, barometer4, rgb, c.now, c.clock⟩
  else
    reach c .printFailed
    reach c .breakLoop
    return none

/-- `firHeroesCollectionRef.add(newData)`. -/
def addDocument (c : Cycle) (d : Dict) : Py Unit :=
  match c.add with
  | .succeeds => modify fun s => { s with cloud := s.cloud ++ [d] }
  | .raises => throw .firestoreError

/-- The reading goes to the cloud, or to the file for lost connections. -/
def publish (c : Cycle) (d : Dict) : Py Unit := do
  reach c .checkNetwork
  if ← checkNetwork c.check then
    reach c .addDocument
    addDocument c d
  else
    reach c .openOffline
    withOpen "sensorDataNoInternet.txt" do
      reach c .printOffline
      modify fun s => { s with offline := s.offline ++ [d] }

/-- The reading goes to the file for all data. -/
def writeLog (c : Cycle) (d : Dict) : Py Unit := do
  reach c .openLog
  withOpen "sensorData.txt" do
    reach c .printLog
    modify fun s => { s with log := s.log ++ [d] }

/-- The second half of a round. -/
def store (c : Cycle) (d : Dict) : Py Unit := do
  publish c d
  writeLog c d

/-- One round of the loop; whether the loop goes on. -/
def cycle (c : Cycle) : Py Bool := do
  match ← measure c with
  | none => return false
  | some m =>
    reach c .newData
    let d := newData (← get).i m
    store c d
    return true

/-- The loop, for as many rounds as there are. -/
def loop : List Cycle → Py Unit
  | [] => return
  | c :: cs => do
    if ← cycle c then loop cs
    else return

/-- `file.close()`. -/
def closeFile : Py Unit := do
  match (← get).file with
  | none => throw .nameError
  | some file => modify fun s => { s with file := some { file with closed := true } }

/-- The loop with its handler. -/
def main (cs : List Cycle) : Py Unit :=
  tryCatch (loop cs) fun
    | .keyboardInterrupt => closeFile
    | e => throw e

/-- The program. -/
def sensorPy (u : StartUp) (cs : List Cycle) : Py Unit := do
  setUp u.ver
  listDocuments u
  modify fun s => { s with i := 1 }
  main cs

/-! ### What the halves of a round do -/

/-- What the first half of a round measures, if the mode at its beginning is `ctrl`. -/
def measurement (ctrl : UInt8) (c : Cycle) : Measurement where
  barometer6 := outputs ctrl c.first
  barometer4 := (outputs 0x39 c.second).take 4
  rgb := c.rgb
  now := c.now
  clock := c.clock

/-- The operations of a round on the barometer. -/
def roundBus : List BusEvent := [.readBlock 0x00 6, .write 0x26 0x39, .readBlock 0x00 4]

/-- The state after the reads of a round. -/
def measured (s : Pi) : Pi := { s with ctrl := 0x39, bus := s.bus ++ roundBus }

theorem append_roundBus (bus : List BusEvent) : bus ++ roundBus =
    bus ++ [.readBlock 0x00 6] ++ [.write 0x26 0x39] ++ [.readBlock 0x00 4] := by
  simp [roundBus]

theorem append_roundBus_take (bus : List BusEvent) : bus ++ roundBus.take 2 =
    bus ++ [.readBlock 0x00 6] ++ [.write 0x26 0x39] := by
  simp [roundBus]

/-- The first half of a round, for every instant of an interrupt. -/
theorem measure_run (c : Cycle) (s : Pi) :
    (measure c).run s = match c.interrupt with
      | some .readAltitude => .error .keyboardInterrupt s
      | some .writeBarometer =>
          .error .keyboardInterrupt { s with bus := s.bus ++ roundBus.take 1 }
      | some .sleepBarometer | some .readPressure =>
          .error .keyboardInterrupt { s with ctrl := 0x39, bus := s.bus ++ roundBus.take 2 }
      | some .readRgb | some .sleepRgb =>
          if s.rgbEnabled then .error .keyboardInterrupt (measured s) else .ok none (measured s)
      | some .printFailed | some .breakLoop =>
          if s.rgbEnabled then .ok (some (measurement s.ctrl c)) (measured s)
          else .error .keyboardInterrupt (measured s)
      | _ =>
          if s.rgbEnabled then .ok (some (measurement s.ctrl c)) (measured s)
          else .ok none (measured s) := by
  obtain ⟨first, second, rgb, now, clock, check, add, interrupt⟩ := c
  obtain ⟨ctrl, dataCfg, bus, rgbEnabled, i, cloud, offline, log, file⟩ := s
  simp only [measured, append_roundBus, append_roundBus_take]
  cases rgbEnabled <;> rcases interrupt with _ | p
  case false.none | true.none => rfl
  all_goals cases p <;> rfl

/-- The state after a stored reading: it is in the cloud, or in the file for that, and logged. -/
def storedIn (toCloud : Bool) (d : Dict) (s : Pi) : Pi :=
  { s with
    cloud := if toCloud then s.cloud ++ [d] else s.cloud
    offline := if toCloud then s.offline else s.offline ++ [d]
    log := s.log ++ [d]
    file := some ⟨"sensorData.txt", true⟩ }

/-- The second half of a round without an interrupt. -/
theorem store_run {c : Cycle} (hi : c.interrupt = none) (d : Dict) (s : Pi) :
    (store c d).run s = match c.check, c.add with
      | .ok, .succeeds => .ok () (storedIn true d s)
      | .ok, .raises => .error .firestoreError s
      | .notOk, _ => .ok () (storedIn false d s)
      | .raises, _ => .error .connectionError s := by
  obtain ⟨first, second, rgb, now, clock, check, add, interrupt⟩ := c
  obtain rfl : interrupt = none := hi
  cases check <;> cases add <;> rfl

/-- An interrupt on a path that the round does not take makes no difference. -/
theorem cycle_of_not_strikes {c : Cycle} {s : Pi} (h : c.strikes = false)
    (hrgb : s.rgbEnabled = true) :
    (cycle c).run s = (cycle { c with interrupt := none }).run s := by
  obtain ⟨first, second, rgb, now, clock, check, add, interrupt⟩ := c
  obtain ⟨ctrl, dataCfg, bus, rgbEnabled, i, cloud, offline, log, file⟩ := s
  obtain rfl : rgbEnabled = true := hrgb
  rcases interrupt with _ | p
  · rfl
  · cases p with
    | printFailed | breakLoop => rfl
    | addDocument | openOffline | printOffline =>
      -- these instants lie on one of the two branches of `publish`
      cases check <;> first | rfl | exact absurd h (by simp [Cycle.strikes])
    | _ => cases h

/-- A round that an interrupt strikes does not go on to the next. -/
theorem cycle_of_strikes {c : Cycle} (h : c.strikes = true) (s t : Pi) :
    (cycle c).run s ≠ .ok true t := by
  obtain ⟨first, second, rgb, now, clock, check, add, interrupt⟩ := c
  obtain ⟨ctrl, dataCfg, bus, rgbEnabled, i, cloud, offline, log, file⟩ := s
  rcases interrupt with _ | p
  · cases h
  · cases rgbEnabled
    · cases p <;> nofun
    · cases p <;> cases check <;> cases add <;> simp only [Cycle.strikes, decide_eq_true_eq,
        reduceCtorEq] at h <;> nofun

end Sensor

end SmartWeather
