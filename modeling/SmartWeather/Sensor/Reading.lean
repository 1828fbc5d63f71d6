import SmartWeather.Library.Decimal
import SmartWeather.Library.Rounding

/-!
# What one round of the sensor program publishes

The program reads a block of six bytes and one of four from the barometer and a block from the
colour sensor, decodes them, and publishes a dictionary of ten entries.  Its arithmetic is taken as
exact; `round(x, 2)` is half-even rounding to two places, and `str` of a float is its plain notation
with as few digits as needed.  (`fTemp` and `clear` are computed and not used; they are left out.)
-/

namespace SmartWeather

open Decimal Rounding

namespace Sensor

/-! ### Decoding -/

/-- `((msb * 65536) + (csb * 256) + (lsb & 0xF0)) / 16`. -/
def twentyBits (msb csb lsb : UInt8) : ℚ :=
  ((msb.toNat * 65536 + csb.toNat * 256 + (lsb &&& 0xF0).toNat : ℕ) : ℚ) / 16

def tHeight (data : Vector UInt8 6) : ℚ := twentyBits data[1] data[2] data[3]

def temp (data : Vector UInt8 6) : ℚ :=
  ((data[4].toNat * 256 + (data[5] &&& 0xF0).toNat : ℕ) : ℚ) / 16

def altitude (data : Vector UInt8 6) : ℚ := tHeight data / 2048 * 0.3

def cTemp (data : Vector UInt8 6) : ℚ := temp data / 16

def pres (data : Vector UInt8 4) : ℚ := twentyBits data[1] data[2] data[3]

def pressure (data : Vector UInt8 4) : ℚ := pres data / 4 / 1000

/-- `((high << 8) | low)`. -/
def word (high low : UInt8) : ℕ := high.toNat <<< 8 ||| low.toNat

def red (data : Vector UInt8 32) : ℚ := word data[3] data[2] / 256

def green (data : Vector UInt8 32) : ℚ := word data[5] data[4] / 256

def blue (data : Vector UInt8 32) : ℚ := word data[7] data[6] / 256

/-! ### Date and time -/

structure DateTime where
  year : ℕ
  month : ℕ
  day : ℕ
  hour : ℕ
  minute : ℕ
  second : ℕ
  microsecond : ℕ
  year_lt : year < 10000
  month_le : month ≤ 12
  day_le : day ≤ 31
  hour_lt : hour < 24
  minute_lt : minute < 60
  second_lt : second < 60
  microsecond_lt : microsecond < 1000000

/-- Some day, without microseconds. -/
def sampleTime : DateTime :=
  ⟨2019, 11, 5, 10, 30, 0, 0, by decide, by decide, by decide, by decide, by decide, by decide,
    by decide⟩

/-- `isoformat()`: the microseconds are left out if they are zero. -/
def DateTime.isoformat (t : DateTime) : List Char :=
  fixed 4 t.year ++ '-' :: fixed 2 t.month ++ '-' :: fixed 2 t.day ++ 'T' :: fixed 2 t.hour ++
    ':' :: fixed 2 t.minute ++ ':' :: fixed 2 t.second ++
    if t.microsecond = 0 then [] else '.' :: fixed 6 t.microsecond

/-- `isoformat()[0:10]`. -/
def presentDate (now : DateTime) : String := String.ofList (now.isoformat.take 10)

/-- `isoformat()[11:19]`. -/
def presentTime (now : DateTime) : String := String.ofList ((now.isoformat.drop 11).take 8)

/-- The slices are the date and the time to the second, whether there are microseconds or not. -/
theorem present_eq (now : DateTime) :
    presentDate now =
        String.ofList (fixed 4 now.year ++ '-' :: fixed 2 now.month ++ '-' :: fixed 2 now.day) ∧
      presentTime now =
        String.ofList (fixed 2 now.hour ++ ':' :: fixed 2 now.minute ++
          ':' :: fixed 2 now.second) := by
  constructor <;> rfl

/-! ### The dictionary -/

/-- A value of the dictionary. -/
inductive PyValue
  | int (n : ℤ)
  | str (s : String)
  deriving DecidableEq

/-- A dictionary, in the order in which it is written. -/
abbrev Dict := List (String × PyValue)

/-- `str(x)` of a float. -/
def pyStr (x : ℚ) : String := String.ofList (shortest x)

/-- `str(int(time.time()))`. -/
def unixTime (clock : ℚ) : String := toString (toward0 clock)

/-- What one round has measured. -/
structure Measurement where
  barometer6 : Vector UInt8 6
  barometer4 : Vector UInt8 4
  rgb : Vector UInt8 32
  now : DateTime
  clock : ℚ

def newData (i : ℤ) (m : Measurement) : Dict :=
  [("Number", .int i),
   ("Green", .str (pyStr (green m.rgb))),
   ("Blue", .str (pyStr (blue m.rgb))),
   ("Red", .str (pyStr (red m.rgb))),
   ("Pressure", .str (pyStr (toPlaces 2 (pressure m.barometer4)))),
   ("Altitude", .str (pyStr (toPlaces 2 (altitude m.barometer6)))),
   ("Temperature", .str (pyStr (toPlaces 2 (cTemp m.barometer6)))),
   ("UnixTime", .str (unixTime m.clock)),
   ("Date", .str (presentDate m.now)),
   ("Time", .str (presentTime m.now))]

/-! ### Bounds -/

theorem and_F0_le (b : UInt8) : (b &&& 0xF0).toNat ≤ 240 := by
  rw [UInt8.toNat_and]
  exact Nat.and_le_right

theorem twentyBits_nonneg (msb csb lsb : UInt8) : 0 ≤ twentyBits msb csb lsb := by
  unfold twentyBits
  positivity

theorem twentyBits_lt (msb csb lsb : UInt8) : twentyBits msb csb lsb < 2 ^ 20 := by
  have h1 := msb.toNat_lt
  have h2 := csb.toNat_lt
  have h3 := and_F0_le lsb
  have h : msb.toNat * 65536 + csb.toNat * 256 + (lsb &&& 0xF0).toNat < 2 ^ 24 := by omega
  unfold twentyBits
  rw [div_lt_iff₀ (by norm_num)]
  calc ((msb.toNat * 65536 + csb.toNat * 256 + (lsb &&& 0xF0).toNat : ℕ) : ℚ)
      < ((2 ^ 24 : ℕ) : ℚ) := by exact_mod_cast h
    _ = 2 ^ 20 * 16 := by norm_num

theorem altitude_bounds (data : Vector UInt8 6) : 0 ≤ altitude data ∧ altitude data < 154 := by
  have h0 := twentyBits_nonneg data[1] data[2] data[3]
  have h1 := twentyBits_lt data[1] data[2] data[3]
  unfold altitude tHeight
  constructor
  · positivity
  · linarith

theorem pressure_bounds (data : Vector UInt8 4) : 0 ≤ pressure data ∧ pressure data < 263 := by
  have h0 := twentyBits_nonneg data[1] data[2] data[3]
  have h1 := twentyBits_lt data[1] data[2] data[3]
  unfold pressure pres
  constructor
  · positivity
  · linarith

theorem cTemp_bounds (data : Vector UInt8 6) : 0 ≤ cTemp data ∧ cTemp data ≤ 4095 / 16 := by
  have h1 := data[4].toNat_lt
  have h2 := and_F0_le data[5]
  have h : data[4].toNat * 256 + (data[5] &&& 0xF0).toNat ≤ 65520 := by omega
  have h' : ((data[4].toNat * 256 + (data[5] &&& 0xF0).toNat : ℕ) : ℚ) ≤ ((65520 : ℕ) : ℚ) := by
    exact_mod_cast h
  unfold cTemp temp
  constructor
  · positivity
  · push_cast at h' ⊢
    linarith

/-! ### Words -/

/-- A word of sixteen bits, the higher byte first. -/
def sixteenBits (high low : UInt8) : ℕ := high.toNat * 256 + low.toNat

/-- The word of red in the block of the colour sensor. -/
def redWord (data : Vector UInt8 32) : ℕ := sixteenBits data[3] data[2]

def greenWord (data : Vector UInt8 32) : ℕ := sixteenBits data[5] data[4]

def blueWord (data : Vector UInt8 32) : ℕ := sixteenBits data[7] data[6]

theorem word_eq (high low : UInt8) : word high low = sixteenBits high low := by
  have hlow := low.toNat_lt
  rw [word, sixteenBits, Nat.shiftLeft_eq, mul_comm, Nat.two_pow_add_eq_or_of_lt hlow, mul_comm]

theorem word_lt (high low : UInt8) : word high low < 2 ^ 16 := by
  have h1 := high.toNat_lt
  have h2 := low.toNat_lt
  rw [word_eq, sixteenBits]
  omega

end Sensor

end SmartWeather
