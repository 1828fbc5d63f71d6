import SmartWeather.Library.Binary
import SmartWeather.Library.Decimal
import SmartWeather.Library.Runs
import SmartWeather.Library.Sorting

/-!
# What the app relies on of Swift

* `Trap`: the run-time errors that stop the process, with the forced operations that raise them
  (`unwrap` for `!`, `forceCast` for `as!`, `element` for an array subscript, `intOf` for `Int(_:)`
  of a floating-point value, `subInt` for checked integer subtraction);
* `percentI` and `percentF`, the formats `%i` and `%f`;
* `parse`, the initialisers `Float(_: String)` and `Double(_: String)`: `nil` unless the whole text
  is a literal, otherwise the nearest value of the format;
* `StandardLibrary`: `sort(by:)` by its contract and the comparison of strings.  Swift compares
  strings by their normalised code units; normalisation is a parameter that leaves ASCII alone.

`Int` has 64 bits.
-/

namespace SmartWeather

open Binary Decimal

/-- A run-time error. -/
inductive Trap
  | nilUnwrapped
  | failedCast
  | notAnInt
  | overflow
  | outOfBounds
  deriving DecidableEq, Repr

/-- The postfix operator `!`. -/
def unwrap {α : Type} : Option α → Except Trap α
  | some a => .ok a
  | none => .error .nilUnwrapped

/-- The cast `as!`, given what `as?` yields. -/
def forceCast {α : Type} : Option α → Except Trap α
  | some a => .ok a
  | none => .error .failedCast

/-- The subscript `l[i]` of an array. -/
def element {α : Type} (l : List α) (i : ℕ) : Except Trap α :=
  match l[i]? with
  | some a => .ok a
  | none => .error .outOfBounds

@[simp] theorem unwrap_some {α : Type} (a : α) : unwrap (some a) = .ok a := rfl
@[simp] theorem forceCast_some {α : Type} (a : α) : forceCast (some a) = .ok a := rfl

theorem unwrap_eq_ok {α : Type} {o : Option α} {a : α} : unwrap o = .ok a ↔ o = some a := by
  cases o <;> simp [unwrap]

theorem element_eq_ok {α : Type} {l : List α} {i : ℕ} {a : α} :
    element l i = .ok a ↔ l[i]? = some a := by
  unfold element
  cases l[i]? <;> simp

abbrev SwiftFloat := Value binary32
abbrev SwiftDouble := Value binary64

/-- `Int(x)` of a floating-point value. -/
def intOf {f : Format} (x : Value f) : Except Trap ℤ :=
  match x.toInt 64 with
  | some n => .ok n
  | none => .error .notAnInt

theorem intOf_eq_ok {f : Format} {x : Value f} {n : ℤ} : intOf x = .ok n ↔ x.toInt 64 = some n := by
  unfold intOf
  cases x.toInt 64 <;> simp

/-- `a - b` on `Int`. -/
def subInt (a b : ℤ) : Except Trap ℤ :=
  if -2 ^ 63 ≤ a - b ∧ a - b < 2 ^ 63 then .ok (a - b) else .error .overflow

/-- `String(format: "%i", n)`, which prints the low 32 bits as a signed number. -/
def percentI (n : ℤ) : String := toString (Int.bmod n (2 ^ 32))

/-- `String(format: "%f", x)`: six decimals. -/
def percentF : SwiftDouble → String
  | .nan => "nan"
  | .inf neg => if neg then "-inf" else "inf"
  | .finite q _ =>
      let digits := render 6 (Rounding.halfEven (|q| * 10 ^ 6)).toNat
      String.ofList (if q < 0 then '-' :: digits else digits)

/-! ### Reading numbers -/

/-- The payload of `nan(…)`, closing bracket included. -/
def nanPayload (cs : List Char) : Bool :=
  match cs.reverse with
  | ')' :: cs => cs.all fun c => c.isAlphanum || c == '_'
  | _ => false

/-- A literal without sign, as `strtof` and `strtod` read it. -/
def parseMagnitude (f : Format) (neg : Bool) (cs : List Char) : Option (Value f) :=
  let number (q : ℚ) : Value f := nearest f (if neg then -q else q)
  match cs with
  | '0' :: 'x' :: hex => (literal 16 'p' 2 hex).map number
  | '0' :: 'X' :: hex => (literal 16 'p' 2 hex).map number
  | cs =>
    let low := cs.map Char.toLower
    if low = ['i', 'n', 'f'] ∨ low = ['i', 'n', 'f', 'i', 'n', 'i', 't', 'y'] then some (.inf neg)
    else if low = ['n', 'a', 'n'] then some .nan
    else match low with
      | 'n' :: 'a' :: 'n' :: '(' :: payload => if nanPayload payload then some .nan else none
      | _ => (literal 10 'e' 10 cs).map number

/-- `Float(text)` and `Double(text)`. -/
def parse (f : Format) (text : String) : Option (Value f) :=
  match text.toList with
  | '-' :: cs => parseMagnitude f true cs
  | '+' :: cs => parseMagnitude f false cs
  | cs => parseMagnitude f false cs

/-- A character that plain decimal notation uses. -/
def Plain (c : Char) : Prop := c = '.' ∨ ∃ d < 10, c = d.digitChar

theorem plain_of_mem_render {d n : ℕ} {c : Char} (h : c ∈ render d n) : Plain c := by
  rw [render, List.mem_append, List.mem_cons] at h
  rcases h with h | h | h
  · exact Or.inr (exists_digitChar (all_isDigitIn_toDigits _ c h))
  · exact Or.inl h
  · exact Or.inr (exists_digitChar (all_isDigitIn_fixed d n c h))

/-- Plain notation uses none of the letters and signs that `parse` treats specially. -/
theorem Plain.ne {c : Char} (h : Plain c) : c ≠ '-' ∧ c ≠ '+' ∧ c ≠ 'x' ∧ c ≠ 'X' ∧
    c.toLower ≠ 'i' ∧ c.toLower ≠ 'n' := by
  rcases h with rfl | ⟨d, hd, rfl⟩
  · decide
  · interval_cases d <;> decide

/-- A text in plain notation is read as a decimal literal. -/
theorem parse_of_plain {f : Format} {cs : List Char} (hne : cs ≠ []) (hcs : ∀ c ∈ cs, Plain c) :
    parse f (String.ofList cs) = (literal 10 'e' 10 cs).map (nearest f) := by
  obtain ⟨c, cs, rfl⟩ := List.exists_cons_of_ne_nil hne
  obtain ⟨hminus, hplus, -, -, hi, hn⟩ := (hcs c List.mem_cons_self).ne
  have hsign : parse f (String.ofList (c :: cs)) = parseMagnitude f false (c :: cs) := by
    simp only [parse, String.toList_ofList]
    split
    · next h => exact absurd (List.cons.inj h).1 hminus
    · next h => exact absurd (List.cons.inj h).1 hplus
    · rfl
  rw [hsign]
  -- the hexadecimal beginnings and the letters of `inf` and `nan` are not plain
  simp only [parseMagnitude, Bool.false_eq_true, if_false]
  split
  · next h =>
    have hx := (hcs 'x' (by rw [h]; simp)).ne
    exact absurd rfl hx.2.2.1
  · next h =>
    have hx := (hcs 'X' (by rw [h]; simp)).ne
    exact absurd rfl hx.2.2.2.1
  · simp only [List.map_cons, List.cons.injEq, hi, hn, false_and, or_self, if_false]
    split
    · next h => exact absurd (List.cons.inj h).1 hn
    · rfl

/-- **Written and read back.**  A number with at most `17` decimals, written in plain notation, is
read as the nearest value of the format. -/
theorem parse_shortest {f : Format} {q : ℚ} {m : ℤ} {k : ℕ} (h0 : 0 ≤ q) (hk : k < 17)
    (hq : q = m / 10 ^ (k + 1)) :
    parse f (String.ofList (shortest q)) = some (nearest f q) := by
  obtain ⟨d, n, hqn, hs⟩ := shortest_of_nonneg h0 hk hq
  have hne : render d n ≠ [] := by simp [render]
  rw [hs, parse_of_plain hne fun c hc => plain_of_mem_render hc, literal_render, ← hqn]
  rfl

/-! ### The standard library -/

/-- The parts of the standard library that the app calls and that its documentation fixes only up
to a contract. -/
structure StandardLibrary where
  /-- `sort(by:)`. -/
  sorting : Sorting.Algorithm
  /-- The normalised code units by which strings are compared. -/
  codeUnits : String → List ℕ
  codeUnits_ascii : ∀ s : String, (∀ c ∈ s.toList, c.toNat < 128) →
    codeUnits s = s.toList.map Char.toNat

namespace StandardLibrary

/-- `s == t` on strings. -/
def stringEq (lib : StandardLibrary) (s t : String) : Prop := lib.codeUnits s = lib.codeUnits t

/-- `s > t` on strings. -/
def stringGt (lib : StandardLibrary) (s t : String) : Bool :=
  Sorting.descending lib.codeUnits s t

/-- A library that sorts by insertion and compares strings by their code points. -/
def reference : StandardLibrary where
  sorting := Sorting.insertion
  codeUnits s := s.toList.map Char.toNat
  codeUnits_ascii _ _ := rfl

/-- Renderings of numbers are compared by their digits. -/
theorem codeUnits_toString (lib : StandardLibrary) (n : ℕ) :
    lib.codeUnits (toString n) = units n := by
  have hlist : (toString n).toList = Nat.toDigits 10 n := by simp
  rw [lib.codeUnits_ascii, hlist, units]
  intro c hc
  rw [hlist] at hc
  obtain ⟨d, hd, rfl⟩ := exists_digitChar (all_isDigitIn_toDigits n c hc)
  have := toNat_digitChar hd
  omega

end StandardLibrary

end SmartWeather
