import SmartWeather.Library.Effects
import SmartWeather.Library.Runs
import SmartWeather.Sensor.MainLoop

/-!
# Which outages lose a reading

An exception of `requests.get` or of `add` leaves the loop before the reading is written anywhere:
only `KeyboardInterrupt` has a handler.  `readingsKept_iff`: in a run without interrupts every
reading is stored in exactly one of the two places and logged once, and the loop goes on, exactly if
no check raises and no `add` raises after a check that is ok.  `loop_of_run` relates the steps that
this is about to the loop.
-/

namespace SmartWeather

open Runs Effects

namespace Sensor

/-! ### One round -/

/-- The dictionary that a round builds. -/
def reading (s : Pi) (c : Cycle) : Dict := newData s.i (measurement s.ctrl c)

/-- The network lets the round store its reading. -/
def Stores (c : Cycle) : Prop := c.check ≠ .raises ∧ (c.check = .ok → c.add = .succeeds)

instance (c : Cycle) : Decidable (Stores c) := by unfold Stores; infer_instance

variable {c : Cycle} {cs : List Cycle} {s t : Pi}

/-- A round without an interrupt. -/
theorem cycle_run (hi : c.interrupt = none) (hrgb : s.rgbEnabled = true) :
    (cycle c).run s = match c.check, c.add with
      | .ok, .succeeds => .ok true (storedIn true (reading s c) (measured s))
      | .ok, .raises => .error .firestoreError (measured s)
      | .notOk, _ => .ok true (storedIn false (reading s c) (measured s))
      | .raises, _ => .error .connectionError (measured s) := by
  have hm := measure_run c s
  simp only [hi, hrgb, if_true] at hm
  have hs := store_run hi (reading s c) (measured s)
  have hread : newData (measured s).i (measurement s.ctrl c) = reading s c := rfl
  rw [cycle, run_bind_ok hm]
  simp only [reach, hi, reduceCtorEq, if_false, pure_bind, EStateM.run_bind, EStateM.run_get]
  rw [hread, hs]
  cases c.check <;> cases c.add <;> rfl

theorem cycle_of_stores (hi : c.interrupt = none) (hrgb : s.rgbEnabled = true) (hc : Stores c) :
    ∃ b, (cycle c).run s = .ok true (storedIn b (reading s c) (measured s)) := by
  have hrun := cycle_run hi hrgb
  obtain ⟨hcheck, hadd⟩ := hc
  cases hk : c.check with
  | ok =>
    rw [hk, hadd hk] at hrun
    exact ⟨true, hrun⟩
  | notOk =>
    rw [hk] at hrun
    exact ⟨false, hrun⟩
  | raises => exact absurd hk hcheck

theorem stores_of_cycle (hi : c.interrupt = none) (hrgb : s.rgbEnabled = true)
    (h : (cycle c).run s = .ok true t) : Stores c := by
  rw [cycle_run hi hrgb] at h
  cases hk : c.check <;> cases ha : c.add <;> simp [Stores, hk, ha] at h ⊢

/-- No interrupt strikes the round, and its reading is stored. -/
def Completes (c : Cycle) : Prop := c.strikes = false ∧ Stores c

instance (c : Cycle) : Decidable (Completes c) := by unfold Completes; infer_instance

theorem cycle_of_completes (hc : Completes c) (hrgb : s.rgbEnabled = true) :
    ∃ b, (cycle c).run s = .ok true (storedIn b (reading s c) (measured s)) := by
  rw [cycle_of_not_strikes hc.1 hrgb]
  exact cycle_of_stores (c := { c with interrupt := none }) rfl hrgb hc.2

theorem completes_of_cycle (hrgb : s.rgbEnabled = true) (h : (cycle c).run s = .ok true t) :
    Completes c := by
  cases hi : c.strikes with
  | true => exact absurd h (cycle_of_strikes hi s t)
  | false =>
    rw [cycle_of_not_strikes hi hrgb] at h
    exact ⟨hi, stores_of_cycle (c := { c with interrupt := none }) rfl hrgb h⟩

/-! ### The steps of the loop -/

/-- One round, if the loop goes on after it. -/
def step (s : Pi) (c : Cycle) : Except (Option Exn) Pi :=
  match (cycle c).run s with
  | .ok true s' => .ok s'
  | .ok false _ => .error none
  | .error e _ => .error (some e)

theorem step_eq_ok : step s c = .ok t ↔ (cycle c).run s = .ok true t := by
  unfold step
  split <;> simp_all

/-- The loop after a round that goes on. -/
theorem loop_cons (h : (cycle c).run s = .ok true t) :
    (loop (c :: cs)).run s = (loop cs).run t := by
  rw [loop, run_bind_ok h]
  rfl

/-- The loop goes through its steps. -/
theorem loop_of_run {ds : List Cycle} (h : run step s ds = .ok t) :
    (loop (ds ++ cs)).run s = (loop cs).run t := by
  induction ds generalizing s with
  | nil => cases h; rfl
  | cons d ds ih =>
    obtain ⟨s', hs, hrest⟩ := run_cons_eq_ok h
    rw [List.cons_append, loop_cons (step_eq_ok.1 hs), ih hrest]

/-! ### The readings -/

/-- The reading of the round is logged once and stored in exactly one of the two places, and the
loop goes on. -/
def ReadingKept (s : Pi) (c : Cycle) : Prop :=
  ∃ s', (cycle c).run s = .ok true s' ∧ s'.log = s.log ++ [reading s c] ∧
    (s'.cloud = s.cloud ++ [reading s c] ∧ s'.offline = s.offline ∨
      s'.cloud = s.cloud ∧ s'.offline = s.offline ++ [reading s c])

theorem readingKept_iff (hi : c.interrupt = none) (hrgb : s.rgbEnabled = true) :
    ReadingKept s c ↔ Stores c := by
  constructor
  · rintro ⟨t, hrun, -⟩
    exact stores_of_cycle hi hrgb hrun
  · intro hc
    obtain ⟨b, hrun⟩ := cycle_of_stores hi hrgb hc
    refine ⟨_, hrun, rfl, ?_⟩
    cases b
    · exact Or.inr ⟨rfl, rfl⟩
    · exact Or.inl ⟨rfl, rfl⟩

/-- **Which outages lose no reading.**  In every run without interrupts, from any state in which the
colour sensor works. -/
theorem readingsKept_iff (hrgb : s.rgbEnabled = true) (hi : ∀ c ∈ cs, c.interrupt = none) :
    Along step ReadingKept s cs ↔ ∀ c ∈ cs, Stores c := by
  induction cs generalizing s with
  | nil => exact iff_of_true trivial fun _ hc => absurd hc List.not_mem_nil
  | cons c cs ih =>
    have hic := hi c List.mem_cons_self
    rw [Along, readingKept_iff hic hrgb, List.forall_mem_cons]
    refine and_congr_right fun hc => ?_
    obtain ⟨b, hrun⟩ := cycle_of_stores hic hrgb hc
    have hnext : Along step ReadingKept (storedIn b (reading s c) (measured s)) cs ↔ _ :=
      ih hrgb fun c hc => hi c (List.mem_cons_of_mem _ hc)
    rw [← hnext]
    -- the step from `s` is the only one
    constructor
    · exact fun h => h _ (step_eq_ok.2 hrun)
    · intro h t ht
      rw [step_eq_ok.2 hrun] at ht
      cases ht
      exact h

/-- A round in which nothing special is measured. -/
def sampleCycle (check : Check) (add : Add) : Cycle where
  first := ⟨0, #v[0x0A, 0xAA, 0xA0], #v[0x60, 0x00, 0x00], #v[0x14, 0x00]⟩
  second := ⟨0, #v[0x0A, 0xAA, 0xA0], #v[0x60, 0x00, 0x00], #v[0x14, 0x00]⟩
  rgb := Vector.replicate 32 0
  now := sampleTime
  clock := 1572949800
  check := check
  add := add
  interrupt := none

/-- The network answers, and then answers with an error. -/
theorem readingsKept_iff_errorReply :
    Along step ReadingKept { rgbEnabled := true }
      [sampleCycle .ok .succeeds, sampleCycle .notOk .raises] :=
  (readingsKept_iff rfl (by decide)).2 (by decide)

/-- The network is gone: the reading is stored nowhere, and the program ends. -/
theorem noNetwork_losesReading :
    (loop [sampleCycle .raises .raises, sampleCycle .ok .succeeds]).run { rgbEnabled := true } =
        .error .connectionError (measured { rgbEnabled := true }) ∧
      ¬ Along step ReadingKept { rgbEnabled := true }
        [sampleCycle .raises .raises, sampleCycle .ok .succeeds] := by
  constructor
  · have hrun : (cycle (sampleCycle .raises .raises)).run { rgbEnabled := true } =
        .error .connectionError (measured { rgbEnabled := true }) := cycle_run rfl rfl
    rw [loop, run_bind_error hrun]
  · intro h
    have hstores := (readingKept_iff rfl rfl).1 h.1
    exact absurd hstores (by decide)

end Sensor

end SmartWeather
