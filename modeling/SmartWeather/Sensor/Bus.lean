import SmartWeather.Sensor.Outages

/-!
# What the program does on the bus of the barometer

The set-up puts the barometer in altimeter mode, a round puts it in barometer mode between its two
reads, and nothing puts it back.  So the bus keeps to the modes that the blocks are decoded for up
to the second read of the altitude, and not beyond.

* `ReadsInMode`: the blocks are read in the modes they are decoded for;
* `measure_bus`, `cycle_bus`, `loop_busGrows`: what the parts of the program add to the bus;
* `bus_of_secondRead`, `bus_of_not_secondRead`: the bus after a run of the program.
-/

namespace SmartWeather

open Effects

namespace Sensor

/-! ### The protocol -/

/-- The last value written to the control register. -/
def control (bus : List BusEvent) : Option UInt8 :=
  bus.foldl (fun v e => match e with | .write 0x26 w => some w | _ => v) none

/-- The mode that the barometer was last put in: altimeter mode, or barometer mode (`false`). -/
def mode (bus : List BusEvent) : Option Bool := (control bus).map altimeterMode

/-- The block for the altitude is read in altimeter mode, the one for the pressure in barometer
mode. -/
def ReadsInMode (bus : List BusEvent) : Prop :=
  ∀ n, (bus[n]? = some (.readBlock 0x00 6) → mode (bus.take n) = some true) ∧
    (bus[n]? = some (.readBlock 0x00 4) → mode (bus.take n) = some false)

theorem ReadsInMode.of_initial {bus bus' : List BusEvent} (h : ReadsInMode bus)
    (hb : bus' <+: bus) : ReadsInMode bus' := by
  obtain ⟨rest, rfl⟩ := hb
  intro n
  by_cases hn : n < bus'.length
  · have hbus := h n
    rwa [List.getElem?_append_left hn, List.take_append_of_le_length hn.le] at hbus
  · rw [List.getElem?_eq_none (not_lt.1 hn)]
    exact ⟨nofun, nofun⟩

/-- What the set-up writes. -/
def setUpBus : List BusEvent := [.write 0x26 0xB9, .write 0x13 0x07, .write 0x26 0xB9]

theorem readsInMode_firstRound : ReadsInMode (setUpBus ++ roundBus) := by
  have hlt : ∀ n < 6, ((setUpBus ++ roundBus)[n]? = some (.readBlock 0x00 6) →
        mode ((setUpBus ++ roundBus).take n) = some true) ∧
      ((setUpBus ++ roundBus)[n]? = some (.readBlock 0x00 4) →
        mode ((setUpBus ++ roundBus).take n) = some false) := by decide
  intro n
  by_cases hn : n < 6
  · exact hlt n hn
  · rw [List.getElem?_eq_none (not_lt.1 hn)]
    exact ⟨nofun, nofun⟩

theorem not_readsInMode_secondRead :
    ¬ ReadsInMode (setUpBus ++ roundBus ++ [.readBlock 0x00 6]) := by
  intro h
  have hmode : mode (setUpBus ++ roundBus) = some true := (h 6).1 rfl
  exact absurd hmode (by decide)

/-! ### The bus -/

/-- Nothing happens on the bus. -/
def SameBus (s t : Pi) : Prop := t.bus = s.bus

instance : IsPreorder Pi SameBus where
  refl _ := rfl
  trans _ _ _ h h' := h'.trans h

/-- The bus goes on. -/
def BusGrows (s t : Pi) : Prop := s.bus <+: t.bus

instance : IsPreorder Pi BusGrows where
  refl _ := List.prefix_refl _
  trans _ _ _ h h' := h.trans h'

variable {c c' : Cycle} {cs cs' : List Cycle} {s t : Pi} {u : StartUp}

theorem reach_sameBus (c : Cycle) (p : Point) : Leads SameBus (reach c p) := by
  unfold reach
  split
  · exact Leads.throw _
  · exact Leads.pure _

theorem checkNetwork_sameBus (k : Check) : Leads SameBus (checkNetwork k) := by
  cases k
  · exact Leads.pure _
  · exact Leads.pure _
  · exact Leads.throw _

theorem addDocument_sameBus (c : Cycle) (d : Dict) : Leads SameBus (addDocument c d) := by
  unfold addDocument
  split
  · exact Leads.update fun _ => rfl
  · exact Leads.throw _

theorem withOpen_sameBus (name : String) {body : Py Unit} (h : Leads SameBus body) :
    Leads SameBus (withOpen name body) := by
  refine Leads.bind (Leads.update fun _ => ?_) fun _ => h.finally fun _ => ?_ <;> exact rfl

theorem publish_sameBus (c : Cycle) (d : Dict) : Leads SameBus (publish c d) := by
  refine (reach_sameBus c _).bind fun _ => (checkNetwork_sameBus _).bind fun b => ?_
  split
  · exact (reach_sameBus c _).bind fun _ => addDocument_sameBus c d
  · refine (reach_sameBus c _).bind fun _ => withOpen_sameBus _ ?_
    exact (reach_sameBus c _).bind fun _ => Leads.update fun _ => rfl

theorem writeLog_sameBus (c : Cycle) (d : Dict) : Leads SameBus (writeLog c d) := by
  refine (reach_sameBus c _).bind fun _ => withOpen_sameBus _ ?_
  exact (reach_sameBus c _).bind fun _ => Leads.update fun _ => rfl

theorem store_sameBus (c : Cycle) (d : Dict) : Leads SameBus (store c d) :=
  (publish_sameBus c d).bind fun _ => writeLog_sameBus c d

theorem closeFile_sameBus : Leads SameBus closeFile := by
  refine Leads.get.bind fun s => ?_
  split
  · exact Leads.throw _
  · exact Leads.update fun _ => rfl

/-- How far the first half of a round comes on the bus. -/
theorem measure_bus (c : Cycle) (s : Pi) : ∃ k, (c.interrupt ≠ some .readAltitude → 1 ≤ k) ∧
    (final (measure c) s).bus = s.bus ++ roundBus.take k := by
  rw [final, measure_run]
  split
  case h_1 hi => exact ⟨0, fun h => absurd hi h, (List.append_nil _).symm⟩
  case h_2 => exact ⟨1, fun _ => le_rfl, rfl⟩
  case h_3 | h_4 => exact ⟨2, fun _ => one_le_two, rfl⟩
  all_goals
    refine ⟨3, fun _ => by norm_num, ?_⟩
    split <;> rfl

/-- How far a round comes on the bus. -/
theorem cycle_bus (c : Cycle) (s : Pi) : ∃ k, (c.interrupt ≠ some .readAltitude → 1 ≤ k) ∧
    (final (cycle c) s).bus = s.bus ++ roundBus.take k := by
  obtain ⟨k, hk, hbus⟩ := measure_bus c s
  refine ⟨k, hk, ?_⟩
  cases hm : (measure c).run s with
  | error e s' =>
    rw [cycle, final_bind_error hm, ← hbus, final_of_error hm]
  | ok o s' =>
    rw [cycle, final_bind_ok hm, ← hbus, final_of_ok hm]
    cases o with
    | none => rfl
    | some m =>
      have hrest : Leads SameBus (do
          reach c .newData
          store c (newData (← get).i m)
          return true : Py Bool) :=
        (reach_sameBus c _).bind fun _ => Leads.get.bind fun _ =>
          (store_sameBus c _).bind fun _ => Leads.pure _
      exact hrest s'

theorem cycle_busGrows (c : Cycle) : Leads BusGrows (cycle c) := by
  intro s
  obtain ⟨k, -, hbus⟩ := cycle_bus c s
  rw [BusGrows, hbus]
  exact List.prefix_append _ _

theorem loop_busGrows (cs : List Cycle) : Leads BusGrows (loop cs) := by
  induction cs with
  | nil => exact Leads.pure _
  | cons c cs ih =>
    refine (cycle_busGrows c).bind fun b => ?_
    split
    · exact ih
    · exact Leads.pure _

theorem cycle_prefix_loop (c : Cycle) (cs : List Cycle) (s : Pi) :
    (final (cycle c) s).bus <+: (final (loop (c :: cs)) s).bus := by
  refine Leads.final_bind (R := BusGrows) (fun b => ?_) s
  split
  · exact loop_busGrows cs
  · exact Leads.pure _

/-- The handler of the loop does nothing on the bus. -/
theorem main_bus (cs : List Cycle) (s : Pi) :
    (final (main cs) s).bus = (final (loop cs) s).bus := by
  rw [final, main, run_tryCatch, final]
  cases hr : (loop cs).run s with
  | ok a s' => rfl
  | error e s' =>
    cases e with
    | keyboardInterrupt => exact closeFile_sameBus s'
    | _ => rfl

/-! ### The program up to the second read -/

/-- The program comes to its loop. -/
def Starts (u : StartUp) : Prop := u.check ≠ .raises ∧ (u.check = .ok → u.documents ≠ .raises)

instance (u : StartUp) : Decidable (Starts u) := by unfold Starts; infer_instance

/-- The state after the set-up. -/
def setUpState (u : StartUp) (s : Pi) : Pi :=
  { s with ctrl := 0xB9, dataCfg := 0x07, bus := s.bus ++ setUpBus, rgbEnabled := u.ver = 0x44 }

/-- The state in which the loop begins. -/
def ready (u : StartUp) (s : Pi) : Pi := { setUpState u s with i := 1 }

theorem setUp_run (u : StartUp) (s : Pi) : (setUp u.ver).run s = .ok () (setUpState u s) := by
  have hbus : s.bus ++ setUpBus =
      s.bus ++ [.write 0x26 0xB9] ++ [.write 0x13 0x07] ++ [.write 0x26 0xB9] := by
    simp [setUpBus]
  rw [setUpState, hbus]
  by_cases hver : u.ver = 0x44
  · rw [hver]; rfl
  · simp only [setUp, hver, if_false, decide_false]
    rfl

theorem listDocuments_run (u : StartUp) (s : Pi) :
    (listDocuments u).run s = .ok () s ∧ Starts u ∨
      (∃ e, (listDocuments u).run s = .error e s) ∧ ¬ Starts u := by
  obtain ⟨ver, check, documents⟩ := u
  cases check <;> cases documents <;>
    first
      | exact Or.inl ⟨rfl, by simp [Starts]⟩
      | exact Or.inr ⟨⟨_, rfl⟩, by simp [Starts]⟩

/-- The program is its loop, in the state that the set-up prepares. -/
theorem sensorPy_run (hu : Starts u) (cs : List Cycle) (s : Pi) :
    (sensorPy u cs).run s = (main cs).run (ready u s) := by
  rw [sensorPy, run_bind_ok (setUp_run u s)]
  rcases listDocuments_run u (setUpState u s) with ⟨hrun, -⟩ | ⟨-, hnot⟩
  · rw [run_bind_ok hrun]
    rfl
  · exact absurd hu hnot

theorem sensorPy_final (u : StartUp) (cs : List Cycle) (s : Pi) :
    final (sensorPy u cs) s = if Starts u then final (main cs) (ready u s) else setUpState u s := by
  split_ifs with hu
  · rw [final, final, sensorPy_run hu]
  · rw [sensorPy, final_bind_ok (setUp_run u s)]
    rcases listDocuments_run u (setUpState u s) with ⟨-, hstarts⟩ | ⟨⟨e, hrun⟩, -⟩
    · exact absurd hstarts hu
    · rw [final_bind_error hrun]

/-- The program comes to read the altitude a second time. -/
def SecondRead (u : StartUp) : List Cycle → Prop
  | c :: c' :: _ =>
      u.ver = 0x44 ∧ Starts u ∧ Completes c ∧ c'.interrupt ≠ some .readAltitude
  | _ => False

theorem rgbEnabled_of_cycle (h : (cycle c).run s = .ok true t) : s.rgbEnabled = true := by
  by_contra hrgb
  have hm := measure_run c s
  rw [Bool.not_eq_true] at hrgb
  simp only [hrgb, Bool.false_eq_true, if_false] at hm
  split at hm
  case h_1 | h_2 | h_3 | h_4 | h_7 | h_8 => rw [cycle, run_bind_error hm] at h; cases h
  all_goals rw [cycle, run_bind_ok hm] at h; cases h

theorem loop_of_readAltitude (hc : c.interrupt = some .readAltitude) :
    (loop (c :: cs)).run s = .error .keyboardInterrupt s := by
  have hm := measure_run c s
  simp only [hc] at hm
  rw [loop, run_bind_error]
  rw [cycle, run_bind_error hm]

/-- Without a second read the loop does nothing more after a first round that goes on. -/
theorem loop_rest (hu : Starts u) (h : ¬ SecondRead u (c :: cs))
    (hrun : (cycle c).run (ready u s) = .ok true t) :
    cs = [] ∨ ∃ c' rest, cs = c' :: rest ∧ c'.interrupt = some .readAltitude := by
  have hrgb := rgbEnabled_of_cycle hrun
  have hver : u.ver = 0x44 := of_decide_eq_true hrgb
  cases cs with
  | nil => exact Or.inl rfl
  | cons c' rest =>
    refine Or.inr ⟨c', rest, rfl, ?_⟩
    by_contra hc'
    exact h ⟨hver, hu, completes_of_cycle hrgb hrun, hc'⟩

theorem bus_of_secondRead (hs : s.bus = []) (h : SecondRead u cs) :
    setUpBus ++ roundBus ++ [.readBlock 0x00 6] <+: (final (sensorPy u cs) s).bus := by
  match cs, h with
  | c :: c' :: rest, ⟨hver, hu, hc, hc'⟩ =>
    obtain ⟨b, hrun⟩ := cycle_of_completes (s := ready u s) hc (decide_eq_true hver)
    obtain ⟨k, hk, hbus⟩ := cycle_bus c' (storedIn b (reading (ready u s) c) (measured (ready u s)))
    have hbus' : (storedIn b (reading (ready u s) c) (measured (ready u s))).bus =
        setUpBus ++ roundBus := by
      show s.bus ++ setUpBus ++ roundBus = _
      rw [hs, List.nil_append]
    rw [sensorPy_final, if_pos hu, main_bus, final, loop_cons hrun]
    -- what comes after the second round is of no account
    refine List.IsPrefix.trans ?_ (cycle_prefix_loop c' rest _)
    rw [hbus, hbus']
    obtain ⟨j, rfl⟩ := Nat.exists_eq_add_of_le (hk hc')
    refine (List.prefix_append_right_inj _).2 ?_
    rw [Nat.add_comm, roundBus, List.take_succ_cons]
    exact ⟨_, rfl⟩

/-- The bus after a loop whose first round is the last to do anything. -/
theorem loop_bus_of_not_secondRead (hu : Starts u) (h : ¬ SecondRead u cs) :
    ∃ k, (final (loop cs) (ready u s)).bus = s.bus ++ setUpBus ++ roundBus.take k := by
  cases cs with
  | nil => exact ⟨0, (List.append_nil _).symm⟩
  | cons c cs =>
    obtain ⟨k, -, hbus⟩ := cycle_bus c (ready u s)
    refine ⟨k, ?_⟩
    show _ = (ready u s).bus ++ _
    rw [← hbus]
    cases hrun : (cycle c).run (ready u s) with
    | error e t => rw [loop, final_bind_error hrun, final_of_error hrun]
    | ok b t =>
      rw [final_of_ok hrun]
      cases b with
      | false =>
        rw [loop, final_bind_ok hrun]
        rfl
      | true =>
        -- the round goes on, but only to the end of the run or to an interrupt
        rw [final, loop_cons hrun]
        obtain rfl | ⟨c', rest, rfl, hc'⟩ := loop_rest hu h hrun
        · rfl
        · rw [loop_of_readAltitude hc']
          rfl

theorem bus_of_not_secondRead (hs : s.bus = []) (h : ¬ SecondRead u cs) :
    (final (sensorPy u cs) s).bus <+: setUpBus ++ roundBus := by
  rw [sensorPy_final]
  split_ifs with hu
  · obtain ⟨k, hbus⟩ := loop_bus_of_not_secondRead (s := s) hu h
    rw [main_bus, hbus, hs, List.nil_append]
    exact (List.prefix_append_right_inj _).2 <| List.take_prefix _ _
  · rw [setUpState, hs, List.nil_append]
    exact List.prefix_append _ _

end Sensor

end SmartWeather
