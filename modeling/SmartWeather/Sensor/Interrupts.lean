import SmartWeather.Sensor.Records

/-!
# Interrupting the program

`KeyboardInterrupt` is the way to stop the program, and it can strike at every instant of a round.
Its handler closes `file`, a variable that is bound where one of the two files is opened.

* `BetweenWrites`: the reading is in one of the two stores, and not yet in the log;
* `cycle_interrupted`: what an interrupted round has stored, and what `file` is then;
* `sensorPy_interrupted`: what the handler does after it;
* `interruptClean_iff`: the interrupts after which the handler runs to its end and the log has the
  same records as the two stores.
-/

namespace SmartWeather

open Runs Effects

namespace Sensor

variable {c : Cycle} {cs : List Cycle} {s t m : Pi} {u : StartUp}

/-- The reading is in one of the two stores, and not yet in the log. -/
def BetweenWrites (c : Cycle) : Prop :=
  c.interrupt = some .openLog ∨ c.interrupt = some .printLog

instance (c : Cycle) : Decidable (BetweenWrites c) := by unfold BetweenWrites; infer_instance

/-- How many readings the two stores have. -/
def inStores (s : Pi) : ℕ := s.cloud.length + s.offline.length

/-- What an interrupted round has stored, and the value of `file`. -/
structure Interrupted (c : Cycle) (s t : Pi) : Prop where
  log : t.log = s.log
  stores : inStores t = inStores s + if BetweenWrites c then 1 else 0
  cloud : ¬ BetweenWrites c → t.cloud = s.cloud
  offline : ¬ BetweenWrites c → t.offline = s.offline
  file : ¬ BetweenWrites c → t.file =
    if c.interrupt = some .printOffline then some ⟨"sensorDataNoInternet.txt", true⟩ else s.file

/-- The records and `file` are as before. -/
structure Aside (s t : Pi) : Prop where
  log : t.log = s.log
  cloud : t.cloud = s.cloud
  offline : t.offline = s.offline
  file : t.file = s.file

theorem Interrupted.of_aside (h : Aside s m) (hm : Interrupted c m t) : Interrupted c s t where
  log := hm.log.trans h.log
  stores := by rw [hm.stores, inStores, h.cloud, h.offline, inStores]
  cloud hb := (hm.cloud hb).trans h.cloud
  offline hb := (hm.offline hb).trans h.offline
  file hb := by rw [hm.file hb, h.file]

/-- Before the reading is stored, and not with a file open, an interrupt changes nothing. -/
theorem Aside.interrupted (h : Aside s t) (hb : ¬ BetweenWrites c)
    (hp : c.interrupt ≠ some .printOffline) : Interrupted c s t where
  log := h.log
  stores := by rw [if_neg hb, inStores, h.cloud, h.offline]; rfl
  cloud _ := h.cloud
  offline _ := h.offline
  file _ := by rw [if_neg hp, h.file]

/-- If the exception is the interrupt, then it is this one. -/
def OnInterrupt (c : Cycle) (s : Pi) (e : Exn) (t : Pi) : Prop :=
  e = .keyboardInterrupt → Interrupted c s t

/-! ### The parts of a round -/

theorem reach_ends {α : Type} {p : Point} {f : Unit → Py α} {Q : α → Pi → Prop}
    {E : Exn → Pi → Prop} (hstrikes : c.interrupt = some p → E .keyboardInterrupt s)
    (hf : Ends (f ()) s Q E) : Ends (reach c p >>= f) s Q E := by
  unfold reach
  split_ifs with h
  · exact (Ends.throw (Q := fun _ _ => False) (hstrikes h)).bind fun _ _ hf => hf.elim
  · exact hf

theorem withOpen_ends {name : String} {body : Py Unit} {Q : Unit → Pi → Prop}
    {E : Exn → Pi → Prop}
    (h : Ends body { s with file := some ⟨name, false⟩ }
      (fun a t => Q a { t with file := some ⟨name, true⟩ })
      fun e t => E e { t with file := some ⟨name, true⟩ }) :
    Ends (withOpen name body) s Q E :=
  (Ends.update (Q := fun _ t => t = { s with file := some ⟨name, false⟩ }) rfl).bind
    fun _ _ ht => ht ▸ h.finally

/-- An interrupt before the reading is in one of the stores finds both as they were. -/
theorem publish_ends (c : Cycle) (d : Dict) (s : Pi) :
    Ends (publish c d) s (fun _ t => t.log = s.log ∧ inStores t = inStores s + 1)
      (OnInterrupt c s) := by
  have huntouched : ∀ p, c.interrupt = some p → p ≠ .openLog → p ≠ .printLog →
      p ≠ .printOffline → OnInterrupt c s .keyboardInterrupt s := by
    intro p hp h1 h2 h3 _
    refine Aside.interrupted ⟨rfl, rfl, rfl, rfl⟩ ?_ ?_ <;> simp [BetweenWrites, hp, h1, h2, h3]
  unfold publish
  refine reach_ends (fun h => huntouched _ h nofun nofun nofun) ?_
  cases hcheck : c.check with
  | raises => exact Ends.throw nofun
  | ok =>
    refine reach_ends (fun h => huntouched _ h nofun nofun nofun) ?_
    unfold addDocument
    cases c.add with
    | raises => exact Ends.throw nofun
    | succeeds =>
      refine Ends.update ⟨rfl, ?_⟩
      simp only [inStores, List.length_append, List.length_singleton]
      omega
  | notOk =>
    refine reach_ends (fun h => huntouched _ h nofun nofun nofun) (withOpen_ends ?_)
    refine reach_ends (fun h _ => ?_) (Ends.update ⟨rfl, ?_⟩)
    · have hb : ¬ BetweenWrites c := by simp [BetweenWrites, h]
      exact ⟨rfl, by rw [if_neg hb]; rfl, fun _ => rfl, fun _ => rfl, fun _ => (if_pos h).symm⟩
    · simp only [inStores, List.length_append, List.length_singleton]
      omega

/-- After that, an interrupt finds the reading in one of them and not in the log. -/
theorem writeLog_ends (d : Dict) (hlog : m.log = s.log) (hstores : inStores m = inStores s + 1) :
    Ends (writeLog c d) m (fun _ _ => True) (OnInterrupt c s) := by
  have hbetween : ∀ t, BetweenWrites c → t.log = m.log → inStores t = inStores m →
      OnInterrupt c s .keyboardInterrupt t := fun t hb h1 h2 _ =>
    ⟨h1.trans hlog, by rw [if_pos hb, h2, hstores], fun h => absurd hb h, fun h => absurd hb h,
      fun h => absurd hb h⟩
  unfold writeLog
  refine reach_ends (fun h => hbetween _ (Or.inl h) rfl rfl) (withOpen_ends ?_)
  exact reach_ends (fun h => hbetween _ (Or.inr h) rfl rfl) (Ends.update trivial)

theorem measure_aside (c : Cycle) : Leads Aside (measure c) := by
  intro s
  rw [final, measure_run]
  split
  case h_1 | h_2 | h_3 | h_4 => exact ⟨rfl, rfl, rfl, rfl⟩
  all_goals split <;> exact ⟨rfl, rfl, rfl, rfl⟩

theorem measure_ends (c : Cycle) (s : Pi) :
    Ends (measure c) s (fun _ t => Aside s t) (OnInterrupt c s) := by
  refine ⟨fun o t h => final_of_ok h ▸ measure_aside c s, fun e t h _ => ?_⟩
  have haside : Aside s t := final_of_error h ▸ measure_aside c s
  have hrun := measure_run c s
  rw [h] at hrun
  -- the three instants are not in the first half of the round
  refine haside.interrupted ?_ ?_
  · rintro (hi | hi) <;> simp only [hi] at hrun <;> split_ifs at hrun
  · intro hi
    simp only [hi] at hrun
    split_ifs at hrun

theorem cycle_ends (c : Cycle) (s : Pi) :
    Ends (cycle c) s (fun _ _ => True) (OnInterrupt c s) := by
  unfold cycle
  refine (measure_ends c s).bind fun o m hm => ?_
  cases o with
  | none => exact Ends.pure trivial
  | some x =>
    refine reach_ends (fun h _ => ?_) ?_
    · refine hm.interrupted ?_ ?_ <;> simp [BetweenWrites, h]
    · have hstore : Ends (store c (newData m.i x)) m (fun _ _ => True) (OnInterrupt c m) :=
        (publish_ends c _ m).bind fun _ t ht => writeLog_ends _ ht.1 ht.2
      refine (hstore.mono (fun _ _ _ => trivial) fun e t h he => ?_).bind
        fun _ _ _ => Ends.pure trivial
      exact Interrupted.of_aside hm (h he)

/-- **An interrupted round.** -/
theorem cycle_interrupted (h : (cycle c).run s = .error .keyboardInterrupt t) :
    Interrupted c s t :=
  (cycle_ends c s).2 _ _ h rfl

/-! ### The handler -/

/-- The handler runs from the state in which the interrupt was raised. -/
theorem sensorPy_interrupted (hu : Starts u) (hrun : run step (ready u s) cs = .ok m)
    (hc : (cycle c).run m = .error .keyboardInterrupt t) :
    (sensorPy u (cs ++ [c])).run s = closeFile.run t := by
  have hloop : (loop (cs ++ [c])).run (ready u s) = .error .keyboardInterrupt t := by
    rw [loop_of_run hrun, loop, run_bind_error hc]
  rw [sensorPy_run hu, main, run_tryCatch, hloop]

theorem closeFile_of_none (h : t.file = none) : closeFile.run t = .error .nameError t := by
  obtain ⟨ctrl, dataCfg, bus, rgbEnabled, i, cloud, offline, log, file⟩ := t
  obtain rfl : file = none := h
  rfl

theorem closeFile_of_some {f : OpenFile} (h : t.file = some f) :
    closeFile.run t = .ok () { t with file := some { f with closed := true } } := by
  obtain ⟨ctrl, dataCfg, bus, rgbEnabled, i, cloud, offline, log, file⟩ := t
  obtain rfl : file = some f := h
  rfl

/-- The program ends without an exception, and the records it has logged are those it has put in
the two stores. -/
def InterruptClean (u : StartUp) (cs : List Cycle) (s : Pi) : Prop :=
  ∃ t, (sensorPy u cs).run s = .ok () t ∧ ∃ ds inCloud inFile, Stored s t ds inCloud inFile

/-- The log and the two stores grow by the same number of records. -/
theorem Stored.length_eq {ds inCloud inFile : List Dict} (h : Stored s t ds inCloud inFile) :
    t.log.length + inStores s = s.log.length + inStores t := by
  have hperm := h.perm.length_eq
  simp only [inStores, h.log, h.cloud, h.offline, List.length_append] at hperm ⊢
  omega

/-- **Which interrupts are clean.**  After any number of completed rounds, an interrupt at any
instant of the next one: the handler runs to its end with the same records in the log as in the two
stores exactly if the interrupt does not strike between the two writes, and `file` is bound, by a
completed round or by the file for lost connections. -/
theorem interruptClean_iff (hu : Starts u) (hfile : s.file = none)
    (hrun : run step (ready u s) cs = .ok m)
    (hc : (cycle c).run m = .error .keyboardInterrupt t) :
    InterruptClean u (cs ++ [c]) s ↔
      ¬ BetweenWrites c ∧ (cs ≠ [] ∨ c.interrupt = some .printOffline) := by
  have hint := cycle_interrupted hc
  obtain ⟨⟨inCloud, inFile, hstored⟩, hm⟩ := stored_of_run hrun
  have hstored : Stored s m (readings 1 0xB9 cs) inCloud inFile :=
    ⟨hstored.log, hstored.cloud, hstored.offline, hstored.perm⟩
  have hm : m.file = if cs = [] then none else some ⟨"sensorData.txt", true⟩ := hfile ▸ hm
  rw [InterruptClean, sensorPy_interrupted hu hrun hc]
  constructor
  · rintro ⟨t', ht', ds, inCloud', inFile', hclean⟩
    cases htfile : t.file with
    | none =>
      rw [closeFile_of_none htfile] at ht'
      cases ht'
    | some f =>
      rw [closeFile_of_some htfile] at ht'
      cases ht'
      have hb : ¬ BetweenWrites c := by
        intro hb
        -- one record more is in the stores than in the log
        have hlen := hstored.length_eq
        have hlen' : t.log.length + inStores s = s.log.length + inStores t := hclean.length_eq
        rw [hint.log, hint.stores, if_pos hb] at hlen'
        omega
      refine ⟨hb, ?_⟩
      by_contra hnot
      obtain ⟨hcs, hp⟩ := not_or.1 hnot
      rw [hint.file hb, if_neg hp, hm, if_pos (not_not.1 hcs)] at htfile
      cases htfile
  · rintro ⟨hb, hbound⟩
    have htfile : ∃ f, t.file = some f := by
      rw [hint.file hb]
      split_ifs with hp
      · exact ⟨_, rfl⟩
      · rw [hm, if_neg (hbound.resolve_right hp)]
        exact ⟨_, rfl⟩
    obtain ⟨f, hf⟩ := htfile
    refine ⟨_, closeFile_of_some hf, readings 1 0xB9 cs, inCloud, inFile, ?_⟩
    exact ⟨hint.log.trans hstored.log, (hint.cloud hb).trans hstored.cloud,
      (hint.offline hb).trans hstored.offline, hstored.perm⟩

/-- A round that is interrupted at the given instant. -/
def interruptedCycle (p : Point) : Cycle :=
  { sampleCycle .ok .succeeds with interrupt := some p }

theorem interruptClean_iff_sleepBarometer :
    InterruptClean sampleStart ([sampleCycle .ok .succeeds] ++ [interruptedCycle .sleepBarometer])
        {} ↔
      ¬ BetweenWrites (interruptedCycle .sleepBarometer) ∧
        ([sampleCycle .ok .succeeds] ≠ [] ∨
          (interruptedCycle .sleepBarometer).interrupt = some .printOffline) :=
  interruptClean_iff (by decide) rfl rfl rfl

/-- In the first round no file has been opened: the handler fails. -/
theorem interrupted_firstRound :
    (∃ t, (sensorPy sampleStart [interruptedCycle .sleepBarometer]).run {} =
        .error .nameError t) ∧
      ¬ InterruptClean sampleStart [interruptedCycle .sleepBarometer] {} := by
  obtain ⟨t, ht⟩ : ∃ t, (sensorPy sampleStart [interruptedCycle .sleepBarometer]).run {} =
      .error .nameError t := ⟨_, rfl⟩
  refine ⟨⟨t, ht⟩, ?_⟩
  rintro ⟨t', ht', -⟩
  rw [ht] at ht'
  cases ht'

end Sensor

end SmartWeather
