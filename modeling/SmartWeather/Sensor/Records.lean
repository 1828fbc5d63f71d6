import SmartWeather.Sensor.Bus

/-!
# The records of a run

Every completed round logs the dictionary that it builds and puts it in one of the two stores, the
collection or the file for lost connections.  Which store it is depends on the network, so only the
dictionaries themselves can tell in which order they were built; `Number` is there for that.

* `readings`, `recordOf_readings`: the dictionaries that rounds build, in order;
* `Stored`, `stored_of_run`: what a run of completed rounds leaves in the stores and in the log;
* `sensorPy_of_completed`: the program goes through its completed rounds;
* `restorable_iff`: the two stores can be merged by `Number` only if they have a single record.
-/

namespace SmartWeather

open Runs Effects

namespace Sensor

/-- The dictionaries that rounds build.  Only the first round can be in another mode than the
barometer mode. -/
def readings (i : ℤ) (ctrl : UInt8) : List Cycle → List Dict
  | [] => []
  | c :: cs => newData i (measurement ctrl c) :: readings i 0x39 cs

theorem length_readings (i : ℤ) (ctrl : UInt8) (cs : List Cycle) :
    (readings i ctrl cs).length = cs.length := by
  induction cs generalizing ctrl with
  | nil => rfl
  | cons c cs ih => rw [readings, List.length_cons, ih, List.length_cons]

/-- What a round records of its measurement, whatever the number and the mode of the barometer. -/
def RecordOf (c : Cycle) (d : Dict) : Prop := ∃ i ctrl, d = newData i (measurement ctrl c)

theorem recordOf_readings (i : ℤ) (ctrl : UInt8) (cs : List Cycle) :
    List.Forall₂ RecordOf cs (readings i ctrl cs) := by
  induction cs generalizing ctrl with
  | nil => exact List.Forall₂.nil
  | cons c cs ih => exact List.Forall₂.cons ⟨i, ctrl, rfl⟩ (ih 0x39)

/-! ### What is stored -/

/-- Between the states `s` and `t` the dictionaries `ds` were logged, and each of them was put in
the collection or in the file for lost connections. -/
structure Stored (s t : Pi) (ds inCloud inFile : List Dict) : Prop where
  log : t.log = s.log ++ ds
  cloud : t.cloud = s.cloud ++ inCloud
  offline : t.offline = s.offline ++ inFile
  perm : (inCloud ++ inFile).Perm ds

variable {c : Cycle} {cs : List Cycle} {s t m : Pi} {u : StartUp}

theorem Stored.refl (s : Pi) : Stored s s [] [] [] :=
  ⟨(List.append_nil _).symm, (List.append_nil _).symm, (List.append_nil _).symm, List.Perm.refl _⟩

theorem Stored.trans {ds inCloud inFile ds' inCloud' inFile' : List Dict}
    (h : Stored s m ds inCloud inFile) (h' : Stored m t ds' inCloud' inFile') :
    Stored s t (ds ++ ds') (inCloud ++ inCloud') (inFile ++ inFile') where
  log := by rw [h'.log, h.log, List.append_assoc]
  cloud := by rw [h'.cloud, h.cloud, List.append_assoc]
  offline := by rw [h'.offline, h.offline, List.append_assoc]
  perm := by
    refine List.Perm.trans ?_ (h.perm.append h'.perm)
    rw [List.append_assoc, List.append_assoc]
    refine List.Perm.append_left inCloud ?_
    rw [← List.append_assoc, ← List.append_assoc]
    exact List.perm_append_comm.append_right inFile'

/-- A round that goes on stores its reading. -/
theorem step_eq_ok_storedIn (h : step s c = .ok t) :
    s.rgbEnabled = true ∧ ∃ b, t = storedIn b (reading s c) (measured s) := by
  rw [step_eq_ok] at h
  have hrgb := rgbEnabled_of_cycle h
  obtain ⟨b, hrun⟩ := cycle_of_completes (completes_of_cycle hrgb h) hrgb
  rw [hrun] at h
  cases h
  exact ⟨hrgb, b, rfl⟩

theorem stored_storedIn (b : Bool) (d : Dict) (s : Pi) :
    ∃ inCloud inFile, Stored s (storedIn b d (measured s)) [d] inCloud inFile := by
  cases b
  · exact ⟨[], [d], rfl, (List.append_nil _).symm, rfl, List.Perm.refl _⟩
  · exact ⟨[d], [], rfl, rfl, (List.append_nil _).symm, List.Perm.refl _⟩

/-- **What a run of completed rounds leaves behind.** -/
theorem stored_of_run (h : run step s cs = .ok t) :
    (∃ inCloud inFile, Stored s t (readings s.i s.ctrl cs) inCloud inFile) ∧
      t.file = if cs = [] then s.file else some ⟨"sensorData.txt", true⟩ := by
  induction cs generalizing s with
  | nil =>
    cases h
    exact ⟨⟨[], [], Stored.refl _⟩, rfl⟩
  | cons c cs ih =>
    obtain ⟨s', hs, hrest⟩ := run_cons_eq_ok h
    obtain ⟨-, b, rfl⟩ := step_eq_ok_storedIn hs
    obtain ⟨⟨inCloud', inFile', hstored'⟩, hfile⟩ := ih hrest
    obtain ⟨inCloud, inFile, hstored⟩ := stored_storedIn b (reading s c) s
    refine ⟨⟨_, _, hstored.trans hstored'⟩, ?_⟩
    rw [hfile, if_neg (List.cons_ne_nil c cs)]
    exact ite_self _

/-- The loop goes through its completed rounds. -/
theorem run_of_completes (hrgb : s.rgbEnabled = true) (h : ∀ c ∈ cs, Completes c) :
    ∃ t, run step s cs = .ok t := by
  induction cs generalizing s with
  | nil => exact ⟨s, rfl⟩
  | cons c cs ih =>
    obtain ⟨b, hc⟩ := cycle_of_completes (h c List.mem_cons_self) hrgb
    rw [run_cons_ok (step_eq_ok.2 hc)]
    exact ih hrgb fun c hc => h c (List.mem_cons_of_mem _ hc)

/-- The program starts, finds its colour sensor, and completes every round. -/
structure Completed (u : StartUp) (cs : List Cycle) : Prop where
  starts : Starts u
  ver : u.ver = 0x44
  completes : ∀ c ∈ cs, Completes c

/-- **A run of completed rounds.** -/
theorem sensorPy_of_completed (h : Completed u cs) (s : Pi) :
    ∃ inCloud inFile, Stored s (final (sensorPy u cs) s) (readings 1 0xB9 cs) inCloud inFile := by
  obtain ⟨t, ht⟩ := run_of_completes (s := ready u s) (decide_eq_true h.ver) h.completes
  have hloop : (loop cs).run (ready u s) = .ok () t := by
    rw [← List.append_nil cs, loop_of_run ht]
    rfl
  have hfinal : final (sensorPy u cs) s = t := by
    rw [sensorPy_final, if_pos h.starts, final, main, run_tryCatch, hloop]
    rfl
  obtain ⟨⟨inCloud, inFile, hstored⟩, -⟩ := stored_of_run ht
  rw [hfinal]
  exact ⟨inCloud, inFile, hstored.log, hstored.cloud, hstored.offline, hstored.perm⟩

/-! ### Putting the records back in order -/

/-- The value of `Number`. -/
def number (d : Dict) : Option ℤ :=
  (d.lookup "Number").bind fun
    | .int n => some n
    | .str _ => none

theorem number_of_mem_readings {i : ℤ} {ctrl : UInt8} {d : Dict} (h : d ∈ readings i ctrl cs) :
    number d = some i := by
  induction cs generalizing ctrl with
  | nil => exact absurd h List.not_mem_nil
  | cons c cs ih =>
    rcases List.mem_cons.1 h with rfl | h
    · rfl
    · exact ih h

/-- The records of the two stores have different numbers, which increase in the order `ds` in which
the readings were taken; and the stores merged by `Number` are these readings. -/
structure Restorable (ds inCloud inFile : List Dict) : Prop where
  distinct : ((inCloud ++ inFile).map number).Nodup
  increasing : ds.Pairwise fun d d' => ∃ n n', number d = some n ∧ number d' = some n' ∧ n < n'
  merged : ∀ l, l.Perm (inCloud ++ inFile) →
    (l.Pairwise fun d d' => ∃ n n', number d = some n ∧ number d' = some n' ∧ n ≤ n') → l = ds

theorem restorable_of_length_le_one {ds inCloud inFile : List Dict}
    (hperm : (inCloud ++ inFile).Perm ds) (hle : ds.length ≤ 1) : Restorable ds inCloud inFile := by
  match ds, hle with
  | [], _ =>
    have hstores := List.perm_nil.1 hperm
    refine ⟨?_, List.Pairwise.nil, fun l hl _ => ?_⟩
    · rw [hstores]
      exact List.nodup_nil
    · rw [hstores] at hl
      exact hl.eq_nil
  | [d], _ =>
    have hstores := List.perm_singleton.1 hperm
    refine ⟨?_, List.pairwise_singleton _ _, fun l hl _ => ?_⟩
    · rw [hstores]
      exact List.nodup_singleton _
    · rw [hstores] at hl
      exact List.perm_singleton.1 hl

/-- Of several readings of a run none can be told from another by its number. -/
theorem length_le_one_of_distinct {i : ℤ} {ctrl : UInt8} {inCloud inFile : List Dict}
    (hperm : (inCloud ++ inFile).Perm (readings i ctrl cs))
    (h : ((inCloud ++ inFile).map number).Nodup) : cs.length ≤ 1 := by
  have hall : ∀ n ∈ (inCloud ++ inFile).map number, n = some i := by
    intro n hn
    obtain ⟨d, hd, rfl⟩ := List.mem_map.1 hn
    exact number_of_mem_readings (hperm.mem_iff.1 hd)
  have hrep := List.eq_replicate_of_mem hall
  rw [List.length_map, hperm.length_eq, length_readings] at hrep
  rw [hrep] at h
  exact List.nodup_replicate.1 h

/-- **When the records of a run can be put back in order.**  The program logs what it records in
each round, in order, and divides it between the two stores; but `Number` is the same in all records
of a run, so putting them back in order takes a run of at most one round. -/
theorem restorable_iff (h : Completed u cs) (s : Pi) :
    (∃ ds inCloud inFile, Stored s (final (sensorPy u cs) s) ds inCloud inFile ∧
      List.Forall₂ RecordOf cs ds ∧ Restorable ds inCloud inFile) ↔ cs.length ≤ 1 := by
  obtain ⟨inCloud, inFile, hstored⟩ := sensorPy_of_completed h s
  constructor
  · rintro ⟨ds, inCloud', inFile', hds, -, hrestorable⟩
    obtain rfl := List.append_cancel_left (hstored.cloud.symm.trans hds.cloud)
    obtain rfl := List.append_cancel_left (hstored.offline.symm.trans hds.offline)
    exact length_le_one_of_distinct hstored.perm hrestorable.distinct
  · intro hle
    refine ⟨_, inCloud, inFile, hstored, recordOf_readings _ _ _, ?_⟩
    exact restorable_of_length_le_one hstored.perm (by rwa [length_readings])

/-- A start at which the network answers. -/
def sampleStart : StartUp := ⟨0x44, .ok, .listed⟩

/-- The first reading goes to the collection, the second one to the file. -/
def twoStores : List Cycle := [sampleCycle .ok .succeeds, sampleCycle .notOk .raises]

theorem completed_twoStores : Completed sampleStart twoStores := ⟨by decide, rfl, by decide⟩

theorem restorable_iff_twoStores :
    (∃ ds inCloud inFile, Stored {} (final (sensorPy sampleStart twoStores) {}) ds inCloud inFile ∧
      List.Forall₂ RecordOf twoStores ds ∧ Restorable ds inCloud inFile) ↔ twoStores.length ≤ 1 :=
  restorable_iff completed_twoStores {}

/-- Both records have the number 1. -/
theorem twoStores_not_restorable :
    Completed sampleStart twoStores ∧
      (final (sensorPy sampleStart twoStores) {}).log.map number = [some 1, some 1] ∧
      ¬ ∃ ds inCloud inFile,
        Stored {} (final (sensorPy sampleStart twoStores) {}) ds inCloud inFile ∧
          List.Forall₂ RecordOf twoStores ds ∧ Restorable ds inCloud inFile := by
  have hlog : (final (sensorPy sampleStart twoStores) {}).log.map number = [some 1, some 1] := by
    decide +kernel
  refine ⟨completed_twoStores, hlog, ?_⟩
  rintro ⟨ds, inCloud, inFile, hds, -, hrestorable⟩
  have hnodup : (ds.map number).Nodup := (hds.perm.map number).nodup_iff.1 hrestorable.distinct
  have hds' : (final (sensorPy sampleStart twoStores) {}).log = ds := hds.log
  rw [← hds', hlog] at hnodup
  exact absurd hnodup (by decide)

end Sensor

end SmartWeather
