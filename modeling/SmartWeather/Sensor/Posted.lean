import SmartWeather.Sensor.Bus

/-!
# What the program puts in the collection

Whatever happens in a run, every dictionary that the program adds to the collection is one that
`newData` has built of a measurement (`cloud_isReading`).  Such a dictionary is determined by what
it has under its keys (`IsReading.ext`), that is, by the document that is made of it.
-/

namespace SmartWeather

open Effects

namespace Sensor

/-- The dictionary of a measurement. -/
def IsReading (d : Dict) : Prop := ∃ i m, d = newData i m

/-- The keys of a reading. -/
def readingKeys : List String :=
  ["Number", "Green", "Blue", "Red", "Pressure", "Altitude", "Temperature", "UnixTime", "Date",
    "Time"]

theorem IsReading.eq_map {d : Dict} (h : IsReading d) :
    d.map some = readingKeys.map fun key => (d.lookup key).map (key, ·) := by
  obtain ⟨i, m, rfl⟩ := h
  rfl

/-- Readings with the same values are the same. -/
theorem IsReading.ext {d d' : Dict} (h : IsReading d) (h' : IsReading d')
    (hlookup : ∀ key, d.lookup key = d'.lookup key) : d = d' := by
  refine List.map_injective_iff.2 (Option.some_injective _) ?_
  rw [h.eq_map, h'.eq_map]
  simp only [hlookup]

/-! ### Runs -/

/-- Only readings are added to the collection. -/
def Posts (s t : Pi) : Prop := ∀ d ∈ t.cloud, d ∈ s.cloud ∨ IsReading d

instance : IsPreorder Pi Posts where
  refl _ _ hd := Or.inl hd
  trans _ _ _ h h' d hd := (h' d hd).elim (h d) Or.inr

theorem posts_of_cloud_eq {s t : Pi} (h : t.cloud = s.cloud) : Posts s t := fun _ hd =>
  Or.inl (h ▸ hd)

variable {cs : List Cycle} {s : Pi}

theorem reach_posts (c : Cycle) (p : Point) : Leads Posts (reach c p) := by
  unfold reach
  split
  · exact Leads.throw _
  · exact Leads.pure _

theorem checkNetwork_posts (k : Check) : Leads Posts (checkNetwork k) := by
  cases k
  · exact Leads.pure _
  · exact Leads.pure _
  · exact Leads.throw _

theorem withOpen_posts (name : String) {body : Py Unit} (h : Leads Posts body) :
    Leads Posts (withOpen name body) := by
  refine Leads.bind (Leads.update fun _ => ?_) fun _ => h.finally fun _ => ?_
  all_goals exact posts_of_cloud_eq rfl

theorem addDocument_posts (c : Cycle) {d : Dict} (hd : IsReading d) :
    Leads Posts (addDocument c d) := by
  unfold addDocument
  split
  · refine Leads.update fun s d' hd' => ?_
    rcases List.mem_append.1 hd' with hd' | hd'
    · exact Or.inl hd'
    · exact Or.inr (List.mem_singleton.1 hd' ▸ hd)
  · exact Leads.throw _

theorem publish_posts (c : Cycle) {d : Dict} (hd : IsReading d) : Leads Posts (publish c d) := by
  refine (reach_posts c _).bind fun _ => (checkNetwork_posts _).bind fun b => ?_
  split
  · exact (reach_posts c _).bind fun _ => addDocument_posts c hd
  · refine (reach_posts c _).bind fun _ => withOpen_posts _ ?_
    exact (reach_posts c _).bind fun _ => Leads.update fun _ => posts_of_cloud_eq rfl

theorem writeLog_posts (c : Cycle) (d : Dict) : Leads Posts (writeLog c d) := by
  refine (reach_posts c _).bind fun _ => withOpen_posts _ ?_
  exact (reach_posts c _).bind fun _ => Leads.update fun _ => posts_of_cloud_eq rfl

theorem measure_posts (c : Cycle) : Leads Posts (measure c) := by
  intro s
  rw [final, measure_run]
  refine posts_of_cloud_eq ?_
  split
  case h_1 | h_2 | h_3 | h_4 => rfl
  all_goals split <;> rfl

theorem cycle_posts (c : Cycle) : Leads Posts (cycle c) := by
  refine (measure_posts c).bind fun o => ?_
  cases o with
  | none => exact Leads.pure _
  | some m =>
    refine (reach_posts c _).bind fun _ => Leads.get.bind fun s => ?_
    have hstore : Leads Posts (store c (newData s.i m)) :=
      (publish_posts c ⟨s.i, m, rfl⟩).bind fun _ => writeLog_posts c _
    exact hstore.bind fun _ => Leads.pure _

theorem loop_posts (cs : List Cycle) : Leads Posts (loop cs) := by
  induction cs with
  | nil => exact Leads.pure _
  | cons c cs ih =>
    refine (cycle_posts c).bind fun b => ?_
    split
    · exact ih
    · exact Leads.pure _

theorem closeFile_posts : Leads Posts closeFile := by
  refine Leads.get.bind fun s => ?_
  split
  · exact Leads.throw _
  · exact Leads.update fun _ => posts_of_cloud_eq rfl

theorem main_posts (cs : List Cycle) : Leads Posts (main cs) := by
  refine (loop_posts cs).tryCatch fun e => ?_
  cases e with
  | keyboardInterrupt => exact closeFile_posts
  | _ => exact Leads.throw _

/-- **Whatever happens in a run**, it adds only readings to the collection. -/
theorem cloud_isReading (u : StartUp) (cs : List Cycle) (hs : ∀ d ∈ s.cloud, IsReading d) :
    ∀ d ∈ (final (sensorPy u cs) s).cloud, IsReading d := by
  intro d hd
  rw [sensorPy_final] at hd
  split_ifs at hd
  · exact (main_posts cs _ d hd).elim (hs d) id
  · exact hs d hd

end Sensor

end SmartWeather
