import SmartWeather.Database.FirebaseController
import Mathlib.Logic.Relation

/-!
# Malformed documents

`dataChecker` repeats by hand the names and types of the forced casts of `parseHeroesSnapshot`.
What a record of a document is, is said here without the checker: `Holds reads d r`, every field of
`r` is the value of the field of `d` of the same name, where `reads` tells which numbers a value of
`Number` stands for.  A document without a record is malformed.

* `Records reads ds rs`: the records of the well-formed documents of `ds`, in order;
* `MalformedApart reads ds ds'`: malformed documents have been put in or taken out;
* `isolates_readsAsInt`: a snapshot of added documents never fails by itself, appends its records
  and tells the listeners of the new list; malformed documents change nothing of that;
* `not_isolates_isInteger`: this is wrong when `Number` is to be an integer value.
-/

namespace SmartWeather

/-- The value is an integer. -/
def IsInteger (v : FieldValue) (n : ℤ) : Prop := v = .integer n

/-- The value bridges to the integer: it is the integer, a boolean, or a floating-point number
that is exactly this integer. -/
inductive ReadsAsInt : FieldValue → ℤ → Prop
  | integer (n : ℤ) : ReadsAsInt (.integer n) n
  | boolean (b : Bool) : ReadsAsInt (.boolean b) b.toInt
  | double (x : SwiftDouble) (n : ℤ) (h : x.exactInt 64 = some n) : ReadsAsInt (.double x) n

/-- Every field of the record is the value of the field of the document of the same name. -/
structure Holds (reads : FieldValue → ℤ → Prop) (d : Document) (r : SensorData) : Prop where
  red : d.data "Red" = some (.string r.red)
  green : d.data "Green" = some (.string r.green)
  blue : d.data "Blue" = some (.string r.blue)
  temperature : d.data "Temperature" = some (.string r.temperature)
  pressure : d.data "Pressure" = some (.string r.pressure)
  altitude : d.data "Altitude" = some (.string r.altitude)
  number : ∃ v, d.data "Number" = some v ∧ reads v r.number
  date : d.data "Date" = some (.string r.date)
  unixTime : d.data "UnixTime" = some (.string r.unixTime)
  time : d.data "Time" = some (.string r.time)
  id : r.id = d.documentID

/-- The document has all the fields of a record. -/
def WellFormed (reads : FieldValue → ℤ → Prop) (d : Document) : Prop := ∃ r, Holds reads d r

/-- The records of the well-formed documents, in order. -/
inductive Records (reads : FieldValue → ℤ → Prop) : List Document → List SensorData → Prop
  | nil : Records reads [] []
  | record {d r ds rs} (h : Holds reads d r) (hrest : Records reads ds rs) :
      Records reads (d :: ds) (r :: rs)
  | malformed {d ds rs} (h : ¬ WellFormed reads d) (hrest : Records reads ds rs) :
      Records reads (d :: ds) rs

/-- One malformed document has been put in somewhere. -/
def PutIn (reads : FieldValue → ℤ → Prop) (ds ds' : List Document) : Prop :=
  ∃ p d q, ds = p ++ q ∧ ds' = p ++ d :: q ∧ ¬ WellFormed reads d

/-- Malformed documents have been put in and taken out. -/
def MalformedApart (reads : FieldValue → ℤ → Prop) : List Document → List Document → Prop :=
  Relation.EqvGen (PutIn reads)

/-- The snapshot in which these documents have been added. -/
def addedSnapshot (ds : List Document) : QuerySnapshot := ⟨ds.map Document.added⟩

/-- A snapshot of added documents does not fail before a listener is called, appends the records of
the documents, and tells the registered listeners that are alive of the new list; a snapshot that
differs in malformed documents has the same outcome. -/
def Isolates (reads : FieldValue → ℤ → Prop) : Prop :=
  ∀ (ι σ : Type) (ls : Listeners ι σ) (heap : Heap ι) (order : Shuffle (WeakObjectWrapper ι))
    (c : FirebaseController ι) (s : σ) (ds : List Document),
    (∃ (rs : List SensorData) (os : List ι), Records reads ds rs ∧
      os.Perm (c.registered.filter heap) ∧
      FirebaseController.parseHeroesSnapshot ls heap order (addedSnapshot ds) c s =
        let dataList := c.dataList ++ rs
        (os.foldlM (fun s o => ls.onDataListChange o dataList s) s).map
          fun s' => ({ c with dataList }, s')) ∧
    ∀ ds', MalformedApart reads ds ds' →
      FirebaseController.parseHeroesSnapshot ls heap order (addedSnapshot ds') c s =
        FirebaseController.parseHeroesSnapshot ls heap order (addedSnapshot ds) c s

/-! ### The checker and the casts -/

theorem asString_eq_some_iff {v : Option FieldValue} {s : String} :
    asString v = some s ↔ v = some (.string s) := by
  rcases v with _ | v
  · simp [asString]
  · cases v <;> simp [asString]

theorem asInt_eq_some_iff {v : Option FieldValue} {n : ℤ} :
    asInt v = some n ↔ ∃ w, v = some w ∧ ReadsAsInt w n := by
  constructor
  · intro h
    rcases v with _ | v
    · cases h
    · refine ⟨v, rfl, ?_⟩
      cases v with
      | integer m => cases h; exact .integer n
      | boolean b =>
        have hb : b.toInt = n := by cases b <;> simpa [asInt] using h
        exact hb ▸ .boolean b
      | double x => exact .double x n h
      | null => cases h
      | string s => cases h
      | other => cases h
  · rintro ⟨w, rfl, h⟩
    cases h with
    | integer => rfl
    | boolean b => cases b <;> rfl
    | double x n h => exact h

/-- A document that passes the check has the record that the casts build. -/
theorem holds_recordOf {d : Document} (h : checkFields d.data = true) :
    Holds ReadsAsInt d (recordOf d) := by
  obtain ⟨hstr, n, hn⟩ := checkFields_iff.1 h
  have hfield : ∀ a ∈ attributes, d.data a = some (.string ((asString (d.data a)).getD " ")) := by
    intro a ha
    obtain ⟨s, hs⟩ := hstr a ha
    rw [hs, Option.getD_some]
    exact asString_eq_some_iff.1 hs
  refine ⟨hfield _ (by decide), hfield _ (by decide), hfield _ (by decide), hfield _ (by decide),
    hfield _ (by decide), hfield _ (by decide), ?_, hfield _ (by decide), hfield _ (by decide),
    hfield _ (by decide), rfl⟩
  show ∃ v, _ ∧ ReadsAsInt v ((asInt (d.data "Number")).getD 0)
  rw [hn]
  exact asInt_eq_some_iff.1 hn

/-- Only the documents with a record pass the check. -/
theorem checkFields_eq_true_iff {d : Document} :
    checkFields d.data = true ↔ WellFormed ReadsAsInt d := by
  refine ⟨fun h => ⟨_, holds_recordOf h⟩, ?_⟩
  rintro ⟨r, h⟩
  refine checkFields_iff.2 ⟨?_, r.number, asInt_eq_some_iff.2 h.number⟩
  simp only [attributes, List.forall_mem_cons, asString_eq_some_iff]
  exact ⟨⟨_, h.red⟩, ⟨_, h.blue⟩, ⟨_, h.green⟩, ⟨_, h.temperature⟩, ⟨_, h.pressure⟩,
    ⟨_, h.altitude⟩, ⟨_, h.date⟩, ⟨_, h.unixTime⟩, ⟨_, h.time⟩, fun a ha => nomatch ha⟩

theorem recordOf?_added_of_malformed {d : Document} (h : ¬ WellFormed ReadsAsInt d) :
    recordOf? d.added = none :=
  if_neg (mt checkFields_eq_true_iff.1 h)

/-! ### Snapshots of added documents -/

theorem records_filterMap (ds : List Document) :
    Records ReadsAsInt ds ((ds.map Document.added).filterMap recordOf?) := by
  induction ds with
  | nil => exact .nil
  | cons d ds ih =>
    rw [List.map_cons]
    by_cases h : checkFields d.data = true
    · have hd : recordOf? d.added = some (recordOf d) := if_pos h
      rw [List.filterMap_cons_some hd]
      exact .record (holds_recordOf h) ih
    · have hd := mt checkFields_eq_true_iff.2 h
      rw [List.filterMap_cons_none (recordOf?_added_of_malformed hd)]
      exact .malformed hd ih

/-- Snapshots that differ in malformed documents contribute the same records. -/
theorem filterMap_eq_of_malformedApart {ds ds' : List Document}
    (h : MalformedApart ReadsAsInt ds ds') :
    (ds.map Document.added).filterMap recordOf? =
      (ds'.map Document.added).filterMap recordOf? := by
  induction h with
  | rel ds ds' h =>
    obtain ⟨p, d, q, rfl, rfl, hd⟩ := h
    simp [recordOf?_added_of_malformed hd]
  | refl ds => rfl
  | symm ds ds' _ ih => exact ih.symm
  | trans ds ds' ds'' _ _ ih ih' => exact ih.trans ih'

/-- The outcome depends on the documents through their contributions only. -/
theorem parseHeroesSnapshot_addedSnapshot {ι σ : Type} (ls : Listeners ι σ) (heap : Heap ι)
    (order : Shuffle (WeakObjectWrapper ι)) (c : FirebaseController ι) (s : σ)
    (ds : List Document) :
    FirebaseController.parseHeroesSnapshot ls heap order (addedSnapshot ds) c s =
      let dataList := c.dataList ++ (ds.map Document.added).filterMap recordOf?
      (c.listeners.invoke heap order (fun l s => ls.onDataListChange l dataList s) s).map
        fun s' => ({ c with dataList }, s') := by
  simp only [FirebaseController.parseHeroesSnapshot, addedSnapshot, appendChanges_eq,
    Listeners.notify_eq]
  rfl

/-- **Malformed documents are isolated.**  A snapshot of added documents performs no failing cast,
appends one record for each document with the nine strings and a `Number` that bridges to an
integer, in order, and the live listeners are told of this list; malformed documents put in or
taken out anywhere leave the outcome as it is. -/
theorem isolates_readsAsInt : Isolates ReadsAsInt := by
  intro ι σ ls heap order c s ds
  refine ⟨?_, fun ds' h => ?_⟩
  · obtain ⟨os, hos, hinvoke⟩ := MulticastDelegate.exists_invoke_eq heap c.listeners order
    refine ⟨_, os, records_filterMap ds, hos, ?_⟩
    simp only [parseHeroesSnapshot_addedSnapshot, hinvoke]
  · rw [parseHeroesSnapshot_addedSnapshot, parseHeroesSnapshot_addedSnapshot,
      filterMap_eq_of_malformedApart h]

/-- A document whose `Number` is `true`. -/
def booleanNumber : Document where
  documentID := "a"
  data a := if a = "Number" then some (.boolean true) else some (.string "20.5")

/-- The document with a boolean for a `Number` gets a record, the one with the number 1. -/
theorem not_isolates_isInteger : ¬ Isolates IsInteger := by
  intro h
  obtain ⟨⟨rs, os, hrs, -, heq⟩, -⟩ := h ℕ Unit ⟨fun _ => .data, fun _ _ s => .ok s⟩
    (fun _ => true) (Shuffle.id _) {} () [booleanNumber]
  have hbad : ¬ WellFormed IsInteger booleanNumber := by
    rintro ⟨r, hr⟩
    obtain ⟨v, hv, hint⟩ := hr.number
    cases hv
    cases hint
  have hrs : rs = [] := by
    cases hrs with
    | record hd _ => exact absurd ⟨_, hd⟩ hbad
    | malformed _ hrest => cases hrest; rfl
  have hcheck : checkFields booleanNumber.data = true :=
    checkFields_iff.2 ⟨by simp [attributes, booleanNumber, asString], 1, rfl⟩
  have hrecord : recordOf? booleanNumber.added = some (recordOf booleanNumber) := if_pos hcheck
  have hparse : FirebaseController.parseHeroesSnapshot
      (⟨fun _ => .data, fun _ _ s => .ok s⟩ : Listeners ℕ Unit) (fun _ => true) (Shuffle.id _)
      (addedSnapshot [booleanNumber]) {} () =
        .ok ({ dataList := [recordOf booleanNumber] }, ()) := by
    rw [parseHeroesSnapshot_addedSnapshot, List.map_singleton, List.filterMap_cons_some hrecord]
    rfl
  rw [hparse, hrs] at heq
  obtain ⟨s', -, hs'⟩ := Runs.map_eq_ok.1 heq.symm
  cases hs'

end SmartWeather
