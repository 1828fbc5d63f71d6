import SmartWeather.Screens.App

/-!
# The display does not depend on the order of delivery

Two runs that deliver the same documents, batched and ordered in any way, end with lists that are
permutations of each other.  Where no two times are equal the sorted lists are the same, and a
registered screen shows nothing that does not come from the sorted list of the controller's records.
-/

namespace SmartWeather

open Runs

/-- What the three screens show of the documents. -/
structure Display where
  historyIds : List String
  homeLatest : SensorData
  colorLatest : SensorData
  colorImageView : Option UIColor
  swatches : Swatch → Option UIColor

def Screens.display (s : Screens) : Display where
  historyIds := s.history.sensorDataList.map SensorData.id
  homeLatest := s.home.latestData
  colorLatest := s.color.latestData
  colorImageView := s.color.colorImageView
  swatches := s.color.swatches

/-- Screens that all show the list display what the sorted list determines. -/
theorem Screens.display_eq {lib : StandardLibrary} {dataList : List SensorData} {s : Screens}
    (h : ∀ screen, s.Shows lib dataList screen) :
    s.display =
      let sorted := newestFirst lib dataList
      ⟨sorted.map SensorData.id, sorted.head?.getD {}, sorted.head?.getD {},
        sorted.head?.bind (colorOf · 0.85), ColorScreen.paint sorted fun _ => none⟩ := by
  have hhome := h .home
  have hhistory := h .history
  obtain ⟨hlatest, himage, hswatches, -⟩ := h .color
  simp only [display, Display.mk.injEq]
  exact ⟨congrArg _ hhistory, hhome, hlatest, himage, hswatches⟩

section Delivery

variable {lib : StandardLibrary} {docs : List Document} {es : List AppEvent}

theorem records_perm (hwf : ∀ d ∈ docs, checkFields d.data = true)
    (hes : (es.flatMap AppEvent.changes).Perm (docs.map Document.added)) :
    (es.flatMap AppEvent.records).Perm (docs.map recordOf) := by
  have hadded : (docs.map Document.added).filterMap recordOf? = docs.map recordOf := by
    rw [List.filterMap_map, ← List.filterMap_eq_map]
    refine List.filterMap_congr fun d hd => ?_
    simp [recordOf?, dataChecker, Document.added, hwf d hd]
  rw [← hadded]
  refine List.Perm.trans (List.Perm.of_eq ?_) (hes.filterMap recordOf?)
  rw [List.filterMap_flatMap]
  rfl

/-- A run that delivers convertible documents goes through, and its list is made of their
records. -/
theorem delivery_ok (lib : StandardLibrary) (hwf : ∀ d ∈ docs, checkFields d.data = true)
    (hconv : ∀ d ∈ docs, Convertible (recordOf d))
    (hes : (es.flatMap AppEvent.changes).Perm (docs.map Document.added)) :
    ∃ a, run (App.step lib) {} es = .ok a ∧ App.Current lib a ∧
      a.controller.dataList.Perm (docs.map recordOf) := by
  have hperm := records_perm hwf hes
  obtain ⟨a, ha, hc, hdata⟩ : ∃ a, run (App.step lib) {} es = .ok a ∧ App.Current lib a ∧
      a.controller.dataList = es.flatMap AppEvent.records := App.run_ok fun p hp => by
    refine showable_of_convertible fun r hr => ?_
    obtain ⟨q, rfl⟩ := hp
    have hmem : r ∈ docs.map recordOf := hperm.mem_iff.1 (by
      rw [List.flatMap_append]
      exact List.mem_append_left _ hr)
    obtain ⟨d, hd, rfl⟩ := List.mem_map.1 hmem
    exact hconv d hd
  exact ⟨a, ha, hc, hdata ▸ hperm⟩

/-- **The order of delivery does not matter.**  Two runs that deliver the same documents, with
distinct times, go through and, if all screens are registered at their ends, display the same. -/
theorem display_eq_of_same_documents
    (hwf : ∀ d ∈ docs, checkFields d.data = true)
    (hconv : ∀ d ∈ docs, Convertible (recordOf d))
    (htimes : docs.Pairwise fun d e => ¬ lib.stringEq (recordOf d).unixTime (recordOf e).unixTime)
    {fs : List AppEvent} (hes : (es.flatMap AppEvent.changes).Perm (docs.map Document.added))
    (hfs : (fs.flatMap AppEvent.changes).Perm (docs.map Document.added)) :
    ∃ a b, run (App.step lib) {} es = .ok a ∧ run (App.step lib) {} fs = .ok b ∧
      ((∀ screen, screen ∈ a.controller.registered) →
        (∀ screen, screen ∈ b.controller.registered) → a.screens.display = b.screens.display) := by
  obtain ⟨a, ha, hca, hpa⟩ := delivery_ok lib hwf hconv hes
  obtain ⟨b, hb, hcb, hpb⟩ := delivery_ok lib hwf hconv hfs
  refine ⟨a, b, ha, hb, fun hrega hregb => ?_⟩
  have hshows : ∀ {c : App}, App.Current lib c → (∀ screen, screen ∈ c.controller.registered) →
      ∀ screen, c.screens.Shows lib c.controller.dataList screen := by
    intro c hc hreg screen
    obtain ⟨l, -, -, hshow, hl⟩ := hc screen
    exact hl (hreg screen) ▸ hshow
  have hinj : ∀ r ∈ docs.map recordOf, ∀ r' ∈ docs.map recordOf,
      lib.codeUnits r.unixTime = lib.codeUnits r'.unixTime → r = r' := by
    rintro _ hr _ hr'
    obtain ⟨d, hd, rfl⟩ := List.mem_map.1 hr
    obtain ⟨e, he, rfl⟩ := List.mem_map.1 hr'
    -- distinct times are promised at different places only; `R` also holds of a document and itself
    let R : Document → Document → Prop := fun d e =>
      lib.stringEq (recordOf d).unixTime (recordOf e).unixTime → recordOf d = recordOf e
    have hsymm : Std.Symm R := ⟨fun _ _ h heq => (h heq.symm).symm⟩
    have hdistinct : docs.Pairwise R := htimes.imp fun hne heq => absurd heq hne
    exact hdistinct.forall_of_forall (fun _ _ _ => rfl) hd he
  have hsorted : newestFirst lib a.controller.dataList = newestFirst lib b.controller.dataList :=
    lib.sorting.sort_eq_of_perm lib.sorting (fun r : SensorData => lib.codeUnits r.unixTime)
      (hpa.trans hpb.symm)
      fun r hr r' hr' => hinj r (hpa.mem_iff.1 hr) r' (hpa.mem_iff.1 hr')
  rw [Screens.display_eq (hshows hca hrega), Screens.display_eq (hshows hcb hregb), hsorted]

end Delivery

/-- Two documents with the times `1` and `2`. -/
def twoDocuments : List Document :=
  [⟨"a", sampleFields "UnixTime" "1"⟩, ⟨"b", sampleFields "UnixTime" "2"⟩]

/-- They are delivered one by one, before the screens appear. -/
def oneByOne : List AppEvent :=
  twoDocuments.map (fun d => .snapshot [d.added] (Shuffle.id _)) ++
    [Screen.home, .color, .history].map fun screen => .appear screen (Touch.none _)

/-- They are delivered in one snapshot, in the other order, to screens that have appeared. -/
def together : List AppEvent :=
  [Screen.home, .color, .history].map (fun screen => .appear screen (Touch.none _)) ++
    [.snapshot (twoDocuments.reverse.map Document.added) (Shuffle.id _)]

/-- All screens are registered at the end of a run with these events. -/
theorem mem_registered_of_eq {es : List AppEvent} {a : App}
    (ha : run (App.step StandardLibrary.reference) {} es = .ok a)
    (h : (run (App.step StandardLibrary.reference) {} es).toOption.map (·.controller.registered) =
      some [.home, .color, .history]) (screen : Screen) : screen ∈ a.controller.registered := by
  rw [ha] at h
  have hreg : a.controller.registered = [.home, .color, .history] := Option.some.inj h
  rw [hreg]
  cases screen <;> decide

theorem display_eq_of_same_documents_twoDocuments :
    ∃ a b, run (App.step StandardLibrary.reference) {} oneByOne = .ok a ∧
      run (App.step StandardLibrary.reference) {} together = .ok b ∧
      a.screens.display = b.screens.display := by
  have hconv : ∀ d ∈ twoDocuments, Convertible (recordOf d) := by
    intro d hd
    simp only [twoDocuments, List.mem_cons, List.not_mem_nil, or_false] at hd
    rcases hd with rfl | rfl <;> exact ⟨by decide +kernel, by decide +kernel, by decide +kernel⟩
  have hwf : ∀ d ∈ twoDocuments, checkFields d.data = true := by
    intro d hd
    simp only [twoDocuments, List.mem_cons, List.not_mem_nil, or_false] at hd
    rcases hd with rfl | rfl <;> exact checkFields_sampleFields (by decide) _
  have htimes : twoDocuments.Pairwise fun d e =>
      ¬ StandardLibrary.reference.stringEq (recordOf d).unixTime (recordOf e).unixTime := by
    simp only [twoDocuments, List.pairwise_cons, StandardLibrary.stringEq, List.mem_singleton,
      forall_eq]
    exact ⟨by decide +kernel, by simp⟩
  obtain ⟨a, b, ha, hb, h⟩ :
      ∃ a b, run (App.step StandardLibrary.reference) {} oneByOne = .ok a ∧
        run (App.step StandardLibrary.reference) {} together = .ok b ∧ _ :=
    display_eq_of_same_documents hwf hconv htimes (List.Perm.refl _) (List.Perm.swap _ _ _)
  exact ⟨a, b, ha, hb, h (mem_registered_of_eq ha (by decide +kernel))
    (mem_registered_of_eq hb (by decide +kernel))⟩

end SmartWeather
