import SmartWeather.Firestore.Delivery

/-!
# A collection that only grows

The app reads a collection to which documents are added, and never changed or deleted, by another
program; nothing is written on the device.  In such a run the view of a query without a limit only
grows, and a listener is delivered additions only (`Delivered.added`): every document of the store
exactly once, and nothing else (`run_added`).
-/

namespace SmartWeather.Firestore

open Runs DocumentViewChange

variable {K D : Type} [LinearOrder K] {q : FSTQuery K D}

namespace LocalStore

/-- The matching documents have no committed writes that have not come back. -/
def Unwritten (q : FSTQuery K D) (L : LocalStore K D) : Prop :=
  ∀ k d, L.matching q k = some d → d.hasCommittedMutations = false

theorem unwritten_empty : (LocalStore.empty : LocalStore K D).Unwritten q :=
  fun _ _ h => (nomatch h)

/-- The matching documents of `L` are in `L'`, with the same data. -/
def Grows (q : FSTQuery K D) (L L' : LocalStore K D) : Prop :=
  ∀ k d, L.matching q k = some d → dataOf (L'.matching q k) = some d.data

end LocalStore

/-- What a view of a store without writes on the device has. -/
theorem FSTView.InStep.contents_eq_queryResult {v : FSTView q} {L : LocalStore K D}
    (hv : v.InStep L) (hL : L.Unwritten q) (hlimit : q.limit = none) :
    v.documentSet.contents = (L.queryResult q).contents := by
  rw [hv.contents_eq hL, FSTQuery.limited, hlimit]

/-! ### Additions only -/

namespace DocumentReader

variable {reader : DocumentReader K D}

/-- The addition of a document of the contents. -/
def addition (reader : DocumentReader K D) (e : K × D) : DocumentChange :=
  (⟨reader.documentID e.1, reader.data e.2⟩ : Document).added

omit [LinearOrder K] in
theorem addition_injective : Function.Injective reader.addition := by
  rintro ⟨k, d⟩ ⟨k', d'⟩ h
  have hdoc := congrArg DocumentChange.document h
  have hkey : reader.documentID k = reader.documentID k' := congrArg Document.documentID hdoc
  have hdata : reader.data d = reader.data d' := congrArg Document.data hdoc
  rw [reader.documentID.injective hkey, reader.data.injective hdata]

theorem nodup_additions (t : FSTDocumentSet q) : (t.contents.map reader.addition).Nodup := by
  have hkeys : (t.contents.map Prod.fst).Nodup := by
    rw [FSTDocumentSet.contents, List.map_map]
    exact t.nodup_keys
  exact (List.Nodup.of_map _ hkeys).map addition_injective

omit [LinearOrder K] in
/-- Where data do not change or go, every change but of metadata is an addition. -/
theorem addition_of_exact {c : DocumentViewChange K D} {o n : Option (FSTDocument K D)}
    (h : c.Exact o n) (hgrow : ∀ d, o = some d → dataOf n = some d.data)
    (hmeta : c.type ≠ .metadata) : c.type = .added ∧ o = none ∧ n = some c.document := by
  obtain ⟨hnew, hold⟩ := h
  cases htype : c.type with
  | metadata => exact absurd htype hmeta
  | added =>
    rw [htype] at hold
    exact ⟨rfl, hold, by rw [hnew, after, htype]⟩
  | modified =>
    rw [htype] at hold
    obtain ⟨d, hd, hne⟩ := hold
    have hsame := hgrow d hd
    rw [hnew, after, htype] at hsame
    exact absurd (Option.some.inj hsame).symm hne
  | removed =>
    rw [htype] at hold
    have hsame := hgrow _ hold
    rw [hnew, after, htype] at hsame
    cases hsame

variable (reader) in
/-- The changes of a snapshot of contents that have grown are the additions of what is new. -/
theorem mem_documentChanges {s : ViewSnapshot q} (h : s.Faithful Exact)
    (hgrow : s.oldDocuments.contents ⊆ s.documents.contents) {c : DocumentChange} :
    c ∈ reader.documentChanges s ↔ ∃ e ∈ s.documents.contents, e ∉ s.oldDocuments.contents ∧
      reader.addition e = c := by
  have hgrow' : ∀ k d, s.oldDocuments.documentForKey k = some d →
      dataOf (s.documents.documentForKey k) = some d.data := by
    intro k d hd
    have hmem : (k, d.data) ∈ s.oldDocuments.contents :=
      FSTDocumentSet.mem_contents.2 (congrArg (Option.map FSTDocument.data) hd)
    exact FSTDocumentSet.mem_contents.1 (hgrow hmem)
  rw [reader.documentChanges_eq (h.mono Exact.applies), List.mem_map]
  constructor
  · rintro ⟨c', hc', rfl⟩
    obtain ⟨hmem, hmeta⟩ := List.mem_filter.1 hc'
    obtain ⟨hadded, hold, hnew⟩ :=
      addition_of_exact (h.means c' hmem) (hgrow' _) (by simpa using hmeta)
    refine ⟨c'.document.bare, ?_, fun hin => ?_, by rw [hadded]; rfl⟩
    · exact FSTDocumentSet.mem_contents.2 (congrArg (Option.map FSTDocument.data) hnew)
    · have hdata := FSTDocumentSet.mem_contents.1 hin
      rw [show s.oldDocuments.documentForKey c'.document.bare.1 = none from hold] at hdata
      cases hdata
  · rintro ⟨⟨k, x⟩, hmem, hnot, rfl⟩
    have hnew : dataOf (s.documents.documentForKey k) = some x := FSTDocumentSet.mem_contents.1 hmem
    obtain ⟨c, hc, rfl, hmeta⟩ := h.complete k fun heq =>
      hnot (FSTDocumentSet.mem_contents.2 (heq.trans hnew))
    obtain ⟨hadded, -, hcnew⟩ := addition_of_exact (h.means c hc) (hgrow' _) hmeta
    refine ⟨c, List.mem_filter.2 ⟨hc, by simpa using hmeta⟩, ?_⟩
    rw [hcnew] at hnew
    obtain rfl := Option.some.inj hnew
    rw [hadded]
    rfl

end DocumentReader

/-- **Every document once.**  Snapshots of growing contents have the additions of the documents, and
no other changes. -/
theorem Delivered.added (reader : DocumentReader K D) {events : List (ViewSnapshot q)}
    {contents : List (K × D)}
    (h : Delivered (· ⊆ ·) events contents) (hlimit : q.limit = none) :
    (events.flatMap reader.documentChanges).Perm (contents.map reader.addition) := by
  induction h with
  | nil => exact List.Perm.nil
  | @snoc events old new s _ hs hgrow hold hnew ih =>
    have hmeans : q.Means = Exact := by rw [FSTQuery.Means, hlimit]
    rw [hmeans] at hs
    subst hold hnew
    have hmem := fun c => DocumentReader.mem_documentChanges reader hs hgrow (c := c)
    rw [List.flatMap_append, List.flatMap_singleton]
    refine (ih.append_right _).trans ?_
    refine (List.perm_ext_iff_of_nodup ?_ (DocumentReader.nodup_additions _)).2 fun c => ?_
    · rw [List.nodup_append']
      refine ⟨DocumentReader.nodup_additions _,
        List.Nodup.of_map _ (DocumentReader.isDiff_documentChanges hs).nodup, ?_⟩
      intro c hc hc'
      obtain ⟨e, he, rfl⟩ := List.mem_map.1 hc
      obtain ⟨e', -, hnot, heq⟩ := (hmem _).1 hc'
      exact hnot (DocumentReader.addition_injective heq ▸ he)
    · rw [List.mem_append, hmem, List.mem_map, List.mem_map]
      constructor
      · rintro (⟨e, he, rfl⟩ | ⟨e, he, -, rfl⟩)
        · exact ⟨e, hgrow he, rfl⟩
        · exact ⟨e, he, rfl⟩
      · rintro ⟨e, he, rfl⟩
        by_cases hin : e ∈ s.oldDocuments.contents
        · exact Or.inl ⟨e, hin, rfl⟩
        · exact Or.inr ⟨e, he, hin, rfl⟩

/-! ### The client -/

omit [LinearOrder K] in
theorem steps_subset : Steps fun l l' : List (K × D) => l ⊆ l' :=
  ⟨fun l => List.nil_subset l, fun l => List.Subset.refl l⟩

/-- The views of a store that grows grow. -/
theorem contents_subset {L L' : LocalStore K D} (hL : L.Unwritten q) (hL' : L'.Unwritten q)
    (hgrows : L.Grows q L') (hlimit : q.limit = none) {v v' : FSTView q} (hv : v.InStep L)
    (hv' : v'.InStep L') : v.documentSet.contents ⊆ v'.documentSet.contents := by
  rw [hv.contents_eq_queryResult hL hlimit, hv'.contents_eq_queryResult hL' hlimit]
  intro e he
  rw [FSTDocumentSet.mem_contents, LocalStore.documentForKey_queryResult] at he ⊢
  obtain ⟨d, hd, hdata⟩ := Option.map_eq_some_iff.1 he
  rw [← hdata]
  exact hgrows e.1 d hd

namespace Client

variable [DecidableEq D] {ι : Type} [DecidableEq ι] (A : Sorting.Algorithm) {c c' : Client ι q}
  {e : ClientEvent ι q}

/-- Documents are added to the collection, by others. -/
def Publishes (c : Client ι q) : ClientEvent ι q → Prop
  | .storeChange store _ _ => store.Unwritten q ∧ c.store.Grows q store
  | _ => True

/-- Nothing is ever written on the device. -/
theorem unwritten_of_step (hc : c.store.Unwritten q) (he : c.Publishes e)
    (h : c.step A e = .ok c') : c'.store.Unwritten q := by
  rw [store_of_step A h]
  cases e with
  | storeChange store changes targetChange => exact he.1
  | _ => exact hc

theorem along_allowed_subset (hlimit : q.limit = none) {L : LocalStore K D} (hL : L.Unwritten q)
    {es : List (ClientEvent ι q)} (hes : Along (step A) Publishes (start L) es) :
    Along (step A) (Allowed (· ⊆ ·)) (start L) es := by
  refine hes.imp (I := fun c => c.store.Unwritten q) hL (fun c e hc he => ?_)
    fun c e c' hc he h => unwritten_of_step A hc he h
  cases e with
  | storeChange store changes targetChange =>
    exact fun v v' hv hv' => contents_subset hc he.1 he.2 hlimit hv hv'
  | _ => trivial

theorem run_publishes_ok {L : LocalStore K D} {es : List (ClientEvent ι q)}
    (hlimit : q.limit = none) (hL : L.Unwritten q)
    (hvalid : Along (step A) Valid (start L) es) (hes : Along (step A) Publishes (start L) es) :
    ∃ c, run (step A) (start L) es = .ok c ∧ c.store.Unwritten q ∧
      c.store = es.foldl ClientEvent.storeAfter L ∧ c.InStep (· ⊆ ·) := by
  obtain ⟨c, hc, hinstep, -, hstore, -⟩ :=
    run_ok A steps_subset hvalid (along_allowed_subset A hlimit hL hes)
  have hunwritten : c.store.Unwritten q := hes.run_invariant (I := fun c => c.store.Unwritten q) hL
    (fun c e c' => unwritten_of_step A) hc
  exact ⟨c, hc, hunwritten, hstore, hinstep⟩

/-- **No document is lost and none comes twice.**  In every run in which documents are added by
others, a listener that has been called is delivered the addition of every matching document of the
store of the last change exactly once, and nothing else. -/
theorem run_added (reader : DocumentReader K D) {L : LocalStore K D} {es : List (ClientEvent ι q)}
    (hlimit : q.limit = none) (hL : L.Unwritten q)
    (hvalid : Along (step A) Valid (start L) es) (hes : Along (step A) Publishes (start L) es) :
    ∃ c, run (step A) (start L) es = .ok c ∧ c.store = es.foldl ClientEvent.storeAfter L ∧
      ∀ info, c.info = some info → ∀ e ∈ info.listeners,
        (e.2.listener.options.waitForSyncWhenOnline = false ∨
          e.2.listener.raisedInitialEvent = true) →
        (e.2.events.flatMap reader.documentChanges).Perm
          ((c.store.queryResult q).contents.map reader.addition) := by
  obtain ⟨c, hc, hunwritten, hstore, hinstep⟩ := run_publishes_ok A hlimit hL hvalid hes
  refine ⟨c, hc, hstore, fun info hinfo e he hcalled => ?_⟩
  have hi := hinstep info hinfo
  rw [← hi.view.contents_eq_queryResult hunwritten hlimit]
  exact ((hi.listeners e he).delivered hcalled).added reader hlimit

end Client

/-! ### A run -/

/-- A document that is put under a new key lets the store grow. -/
theorem LocalStore.grows_put {L : LocalStore K D} {d : FSTDocument K D}
    (h : L.docs.find d.key = none) : L.Grows q (L.put d) := by
  intro k e he
  have hne : k ≠ d.key := by
    rintro rfl
    rw [matching, h] at he
    cases he
  rw [matching, put, SortedMap.find_insert, if_neg hne]
  exact congrArg dataOf he

theorem LocalStore.Unwritten.put {L : LocalStore K D} (hL : L.Unwritten q) {d : FSTDocument K D}
    (h : d.hasCommittedMutations = false) : (L.put d).Unwritten q := by
  intro k e he
  rw [matching, LocalStore.put, SortedMap.find_insert] at he
  split_ifs at he with hk
  · obtain rfl := Option.some.inj (Option.eq_some_of_filter_eq_some he)
    exact h
  · exact hL k e he

/-- The store takes a new document that others have written. -/
theorem publishes_put {L : LocalStore K D} {d : FSTDocument K D} (hL : L.Unwritten q)
    (h : d.hasCommittedMutations = false) (hnew : L.docs.find d.key = none) :
    (L.put d).Unwritten q ∧ L.Grows q (L.put d) := ⟨hL.put h, LocalStore.grows_put hnew⟩

/-- A listener is added, and two documents come; the backend is current with the second one. -/
def growingRun : List (ClientEvent ℕ numbers) :=
  [.addListener 0 {} ∅,
    .storeChange (LocalStore.empty.put ⟨"a", 7, .synced⟩)
      (LocalStore.report "a" (.document ⟨"a", 7, .synced⟩)) none,
    .storeChange ((LocalStore.empty.put ⟨"a", 7, .synced⟩).put ⟨"b", 8, .synced⟩)
      (LocalStore.report "b" (.document ⟨"b", 8, .synced⟩)) (some ⟨true, {"a", "b"}, {"b"}, ∅⟩)]

theorem growingRun_valid :
    Along (Client.step Sorting.insertion) Client.Valid (.start .empty) growingRun := by
  refine Client.along_of_inTurn _ (fun _ _ => ReportsChange.valid) ⟨trivial, ⟨?_, ?_⟩, ⟨?_, ?_⟩,
    trivial⟩
  · exact LocalStore.reports_put _ _
  · exact fun _ h => (Option.some_ne_none _ h.symm).elim
  · exact LocalStore.reports_put _ _
  · rintro _ ⟨⟩
    decide

theorem growingRun_publishes :
    Along (Client.step Sorting.insertion) Client.Publishes (.start .empty) growingRun := by
  have hempty : (LocalStore.empty : LocalStore String ℤ).Unwritten numbers :=
    LocalStore.unwritten_empty
  refine Client.along_of_inTurn (Q := fun L e => (Client.start L).Publishes e) _
    (fun _ e h => by cases e <;> exact h) ⟨trivial, ?_, ?_, trivial⟩
  · exact publishes_put hempty rfl rfl
  · exact publishes_put (hempty.put rfl) rfl rfl

theorem run_added_growing :
    ∃ c, run (Client.step Sorting.insertion) (.start .empty) growingRun = .ok c ∧
      c.store = growingRun.foldl ClientEvent.storeAfter .empty ∧
      ∀ info, c.info = some info → ∀ e ∈ info.listeners,
        (e.2.listener.options.waitForSyncWhenOnline = false ∨
          e.2.listener.raisedInitialEvent = true) →
        (e.2.events.flatMap numberReader.documentChanges).Perm
          ((c.store.queryResult numbers).contents.map numberReader.addition) :=
  Client.run_added Sorting.insertion numberReader rfl LocalStore.unwritten_empty growingRun_valid
    growingRun_publishes

end SmartWeather.Firestore
