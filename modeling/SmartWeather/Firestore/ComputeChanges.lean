import SmartWeather.Firestore.View

/-!
# What the computation of a view's changes computes

The loop over the changed documents is described by a lookup (`next`, `Turned`): a document of the
query is shown as it is in the store, unless the view waits for its synced version.  `truncate`
leaves the first documents.  `computeChanges_spec` puts the two together: no assertion fails, save
that a refill may not ask for another refill, and the set of changes describes the way from the
documents of the view to the new documents, however many changes a document went through.
-/

namespace SmartWeather.Firestore

open DocumentViewChange DocumentViewChangeSet

variable {K D : Type} [LinearOrder K]

/-- Each document is filed under its own key. -/
def Keyed (docChanges : SortedMap K (FSTMaybeDocument K D)) : Prop :=
  ∀ k d, docChanges.find k = some (.document d) → d.key = k

/-- The keys are those of the documents with local mutations. -/
def MutatedKeys (keys : Finset K) (docs : Lookup K D) : Prop :=
  ∀ k, k ∈ keys ↔ ∃ d, docs k = some d ∧ d.hasLocalMutations = true

namespace FSTViewDocumentChanges

variable {q : FSTQuery K D}

/-- The documents by key. -/
abbrev lookup (c : FSTViewDocumentChanges q) : Lookup K D := c.documentSet.documentForKey

end FSTViewDocumentChanges

section Put

variable {q : FSTQuery K D} {acc : FSTViewDocumentChanges q} {k : K}
  {newDoc : Option (FSTDocument K D)}

theorem lookup_put (hkey : ∀ d, newDoc = some d → d.key = k) :
    (acc.put k newDoc).lookup = Function.update acc.lookup k newDoc := by
  cases newDoc with
  | none => exact FSTDocumentSet.documentForKey_remove_eq acc.documentSet k
  | some d =>
    rw [← hkey d rfl]
    exact FSTDocumentSet.documentForKey_add_eq acc.documentSet d

theorem MutatedKeys.put (h : MutatedKeys acc.mutatedKeys acc.lookup)
    (hkey : ∀ d, newDoc = some d → d.key = k) :
    MutatedKeys (acc.put k newDoc).mutatedKeys (acc.put k newDoc).lookup := by
  rw [lookup_put hkey]
  intro k'
  cases newDoc with
  | none => by_cases hk : k' = k <;> simp [FSTViewDocumentChanges.put, hk, h k']
  | some d =>
    by_cases hk : k' = k <;> cases hd : d.hasLocalMutations <;>
      simp [FSTViewDocumentChanges.put, hk, hd, h k']

end Put

namespace FSTView

variable {q : FSTQuery K D} [DecidableEq D] (v : FSTView q)

/-! ### One document -/

/-- The document that the view has after a change in the store. -/
def next (oldDoc : Option (FSTDocument K D)) (m : FSTMaybeDocument K D) :
    Option (FSTDocument K D) :=
  match v.calculateChange oldDoc (q.select m) with
  | none => oldDoc
  | some _ => q.select m

/-- The change of a document asks for a refill. -/
def turnRefills (oldDocumentSet : FSTDocumentSet q) (kv : K × FSTMaybeDocument K D) : Bool :=
  match v.calculateChange (oldDocumentSet.documentForKey kv.1) (q.select kv.2) with
  | none => false
  | some change => refills q (q.lastDocInLimit oldDocumentSet) change

variable {v} {k : K} {oldDoc newDoc : Option (FSTDocument K D)} {c : DocumentViewChange K D}

/-- A calculated change says in full what happened. -/
theorem calculateChange_exact (hold : ∀ d, oldDoc = some d → d.key = k)
    (hnew : ∀ d, newDoc = some d → d.key = k) (h : v.calculateChange oldDoc newDoc = some c) :
    c.document.key = k ∧ c.Exact oldDoc newDoc := by
  unfold calculateChange at h
  cases oldDoc with
  | none =>
    cases newDoc with
    | none => cases h
    | some e =>
      cases h
      exact ⟨hnew e rfl, rfl, rfl⟩
  | some d =>
    cases newDoc with
    | none =>
      cases h
      exact ⟨hold d rfl, rfl, rfl⟩
    | some e =>
      by_cases hdata : d.data = e.data
      · simp only [hdata, ne_eq, not_true_eq_false, if_false] at h
        split at h
        · cases h
          exact ⟨hnew e rfl, rfl, d, rfl, hdata⟩
        · cases h
      · simp only [ne_eq, hdata, not_false_eq_true, if_true] at h
        split at h
        · cases h
          exact ⟨hnew e rfl, rfl, d, rfl, hdata⟩
        · cases h

/-- Without a change the view shows the data of the store, or waits for the synced version. -/
theorem calculateChange_none (h : v.calculateChange oldDoc newDoc = none) :
    (oldDoc = none ∧ newDoc = none) ∨ ∃ d e, oldDoc = some d ∧ newDoc = some e ∧
      (d.data = e.data ∨ shouldWaitForSyncedDocument e d = true) := by
  unfold calculateChange at h
  cases oldDoc with
  | none =>
    cases newDoc with
    | none => exact Or.inl ⟨rfl, rfl⟩
    | some e => cases h
  | some d =>
    cases newDoc with
    | none => cases h
    | some e =>
      refine Or.inr ⟨d, e, rfl, rfl, ?_⟩
      by_cases hdata : d.data = e.data
      · exact Or.inl hdata
      · simp only [ne_eq, hdata, not_false_eq_true, if_true] at h
        split at h
        · cases h
        · rename_i hwait
          exact Or.inr (by simpa using hwait)

/-- A document whose synced version the view waits for is not modified. -/
theorem not_shouldWait_of_modified {d e : FSTDocument K D}
    (h : v.calculateChange (some d) (some e) = some c) (hc : c.type = .modified) :
    d.data ≠ e.data ∧ shouldWaitForSyncedDocument e d = false := by
  unfold calculateChange at h
  by_cases hdata : d.data = e.data
  · simp only [hdata, ne_eq, not_true_eq_false, if_false] at h
    split at h
    · cases h
      cases hc
    · cases h
  · refine ⟨hdata, ?_⟩
    simp only [ne_eq, hdata, not_false_eq_true, if_true] at h
    split at h
    · rename_i hwait
      simpa using hwait
    · cases h

omit [LinearOrder K] [DecidableEq D] in
theorem select_key {m : FSTMaybeDocument K D} (hm : ∀ d, m = .document d → d.key = k) :
    ∀ d, q.select m = some d → d.key = k := by
  intro d hd
  cases m with
  | document e =>
    rw [FSTQuery.select] at hd
    split at hd
    · cases hd
      exact hm d rfl
    · cases hd
  | deletedDocument k => cases hd
  | unknownDocument k => cases hd

/-! ### The loop -/

/-- What the loop over the changed documents `l` has done. -/
structure Turned (R : Meaning K D) (v : FSTView q) (base : Lookup K D)
    (old : FSTDocumentSet q) (l : List (K × FSTMaybeDocument K D))
    (acc acc' : FSTViewDocumentChanges q) : Prop where
  describes : acc'.changeSet.Describes R base acc'.lookup
  next : ∀ k m, (k, m) ∈ l → acc'.lookup k = v.next (old.documentForKey k) m
  untouched : ∀ k, k ∉ l.map Prod.fst → acc'.lookup k = acc.lookup k
  mutated : MutatedKeys acc.mutatedKeys acc.lookup → MutatedKeys acc'.mutatedKeys acc'.lookup
  needsRefill : acc'.needsRefill = (acc.needsRefill || l.any (v.turnRefills old))

variable {R : Meaning K D} {P : DocumentViewChangeSet K D → K → Prop} {base : Lookup K D}
  {old : FSTDocumentSet q} {acc : FSTViewDocumentChanges q} {m : FSTMaybeDocument K D}

/-- **One turn.** -/
theorem turn_ok (hmerge : Mergeable R P) (hacc : acc.changeSet.Describes R base acc.lookup)
    (hP : P acc.changeSet k) (hk : acc.lookup k = old.documentForKey k)
    (hm : ∀ d, m = .document d → d.key = k) :
    ∃ acc', v.turn old acc (k, m) = .ok acc' ∧ Turned R v base old [(k, m)] acc acc' ∧
      ∀ k', k' ≠ k → P acc.changeSet k' → P acc'.changeSet k' := by
  have hcheck : checkKey k m = .ok () := by
    cases m with
    | document d => exact if_pos (hm d rfl).symm
    | deletedDocument k => rfl
    | unknownDocument k => rfl
  cases hc : v.calculateChange (old.documentForKey k) (q.select m) with
  | none =>
    refine ⟨acc, ?_, ⟨hacc, ?_, fun _ _ => rfl, id, ?_⟩, fun _ _ h => h⟩
    · simp only [turn, hcheck, hc]
      rfl
    · intro k' m' hmem
      obtain ⟨rfl, rfl⟩ := Prod.mk.inj (List.mem_singleton.1 hmem)
      rw [hk, FSTView.next, hc]
    · simp [turnRefills, hc]
  | some c =>
    obtain ⟨hkey, hexact⟩ := calculateChange_exact (fun d hd => FSTDocumentSet.key_eq hd)
      (select_key hm) hc
    obtain ⟨s', hs', hdesc, hrest⟩ := hmerge.addChange c hacc (by rwa [hkey])
      (hmerge.of_exact (by rw [hkey, hk, ← hexact.1]; exact hexact))
    rw [hkey, ← hexact.1] at hdesc
    have hnext : v.next (old.documentForKey k) m = q.select m := by
      rw [FSTView.next, hc]
    have hrefill : (acc.needsRefill || refills q (q.lastDocInLimit old) c) =
        (acc.needsRefill || [(k, m)].any (v.turnRefills old)) := by
      simp [turnRefills, hc]
    have hput : (acc.put k (q.select m)).lookup = Function.update acc.lookup k (q.select m) :=
      lookup_put (select_key hm)
    refine ⟨{ acc.put k (q.select m) with
        changeSet := s', needsRefill := acc.needsRefill || refills q (q.lastDocInLimit old) c },
      ?_, ⟨?_, ?_, ?_, fun hmut => hmut.put (select_key hm), hrefill⟩,
      fun k' hk' h => hrest k' (by rwa [hkey]) h⟩
    · simp only [turn, hcheck, hc, hs']
      rfl
    · show s'.Describes R base (acc.put k (q.select m)).lookup
      rwa [hput]
    · intro k' m' hmem
      obtain ⟨rfl, rfl⟩ := Prod.mk.inj (List.mem_singleton.1 hmem)
      show (acc.put k' (q.select m')).lookup k' = _
      rw [hput, Function.update_self, hnext]
    · intro k' hk'
      show (acc.put k (q.select m)).lookup k' = _
      rw [hput, Function.update_of_ne (by simpa using hk')]

/-- **The loop.** -/
theorem foldlM_turn_ok (hmerge : Mergeable R P) {l : List (K × FSTMaybeDocument K D)}
    (hnodup : (l.map Prod.fst).Nodup)
    (hl : ∀ k m, (k, m) ∈ l → ∀ d, m = .document d → d.key = k)
    (hacc : acc.changeSet.Describes R base acc.lookup)
    (hP : ∀ k ∈ l.map Prod.fst, P acc.changeSet k ∧ acc.lookup k = old.documentForKey k) :
    ∃ acc', l.foldlM (v.turn old) acc = .ok acc' ∧ Turned R v base old l acc acc' := by
  induction l generalizing acc with
  | nil =>
    exact ⟨acc, rfl, hacc, fun _ _ h => (List.not_mem_nil h).elim, fun _ _ => rfl, id, by simp⟩
  | cons kv l ih =>
    obtain ⟨k, m⟩ := kv
    rw [List.map_cons, List.nodup_cons] at hnodup
    obtain ⟨hPk, hk⟩ := hP k List.mem_cons_self
    obtain ⟨mid, hmid, hturn, hrest⟩ :=
      turn_ok (v := v) hmerge hacc hPk hk (hl k m List.mem_cons_self)
    -- the turn leaves the documents of the later turns alone
    have hlater : ∀ k' ∈ l.map Prod.fst, P mid.changeSet k' ∧
        mid.lookup k' = old.documentForKey k' := by
      intro k' hk'
      have hne : k' ≠ k := fun h => hnodup.1 (h ▸ hk')
      obtain ⟨hPk', hk'old⟩ := hP k' (List.mem_cons_of_mem _ hk')
      exact ⟨hrest k' hne hPk', by rw [hturn.untouched k' (by simpa using hne), hk'old]⟩
    obtain ⟨acc', hacc', hloop⟩ := ih hnodup.2
      (fun k m h => hl k m (List.mem_cons_of_mem _ h)) hturn.describes hlater
    refine ⟨acc', by rw [List.foldlM_cons, hmid]; exact hacc', hloop.describes, ?_, ?_,
      fun h => hloop.mutated (hturn.mutated h), ?_⟩
    · intro k' m' hmem
      rcases List.mem_cons.1 hmem with heq | hmem
      · cases heq
        rw [hloop.untouched k hnodup.1, hturn.next k m (List.mem_singleton_self _)]
      · exact hloop.next k' m' hmem
    · intro k' hk'
      rw [List.map_cons, List.mem_cons, not_or] at hk'
      rw [hloop.untouched k' hk'.2, hturn.untouched k' (by simpa using hk'.1)]
    · rw [hloop.needsRefill, hturn.needsRefill, Bool.or_assoc]
      simp

/-! ### The documents beyond the limit -/

omit [DecidableEq D] in
theorem truncate_ok (i : ℕ) (hacc : acc.changeSet.Describes Applies base acc.lookup) :
    ∃ acc', truncate i acc = .ok acc' ∧ acc'.changeSet.Describes Applies base acc'.lookup ∧
      acc'.documentSet.documents =
        acc.documentSet.documents.take (acc.documentSet.documents.length - i) ∧
      (MutatedKeys acc.mutatedKeys acc.lookup → MutatedKeys acc'.mutatedKeys acc'.lookup) ∧
      acc'.needsRefill = acc.needsRefill := by
  induction i generalizing acc with
  | zero => exact ⟨acc, rfl, hacc, by simp, id, rfl⟩
  | succ i ih =>
    cases hlast : acc.documentSet.lastDocument with
    | none =>
      have hnil : acc.documentSet.documents = [] := List.getLast?_eq_none_iff.1 hlast
      exact ⟨acc, by rw [truncate, hlast], hacc, by simp [hnil], id, rfl⟩
    | some d =>
      have hd : acc.lookup d.key = some d :=
        FSTDocumentSet.mem_documents.1 (List.mem_of_getLast? hlast)
      obtain ⟨s', hs', hdesc⟩ := addChange_describes hacc ⟨d, .removed⟩ ⟨rfl, by simp [hd]⟩
      have hremove : (acc.put d.key none).lookup = Function.update acc.lookup d.key none :=
        lookup_put (by simp)
      let mid : FSTViewDocumentChanges q := { acc.put d.key none with changeSet := s' }
      have hmid : mid.documentSet.documents = acc.documentSet.documents.dropLast := by
        show (acc.documentSet.remove d.key).documents = _
        rw [FSTDocumentSet.documents_remove hd]
        exact SortedList.erase_getLast acc.documentSet.increasing hlast
      obtain ⟨acc', hacc', hdesc', hdocs, hmut, hrefill⟩ := @ih mid (by
        show s'.Describes Applies base (acc.put d.key none).lookup
        rwa [hremove])
      refine ⟨acc', ?_, hdesc', ?_, fun h => hmut (h.put (by simp)), hrefill⟩
      · rw [truncate, hlast]
        show acc.changeSet.addChange _ >>= _ = _
        rw [hs']
        exact hacc'
      · rw [hdocs, hmid, List.length_dropLast, List.dropLast_eq_take, List.take_take]
        congr 1
        omega

omit [DecidableEq D] in
theorem enforceLimit_ok (hacc : acc.changeSet.Describes Applies base acc.lookup) :
    ∃ acc', enforceLimit acc = .ok acc' ∧ acc'.changeSet.Describes Applies base acc'.lookup ∧
      acc'.documentSet.documents = q.limited acc.documentSet.documents ∧
      (MutatedKeys acc.mutatedKeys acc.lookup → MutatedKeys acc'.mutatedKeys acc'.lookup) ∧
      acc'.needsRefill = acc.needsRefill := by
  rcases hq : q.limit with _ | _ | n
  · exact ⟨acc, by simp only [enforceLimit, hq], hacc, by simp only [FSTQuery.limited, hq], id, rfl⟩
  · exact ⟨acc, by simp only [enforceLimit, hq], hacc, by simp only [FSTQuery.limited, hq], id, rfl⟩
  · obtain ⟨acc', hacc', hdesc, hdocs, hmut, hrefill⟩ :=
      truncate_ok (acc.documentSet.count - (n + 1)) hacc
    refine ⟨acc', by simp only [enforceLimit, hq, hacc'], hdesc, ?_, hmut, hrefill⟩
    simp only [FSTQuery.limited, hq, hdocs, FSTDocumentSet.count_eq_length]
    rw [List.take_eq_take_iff]
    omega

/-! ### The whole computation -/

/-- What a computation on top of `start` has computed. -/
structure Computed (R : Meaning K D) (v : FSTView q) (base : Lookup K D)
    (start : FSTViewDocumentChanges q) (docChanges : SortedMap K (FSTMaybeDocument K D))
    (r : FSTViewDocumentChanges q) : Prop where
  describes : r.changeSet.Describes R base r.lookup
  mutated : MutatedKeys start.mutatedKeys start.lookup → MutatedKeys r.mutatedKeys r.lookup
  needsRefill : r.needsRefill = docChanges.entries.any (v.turnRefills start.documentSet)
  /-- The documents are those of the store that the limit leaves. -/
  documents : ∃ s : FSTDocumentSet q, r.documentSet.documents = q.limited s.documents ∧
    ∀ k, s.documentForKey k = match docChanges.find k with
      | none => start.documentSet.documentForKey k
      | some m => v.next (start.documentSet.documentForKey k) m

variable {docChanges : SortedMap K (FSTMaybeDocument K D)}
  {previousChanges : Option (FSTViewDocumentChanges q)}

/-- The loop over all changed documents. -/
theorem loop_ok (hmerge : Mergeable R P) (hkeyed : Keyed docChanges)
    (hstart : (v.start previousChanges).changeSet.Describes R base (v.start previousChanges).lookup)
    (hP : ∀ k, P (v.start previousChanges).changeSet k) :
    ∃ acc, docChanges.entries.foldlM (v.turn (v.start previousChanges).documentSet)
        (v.start previousChanges) = .ok acc ∧
      Turned R v base (v.start previousChanges).documentSet docChanges.entries
        (v.start previousChanges) acc := by
  refine foldlM_turn_ok hmerge docChanges.nodup_keys (fun k m hmem d hd => ?_) hstart
    fun k _ => ⟨hP k, rfl⟩
  exact hkeyed k d (by rw [← hd, SortedMap.mem_entries.1 hmem])

/-- The document set after the loop. -/
theorem Turned.lookup_eq {acc' : FSTViewDocumentChanges q}
    (h : Turned R v base acc.documentSet docChanges.entries acc acc') (k : K) :
    acc'.lookup k = match docChanges.find k with
      | none => acc.documentSet.documentForKey k
      | some m => v.next (acc.documentSet.documentForKey k) m := by
  cases hfind : docChanges.find k with
  | none =>
    refine h.untouched k fun hk => ?_
    obtain ⟨⟨k', m⟩, hmem, rfl⟩ := List.mem_map.1 hk
    rw [SortedMap.mem_entries.1 hmem] at hfind
    cases hfind
  | some m => exact h.next k m (SortedMap.mem_entries.2 hfind)

variable (previousChanges) in
/-- **The computation of changes.**  The only assertion that can fail is that a refill may not ask
for another refill. -/
theorem computeChanges_ok (hkeyed : Keyed docChanges)
    (hstart : (v.start previousChanges).changeSet.Describes Applies base
      (v.start previousChanges).lookup) :
    ∃ r, Computed Applies v base (v.start previousChanges) docChanges r ∧
      v.computeChanges docChanges previousChanges =
        if r.needsRefill ∧ previousChanges.isSome then .error .refilledTwice else .ok r := by
  obtain ⟨acc, hacc, hloop⟩ := loop_ok mergeable_applies hkeyed hstart fun _ => trivial
  obtain ⟨r, hr, hdesc, hdocs, hmut, hrefill⟩ := enforceLimit_ok hloop.describes
  have hstartRefill : (v.start previousChanges).needsRefill = false := by
    cases previousChanges <;> rfl
  refine ⟨r, ⟨hdesc, fun h => hmut (hloop.mutated h), ?_, acc.documentSet, hdocs,
    hloop.lookup_eq⟩, ?_⟩
  · rw [hrefill, hloop.needsRefill, hstartRefill, Bool.false_or]
  · simp only [computeChanges, hacc, hr, bind, Except.bind]
    split <;> rfl

omit [DecidableEq D] in
theorem refills_none (c : DocumentViewChange K D) : refills q none c = false := by
  unfold refills
  cases c.type <;> rfl

/-- A query without a limit has exact changes. -/
theorem computeChanges_exact (hkeyed : Keyed docChanges) (hlimit : q.limit = none) :
    ∃ r, Computed Exact v v.documentSet.documentForKey (v.start none) docChanges r ∧
      r.needsRefill = false ∧ v.computeChanges docChanges none = .ok r := by
  have hstart : (v.start none).changeSet.Describes Exact v.documentSet.documentForKey
      (v.start none).lookup := describes_empty _
  obtain ⟨acc, hacc, hloop⟩ := loop_ok mergeable_exact hkeyed hstart fun _ => rfl
  have hrefill : ∀ kv, v.turnRefills v.documentSet kv = false := by
    intro kv
    rw [turnRefills]
    split
    · rfl
    · rw [FSTQuery.lastDocInLimit, hlimit, refills_none]
  have hany : acc.needsRefill = docChanges.entries.any (v.turnRefills v.documentSet) :=
    hloop.needsRefill
  refine ⟨acc, ⟨hloop.describes, hloop.mutated, hany, acc.documentSet, ?_, hloop.lookup_eq⟩, ?_, ?_⟩
  · rw [FSTQuery.limited, hlimit]
  · rw [hany, List.any_eq_false]
    simp [hrefill]
  · simp only [computeChanges, hacc, enforceLimit, hlimit, bind, Except.bind]
    exact if_neg (by simp)

end FSTView

end SmartWeather.Firestore
