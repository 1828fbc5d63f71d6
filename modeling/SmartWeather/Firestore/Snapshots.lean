import SmartWeather.Firestore.ComputeChanges
import SmartWeather.Library.Runs

/-!
# The snapshots of a view

`ViewSnapshot.Faithful` says that the changes of a snapshot are what happened between its old and
its new documents: at most one for each document, in the order of the snapshot, and none left out
but those that leave the data alone.  Every snapshot that a view issues is faithful
(`applyChangesToDocuments_ok`), and so it is without its metadata changes.  `RemoteTarget` is what
the backend says besides, and `remoteTarget_of_applyChangesToDocuments` what a view keeps of it.
-/

namespace SmartWeather.Firestore

open Runs DocumentViewChange DocumentViewChangeSet

variable {K D : Type} [LinearOrder K] {q : FSTQuery K D}

/-! ### The order of changes -/

/-- The order of changes as a comparator. -/
def FSTQuery.changeComparator (q : FSTQuery K D) :
    DocumentViewChange K D → DocumentViewChange K D → Ordering :=
  compareLex (fun a b => compare a.type.position b.type.position)
    fun a b => q.comparator a.document b.document

instance : Std.TransCmp q.changeComparator := by
  have hposition : Std.TransCmp fun a b : DocumentViewChange K D =>
      compare a.type.position b.type.position :=
    SortedList.transCmp_on (fun a : DocumentViewChange K D => a.type.position) compare
  have hdocument : Std.TransCmp fun a b : DocumentViewChange K D =>
      q.comparator a.document b.document :=
    SortedList.transCmp_on DocumentViewChange.document q.comparator
  exact inferInstanceAs (Std.TransCmp (compareLex _ _))

theorem changeLt_eq : q.changeLt = fun a b => q.changeComparator a b == .lt := by
  funext a b
  show _ = ((compare a.type.position b.type.position).then
    (q.comparator a.document b.document) == .lt)
  rw [FSTQuery.changeLt]
  rcases lt_trichotomy a.type.position b.type.position with h | h | h
  · simp [h, h.ne, compare_lt_iff_lt.2 h]
  · simp [h]
  · simp [h.ne', h.not_gt, compare_gt_iff_gt.2 h]

/-- Changes of different documents, sorted, are strictly increasing. -/
theorem pairwise_sort (A : Sorting.Algorithm) {changes : List (DocumentViewChange K D)}
    (hnodup : (changes.map fun c => c.document.key).Nodup) :
    (A.sort q.changeLt changes).Pairwise fun a b => q.changeComparator a b = .lt := by
  have hperm := A.perm q.changeLt changes
  have hkeys : (A.sort q.changeLt changes).Pairwise fun a b => a.document.key ≠ b.document.key :=
    List.pairwise_map.1 ((hperm.map _).nodup_iff.2 hnodup)
  have hsorted := A.ordered q.changeLt changes (by
    rw [changeLt_eq]
    exact Sorting.strictWeakOrder_of_transCmp q.changeComparator)
  refine (hsorted.and hkeys).imp fun {a b} h => ?_
  obtain ⟨hba, hne⟩ := h
  rw [changeLt_eq, beq_eq_false_iff_ne] at hba
  cases hab : q.changeComparator a b with
  | lt => rfl
  | eq =>
    -- documents that compare as equal have one key
    exact absurd (FSTQuery.key_eq_of_comparator (Ordering.then_eq_eq.1 hab).2) hne
  | gt => exact absurd (Std.OrientedCmp.lt_of_gt hab) hba

/-! ### Faithful snapshots -/

/-- The data of a document that may be there. -/
def dataOf (d : Option (FSTDocument K D)) : Option D := d.map FSTDocument.data

/-- The changes of the snapshot are what happened between its old and its new documents. -/
structure ViewSnapshot.Faithful (R : Meaning K D) (s : ViewSnapshot q) : Prop where
  nodup : (s.documentChanges.map fun c => c.document.key).Nodup
  ordered : s.documentChanges.Pairwise fun a b => q.changeComparator a b = .lt
  means : ∀ c ∈ s.documentChanges, R c (s.oldDocuments.documentForKey c.document.key)
    (s.documents.documentForKey c.document.key)
  complete : ∀ k, dataOf (s.oldDocuments.documentForKey k) ≠
      dataOf (s.documents.documentForKey k) →
    ∃ c ∈ s.documentChanges, c.document.key = k ∧ c.type ≠ .metadata

theorem ViewSnapshot.Faithful.mono {R R' : Meaning K D} {s : ViewSnapshot q} (h : s.Faithful R)
    (hR : ∀ {c : DocumentViewChange K D} {o n}, R c o n → R' c o n) : s.Faithful R' :=
  ⟨h.nodup, h.ordered, fun c hc => hR (h.means c hc), h.complete⟩

omit [LinearOrder K] in
/-- A metadata change leaves the data alone. -/
theorem dataOf_eq_of_metadata {c : DocumentViewChange K D} {o n : Option (FSTDocument K D)}
    (h : c.Applies o n) (hc : c.type = .metadata) : dataOf o = dataOf n := by
  obtain ⟨hn, ho⟩ := h
  rw [hc] at ho
  obtain ⟨d, hd, hdata⟩ := ho
  have hafter : n = some c.document := by rw [hn, after, hc]
  rw [hafter, hd]
  exact congrArg some hdata

/-- What a described set of changes gives a snapshot. -/
theorem faithful_of_describes (A : Sorting.Algorithm) {R : Meaning K D}
    (hR : ∀ {c : DocumentViewChange K D} {o n}, R c o n → c.Applies o n)
    {set : DocumentViewChangeSet K D} {s : ViewSnapshot q}
    (h : set.Describes R s.oldDocuments.documentForKey s.documents.documentForKey)
    (hs : s.documentChanges = A.sort q.changeLt set.getChanges) : s.Faithful R := by
  have hperm : s.documentChanges.Perm set.getChanges := hs ▸ A.perm _ _
  refine ⟨(hperm.map _).nodup_iff.2 h.nodup_keys, hs ▸ pairwise_sort A h.nodup_keys, ?_, ?_⟩
  · exact fun c hc => h.of_mem (hperm.mem_iff.1 hc)
  · intro k hk
    obtain ⟨c, hc, rfl⟩ := h.exists_of_ne fun heq => hk (congrArg dataOf heq)
    refine ⟨c, hperm.mem_iff.2 hc, rfl, fun hmeta => hk ?_⟩
    exact dataOf_eq_of_metadata (hR (h.of_mem hc)) hmeta

/-- A snapshot without its metadata changes. -/
def ViewSnapshot.stripMetadata (s : ViewSnapshot q) : ViewSnapshot q :=
  { s with
    documentChanges := s.documentChanges.filter fun c => c.type ≠ .metadata
    excludesMetadataChanges := true }

theorem ViewSnapshot.Faithful.stripMetadata {R : Meaning K D} {s : ViewSnapshot q}
    (h : s.Faithful R) : s.stripMetadata.Faithful R where
  nodup := (List.filter_sublist.map _).nodup h.nodup
  ordered := h.ordered.filter _
  means c hc := h.means c (List.mem_filter.1 hc).1
  complete k hk := by
    obtain ⟨c, hc, hck, hmeta⟩ := h.complete k hk
    exact ⟨c, List.mem_filter.2 ⟨hc, by simpa using hmeta⟩, hck, hmeta⟩

/-! ### What the backend says -/

/-- What the backend has said of the remote target of a query: whether it is current, and which
documents are in it. -/
structure RemoteTarget (K : Type) where
  current : Bool := false
  documents : Finset K := ∅
  deriving DecidableEq

/-- The remote target after a change. -/
def RemoteTarget.change (target : RemoteTarget K) : Option (TargetChange K) → RemoteTarget K
  | none => target
  | some t => ⟨t.current, (target.documents ∪ t.addedDocuments) \ t.removedDocuments⟩

/-! ### What a view issues -/

namespace FSTView

variable {v v' w : FSTView q} {r : FSTViewDocumentChanges q}
  {targetChange : Option (TargetChange K)} {change : FSTViewChange q}

theorem applyTargetChange_eq (h : v.applyTargetChange targetChange = .ok w) :
    ∃ synced current, w = { v with syncedDocuments := synced, current := current } := by
  cases targetChange with
  | none =>
    cases h
    exact ⟨v.syncedDocuments, v.current, rfl⟩
  | some t =>
    rw [applyTargetChange] at h
    split at h
    · cases h
      exact ⟨_, _, rfl⟩
    · cases h

/-- What a view keeps of what the backend has said. -/
def remoteTarget (v : FSTView q) : RemoteTarget K := ⟨v.current, v.syncedDocuments⟩

theorem remoteTarget_of_applyTargetChange (h : v.applyTargetChange targetChange = .ok w) :
    w.remoteTarget = v.remoteTarget.change targetChange := by
  cases targetChange with
  | none =>
    cases h
    rfl
  | some t =>
    rw [applyTargetChange] at h
    split at h
    · cases h
      rfl
    · cases h

/-- The documents that are in limbo. -/
def inLimbo (v : FSTView q) : Finset K :=
  ((v.documentSet.documents.map FSTDocument.key).filter v.shouldBeLimboDocumentKey).toFinset

theorem mem_inLimbo {k : K} : k ∈ v.inLimbo ↔ ∃ d, v.documentSet.documentForKey k = some d ∧
    k ∉ v.syncedDocuments ∧ d.hasLocalMutations = false := by
  simp only [inLimbo, List.mem_toFinset, List.mem_filter, List.mem_map]
  constructor
  · rintro ⟨⟨d, hd, rfl⟩, hlimbo⟩
    have hfind := FSTDocumentSet.mem_documents.1 hd
    rw [shouldBeLimboDocumentKey, hfind] at hlimbo
    split at hlimbo
    · cases hlimbo
    · rename_i hsynced
      exact ⟨d, hfind, hsynced, by simpa using hlimbo⟩
  · rintro ⟨d, hfind, hsynced, hlocal⟩
    refine ⟨⟨d, FSTDocumentSet.mem_documents_of_find hfind, FSTDocumentSet.key_eq hfind⟩, ?_⟩
    simp [shouldBeLimboDocumentKey, hsynced, hfind, hlocal]

theorem updateLimboDocuments_fst (v : FSTView q) : v.updateLimboDocuments.1 =
    { v with limboDocuments := if v.current then v.inLimbo else v.limboDocuments } := by
  obtain ⟨documentSet, synced, limbo, mutated, current, syncState⟩ := v
  cases current <;> rfl

/-- What applying the changes `r` does to a view. -/
structure Applied (R : Meaning K D) (v : FSTView q) (r : FSTViewDocumentChanges q)
    (v' : FSTView q) (change : FSTViewChange q) : Prop where
  documentSet : v'.documentSet = r.documentSet
  mutatedKeys : v'.mutatedKeys = r.mutatedKeys
  syncState : v'.syncState = v'.newSyncState
  limbo : v'.current = true → v'.limboDocuments = v'.inLimbo
  limboChanges : v'.current = false → change.limboChanges = []
  of_none : change.snapshot = none →
    v'.syncState = v.syncState ∧ ∀ k, v.documentSet.documentForKey k = r.lookup k
  of_some : ∀ s, change.snapshot = some s → s.Faithful R ∧ s.oldDocuments = v.documentSet ∧
    s.documents = r.documentSet ∧ s.mutatedKeys = r.mutatedKeys ∧
    s.fromCache = decide (v'.syncState = .localOnly) ∧
    (s.documentChanges ≠ [] ∨ s.syncStateChanged = true)

theorem updateLimboDocuments_snd (h : v.current = false) : v.updateLimboDocuments.2 = [] := by
  rw [updateLimboDocuments, h]
  rfl

theorem snapshotOf_none (A : Sorting.Algorithm) {old : FSTDocumentSet q}
    (h : v.snapshotOf A old r = none) :
    r.changeSet.getChanges = [] ∧ v.newSyncState = v.syncState := by
  rw [snapshotOf] at h
  split at h
  · rename_i hcond
    have hperm := A.perm q.changeLt r.changeSet.getChanges
    rw [List.isEmpty_iff.1 hcond.1] at hperm
    exact ⟨hperm.symm.eq_nil, by simpa using hcond.2⟩
  · cases h

theorem snapshotOf_some (A : Sorting.Algorithm) {old : FSTDocumentSet q} {s : ViewSnapshot q}
    (h : v.snapshotOf A old r = some s) :
    s.documents = r.documentSet ∧ s.oldDocuments = old ∧ s.mutatedKeys = r.mutatedKeys ∧
      s.documentChanges = A.sort q.changeLt r.changeSet.getChanges ∧
      s.fromCache = decide (v.newSyncState = .localOnly) ∧
      (s.documentChanges ≠ [] ∨ s.syncStateChanged = true) := by
  rw [snapshotOf] at h
  split at h
  · cases h
  · rename_i hcond
    cases h
    refine ⟨rfl, rfl, rfl, rfl, rfl, ?_⟩
    by_contra hnone
    rw [not_or, not_not, Bool.not_eq_true] at hnone
    exact hcond ⟨List.isEmpty_iff.2 hnone.1, by simpa using hnone.2⟩

/-- **The snapshot of a view is faithful.** -/
theorem applyChangesToDocuments_ok (A : Sorting.Algorithm) {R : Meaning K D}
    (hR : ∀ {c : DocumentViewChange K D} {o n}, R c o n → c.Applies o n)
    (h : r.changeSet.Describes R v.documentSet.documentForKey r.lookup)
    (hok : v.applyChangesToDocuments A r targetChange = .ok (v', change)) :
    Applied R v r v' change := by
  unfold applyChangesToDocuments at hok
  split at hok
  · cases hok
  · obtain ⟨w, hw, hok⟩ := bind_eq_ok.1 hok
    obtain ⟨synced, current, hfields⟩ := applyTargetChange_eq hw
    have hlimbo := updateLimboDocuments_fst w
    have hchanges := updateLimboDocuments_snd (v := w)
    generalize w.updateLimboDocuments = updated at hok hlimbo hchanges
    obtain ⟨u, limboChanges⟩ := updated
    cases hok
    have hu : u = _ := hlimbo
    subst hu
    clear hlimbo
    subst hfields
    refine ⟨rfl, rfl, rfl, fun hcurrent => if_pos hcurrent, hchanges, fun hnone => ?_,
      fun s hs => ?_⟩
    · obtain ⟨hempty, hsync⟩ := snapshotOf_none A hnone
      refine ⟨hsync, fun k => ?_⟩
      by_contra hne
      obtain ⟨c, hc, -⟩ := h.exists_of_ne hne
      rw [hempty] at hc
      exact (List.not_mem_nil hc).elim
    · obtain ⟨hdocs, hold, hmut, hchanges, hcache, hsome⟩ := snapshotOf_some A hs
      refine ⟨faithful_of_describes A hR (by rwa [hold, hdocs]) hchanges, hold, hdocs, hmut,
        hcache, hsome⟩

/-- What applying changes does to what the view keeps of the remote target. -/
theorem remoteTarget_of_applyChangesToDocuments (A : Sorting.Algorithm)
    (hok : v.applyChangesToDocuments A r targetChange = .ok (v', change)) :
    v'.remoteTarget = v.remoteTarget.change targetChange := by
  unfold applyChangesToDocuments at hok
  split at hok
  · cases hok
  · obtain ⟨w, hw, hok⟩ := bind_eq_ok.1 hok
    have hlimbo := updateLimboDocuments_fst w
    generalize w.updateLimboDocuments = updated at hok hlimbo
    obtain ⟨u, limboChanges⟩ := updated
    cases hok
    have hu : u = _ := hlimbo
    have htarget := remoteTarget_of_applyTargetChange hw
    rw [hu]
    exact htarget

/-- The backend has modified only documents that the view knows to be in the remote target. -/
def Fits (v : FSTView q) (targetChange : Option (TargetChange K)) : Prop :=
  ∀ t, targetChange = some t → t.modifiedDocuments ⊆ v.syncedDocuments ∪ t.addedDocuments

theorem fits_none (v : FSTView q) : v.Fits none := fun _ h => (nomatch h)

/-- Changes that need no refill can be applied. -/
theorem exists_applyChangesToDocuments (A : Sorting.Algorithm) (hr : r.needsRefill = false)
    (hfits : v.Fits targetChange) : ∃ v' change,
      v.applyChangesToDocuments A r targetChange = .ok (v', change) := by
  obtain ⟨w, hw⟩ : ∃ w, ({ v with documentSet := r.documentSet, mutatedKeys := r.mutatedKeys } :
      FSTView q).applyTargetChange targetChange = .ok w := by
    cases targetChange with
    | none => exact ⟨_, rfl⟩
    | some t => exact ⟨_, if_pos (hfits t rfl)⟩
  simp only [applyChangesToDocuments, hr, hw, bind, Except.bind, pure, Except.pure]
  exact ⟨_, _, rfl⟩

end FSTView

end SmartWeather.Firestore
