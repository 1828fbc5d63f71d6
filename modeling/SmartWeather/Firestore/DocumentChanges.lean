import SmartWeather.Database.Firestore
import SmartWeather.Firestore.Snapshots

/-!
# The document changes that a listener sees

A query snapshot gives each change with two indices: where the document was before this change, and
where it is after it, provided that the changes before it have been made.  They are computed on a
document set, the index tracker, which is updated change by change; the first snapshot, which has
additions only, is treated by a loop of its own.

`edit` is what a listener does with a change: it takes the document out of its list at the old index
and puts the new one in at the new index.  `documentChangesForSnapshot_edit` says that a listener
that does so has the new documents of the snapshot, in order; `firstChanges_eq` that the loop for
the first snapshot computes what the other one would.
-/

namespace SmartWeather.Firestore

open DocumentViewChange DocumentViewChangeSet

variable {K D : Type}

structure FIRQueryDocumentSnapshot (K D : Type) where
  document : FSTDocument K D
  fromCache : Bool
  hasPendingWrites : Bool

structure FIRDocumentChange (K D : Type) where
  type : DocumentChangeType
  document : FIRQueryDocumentSnapshot K D
  oldIndex : Option ℕ
  newIndex : Option ℕ

/-- `documentChangeTypeForChange`. -/
def DocumentViewChangeType.documentChangeType : DocumentViewChangeType → DocumentChangeType
  | added => .added
  | modified => .modified
  | metadata => .modified
  | removed => .removed

variable [LinearOrder K] {q : FSTQuery K D}

namespace ViewSnapshot

variable (s : ViewSnapshot q)

def documentSnapshot (change : DocumentViewChange K D) : FIRQueryDocumentSnapshot K D where
  document := change.document
  fromCache := s.fromCache
  hasPendingWrites := decide (change.document.key ∈ s.mutatedKeys)

/-- The loop for the first snapshot.  It has another assertion, about the order of the additions,
which compares with a variable that is never set. -/
def firstChanges (index : ℕ) :
    List (DocumentViewChange K D) → Except HardFail (List (FIRDocumentChange K D))
  | [] => .ok []
  | change :: changes =>
    if change.type = .added then do
      let rest ← firstChanges (index + 1) changes
      return ⟨.added, s.documentSnapshot change, none, some index⟩ :: rest
    else .error .notAnAddition

/-- Takes the document of a change out of the tracker. -/
def takeOut (indexTracker : FSTDocumentSet q) (change : DocumentViewChange K D) :
    Except HardFail (Option ℕ × FSTDocumentSet q) :=
  if change.type ≠ .added then
    match indexTracker.indexOfKey change.document.key with
    | none => .error .indexNotFound
    | some oldIndex => .ok (some oldIndex, indexTracker.remove change.document.key)
  else .ok (none, indexTracker)

/-- Puts the document of a change into the tracker. -/
def putIn (indexTracker : FSTDocumentSet q) (change : DocumentViewChange K D) :
    Option ℕ × FSTDocumentSet q :=
  if change.type ≠ .removed then
    let indexTracker := indexTracker.add change.document
    (indexTracker.indexOfKey change.document.key, indexTracker)
  else (none, indexTracker)

/-- The loop for the later snapshots. -/
def laterChanges (includeMetadataChanges : Bool) (indexTracker : FSTDocumentSet q) :
    List (DocumentViewChange K D) → Except HardFail (List (FIRDocumentChange K D))
  | [] => .ok []
  | change :: changes =>
    if !includeMetadataChanges ∧ change.type = .metadata then
      laterChanges includeMetadataChanges indexTracker changes
    else do
      let (oldIndex, indexTracker) ← takeOut indexTracker change
      let (newIndex, indexTracker) := putIn indexTracker change
      let rest ← laterChanges includeMetadataChanges indexTracker changes
      return ⟨change.type.documentChangeType, s.documentSnapshot change, oldIndex, newIndex⟩ :: rest

def documentChangesForSnapshot (includeMetadataChanges : Bool) :
    Except HardFail (List (FIRDocumentChange K D)) :=
  if s.oldDocuments.isEmpty then s.firstChanges 0 s.documentChanges
  else s.laterChanges includeMetadataChanges s.oldDocuments s.documentChanges

end ViewSnapshot

/-- Takes the document with the given key out of a list, at an index. -/
def takeOutAt (docs : List (K × D)) (key : K) : Option ℕ → Option (List (K × D))
  | none => some docs
  | some i => if docs[i]?.map Prod.fst = some key then some (docs.eraseIdx i) else none

/-- Puts a document into a list, at an index. -/
def putInAt (docs : List (K × D)) (doc : K × D) : Option ℕ → Option (List (K × D))
  | none => some docs
  | some i => if i ≤ docs.length then some (docs.insertIdx i doc) else none

/-- What a listener does with a change to its list of documents. -/
def FIRDocumentChange.edit (docs : List (K × D)) (c : FIRDocumentChange K D) :
    Option (List (K × D)) := do
  let docs ← takeOutAt docs c.document.document.key c.oldIndex
  putInAt docs c.document.document.bare c.newIndex

namespace ViewSnapshot

variable {s : ViewSnapshot q} {t : FSTDocumentSet q} {c : DocumentViewChange K D}
  {changes : List (DocumentViewChange K D)}

/-! ### One change -/

theorem takeOut_ok (h : c.Applies (t.documentForKey c.document.key) c.after) :
    ∃ i t', takeOut t c = .ok (i, t') ∧
      t'.documentForKey = Function.update t.documentForKey c.document.key none ∧
      takeOutAt t.contents c.document.key i = some t'.contents := by
  by_cases hadded : c.type = .added
  · have hnone := h.2
    rw [hadded] at hnone
    refine ⟨none, t, by rw [takeOut, if_neg (by simp [hadded])], ?_, rfl⟩
    exact (Function.update_eq_self_iff.2 hnone.symm).symm
  · have hsome : ∃ d, t.documentForKey c.document.key = some d := by
      have hold := h.2
      cases htype : c.type with
      | removed => rw [htype] at hold; exact Option.ne_none_iff_exists'.1 hold
      | added => exact absurd htype hadded
      | modified => rw [htype] at hold; exact Option.ne_none_iff_exists'.1 hold
      | metadata => rw [htype] at hold; exact ⟨_, hold.choose_spec.1⟩
    obtain ⟨d, hd⟩ := hsome
    obtain ⟨i, hi, hget, herase⟩ := FSTDocumentSet.documents_remove_eq_eraseIdx hd
    refine ⟨some i, t.remove c.document.key, ?_, FSTDocumentSet.documentForKey_remove_eq t _, ?_⟩
    · rw [takeOut, if_pos hadded, hi]
    · have hkey : t.contents[i]?.map Prod.fst = some c.document.key := by
        rw [FSTDocumentSet.contents, List.getElem?_map, hget]
        exact congrArg some (FSTDocumentSet.key_eq hd)
      rw [takeOutAt, if_pos hkey, FSTDocumentSet.contents, FSTDocumentSet.contents, herase,
        List.eraseIdx_map]

theorem putIn_ok (h : t.documentForKey c.document.key = none) :
    ∃ i t', putIn t c = (i, t') ∧
      t'.documentForKey = Function.update t.documentForKey c.document.key c.after ∧
      putInAt t.contents c.document.bare i = some t'.contents := by
  by_cases hremoved : c.type = .removed
  · refine ⟨none, t, by rw [putIn, if_neg (by simp [hremoved])], ?_, rfl⟩
    rw [after, hremoved]
    exact (Function.update_eq_self_iff.2 h.symm).symm
  · obtain ⟨i, hi, hle, hinsert⟩ := FSTDocumentSet.documents_add_eq_insertIdx h
    have hafter : c.after = some c.document := by
      cases htype : c.type with
      | removed => exact absurd htype hremoved
      | added => rw [after, htype]
      | modified => rw [after, htype]
      | metadata => rw [after, htype]
    refine ⟨some i, t.add c.document, ?_, ?_, ?_⟩
    · rw [putIn, if_pos hremoved]
      exact congrArg (·, t.add c.document) hi
    · rw [hafter]
      exact FSTDocumentSet.documentForKey_add_eq t c.document
    · have hlen : i ≤ t.contents.length := by rwa [FSTDocumentSet.contents, List.length_map]
      rw [putInAt, if_pos hlen, FSTDocumentSet.contents, FSTDocumentSet.contents, hinsert,
        List.map_insertIdx]

/-! ### All changes -/

/-- The loop leaves out the change. -/
def Skipped (includeMetadataChanges : Bool) (c : DocumentViewChange K D) : Prop :=
  includeMetadataChanges = false ∧ c.type = .metadata

instance (includeMetadataChanges : Bool) (c : DocumentViewChange K D) :
    Decidable (Skipped includeMetadataChanges c) := inferInstanceAs (Decidable (_ ∧ _))

/-- What the loop does: one change for each that it does not skip, and the edits lead to the
documents of the tracker at the end. -/
theorem laterChanges_ok (inc : Bool) (hnodup : (changes.map fun c => c.document.key).Nodup)
    (happ : ∀ c ∈ changes, c.Applies (t.documentForKey c.document.key) c.after) :
    ∃ (l : List (FIRDocumentChange K D)) (t' : FSTDocumentSet q),
      s.laterChanges inc t changes = .ok l ∧
      l.map (fun c => (c.type, c.document)) =
        (changes.filter fun c => ¬ Skipped inc c).map
          (fun c => (c.type.documentChangeType, s.documentSnapshot c)) ∧
      l.foldlM FIRDocumentChange.edit t.contents = some t'.contents ∧
      (∀ c ∈ changes, ¬ Skipped inc c → t'.documentForKey c.document.key = c.after) ∧
      ∀ k, (∀ c ∈ changes, c.document.key = k → Skipped inc c) →
        t'.documentForKey k = t.documentForKey k := by
  induction changes generalizing t with
  | nil => exact ⟨[], t, rfl, rfl, rfl, fun _ h => (List.not_mem_nil h).elim, fun _ _ => rfl⟩
  | cons c changes ih =>
    rw [List.map_cons, List.nodup_cons] at hnodup
    have hother : ∀ c' ∈ changes, c'.document.key ≠ c.document.key := fun c' hc' heq =>
      hnodup.1 (heq ▸ List.mem_map_of_mem (f := fun c => c.document.key) hc')
    by_cases hskip : Skipped inc c
    · obtain ⟨l, t', hl, hmap, hedit, hdone, hrest⟩ := ih hnodup.2
        fun c' hc' => happ c' (List.mem_cons_of_mem _ hc')
      refine ⟨l, t', ?_, ?_, hedit, ?_, ?_⟩
      · rw [laterChanges, if_pos ⟨by simp [hskip.1], hskip.2⟩, hl]
      · rw [hmap, List.filter_cons_of_neg (by simp [hskip])]
      · intro c' hc' hns
        rcases List.mem_cons.1 hc' with rfl | hc'
        · exact absurd hskip hns
        · exact hdone c' hc' hns
      · exact fun k hk => hrest k fun c' hc' => hk c' (List.mem_cons_of_mem _ hc')
    · obtain ⟨i, t₁, htake, hlook₁, hdocs₁⟩ := takeOut_ok (happ c List.mem_cons_self)
      have hnone : t₁.documentForKey c.document.key = none := by
        rw [hlook₁, Function.update_self]
      obtain ⟨j, t₂, hput, hlook₂, hdocs₂⟩ := putIn_ok hnone
      have hlook : ∀ k, k ≠ c.document.key → t₂.documentForKey k = t.documentForKey k := by
        intro k hk
        rw [hlook₂, Function.update_of_ne hk, hlook₁, Function.update_of_ne hk]
      obtain ⟨l, t', hl, hmap, hedit, hdone, hrest⟩ := @ih t₂ hnodup.2 fun c' hc' => by
        rw [hlook _ (hother c' hc')]
        exact happ c' (List.mem_cons_of_mem _ hc')
      refine ⟨⟨c.type.documentChangeType, s.documentSnapshot c, i, j⟩ :: l, t', ?_, ?_, ?_, ?_, ?_⟩
      · rw [laterChanges, if_neg (by simpa [Skipped] using hskip), htake]
        simp only [hput, bind, Except.bind, hl]
        rfl
      · rw [List.map_cons, hmap, List.filter_cons_of_pos (by simp [hskip]), List.map_cons]
      · rw [List.foldlM_cons]
        have hone : FIRDocumentChange.edit t.contents
            ⟨c.type.documentChangeType, s.documentSnapshot c, i, j⟩ = some t₂.contents := by
          show (takeOutAt t.contents c.document.key i).bind (putInAt · c.document.bare j) = _
          rw [hdocs₁, Option.bind_some, hdocs₂]
        rw [hone]
        exact hedit
      · intro c' hc' hns
        rcases List.mem_cons.1 hc' with rfl | hc'
        · rw [hrest c'.document.key fun c'' hc'' heq => absurd heq (hother c'' hc''), hlook₂,
            Function.update_self]
        · exact hdone c' hc' hns
      · intro k hk
        have hne : k ≠ c.document.key := fun heq => hskip (hk c List.mem_cons_self heq.symm)
        rw [hrest k fun c' hc' => hk c' (List.mem_cons_of_mem _ hc'), hlook k hne]

/-- Additions behind all documents of the tracker: both loops compute the same. -/
theorem firstChanges_eq_laterChanges (inc : Bool) (hadded : ∀ c ∈ changes, c.type = .added)
    (hordered : changes.Pairwise fun a b => q.comparator a.document b.document = .lt)
    (hbehind : ∀ d ∈ t.documents, ∀ c ∈ changes, q.comparator d c.document = .lt)
    (habsent : ∀ c ∈ changes, t.documentForKey c.document.key = none)
    (hnodup : (changes.map fun c => c.document.key).Nodup) :
    s.firstChanges t.documents.length changes = s.laterChanges inc t changes := by
  induction changes generalizing t with
  | nil => rfl
  | cons c changes ih =>
    have hc : c.type = .added := hadded c List.mem_cons_self
    rw [List.map_cons, List.nodup_cons] at hnodup
    rw [List.pairwise_cons] at hordered
    -- the new document comes last
    have hlast : ∀ d ∈ t.documents, q.comparator d c.document = .lt := fun d hd =>
      hbehind d hd c List.mem_cons_self
    obtain ⟨hindex, hdocs⟩ :=
      FSTDocumentSet.documents_add_last (habsent c List.mem_cons_self) hlast
    have hput : putIn t c = (some t.documents.length, t.add c.document) := by
      rw [putIn, if_pos (by simp [hc])]
      exact congrArg (·, t.add c.document) hindex
    have htake : takeOut t c = .ok (none, t) := if_neg (by simp [hc])
    have hih := @ih (t.add c.document) (fun c' hc' => hadded c' (List.mem_cons_of_mem _ hc'))
      hordered.2 ?_ ?_ hnodup.2
    · rw [hdocs, List.length_append, List.length_singleton] at hih
      rw [firstChanges, if_pos hc, hih, laterChanges, if_neg (by simp [hc]), htake]
      simp only [hput, bind, Except.bind, hc]
      rfl
    · intro d hd c' hc'
      rw [hdocs, List.mem_append, List.mem_singleton] at hd
      rcases hd with hd | rfl
      · exact hbehind d hd c' (List.mem_cons_of_mem _ hc')
      · exact hordered.1 c' hc'
    · intro c' hc'
      have hne : c'.document.key ≠ c.document.key := fun heq =>
        hnodup.1 (heq ▸ List.mem_map_of_mem (f := fun c => c.document.key) hc')
      rw [FSTDocumentSet.documentForKey_add, if_neg hne]
      exact habsent c' (List.mem_cons_of_mem _ hc')

/-- From no documents there are only additions. -/
theorem Faithful.type_eq_added (h : s.Faithful Applies) (hempty : s.oldDocuments.isEmpty = true)
    (hc : c ∈ s.documentChanges) : c.type = .added := by
  have hold := (h.means c hc).2
  rw [FSTDocumentSet.isEmpty_iff.1 hempty] at hold
  cases htype : c.type with
  | removed => simp [htype] at hold
  | added => rfl
  | modified => simp [htype] at hold
  | metadata => simp [htype] at hold

/-- Of a faithful snapshot, the loop for the first snapshot computes what the other loop would. -/
theorem Faithful.firstChanges_eq (h : s.Faithful Applies)
    (hempty : s.oldDocuments.isEmpty = true) (inc : Bool) :
    s.firstChanges 0 s.documentChanges =
      s.laterChanges inc s.oldDocuments s.documentChanges := by
  have hnone := FSTDocumentSet.isEmpty_iff.1 hempty
  have hdocs : s.oldDocuments.documents = [] := by
    rw [← FSTDocumentSet.documents_empty (q := q)]
    exact FSTDocumentSet.documents_ext hnone
  have hadded : ∀ c ∈ s.documentChanges, c.type = .added := fun c hc => h.type_eq_added hempty hc
  have hordered : s.documentChanges.Pairwise fun a b =>
      q.comparator a.document b.document = .lt := by
    refine List.Pairwise.imp_of_mem (fun {a b} ha hb hab => ?_) h.ordered
    have hsame : compare a.type.position b.type.position = .eq := by
      rw [hadded a ha, hadded b hb]
      rfl
    have hthen : (compare a.type.position b.type.position).then
      (q.comparator a.document b.document) = .lt := hab
    rwa [hsame] at hthen
  have := firstChanges_eq_laterChanges (s := s) (t := s.oldDocuments) inc hadded hordered
    (fun d hd => by rw [hdocs] at hd; exact (List.not_mem_nil hd).elim)
    (fun c _ => hnone _) h.nodup
  rwa [hdocs] at this

/-- **The edits of a snapshot.**  No assertion fails; each change that is not left out has its type
and document; and the edits take the old documents, in order, to the new ones. -/
theorem Faithful.documentChanges_edit (h : s.Faithful Applies) (inc : Bool) :
    ∃ l : List (FIRDocumentChange K D), s.documentChangesForSnapshot inc = .ok l ∧
      l.map (fun c => (c.type, c.document)) =
        (s.documentChanges.filter fun c => ¬ Skipped inc c).map
          (fun c => (c.type.documentChangeType, s.documentSnapshot c)) ∧
      l.foldlM FIRDocumentChange.edit s.oldDocuments.contents = some s.documents.contents := by
  have happ : ∀ c ∈ s.documentChanges,
      c.Applies (s.oldDocuments.documentForKey c.document.key) c.after := fun c hc => by
    have := h.means c hc
    rwa [this.1] at this
  obtain ⟨l, t, hl, hmap, hedit, hdone, hrest⟩ := laterChanges_ok (s := s) inc h.nodup happ
  refine ⟨l, ?_, hmap, hedit.trans (congrArg some ?_)⟩
  · rw [documentChangesForSnapshot]
    split
    · rename_i hempty
      rw [h.firstChanges_eq hempty inc, hl]
    · exact hl
  · refine FSTDocumentSet.contents_ext fun k => ?_
    by_cases hall : ∀ c ∈ s.documentChanges, c.document.key = k → Skipped inc c
    · -- no change but of metadata: the data are the old data
      rw [hrest k hall]
      by_contra hne
      obtain ⟨c, hc, hck, hmeta⟩ := h.complete k hne
      exact hmeta (hall c hc hck).2
    · push Not at hall
      obtain ⟨c, hc, rfl, hns⟩ := hall
      rw [hdone c hc hns, (h.means c hc).1]

end ViewSnapshot

end SmartWeather.Firestore
