import SmartWeather.Firestore.DocumentSet

/-!
# Sets of changes to a view

A `DocumentViewChangeSet` has at most one change for each document; `addChange` merges a new change
with the one the set has already, and fails for the combinations that do not make sense.

The documents of a view are seen here as a lookup by key.  `Applies` says what a change means: it
takes a document that is or is not there to one that is or is not.  A set `Describes` what happened
between two lookups, and `addChange_describes` is the reason why the merge is right: a change that
applies to the present lookup never fails to merge, and the set describes the way from the old
lookup to the new one.
-/

namespace SmartWeather.Firestore

variable {K D : Type}

inductive DocumentViewChangeType
  | removed
  | added
  | modified
  | metadata
  deriving DecidableEq

structure DocumentViewChange (K D : Type) where
  document : FSTDocument K D
  type : DocumentViewChangeType
  deriving DecidableEq

/-- The documents of a view by key. -/
abbrev Lookup (K D : Type) := K → Option (FSTDocument K D)

namespace DocumentViewChange

/-- The document of a change after it. -/
def after (c : DocumentViewChange K D) : Option (FSTDocument K D) :=
  match c.type with
  | .removed => none
  | _ => some c.document

/-- The change takes the document `old` to `new`. -/
def Applies (c : DocumentViewChange K D) (old new : Option (FSTDocument K D)) : Prop :=
  new = c.after ∧
    match c.type with
    | .removed => old ≠ none
    | .added => old = none
    | .modified => old ≠ none
    | .metadata => ∃ d, old = some d ∧ d.data = c.document.data

/-- The change says in full what happened: a removed document is as it was, a modified one has new
data. -/
def Exact (c : DocumentViewChange K D) (old new : Option (FSTDocument K D)) : Prop :=
  new = c.after ∧
    match c.type with
    | .removed => old = some c.document
    | .added => old = none
    | .modified => ∃ d, old = some d ∧ d.data ≠ c.document.data
    | .metadata => ∃ d, old = some d ∧ d.data = c.document.data

theorem Exact.applies {c : DocumentViewChange K D} {old new : Option (FSTDocument K D)}
    (h : c.Exact old new) : c.Applies old new := by
  obtain ⟨hnew, hold⟩ := h
  refine ⟨hnew, ?_⟩
  cases htype : c.type with
  | removed => rw [htype] at hold; simp [hold]
  | added => rw [htype] at hold; exact hold
  | modified => rw [htype] at hold; obtain ⟨d, hd, -⟩ := hold; simp [hd]
  | metadata => rw [htype] at hold; exact hold

/-- The meaning of a change of documents, `R` being `Applies` or `Exact`. -/
abbrev Meaning (K D : Type) :=
  DocumentViewChange K D → Option (FSTDocument K D) → Option (FSTDocument K D) → Prop

end DocumentViewChange

open DocumentViewChange

structure DocumentViewChangeSet (K D : Type) [LinearOrder K] where
  changeMap : SortedMap K (DocumentViewChange K D)

namespace DocumentViewChangeSet

variable [LinearOrder K]

def empty : DocumentViewChangeSet K D := ⟨SortedMap.empty⟩

def addChange (s : DocumentViewChangeSet K D) (change : DocumentViewChange K D) :
    Except HardFail (DocumentViewChangeSet K D) :=
  let key := change.document.key
  match s.changeMap.find key with
  | none => .ok ⟨s.changeMap.insert key change⟩
  | some old =>
    if change.type ≠ .added ∧ old.type = .metadata then
      .ok ⟨s.changeMap.insert key change⟩
    else if change.type = .metadata ∧ old.type ≠ .removed then
      .ok ⟨s.changeMap.insert key ⟨change.document, old.type⟩⟩
    else if change.type = .modified ∧ old.type = .modified then
      .ok ⟨s.changeMap.insert key ⟨change.document, .modified⟩⟩
    else if change.type = .modified ∧ old.type = .added then
      .ok ⟨s.changeMap.insert key ⟨change.document, .added⟩⟩
    else if change.type = .removed ∧ old.type = .added then
      .ok ⟨s.changeMap.erase key⟩
    else if change.type = .removed ∧ old.type = .modified then
      .ok ⟨s.changeMap.insert key ⟨old.document, .removed⟩⟩
    else if change.type = .added ∧ old.type = .removed then
      .ok ⟨s.changeMap.insert key ⟨change.document, .modified⟩⟩
    else .error .unsupportedCombination

def getChanges (s : DocumentViewChangeSet K D) : List (DocumentViewChange K D) :=
  s.changeMap.entries.map Prod.snd

/-- The set has what happened between the lookups `old` and `new`. -/
def Describes (R : Meaning K D) (s : DocumentViewChangeSet K D) (old new : Lookup K D) : Prop :=
  ∀ k, match s.changeMap.find k with
    | none => old k = new k
    | some c => c.document.key = k ∧ R c (old k) (new k)

variable {R : Meaning K D} {s : DocumentViewChangeSet K D} {old new : Lookup K D}

theorem describes_empty (old : Lookup K D) :
    Describes R (empty : DocumentViewChangeSet K D) old old :=
  fun _ => rfl

theorem Describes.eq_of_find_none (h : s.Describes R old new) {k : K}
    (hk : s.changeMap.find k = none) : old k = new k := by
  simpa [hk] using h k

theorem Describes.of_find (h : s.Describes R old new) {k : K} {c : DocumentViewChange K D}
    (hk : s.changeMap.find k = some c) : c.document.key = k ∧ R c (old k) (new k) := by
  simpa [hk] using h k

theorem mem_getChanges {c : DocumentViewChange K D} :
    c ∈ s.getChanges ↔ ∃ k, s.changeMap.find k = some c := by
  simp only [getChanges, List.mem_map, Prod.exists, SortedMap.mem_entries, exists_eq_right]

/-- What a described set has as its changes. -/
theorem Describes.of_mem (h : s.Describes R old new) {c : DocumentViewChange K D}
    (hc : c ∈ s.getChanges) : R c (old c.document.key) (new c.document.key) := by
  obtain ⟨k, hk⟩ := mem_getChanges.1 hc
  obtain ⟨hkey, hR⟩ := h.of_find hk
  rwa [hkey]

theorem Describes.exists_of_ne (h : s.Describes R old new) {k : K} (hk : old k ≠ new k) :
    ∃ c ∈ s.getChanges, c.document.key = k := by
  cases hfind : s.changeMap.find k with
  | none => exact absurd (h.eq_of_find_none hfind) hk
  | some c => exact ⟨c, mem_getChanges.2 ⟨k, hfind⟩, (h.of_find hfind).1⟩

theorem Describes.nodup_keys (h : s.Describes R old new) :
    (s.getChanges.map fun c => c.document.key).Nodup := by
  rw [getChanges, List.map_map]
  refine (List.map_congr_left fun e he => ?_).symm ▸ s.changeMap.nodup_keys
  exact (h.of_find (SortedMap.mem_entries.1 he)).1

/-- A set changed at one key describes the lookup changed there. -/
theorem Describes.update (h : s.Describes R old new) {m : SortedMap K (DocumentViewChange K D)}
    {k : K} {v : Option (FSTDocument K D)}
    (hne : ∀ k', k' ≠ k → m.find k' = s.changeMap.find k')
    (hk : match m.find k with
      | none => old k = v
      | some c => c.document.key = k ∧ R c (old k) v) :
    Describes R ⟨m⟩ old (Function.update new k v) := by
  intro k'
  by_cases hkk : k' = k
  · subst hkk
    simpa using hk
  · have := h k'
    simpa [hne k' hkk, hkk] using this

theorem find_insert_of_ne (m : SortedMap K (DocumentViewChange K D)) (k : K)
    (c : DocumentViewChange K D) (k' : K) (h : k' ≠ k) : (m.insert k c).find k' = m.find k' := by
  rw [SortedMap.find_insert, if_neg h]

theorem Describes.insert (h : s.Describes R old new) (c : DocumentViewChange K D) {k : K}
    {v : Option (FSTDocument K D)} (hk : c.document.key = k) (hc : R c (old k) v) :
    Describes R ⟨s.changeMap.insert k c⟩ old (Function.update new k v) := by
  refine h.update (find_insert_of_ne _ _ _) ?_
  rw [SortedMap.find_insert, if_pos rfl]
  exact ⟨hk, hc⟩

/-- The first change of a document is taken as it is. -/
theorem addChange_of_find_none (h : s.Describes R old new) (c : DocumentViewChange K D)
    (hfind : s.changeMap.find c.document.key = none)
    (hc : R c (new c.document.key) c.after) :
    ∃ s', s.addChange c = .ok s' ∧
      s'.Describes R old (Function.update new c.document.key c.after) ∧
      ∀ k, k ≠ c.document.key → s'.changeMap.find k = s.changeMap.find k := by
  refine ⟨⟨s.changeMap.insert c.document.key c⟩, by rw [addChange, hfind], ?_, ?_⟩
  · exact h.insert c rfl (by rwa [h.eq_of_find_none hfind])
  · exact find_insert_of_ne _ _ _

/-- **The merge is right.**  A change that applies to the present lookup is merged without a failed
assertion, and the set then describes the way to the lookup after the change. -/
theorem addChange_describes (h : s.Describes Applies old new) (c : DocumentViewChange K D)
    (hc : c.Applies (new c.document.key) c.after) :
    ∃ s', s.addChange c = .ok s' ∧
      s'.Describes Applies old (Function.update new c.document.key c.after) := by
  cases hfind : s.changeMap.find c.document.key with
  | none =>
    obtain ⟨s', hs', hd, -⟩ := addChange_of_find_none h c hfind hc
    exact ⟨s', hs', hd⟩
  | some o =>
    obtain ⟨hkey, hnew, hold⟩ := h.of_find hfind
    obtain ⟨-, hpre⟩ := hc
    rw [addChange, hfind]
    obtain ⟨d, ct⟩ := c
    obtain ⟨o, ot⟩ := o
    simp only [after] at hnew hpre ⊢
    cases ct with
    | removed =>
      cases ot with
      | removed => simp [hnew] at hpre
      | added =>
        -- the document came and went
        refine ⟨⟨s.changeMap.erase d.key⟩, rfl, h.update (fun k' hk' => ?_) ?_⟩
        · rw [SortedMap.find_erase, if_neg hk']
        · rw [SortedMap.find_erase, if_pos rfl]
          exact hold
      | modified => exact ⟨_, rfl, h.insert ⟨o, .removed⟩ hkey ⟨rfl, hold⟩⟩
      | metadata =>
        obtain ⟨e, he, -⟩ := hold
        exact ⟨_, rfl, h.insert ⟨d, .removed⟩ rfl ⟨rfl, by simp [he]⟩⟩
    | added =>
      cases ot with
      | removed => exact ⟨_, rfl, h.insert ⟨d, .modified⟩ rfl ⟨rfl, hold⟩⟩
      | added => simp [hnew] at hpre
      | modified => simp [hnew] at hpre
      | metadata => simp [hnew] at hpre
    | modified =>
      cases ot with
      | removed => simp [hnew] at hpre
      | added => exact ⟨_, rfl, h.insert ⟨d, .added⟩ rfl ⟨rfl, hold⟩⟩
      | modified => exact ⟨_, rfl, h.insert ⟨d, .modified⟩ rfl ⟨rfl, hold⟩⟩
      | metadata =>
        obtain ⟨e, he, -⟩ := hold
        exact ⟨_, rfl, h.insert ⟨d, .modified⟩ rfl ⟨rfl, by simp [he]⟩⟩
    | metadata =>
      obtain ⟨e, he, hdata⟩ := hpre
      cases ot with
      | removed => simp [hnew] at he
      | added => exact ⟨_, rfl, h.insert ⟨d, .added⟩ rfl ⟨rfl, hold⟩⟩
      | modified => exact ⟨_, rfl, h.insert ⟨d, .modified⟩ rfl ⟨rfl, hold⟩⟩
      | metadata =>
        obtain ⟨e', he', hdata'⟩ := hold
        rw [hnew] at he
        cases he
        exact ⟨_, rfl, h.insert ⟨d, .metadata⟩ rfl ⟨rfl, e', he', hdata'.trans hdata⟩⟩

/-- The lookup after a sequence of changes. -/
def lookupAfter (old : Lookup K D) (changes : List (DocumentViewChange K D)) : Lookup K D :=
  changes.foldl (fun lookup c => Function.update lookup c.document.key c.after) old

/-- Each change applies to the lookup that the changes before it have left. -/
def ApplyInTurn (old : Lookup K D) : List (DocumentViewChange K D) → Prop
  | [] => True
  | c :: changes => c.Applies (old c.document.key) c.after ∧
      ApplyInTurn (Function.update old c.document.key c.after) changes

/-- Changes that apply one after the other are merged without a failed assertion into a set that has
at most one change of each document, the change between the lookups before and after all of them. -/
theorem addChanges_merge {changes : List (DocumentViewChange K D)}
    (h : ApplyInTurn old changes) : ∃ s, changes.foldlM addChange empty = .ok s ∧
      (s.getChanges.map fun c => c.document.key).Nodup ∧
      (∀ c ∈ s.getChanges,
        c.Applies (old c.document.key) (lookupAfter old changes c.document.key)) ∧
      ∀ k, old k ≠ lookupAfter old changes k → ∃ c ∈ s.getChanges, c.document.key = k := by
  have hmerge : ∀ {s : DocumentViewChangeSet K D} {new : Lookup K D},
      s.Describes Applies old new → ApplyInTurn new changes → ∃ s',
        changes.foldlM addChange s = .ok s' ∧
        s'.Describes Applies old (lookupAfter new changes) := by
    clear h
    induction changes with
    | nil => exact fun {s new} hs _ => ⟨s, rfl, hs⟩
    | cons c changes ih =>
      rintro s new hs ⟨hc, hrest⟩
      obtain ⟨s₁, hadd, hs₁⟩ := addChange_describes hs c hc
      obtain ⟨s₂, hfold, hs₂⟩ := ih hs₁ hrest
      exact ⟨s₂, by rw [List.foldlM_cons, hadd]; exact hfold, hs₂⟩
  obtain ⟨s, hfold, hs⟩ := hmerge (describes_empty old) h
  exact ⟨s, hfold, hs.nodup_keys, fun c hc => hs.of_mem hc, fun k hk => hs.exists_of_ne hk⟩

/-- A document comes, is modified and goes, and another one comes. -/
theorem addChanges_merge_passing :
    let changes : List (DocumentViewChange ℕ ℕ) := [⟨⟨1, 10, .synced⟩, .added⟩,
      ⟨⟨1, 20, .synced⟩, .modified⟩, ⟨⟨1, 20, .synced⟩, .removed⟩, ⟨⟨2, 30, .synced⟩, .added⟩]
    ∃ s, changes.foldlM addChange empty = .ok s ∧
      (s.getChanges.map fun c => c.document.key).Nodup ∧
      (∀ c ∈ s.getChanges,
        c.Applies none (lookupAfter (fun _ => none) changes c.document.key)) ∧
      ∀ k, none ≠ lookupAfter (fun _ => none) changes k →
        ∃ c ∈ s.getChanges, c.document.key = k := by
  intro changes
  have h : ApplyInTurn (fun _ => none) changes :=
    ⟨⟨rfl, rfl⟩, ⟨rfl, by simp [after]⟩, ⟨rfl, by simp [after]⟩, ⟨rfl, rfl⟩, trivial⟩
  exact addChanges_merge h

/-- Changes of the meaning `R` can be added to a set, for the keys that satisfy `P`. -/
structure Mergeable (R : Meaning K D) (P : DocumentViewChangeSet K D → K → Prop) : Prop where
  of_exact : ∀ {c : DocumentViewChange K D} {o n}, c.Exact o n → R c o n
  addChange : ∀ {s : DocumentViewChangeSet K D} {old new : Lookup K D} (c : DocumentViewChange K D),
    s.Describes R old new → P s c.document.key → R c (new c.document.key) c.after →
    ∃ s', s.addChange c = .ok s' ∧
      s'.Describes R old (Function.update new c.document.key c.after) ∧
      ∀ k, k ≠ c.document.key → P s k → P s' k

theorem mergeable_applies : Mergeable (K := K) (D := D) Applies fun _ _ => True where
  of_exact := Exact.applies
  addChange c h _ hc := by
    obtain ⟨s', hs', hd⟩ := addChange_describes h c hc
    exact ⟨s', hs', hd, fun _ _ _ => trivial⟩

theorem mergeable_exact :
    Mergeable (K := K) (D := D) Exact fun s k => s.changeMap.find k = none where
  of_exact h := h
  addChange c h hfind hc := by
    obtain ⟨s', hs', hd, hrest⟩ := addChange_of_find_none h c hfind hc
    exact ⟨s', hs', hd, fun k hk hnone => by rw [hrest k hk, hnone]⟩

end DocumentViewChangeSet

end SmartWeather.Firestore
