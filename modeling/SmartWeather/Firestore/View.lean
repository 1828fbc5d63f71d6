import SmartWeather.Firestore.ViewChanges
import SmartWeather.Library.Sorting

/-!
# The view of a query

An `FSTView` has the documents that a query shows.  `computeChanges` takes the documents that have
changed in the local store and computes the new document set with the changes that lead to it; for a
query with a limit the documents beyond the limit are taken out at the end, and a refill is asked
for where the local store may have a document that belongs into the limit now.  A refill is a second
computation on top of the first.  `applyChangesToDocuments` makes the new set the set of the view
and issues a snapshot.

The functions are translated here; what they compute is in `SmartWeather.Firestore.ComputeChanges`.
-/

namespace SmartWeather.Firestore

variable {K D : Type}

inductive SyncState
  | none
  | localOnly
  | synced
  deriving DecidableEq

inductive OnlineState
  | unknown
  | online
  | offline
  deriving DecidableEq

inductive FSTLimboDocumentChangeType
  | added
  | removed
  deriving DecidableEq

structure FSTLimboDocumentChange (K : Type) where
  type : FSTLimboDocumentChangeType
  key : K

structure TargetChange (K : Type) where
  current : Bool
  addedDocuments : Finset K
  modifiedDocuments : Finset K
  removedDocuments : Finset K

variable [LinearOrder K]

structure FSTViewDocumentChanges (q : FSTQuery K D) where
  documentSet : FSTDocumentSet q
  changeSet : DocumentViewChangeSet K D
  needsRefill : Bool
  mutatedKeys : Finset K

/-- Takes over the new version of a document, or takes the document out. -/
def FSTViewDocumentChanges.put {q : FSTQuery K D} (acc : FSTViewDocumentChanges q) (key : K)
    (newDoc : Option (FSTDocument K D)) : FSTViewDocumentChanges q :=
  match newDoc with
  | some newDoc =>
    { acc with
      documentSet := acc.documentSet.add newDoc
      mutatedKeys :=
        if newDoc.hasLocalMutations then insert key acc.mutatedKeys
        else acc.mutatedKeys.erase key }
  | none =>
    { acc with
      documentSet := acc.documentSet.remove key, mutatedKeys := acc.mutatedKeys.erase key }

structure ViewSnapshot (q : FSTQuery K D) where
  documents : FSTDocumentSet q
  oldDocuments : FSTDocumentSet q
  documentChanges : List (DocumentViewChange K D)
  mutatedKeys : Finset K
  fromCache : Bool
  syncStateChanged : Bool
  excludesMetadataChanges : Bool

def ViewSnapshot.hasPendingWrites {q : FSTQuery K D} (s : ViewSnapshot q) : Bool :=
  !decide (s.mutatedKeys = ∅)

structure FSTViewChange (q : FSTQuery K D) where
  snapshot : Option (ViewSnapshot q)
  limboChanges : List (FSTLimboDocumentChange K)

structure FSTView (q : FSTQuery K D) where
  documentSet : FSTDocumentSet q := FSTDocumentSet.empty q
  syncedDocuments : Finset K
  limboDocuments : Finset K := ∅
  mutatedKeys : Finset K := ∅
  current : Bool := false
  syncState : SyncState := SyncState.none

/-! ### The limit -/

/-- What the limit of a query leaves of a list. -/
def FSTQuery.limited {α : Type} (q : FSTQuery K D) (l : List α) : List α :=
  match q.limit with
  | some (n + 1) => l.take (n + 1)
  | _ => l

/-- The last document of a set that fills the limit. -/
def FSTQuery.lastDocInLimit (q : FSTQuery K D) (s : FSTDocumentSet q) :
    Option (FSTDocument K D) :=
  match q.limit with
  | some (n + 1) => if s.count = n + 1 then s.lastDocument else none
  | _ => none

/-- The document of a change in the store, if the query has it. -/
def FSTQuery.select (q : FSTQuery K D) (m : FSTMaybeDocument K D) : Option (FSTDocument K D) :=
  match m with
  | .document d => if q.matchesDocument d.key d.data then some d else none
  | _ => none

namespace FSTView

variable {q : FSTQuery K D} [DecidableEq D]

def shouldWaitForSyncedDocument (newDoc oldDoc : FSTDocument K D) : Bool :=
  oldDoc.hasLocalMutations && newDoc.hasCommittedMutations && !newDoc.hasLocalMutations

/-- The change of one document, if there is any. -/
def calculateChange (v : FSTView q) (oldDoc newDoc : Option (FSTDocument K D)) :
    Option (DocumentViewChange K D) :=
  match oldDoc, newDoc with
  | some oldDoc, some newDoc =>
    let oldDocHadPendingMutations := decide (oldDoc.key ∈ v.mutatedKeys)
    let newDocHasPendingMutations := newDoc.hasLocalMutations ||
      (decide (newDoc.key ∈ v.mutatedKeys) && newDoc.hasCommittedMutations)
    if oldDoc.data ≠ newDoc.data then
      if !shouldWaitForSyncedDocument newDoc oldDoc then some ⟨newDoc, .modified⟩ else none
    else if oldDocHadPendingMutations ≠ newDocHasPendingMutations then some ⟨newDoc, .metadata⟩
    else none
  | none, some newDoc => some ⟨newDoc, .added⟩
  | some oldDoc, none => some ⟨oldDoc, .removed⟩
  | none, none => none

/-- A change after which the local store may have another document for the limit. -/
def refills (q : FSTQuery K D) (lastDocInLimit : Option (FSTDocument K D))
    (change : DocumentViewChange K D) : Bool :=
  match lastDocInLimit, change.type with
  | some last, .modified => q.comparator change.document last == .gt
  | some _, .removed => true
  | _, _ => false

/-- The assertion that a document is filed under its own key. -/
def checkKey (key : K) : FSTMaybeDocument K D → Except HardFail Unit
  | .document newDoc => if key = newDoc.key then .ok () else .error .mismatchingKey
  | _ => .ok ()

/-- One turn of the loop over the changed documents. -/
def turn (v : FSTView q) (oldDocumentSet : FSTDocumentSet q)
    (acc : FSTViewDocumentChanges q) (kv : K × FSTMaybeDocument K D) :
    Except HardFail (FSTViewDocumentChanges q) := do
  let (key, maybeNewDoc) := kv
  checkKey key maybeNewDoc
  let newDoc := q.select maybeNewDoc
  match v.calculateChange (oldDocumentSet.documentForKey key) newDoc with
  | none => return acc
  | some change =>
    let changeSet ← acc.changeSet.addChange change
    let needsRefill := acc.needsRefill || refills q (q.lastDocInLimit oldDocumentSet) change
    return { acc.put key newDoc with changeSet, needsRefill }

/-- Takes out the last document, `i` times. -/
def truncate : ℕ → FSTViewDocumentChanges q → Except HardFail (FSTViewDocumentChanges q)
  | 0, acc => .ok acc
  | i + 1, acc =>
    match acc.documentSet.lastDocument with
    | none => .ok acc
    | some oldDoc => do
      let changeSet ← acc.changeSet.addChange ⟨oldDoc, .removed⟩
      truncate i {
        documentSet := acc.documentSet.remove oldDoc.key, changeSet
        needsRefill := acc.needsRefill, mutatedKeys := acc.mutatedKeys.erase oldDoc.key }

/-- Takes out the documents beyond the limit. -/
def enforceLimit (acc : FSTViewDocumentChanges q) : Except HardFail (FSTViewDocumentChanges q) :=
  match q.limit with
  | some (n + 1) => truncate (acc.documentSet.count - (n + 1)) acc
  | _ => .ok acc

/-- Where a computation starts: at the documents of the view, or at the previous changes. -/
def start (v : FSTView q) (previousChanges : Option (FSTViewDocumentChanges q)) :
    FSTViewDocumentChanges q :=
  match previousChanges with
  | some previous => { previous with needsRefill := false }
  | none => ⟨v.documentSet, .empty, false, v.mutatedKeys⟩

/-- `computeChangesWithDocuments:previousChanges:`. -/
def computeChanges (v : FSTView q) (docChanges : SortedMap K (FSTMaybeDocument K D))
    (previousChanges : Option (FSTViewDocumentChanges q)) :
    Except HardFail (FSTViewDocumentChanges q) := do
  let start := v.start previousChanges
  let acc ← docChanges.entries.foldlM (v.turn start.documentSet) start
  let acc ← enforceLimit acc
  if acc.needsRefill ∧ previousChanges.isSome then throw .refilledTwice
  return acc

def shouldBeLimboDocumentKey (v : FSTView q) (key : K) : Bool :=
  if key ∈ v.syncedDocuments then false
  else
    match v.documentSet.documentForKey key with
    | none => false
    | some doc => !doc.hasLocalMutations

def applyTargetChange (v : FSTView q) (maybeTargetChange : Option (TargetChange K)) :
    Except HardFail (FSTView q) :=
  match maybeTargetChange with
  | none => .ok v
  | some change =>
    let added := v.syncedDocuments ∪ change.addedDocuments
    if change.modifiedDocuments ⊆ added then
      .ok { v with
        syncedDocuments := added \ change.removedDocuments, current := change.current }
    else .error .modifiedNotFound

def updateLimboDocuments (v : FSTView q) : FSTView q × List (FSTLimboDocumentChange K) :=
  if !v.current then (v, [])
  else
    let limboDocuments :=
      ((v.documentSet.documents.map FSTDocument.key).filter v.shouldBeLimboDocumentKey).toFinset
    ({ v with limboDocuments },
      ((v.limboDocuments \ limboDocuments).sort.map fun key => ⟨.removed, key⟩) ++
        (limboDocuments \ v.limboDocuments).sort.map fun key => ⟨.added, key⟩)

end FSTView

/-! ### The order of the changes -/

/-- `GetDocumentViewChangeTypePosition`. -/
def DocumentViewChangeType.position : DocumentViewChangeType → ℕ
  | removed => 0
  | added => 1
  | modified => 2
  | metadata => 2

/-- The order in which a snapshot has its changes. -/
def FSTQuery.changeLt (q : FSTQuery K D) (lhs rhs : DocumentViewChange K D) : Bool :=
  if lhs.type.position ≠ rhs.type.position then decide (lhs.type.position < rhs.type.position)
  else q.comparator lhs.document rhs.document == .lt

namespace FSTView

variable {q : FSTQuery K D} [DecidableEq D] (A : Sorting.Algorithm)

/-- The sync state that the limbo documents and the backend give. -/
def newSyncState (v : FSTView q) : SyncState :=
  let synced := decide (v.limboDocuments = ∅) && v.current
  if synced then .synced else .localOnly

/-- The snapshot of changed documents, if there is anything to tell. -/
def snapshotOf (v : FSTView q) (oldDocuments : FSTDocumentSet q)
    (docChanges : FSTViewDocumentChanges q) : Option (ViewSnapshot q) :=
  let changes := A.sort q.changeLt docChanges.changeSet.getChanges
  let syncStateChanged := decide (v.newSyncState ≠ v.syncState)
  if changes.isEmpty ∧ !syncStateChanged then none
  else
    some {
      documents := docChanges.documentSet, oldDocuments, documentChanges := changes
      mutatedKeys := docChanges.mutatedKeys
      fromCache := decide (v.newSyncState = .localOnly), syncStateChanged
      excludesMetadataChanges := false }

/-- `applyChangesToDocuments:targetChange:`, with `std::sort` given by its contract. -/
def applyChangesToDocuments (v : FSTView q) (docChanges : FSTViewDocumentChanges q)
    (targetChange : Option (TargetChange K)) : Except HardFail (FSTView q × FSTViewChange q) := do
  if docChanges.needsRefill then throw .needsRefill
  let oldDocuments := v.documentSet
  let v := { v with
    documentSet := docChanges.documentSet, mutatedKeys := docChanges.mutatedKeys }
  let v ← v.applyTargetChange targetChange
  let (w, limboChanges) := v.updateLimboDocuments
  return ({ w with syncState := w.newSyncState },
    ⟨w.snapshotOf A oldDocuments docChanges, limboChanges⟩)

def applyChangedOnlineState (v : FSTView q) (onlineState : OnlineState) :
    Except HardFail (FSTView q × FSTViewChange q) :=
  if v.current ∧ onlineState = .offline then
    let v := { v with current := false }
    v.applyChangesToDocuments A ⟨v.documentSet, .empty, false, v.mutatedKeys⟩ none
  else .ok (v, ⟨none, []⟩)

end FSTView

end SmartWeather.Firestore
