import SmartWeather.Firestore.DocumentChanges
import SmartWeather.Firestore.LocalStore

/-!
# Listeners and the event manager

A query listener gets the snapshots of the view and hands them on to its handler: none before the
view has something to show, then one with all documents as additions, then those with changes of
documents.  The event manager keeps the listeners of a query and its last snapshot, starts the view
with the first listener and drops it with the last one.

`Listening` is a listener with the snapshots that its handler has got; `docs` is the list of a
handler that edits a list of documents as the document changes of the snapshots say.  `Client` is
the store, the view and the listeners of one query; its events are the calls of the application
(listeners come and go), of the store, and of the connection.
-/

namespace SmartWeather.Firestore

open Runs

variable {K D : Type} [LinearOrder K] {q : FSTQuery K D}

structure FSTListenOptions where
  includeQueryMetadataChanges : Bool := false
  includeDocumentMetadataChanges : Bool := false
  waitForSyncWhenOnline : Bool := false

structure FSTQueryListener (q : FSTQuery K D) where
  options : FSTListenOptions
  raisedInitialEvent : Bool := false
  onlineState : OnlineState := .unknown
  snapshot : Option (ViewSnapshot q) := none

/-- `FromInitialDocuments`. -/
def ViewSnapshot.fromInitialDocuments (documents : FSTDocumentSet q) (mutatedKeys : Finset K)
    (fromCache excludesMetadataChanges : Bool) : ViewSnapshot q where
  documents := documents
  oldDocuments := FSTDocumentSet.empty q
  documentChanges := documents.documents.map fun d => ⟨d, .added⟩
  mutatedKeys := mutatedKeys
  fromCache := fromCache
  syncStateChanged := true
  excludesMetadataChanges := excludesMetadataChanges

namespace FSTQueryListener

def shouldRaiseInitialEvent (l : FSTQueryListener q) (snapshot : ViewSnapshot q)
    (onlineState : OnlineState) : Except HardFail Bool := do
  if l.raisedInitialEvent then throw .initialEventTwice
  if !snapshot.fromCache then return true
  let maybeOnline := decide (onlineState ≠ .offline)
  if l.options.waitForSyncWhenOnline && maybeOnline then return false
  return !snapshot.documents.isEmpty || decide (onlineState = .offline)

def shouldRaiseEvent (l : FSTQueryListener q) (snapshot : ViewSnapshot q) : Bool :=
  if !snapshot.documentChanges.isEmpty then true
  else
    let hasPendingWritesChanged :=
      match l.snapshot with
      | none => false
      | some last => last.hasPendingWrites != snapshot.hasPendingWrites
    if snapshot.syncStateChanged || hasPendingWritesChanged then
      l.options.includeQueryMetadataChanges
    else false

/-- The listener after the initial event, and the snapshot that the handler gets. -/
def raiseInitialEvent (l : FSTQueryListener q) (snapshot : ViewSnapshot q) :
    Except HardFail (FSTQueryListener q × ViewSnapshot q) :=
  if l.raisedInitialEvent then .error .initialEventTwice
  else
    .ok ({ l with raisedInitialEvent := true },
      .fromInitialDocuments snapshot.documents snapshot.mutatedKeys snapshot.fromCache
        snapshot.excludesMetadataChanges)

/-- The snapshot as the listener sees it, without the metadata-only changes unless it has asked
for them. -/
def seen (l : FSTQueryListener q) (snapshot : ViewSnapshot q) : ViewSnapshot q :=
  if l.options.includeDocumentMetadataChanges then snapshot else snapshot.stripMetadata

/-- `queryDidChangeViewSnapshot`; the second component is what the handler gets. -/
def queryDidChangeViewSnapshot (l : FSTQueryListener q) (snapshot : ViewSnapshot q) :
    Except HardFail (FSTQueryListener q × Option (ViewSnapshot q)) := do
  if snapshot.documentChanges.isEmpty ∧ !snapshot.syncStateChanged then throw .noChanges
  let snapshot := l.seen snapshot
  if !l.raisedInitialEvent then
    if ← l.shouldRaiseInitialEvent snapshot l.onlineState then
      let (l, event) ← l.raiseInitialEvent snapshot
      return ({ l with snapshot := some snapshot }, some event)
    else return ({ l with snapshot := some snapshot }, none)
  else if l.shouldRaiseEvent snapshot then
    return ({ l with snapshot := some snapshot }, some snapshot)
  else return ({ l with snapshot := some snapshot }, none)

def applyChangedOnlineState (l : FSTQueryListener q) (onlineState : OnlineState) :
    Except HardFail (FSTQueryListener q × Option (ViewSnapshot q)) := do
  let l := { l with onlineState }
  match l.snapshot with
  | none => return (l, none)
  | some snapshot =>
    if l.raisedInitialEvent then return (l, none)
    else if ← l.shouldRaiseInitialEvent snapshot onlineState then
      let (l, event) ← l.raiseInitialEvent snapshot
      return (l, some event)
    else return (l, none)

end FSTQueryListener

/-! ### A listener and its handler -/

/-- A listener with the snapshots that its handler has got, in order. -/
structure Listening (q : FSTQuery K D) where
  listener : FSTQueryListener q
  events : List (ViewSnapshot q) := []

namespace Listening

/-- The listener has been called, and has called its handler if there is an event. -/
def handle (l : Listening q) (result : FSTQueryListener q × Option (ViewSnapshot q)) :
    Listening q where
  listener := result.1
  events := l.events ++ result.2.toList

def deliver (l : Listening q) (snapshot : ViewSnapshot q) : Except HardFail (Listening q) :=
  (l.listener.queryDidChangeViewSnapshot snapshot).map l.handle

def applyChangedOnlineState (l : Listening q) (onlineState : OnlineState) :
    Except HardFail (Listening q) :=
  (l.listener.applyChangedOnlineState onlineState).map l.handle

end Listening

/-- What a handler that keeps a list of documents does with a snapshot. -/
def followSnapshot (docs : List (K × D)) (snapshot : ViewSnapshot q) : Option (List (K × D)) :=
  match snapshot.documentChangesForSnapshot false with
  | .error _ => none
  | .ok changes => changes.foldlM FIRDocumentChange.edit docs

/-- The list of such a handler; `none` if it could not follow. -/
def Listening.docs (l : Listening q) : Option (List (K × D)) :=
  l.events.foldlM followSnapshot []

/-! ### The client -/

variable {ι : Type}

/-- The listeners of a query, with the last snapshot and the view of the sync engine. -/
structure QueryInfo (ι : Type) (q : FSTQuery K D) where
  listeners : List (ι × Listening q)
  viewSnapshot : Option (ViewSnapshot q)
  view : FSTView q

/-- Calls all listeners. -/
def QueryInfo.forListeners (info : QueryInfo ι q)
    (f : Listening q → Except HardFail (Listening q)) : Except HardFail (QueryInfo ι q) := do
  let listeners ← info.listeners.mapM fun (i, l) => do
    let l ← f l
    return (i, l)
  return { info with listeners }

def QueryInfo.handleViewSnapshot (info : QueryInfo ι q) (snapshot : Option (ViewSnapshot q)) :
    Except HardFail (QueryInfo ι q) :=
  match snapshot with
  | none => .ok info
  | some snapshot => do
    let info ← info.forListeners (·.deliver snapshot)
    return { info with viewSnapshot := some snapshot }

structure Client (ι : Type) (q : FSTQuery K D) where
  store : LocalStore K D
  onlineState : OnlineState := .unknown
  info : Option (QueryInfo ι q) := none

inductive ClientEvent (ι : Type) (q : FSTQuery K D)
  /-- A listener is added; `remoteKeys` is what the store knows of the remote target. -/
  | addListener (i : ι) (options : FSTListenOptions) (remoteKeys : Finset K)
  | removeListener (i : ι)
  /-- The store has changed and reports the changed documents. -/
  | storeChange (store : LocalStore K D) (changes : SortedMap K (FSTMaybeDocument K D))
      (targetChange : Option (TargetChange K))
  | onlineState (onlineState : OnlineState)
  /-- The query has been rejected. -/
  | error

variable [DecidableEq D] [DecidableEq ι] (A : Sorting.Algorithm)

def Client.addListener (c : Client ι q) (i : ι) (options : FSTListenOptions)
    (remoteKeys : Finset K) : Except HardFail (Client ι q) := do
  let listening : Listening q := { listener := { options } }
  let listening ← listening.applyChangedOnlineState c.onlineState
  match c.info with
  | some info =>
    let listening ← match info.viewSnapshot with
      | none => pure listening
      | some snapshot => listening.deliver snapshot
    return { c with info := some { info with listeners := info.listeners ++ [(i, listening)] } }
  | none =>
    let (view, snapshot) ← initializeView A q c.store remoteKeys
    let info : QueryInfo ι q := { listeners := [(i, listening)], viewSnapshot := none, view }
    let info ← info.handleViewSnapshot (some snapshot)
    return { c with info := some info }

def Client.step (c : Client ι q) : ClientEvent ι q → Except HardFail (Client ι q)
  | .addListener i options remoteKeys => c.addListener A i options remoteKeys
  | .removeListener i =>
    match c.info with
    | none => .ok c
    | some info =>
      let listeners := info.listeners.filter fun e => e.1 ≠ i
      .ok { c with info := if listeners.isEmpty then none else some { info with listeners } }
  | .storeChange store changes targetChange =>
    match c.info with
    | none => .ok { c with store }
    | some info => do
      let (view, change) ← info.view.emitNewSnapshot A store changes targetChange
      let info ← { info with view }.handleViewSnapshot change.snapshot
      return { c with store, info := some info }
  | .onlineState onlineState =>
    match c.info with
    | none => .ok { c with onlineState }
    | some info => do
      let (view, change) ← info.view.applyChangedOnlineState A onlineState
      if ¬ change.limboChanges.isEmpty then throw .limboByOnlineState
      let info ← { info with view }.handleViewSnapshot change.snapshot
      let info ← info.forListeners (·.applyChangedOnlineState onlineState)
      return { c with onlineState, info := some info }
  | .error => .ok { c with info := none }

end SmartWeather.Firestore
