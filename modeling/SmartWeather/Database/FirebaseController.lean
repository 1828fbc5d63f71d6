import SmartWeather.Database.MulticastDelegate
import SmartWeather.Database.SensorData

/-!
# The controller between the collection and the listeners

`FirebaseController` keeps the list of records and the multicast set of its listeners.  What a
listener does when it is told of a new list is given by `Listeners`: the type of each listener and
its `onDataListChange`, acting on the listeners' own state `σ`.

The spec lemmas (`snapshotListener_eq`, `addListener_eq`, `removeListener_eq`) say what each
operation does as long as the registered listeners are alive: they are notified with the list after
the snapshot, in some order, and the list grows at its end only.
-/

namespace SmartWeather

inductive ListenerType
  | data
  | all
  deriving DecidableEq

/-- The listeners: their types and what they do when they are called. -/
structure Listeners (ι σ : Type) where
  listenerType : ι → ListenerType
  onDataListChange : ι → List SensorData → σ → Except Trap σ

structure FirebaseController (ι : Type) where
  listeners : MulticastDelegate ι := {}
  dataList : List SensorData := []

variable {ι σ : Type}

/-- The call of a listener, guarded by its type. -/
def Listeners.notify (ls : Listeners ι σ) (dataList : List SensorData) (listener : ι) (s : σ) :
    Except Trap σ :=
  if ls.listenerType listener = .data ∨ ls.listenerType listener = .all then
    ls.onDataListChange listener dataList s
  else .ok s

/-- Both types of listener are told of the list. -/
theorem Listeners.notify_eq (ls : Listeners ι σ) (dataList : List SensorData) (listener : ι)
    (s : σ) : ls.notify dataList listener s = ls.onDataListChange listener dataList s := by
  rw [notify, if_pos]
  cases ls.listenerType listener <;> simp

namespace FirebaseController

variable (ls : Listeners ι σ) (heap : Heap ι)

def parseHeroesSnapshot (order : Shuffle (WeakObjectWrapper ι)) (snapshot : QuerySnapshot)
    (c : FirebaseController ι) (s : σ) : Except Trap (FirebaseController ι × σ) := do
  let dataList ← appendChanges c.dataList snapshot.documentChanges
  let s ← c.listeners.invoke heap order (fun listener s => ls.notify dataList listener s) s
  return ({ c with dataList }, s)

/-- The closure that `setUpListeners` hands to `addSnapshotListener`. -/
def snapshotListener (order : Shuffle (WeakObjectWrapper ι)) (querySnapshot : Option QuerySnapshot)
    (error : Option String) (c : FirebaseController ι) (s : σ) :
    Except Trap (FirebaseController ι × σ) :=
  match querySnapshot with
  | none => do
    let _ ← unwrap error
    return (c, s)
  | some snapshot => parseHeroesSnapshot ls heap order snapshot c s

def addListener [DecidableEq ι] (touch : Touch (WeakObjectWrapper ι)) (listener : ι)
    (c : FirebaseController ι) (s : σ) : Except Trap (FirebaseController ι × σ) := do
  let listeners ← c.listeners.addDelegate heap touch listener
  let s ← ls.notify c.dataList listener s
  return ({ c with listeners }, s)

def removeListener [DecidableEq ι] (touch : Touch (WeakObjectWrapper ι)) (listener : ι)
    (c : FirebaseController ι) : Except Trap (FirebaseController ι) := do
  let listeners ← c.listeners.removeDelegate heap touch listener
  return { c with listeners }

/-- The listeners that are registered. -/
def registered (c : FirebaseController ι) : List ι := c.listeners.objects

variable {ls heap} {c c' : FirebaseController ι} {s s' : σ}

variable (ls s) in
/-- A snapshot appends the contributions of its changes and tells every registered listener of the
new list. -/
theorem snapshotListener_eq (order : Shuffle (WeakObjectWrapper ι)) (snapshot : QuerySnapshot)
    (error : Option String) (halive : c.listeners.AllAlive heap) :
    ∃ os : List ι, os.Perm c.registered ∧
      snapshotListener ls heap order (some snapshot) error c s =
        let dataList := c.dataList ++ snapshot.documentChanges.filterMap recordOf?
        (os.foldlM (fun s o => ls.onDataListChange o dataList s) s).map
          fun s' => ({ c with dataList }, s') := by
  obtain ⟨os, hos, hinv⟩ := MulticastDelegate.invoke_eq order halive
    (fun listener s => ls.notify (c.dataList ++ snapshot.documentChanges.filterMap recordOf?)
      listener s) s
  refine ⟨os, hos, ?_⟩
  simp only [Listeners.notify_eq] at hinv
  simp only [snapshotListener, parseHeroesSnapshot, appendChanges_eq, Listeners.notify_eq]
  show (c.listeners.invoke heap order _ s >>= _) = _
  rw [hinv]
  rfl

variable [DecidableEq ι]

variable (ls s) in
theorem addListener_eq (touch : Touch (WeakObjectWrapper ι)) (l : ι)
    (halive : c.listeners.AllAlive heap) (hl : heap l = true) :
    ∃ c' : FirebaseController ι, c'.dataList = c.dataList ∧
      c'.registered = (if l ∈ c.registered then c.registered else c.registered ++ [l]) ∧
      addListener ls heap touch l c s =
        (ls.onDataListChange l c.dataList s).map fun s' => (c', s') := by
  obtain ⟨m, hm, hobj⟩ := MulticastDelegate.addDelegate_eq touch halive hl
  refine ⟨{ c with listeners := m }, rfl, hobj, ?_⟩
  rw [addListener, hm, Listeners.notify_eq]
  rfl

theorem removeListener_eq (touch : Touch (WeakObjectWrapper ι)) {l : ι}
    (halive : c.listeners.AllAlive heap) (hl : heap l = true) :
    ∃ c' : FirebaseController ι, c'.dataList = c.dataList ∧
      c'.registered = c.registered.erase l ∧ removeListener heap touch l c = .ok c' := by
  obtain ⟨m, hm, hobj⟩ := MulticastDelegate.removeDelegate_eq touch halive hl
  refine ⟨{ c with listeners := m }, rfl, hobj, ?_⟩
  rw [removeListener, hm]
  rfl

end FirebaseController

end SmartWeather
