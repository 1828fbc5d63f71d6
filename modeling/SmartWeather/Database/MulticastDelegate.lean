import SmartWeather.Swift.Runtime

/-!
# The weak multicast set

`MulticastDelegate` keeps its delegates in a `Set` of `WeakObjectWrapper`s.  A wrapper refers to
its object weakly: once the object is deallocated, `value` is `nil`.  The hash of a wrapper unwraps
`value`, equality compares the two values.

`Set` hashes the argument of `insert` and `remove`; which stored elements it hashes besides (all of
them when it grows) and in which order it enumerates them is its own business.  Both choices are
arguments of the operations: `Touch`, the stored elements an operation hashes, and `Shuffle`, an
order of enumeration.

The type `ι` is the type of object identities; `heap o` says that the object `o` is alive.
-/

namespace SmartWeather

/-- Some of the elements of a list. -/
abbrev Touch (α : Type) := {f : List α → List α // ∀ l, f l ⊆ l}

/-- Some order of the elements of a list. -/
abbrev Shuffle (α : Type) := {f : List α → List α // ∀ l, (f l).Perm l}

/-- No element. -/
def Touch.none (α : Type) : Touch α := ⟨fun _ => [], fun _ => List.nil_subset _⟩

/-- The order of the list. -/
def Shuffle.id (α : Type) : Shuffle α := ⟨fun l => l, fun l => List.Perm.refl l⟩

variable {ι σ : Type}

/-- Which objects are alive. -/
abbrev Heap (ι : Type) := ι → Bool

/-- A weak reference to an object. -/
structure WeakObjectWrapper (ι : Type) where
  object : ι
  deriving DecidableEq

namespace WeakObjectWrapper

/-- The object, unless it is gone. -/
def value (heap : Heap ι) (w : WeakObjectWrapper ι) : Option ι :=
  if heap w.object then some w.object else none

/-- `hashValue`, up to the hash of an object identity. -/
def hashValue (heap : Heap ι) (w : WeakObjectWrapper ι) : Except Trap ι := unwrap (w.value heap)

/-- `==`. -/
def equal [DecidableEq ι] (heap : Heap ι) (lhs rhs : WeakObjectWrapper ι) : Bool :=
  lhs.value heap == rhs.value heap

end WeakObjectWrapper

structure MulticastDelegate (ι : Type) where
  delegates : List (WeakObjectWrapper ι) := []

namespace MulticastDelegate

/-- Hash the argument of a set operation and the stored elements it touches. -/
def hashAll (heap : Heap ι) (touch : Touch (WeakObjectWrapper ι))
    (stored : List (WeakObjectWrapper ι)) (w : WeakObjectWrapper ι) : Except Trap Unit := do
  let _ ← w.hashValue heap
  let _ ← (touch.1 stored).mapM fun e => e.hashValue heap

def addDelegate [DecidableEq ι] (heap : Heap ι) (touch : Touch (WeakObjectWrapper ι))
    (m : MulticastDelegate ι) (delegate : ι) : Except Trap (MulticastDelegate ι) := do
  let w : WeakObjectWrapper ι := ⟨delegate⟩
  hashAll heap touch m.delegates w
  return ⟨if m.delegates.any (fun e => e.equal heap w) then m.delegates else m.delegates ++ [w]⟩

def removeDelegate [DecidableEq ι] (heap : Heap ι) (touch : Touch (WeakObjectWrapper ι))
    (m : MulticastDelegate ι) (delegate : ι) : Except Trap (MulticastDelegate ι) := do
  let w : WeakObjectWrapper ι := ⟨delegate⟩
  hashAll heap touch m.delegates w
  return ⟨m.delegates.eraseP fun e => e.equal heap w⟩

/-- Call `invocation` on every delegate that is still there. -/
def invoke (heap : Heap ι) (order : Shuffle (WeakObjectWrapper ι)) (m : MulticastDelegate ι)
    (invocation : ι → σ → Except Trap σ) (s : σ) : Except Trap σ :=
  (order.1 m.delegates).foldlM
    (fun s w => match w.value heap with
      | some delegate => invocation delegate s
      | none => .ok s) s

/-- The objects whose wrappers are stored. -/
def objects (m : MulticastDelegate ι) : List ι := m.delegates.map WeakObjectWrapper.object

/-! ### The operations while every stored object is alive -/

section Alive

variable {heap : Heap ι} {m m' : MulticastDelegate ι} {l : ι}

/-- Every stored object is alive. -/
def AllAlive (heap : Heap ι) (m : MulticastDelegate ι) : Prop := ∀ o ∈ m.objects, heap o = true

theorem hashAll_eq_ok (touch : Touch (WeakObjectWrapper ι)) (hm : m.AllAlive heap)
    (hl : heap l = true) : hashAll heap touch m.delegates ⟨l⟩ = .ok () := by
  have hstored : ∀ e ∈ touch.1 m.delegates, e.hashValue heap = .ok e.object := by
    intro e he
    have : heap e.object = true := hm _ (List.mem_map_of_mem (touch.2 _ he))
    simp [WeakObjectWrapper.hashValue, WeakObjectWrapper.value, this]
  have hmap : ∀ es : List (WeakObjectWrapper ι), (∀ e ∈ es, e.hashValue heap = .ok e.object) →
      es.mapM (fun e => e.hashValue heap) = .ok (es.map WeakObjectWrapper.object) := by
    intro es
    induction es with
    | nil => exact fun _ => rfl
    | cons e es ih =>
      intro h
      rw [List.mapM_cons, h e List.mem_cons_self, ih fun x hx => h x (List.mem_cons_of_mem e hx)]
      rfl
  have harg : (⟨l⟩ : WeakObjectWrapper ι).hashValue heap = .ok l := by
    simp [WeakObjectWrapper.hashValue, WeakObjectWrapper.value, hl]
  rw [hashAll, harg, hmap _ hstored]
  rfl

/-- The invocations are made on the stored objects that are alive, in some order that does not
depend on them. -/
theorem exists_invoke_eq (heap : Heap ι) (m : MulticastDelegate ι)
    (order : Shuffle (WeakObjectWrapper ι)) :
    ∃ os : List ι, os.Perm (m.objects.filter heap) ∧
      ∀ (σ : Type) (invocation : ι → σ → Except Trap σ) (s : σ),
        m.invoke heap order invocation s = os.foldlM (fun s o => invocation o s) s := by
  refine ⟨((order.1 m.delegates).map WeakObjectWrapper.object).filter heap,
    ((order.2 m.delegates).map _).filter _, fun σ invocation s => ?_⟩
  rw [invoke]
  generalize order.1 m.delegates = es
  induction es generalizing s with
  | nil => rfl
  | cons e es ih =>
    rw [List.foldlM_cons, List.map_cons]
    by_cases he : heap e.object = true
    · rw [List.filter_cons_of_pos he, List.foldlM_cons]
      simp only [WeakObjectWrapper.value, he, if_true]
      cases invocation e.object s with
      | error t => rfl
      | ok s' => exact ih s'
    · -- the wrapper of an object that is gone is passed over
      rw [List.filter_cons_of_neg he]
      simp only [WeakObjectWrapper.value, he]
      exact ih s

/-- While every stored object is alive, the invocations are made on the stored objects, in some
order. -/
theorem invoke_eq (order : Shuffle (WeakObjectWrapper ι)) (hm : m.AllAlive heap)
    (invocation : ι → σ → Except Trap σ) (s : σ) :
    ∃ os : List ι, os.Perm m.objects ∧
      m.invoke heap order invocation s = os.foldlM (fun s o => invocation o s) s := by
  obtain ⟨os, hperm, heq⟩ := exists_invoke_eq heap m order
  rw [List.filter_eq_self.2 hm] at hperm
  exact ⟨os, hperm, heq σ invocation s⟩

variable [DecidableEq ι]

/-- A live argument is equal to the wrappers of the same object only. -/
theorem equal_iff (hl : heap l = true) (e : WeakObjectWrapper ι) :
    e.equal heap ⟨l⟩ = true ↔ e.object = l := by
  simp only [WeakObjectWrapper.equal, WeakObjectWrapper.value, hl, if_true, beq_iff_eq]
  constructor
  · intro h
    -- a wrapper whose object is gone has the value `nil`, which is not that of `l`
    split_ifs at h
    exact Option.some.inj h
  · rintro rfl
    simp [hl]

theorem addDelegate_eq (touch : Touch (WeakObjectWrapper ι)) (hm : m.AllAlive heap)
    (hl : heap l = true) :
    ∃ m', m.addDelegate heap touch l = .ok m' ∧
      m'.objects = if l ∈ m.objects then m.objects else m.objects ++ [l] := by
  refine ⟨_, by rw [addDelegate, hashAll_eq_ok touch hm hl]; rfl, ?_⟩
  have hany : m.delegates.any (fun e => e.equal heap ⟨l⟩) = true ↔ l ∈ m.objects := by
    simp only [List.any_eq_true, equal_iff hl, objects, List.mem_map]
  by_cases h : l ∈ m.objects
  · rw [if_pos h, if_pos (hany.2 h), objects]
  · rw [if_neg h, if_neg (mt hany.1 h)]
    simp [objects]

theorem removeDelegate_eq (touch : Touch (WeakObjectWrapper ι)) (hm : m.AllAlive heap)
    (hl : heap l = true) :
    ∃ m', m.removeDelegate heap touch l = .ok m' ∧ m'.objects = m.objects.erase l := by
  refine ⟨_, by rw [removeDelegate, hashAll_eq_ok touch hm hl]; rfl, ?_⟩
  have hp : (fun e : WeakObjectWrapper ι => e.equal heap ⟨l⟩) = fun e => e.object == l := by
    funext e
    rw [Bool.eq_iff_iff, equal_iff hl, beq_iff_eq]
  simp only [objects, hp]
  generalize m.delegates = es
  induction es with
  | nil => rfl
  | cons e es ih =>
    by_cases he : e.object = l
    · simp [he]
    · simp [he, ih]

end Alive

end MulticastDelegate

end SmartWeather
