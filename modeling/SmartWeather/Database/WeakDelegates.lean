import SmartWeather.Database.MulticastDelegate
import SmartWeather.Library.Runs

/-!
# Delegates that die

`MulticastDelegate` holds its delegates weakly, and `invoke` skips the ones that are gone.  The
hash of a wrapper does not: it unwraps `value`.  A history is a list of `DelegateOp`s, the three
operations and the deallocations between them; a `DelegateEvent` is an operation together with what
the set does on its own account, the elements it hashes and the order in which it enumerates.

* `HashesLive`: whenever a delegate is added or removed, every object whose last addition or
  removal was an addition is alive;
* `run_of_hashesLive`: then no operation traps, whatever the set does;
* `safe_iff`: this condition is exactly what the weak set needs.
-/

namespace SmartWeather

open Runs

/-- An operation on the weak set, or the deallocation of an object. -/
inductive DelegateOp (ι : Type)
  | addDelegate (delegate : ι)
  | removeDelegate (delegate : ι)
  | invoke
  | dealloc (object : ι)

/-- An operation with the choices that the set makes in it. -/
inductive DelegateEvent (ι : Type)
  | addDelegate (delegate : ι) (touch : Touch (WeakObjectWrapper ι))
  | removeDelegate (delegate : ι) (touch : Touch (WeakObjectWrapper ι))
  | invoke (order : Shuffle (WeakObjectWrapper ι))
  | dealloc (object : ι)

/-- Every element. -/
def Touch.all (α : Type) : Touch α := ⟨fun l => l, fun l => List.Subset.refl l⟩

variable {ι : Type}

/-- The operation of an event. -/
def DelegateEvent.op : DelegateEvent ι → DelegateOp ι
  | .addDelegate l _ => .addDelegate l
  | .removeDelegate l _ => .removeDelegate l
  | .invoke _ => .invoke
  | .dealloc o => .dealloc o

namespace DelegateOp

/-- The object that an addition or a removal names. -/
def named : DelegateOp ι → Option ι
  | .addDelegate l => some l
  | .removeDelegate l => some l
  | _ => none

/-- The operation with one and the same choice of the stored elements that are hashed. -/
def hashing (touch : Touch (WeakObjectWrapper ι)) : DelegateOp ι → DelegateEvent ι
  | .addDelegate l => .addDelegate l touch
  | .removeDelegate l => .removeDelegate l touch
  | .invoke => .invoke (Shuffle.id _)
  | .dealloc o => .dealloc o

@[simp] theorem op_hashing (touch : Touch (WeakObjectWrapper ι)) (op : DelegateOp ι) :
    (op.hashing touch).op = op := by
  cases op <;> rfl

end DelegateOp

/-! ### Histories -/

/-- The object has not been deallocated. -/
def Alive (o : ι) (ops : List (DelegateOp ι)) : Prop := .dealloc o ∉ ops

/-- The last addition or removal that names the object is an addition. -/
def LastAdded (o : ι) (ops : List (DelegateOp ι)) : Prop :=
  ∃ p q, ops = p ++ .addDelegate o :: q ∧ .removeDelegate o ∉ q

/-- A delegate passed to `addDelegate` or `removeDelegate` is alive: the call holds it. -/
def Callable (ops : List (DelegateOp ι)) : Prop :=
  Throughout (fun p op => ∀ l, op.named = some l → Alive l p) ops

/-- At every addition and removal the objects last added are alive. -/
def HashesLive (ops : List (DelegateOp ι)) : Prop :=
  Throughout (fun p op => op.named.isSome → ∀ o, LastAdded o p → Alive o p) ops

section Histories

variable {o l : ι} {ops : List (DelegateOp ι)}

theorem not_lastAdded_nil : ¬ LastAdded o [] := by
  rintro ⟨p, q, h, -⟩
  simp at h

theorem lastAdded_snoc_iff {op : DelegateOp ι} :
    LastAdded o (ops ++ [op]) ↔
      op = .addDelegate o ∨ (LastAdded o ops ∧ op ≠ .removeDelegate o) := by
  constructor
  · rintro ⟨p, q, h, hq⟩
    rcases List.eq_nil_or_concat q with rfl | ⟨q', e, rfl⟩
    · left
      exact (List.append_inj' h rfl).2 |> List.singleton_inj.1
    · right
      rw [List.concat_eq_append, ← List.cons_append, ← List.append_assoc] at h
      obtain ⟨rfl, he⟩ := List.append_inj' h rfl
      obtain rfl := List.singleton_inj.1 he
      simp only [List.concat_eq_append, List.mem_append, List.mem_singleton, not_or] at hq
      exact ⟨⟨p, q', rfl, hq.1⟩, fun he => hq.2 he.symm⟩
  · rintro (rfl | ⟨⟨p, q, rfl, hq⟩, hop⟩)
    · exact ⟨ops, [], rfl, List.not_mem_nil⟩
    · refine ⟨p, q ++ [op], by simp, ?_⟩
      simp only [List.mem_append, List.mem_singleton, not_or]
      exact ⟨hq, fun h => hop h.symm⟩

theorem alive_snoc_iff {op : DelegateOp ι} :
    Alive o (ops ++ [op]) ↔ Alive o ops ∧ op ≠ .dealloc o := by
  simp only [Alive, List.mem_append, List.mem_singleton, not_or]
  exact and_congr_right fun _ => ⟨fun h e => h e.symm, fun h e => h e.symm⟩

end Histories

/-! ### The weak set along a history -/

/-- The set and the living objects. -/
structure WeakDelegates (ι : Type) where
  heap : Heap ι
  multicast : MulticastDelegate ι

namespace WeakDelegates

open MulticastDelegate

/-- The app has just started; no object has been deallocated. -/
def start : WeakDelegates ι := ⟨fun _ => true, {}⟩

variable [DecidableEq ι]

def step (d : WeakDelegates ι) : DelegateEvent ι → Except Trap (WeakDelegates ι)
  | .addDelegate l touch =>
      (d.multicast.addDelegate d.heap touch l).map fun multicast => { d with multicast }
  | .removeDelegate l touch =>
      (d.multicast.removeDelegate d.heap touch l).map fun multicast => { d with multicast }
  | .invoke order =>
      (d.multicast.invoke d.heap order (fun _ s => .ok s) ()).map fun _ => d
  | .dealloc o => .ok { d with heap := Function.update d.heap o false }

/-- An `invoke` after the events `p` calls the closure, whatever it does, once on every live object
last added and on nothing else. -/
def InvokesLive (p : List (DelegateEvent ι)) (order : Shuffle (WeakObjectWrapper ι)) : Prop :=
  ∃ d, run step start p = .ok d ∧ ∃ os : List ι, os.Nodup ∧
    (∀ o, o ∈ os ↔ Alive o (p.map DelegateEvent.op) ∧ LastAdded o (p.map DelegateEvent.op)) ∧
    ∀ (σ : Type) (invocation : ι → σ → Except Trap σ) (s : σ),
      d.multicast.invoke d.heap order invocation s = os.foldlM (fun s o => invocation o s) s

/-- No operation traps, and every `invoke` reaches exactly the live delegates. -/
def Safe (es : List (DelegateEvent ι)) : Prop :=
  (∃ d, run step start es = .ok d) ∧
    Throughout (fun p e => ∀ order, e = .invoke order → InvokesLive p order) es

/-- What the state says about the history: the living objects, and the stored ones. -/
structure Tracks (ops : List (DelegateOp ι)) (d : WeakDelegates ι) : Prop where
  alive : ∀ o, d.heap o = true ↔ Alive o ops
  nodup : d.multicast.objects.Nodup
  stored : ∀ o, o ∈ d.multicast.objects ↔ LastAdded o ops

omit [DecidableEq ι] in
theorem tracks_start : Tracks [] (start : WeakDelegates ι) :=
  ⟨fun o => by simp [start, Alive], by simp [start, objects],
    fun o => by simp [start, objects, not_lastAdded_nil]⟩

/-- An operation that meets no dead delegate goes through, and the state keeps track of it. -/
theorem step_tracks {ops : List (DelegateOp ι)} {d : WeakDelegates ι} (hd : Tracks ops d)
    (e : DelegateEvent ι) (hcall : ∀ l, e.op.named = some l → Alive l ops)
    (hlive : e.op.named.isSome → ∀ o, LastAdded o ops → Alive o ops) :
    ∃ d', step d e = .ok d' ∧ Tracks (ops ++ [e.op]) d' := by
  have hall : e.op.named.isSome → d.multicast.AllAlive d.heap := fun h o ho =>
    (hd.alive o).2 (hlive h o ((hd.stored o).1 ho))
  cases e with
  | addDelegate l touch =>
    have hl : d.heap l = true := (hd.alive l).2 (hcall l rfl)
    obtain ⟨m', hm', hobjects⟩ := addDelegate_eq touch (hall rfl) hl
    refine ⟨{ d with multicast := m' }, by rw [step, hm']; rfl, fun o => ?_, ?_, fun o => ?_⟩
    · simpa [alive_snoc_iff, DelegateEvent.op] using hd.alive o
    · show m'.objects.Nodup
      rw [hobjects]
      split_ifs with hmem
      · exact hd.nodup
      · exact List.Nodup.append hd.nodup (List.nodup_singleton l) (by simpa using hmem)
    · show o ∈ m'.objects ↔ _
      rw [hobjects, lastAdded_snoc_iff, ← hd.stored o]
      split_ifs with hmem
      · simp only [DelegateEvent.op, DelegateOp.addDelegate.injEq]
        exact ⟨fun ho => .inr ⟨ho, by simp⟩, by rintro (rfl | ho); exacts [hmem, ho.1]⟩
      · simp [DelegateEvent.op, or_comm, eq_comm]
  | removeDelegate l touch =>
    have hl : d.heap l = true := (hd.alive l).2 (hcall l rfl)
    obtain ⟨m', hm', hobjects⟩ := removeDelegate_eq touch (hall rfl) hl
    refine ⟨{ d with multicast := m' }, by rw [step, hm']; rfl, fun o => ?_, ?_, fun o => ?_⟩
    · simpa [alive_snoc_iff, DelegateEvent.op] using hd.alive o
    · exact hobjects ▸ hd.nodup.erase l
    · show o ∈ m'.objects ↔ _
      rw [hobjects, hd.nodup.mem_erase_iff, lastAdded_snoc_iff, ← hd.stored o]
      simp [DelegateEvent.op, and_comm, eq_comm]
  | invoke order =>
    obtain ⟨os, -, heq⟩ := exists_invoke_eq d.heap d.multicast order
    refine ⟨d, ?_, fun o => ?_, hd.nodup, fun o => ?_⟩
    · have hcalls : os.foldlM (fun s _ => (.ok s : Except Trap Unit)) () = .ok () :=
        List.foldlM_pure
      rw [step, heq, hcalls]
      rfl
    · simpa [alive_snoc_iff, DelegateEvent.op] using hd.alive o
    · simpa [lastAdded_snoc_iff, DelegateEvent.op] using hd.stored o
  | dealloc x =>
    refine ⟨_, rfl, fun o => ?_, hd.nodup, fun o => ?_⟩
    · by_cases hx : o = x
      · subst hx
        simp [alive_snoc_iff, DelegateEvent.op]
      · simpa [alive_snoc_iff, DelegateEvent.op, hx, Ne.symm hx] using hd.alive o
    · simpa [lastAdded_snoc_iff, DelegateEvent.op] using hd.stored o

/-- **A run that meets no dead delegate.**  Whatever the set hashes and in whatever order it
enumerates, the run goes through and the state keeps track of the history. -/
theorem run_of_hashesLive (es : List (DelegateEvent ι))
    (hcall : Callable (es.map DelegateEvent.op)) (hlive : HashesLive (es.map DelegateEvent.op)) :
    ∃ d, run step start es = .ok d ∧ Tracks (es.map DelegateEvent.op) d := by
  refine run_total (I := fun p d => Tracks (p.map DelegateEvent.op) d) tracks_start ?_
  rintro p e q d rfl - hd
  rw [List.map_append, List.map_cons] at hcall hlive
  obtain ⟨d', hstep, hd'⟩ := step_tracks hd e (hcall _ _ _ rfl) (hlive _ _ _ rfl)
  exact ⟨d', hstep, by rwa [List.map_append]⟩

theorem invokesLive_of_tracks {p : List (DelegateEvent ι)} {d : WeakDelegates ι}
    (hrun : run step start p = .ok d) (hd : Tracks (p.map DelegateEvent.op) d)
    (order : Shuffle (WeakObjectWrapper ι)) : InvokesLive p order := by
  obtain ⟨os, hperm, heq⟩ := exists_invoke_eq d.heap d.multicast order
  refine ⟨d, hrun, os, hperm.nodup_iff.2 (hd.nodup.filter _), fun o => ?_, heq⟩
  rw [hperm.mem_iff, List.mem_filter, hd.stored, hd.alive]
  exact and_comm

theorem safe_of_hashesLive (es : List (DelegateEvent ι))
    (hcall : Callable (es.map DelegateEvent.op)) (hlive : HashesLive (es.map DelegateEvent.op)) :
    Safe es := by
  obtain ⟨d, hrun, -⟩ := run_of_hashesLive es hcall hlive
  refine ⟨⟨d, hrun⟩, ?_⟩
  rintro p e q rfl order -
  rw [List.map_append] at hcall hlive
  obtain ⟨m, hm, htracks⟩ := run_of_hashesLive p hcall.left hlive.left
  exact invokesLive_of_tracks hm htracks order

/-- A set that hashes all its elements traps at a dead one. -/
theorem step_hashing_error {d : WeakDelegates ι} {op : DelegateOp ι} (hop : op.named.isSome)
    {o : ι} (ho : o ∈ d.multicast.objects) (hdead : d.heap o = false) :
    ∃ t, step d (op.hashing (Touch.all _)) = .error t := by
  have hhash : ∀ l, ∃ t, hashAll d.heap (Touch.all _) d.multicast.delegates ⟨l⟩ = .error t := by
    intro l
    cases h : hashAll d.heap (Touch.all _) d.multicast.delegates ⟨l⟩ with
    | error t => exact ⟨t, rfl⟩
    | ok u =>
      exfalso
      obtain ⟨-, -, hall⟩ := bind_eq_ok.1 h
      obtain ⟨hs, hall, -⟩ := bind_eq_ok.1 hall
      obtain ⟨w, hw, rfl⟩ := List.mem_map.1 ho
      obtain ⟨k, hk⟩ := exists_of_mapM_eq_ok hall w hw
      simp [WeakObjectWrapper.hashValue, WeakObjectWrapper.value, hdead, unwrap] at hk
  cases op with
  | addDelegate l =>
    obtain ⟨t, ht⟩ := hhash l
    exact ⟨t, by rw [DelegateOp.hashing, step, addDelegate, ht]; rfl⟩
  | removeDelegate l =>
    obtain ⟨t, ht⟩ := hhash l
    exact ⟨t, by rw [DelegateOp.hashing, step, removeDelegate, ht]; rfl⟩
  | invoke => cases hop
  | dealloc o => cases hop

/-- **Which histories a weak set survives.**  Whatever the set hashes and in whatever order it
enumerates, no operation traps and every `invoke` reaches exactly the live delegates: this holds
of a history if and only if, whenever a delegate is added or removed, the objects last added are
alive. -/
theorem safe_iff (ops : List (DelegateOp ι)) (hcall : Callable ops) :
    (∀ es : List (DelegateEvent ι), es.map DelegateEvent.op = ops → Safe es) ↔
      HashesLive ops := by
  refine ⟨fun hsafe => ?_, fun hlive es hes => safe_of_hashesLive es (hes ▸ hcall) (hes ▸ hlive)⟩
  -- the choices that make the earliest violation visible: hash nothing before it, all there
  have hmap : ∀ p : List (DelegateOp ι),
      (p.map (DelegateOp.hashing (Touch.none _))).map DelegateEvent.op = p := by
    intro p
    simp [Function.comp_def]
  have main : ∀ p, p <+: ops → HashesLive p := by
    intro p
    induction p using List.reverseRecOn with
    | nil => exact fun _ => throughout_nil
    | append_singleton p op ih =>
      rintro ⟨q, hq⟩
      have hp : HashesLive p := ih ⟨op :: q, by simpa using hq⟩
      have hcallp : Callable p := by
        rw [← hq, List.append_assoc] at hcall
        exact hcall.left
      refine throughout_snoc_iff.2 ⟨hp, fun hop o ho => ?_⟩
      obtain ⟨d, hrun, hd⟩ := run_of_hashesLive (p.map (DelegateOp.hashing (Touch.none _)))
        ((hmap p).symm ▸ hcallp) ((hmap p).symm ▸ hp)
      rw [hmap] at hd
      by_contra hdead
      obtain ⟨t, ht⟩ := step_hashing_error hop ((hd.stored o).2 ho)
        (by simpa using mt (hd.alive o).1 hdead)
      obtain ⟨⟨d', hd'⟩, -⟩ := hsafe (p.map (DelegateOp.hashing (Touch.none _)) ++
        op.hashing (Touch.all _) :: q.map (DelegateOp.hashing (Touch.none _))) (by
          rw [List.map_append, List.map_cons, hmap, hmap, DelegateOp.op_hashing]
          simpa using hq)
      obtain ⟨m, hm, hrest⟩ := run_append_eq_ok hd'
      obtain ⟨m', hm', -⟩ := run_cons_eq_ok hrest
      rw [hrun] at hm
      cases hm
      rw [ht] at hm'
      cases hm'
  exact main ops (List.prefix_refl ops)

/-- A delegate is added and dies while it is registered; then the closure is called. -/
def quietRun : List (DelegateOp ℕ) := [.addDelegate 0, .addDelegate 1, .dealloc 0, .invoke]

theorem safe_iff_quietRun :
    (∀ es : List (DelegateEvent ℕ), es.map DelegateEvent.op = quietRun → Safe es) ↔
      HashesLive quietRun :=
  safe_iff quietRun (by
    simp [Callable, quietRun, throughout_cons_iff, throughout_nil, DelegateOp.named, Alive])

/-- A delegate dies while it is registered, and another one is added. -/
def deathRun : List (DelegateOp ℕ) := [.addDelegate 0, .dealloc 0, .addDelegate 1]

theorem not_safe_deathRun :
    Callable deathRun ∧
      ¬ ∀ es : List (DelegateEvent ℕ), es.map DelegateEvent.op = deathRun → Safe es := by
  refine ⟨?_, fun h => ?_⟩
  · simp [Callable, deathRun, throughout_cons_iff, throughout_nil, DelegateOp.named, Alive]
  · -- the set grows at the second insertion and hashes the dead wrapper
    obtain ⟨⟨d, hd⟩, -⟩ := h (deathRun.map (DelegateOp.hashing (Touch.all _))) rfl
    exact nomatch hd

end WeakDelegates

end SmartWeather
