import Mathlib.Tactic

/-!
# Programs with a state and exceptions

`EStateM ε σ` is a program that changes a state and may raise an exception, the state being kept
when it does.  `final x s` is the state after `x`, however it ends.

* `final_bind_ok`, `final_bind_error`: the state after a sequence of two programs;
* `Leads R x`: whatever happens, `x` takes every state to one that is related to it by `R`; for a
  preorder this is closed under sequencing, `tryCatch` and `finally`;
* `Ends x s Q E`: postconditions of a program for both ways in which it can end, with a rule for
  each program former;
* `Coupled V R x y`: two programs end in the same way, in states related by `R`, with values related
  by `V`, whenever they begin in related states.
-/

namespace Effects

variable {ε σ α β : Type}

/-- The state of a result. -/
def stateOf : EStateM.Result ε σ α → σ
  | .ok _ s => s
  | .error _ s => s

/-- The state after a program, however it ends. -/
def final (x : EStateM ε σ α) (s : σ) : σ := stateOf (x.run s)

variable {x : EStateM ε σ α} {f : α → EStateM ε σ β} {s s' : σ}

theorem final_of_ok {a : α} (h : x.run s = .ok a s') : final x s = s' := by
  rw [final, h]
  rfl

theorem final_of_error {e : ε} (h : x.run s = .error e s') : final x s = s' := by
  rw [final, h]
  rfl

theorem run_bind_ok {a : α} (h : x.run s = .ok a s') : (x >>= f).run s = (f a).run s' := by
  rw [EStateM.run_bind, h]

theorem run_bind_error {e : ε} (h : x.run s = .error e s') :
    (x >>= f).run s = .error e s' := by
  rw [EStateM.run_bind, h]

theorem final_bind_ok {a : α} (h : x.run s = .ok a s') : final (x >>= f) s = final (f a) s' := by
  rw [final, run_bind_ok h, final]

theorem final_bind_error {e : ε} (h : x.run s = .error e s') : final (x >>= f) s = s' :=
  final_of_error (run_bind_error h)

/-- The handler takes over in the state in which the exception was raised. -/
theorem run_tryCatch (x : EStateM ε σ α) (f : ε → EStateM ε σ α) (s : σ) :
    (tryCatch x f).run s = match x.run s with
      | .ok a s' => .ok a s'
      | .error e s' => (f e).run s' := by
  show EStateM.tryCatch x f s = _
  rw [EStateM.tryCatch, EStateM.run]
  cases x s <;> rfl

/-- `finally` runs the second program on the state that the first one leaves. -/
theorem run_finally_modify (x : EStateM ε σ α) (g : σ → σ) (s : σ) :
    (tryFinally x (modify g)).run s = match x.run s with
      | .ok a s' => .ok a (g s')
      | .error e s' => .error e (g s') := by
  have hmap : (tryFinally x (modify g)).run s =
      EStateM.map Prod.fst (tryFinally' x fun _ => (modify g : EStateM ε σ PUnit)) s := rfl
  rw [hmap]
  simp only [EStateM.map, tryFinally', EStateM.run]
  cases x s <;> rfl

/-! ### Relations between the states before and after -/

/-- However it ends, the program leads from every state to a related one. -/
def Leads (R : σ → σ → Prop) (x : EStateM ε σ α) : Prop := ∀ s, R s (final x s)

section Leads

variable {R : σ → σ → Prop}

theorem Leads.update {g : σ → σ} (h : ∀ s, R s (g s)) :
    Leads R (modify g : EStateM ε σ PUnit) := fun s => h s

variable [IsPreorder σ R]

theorem Leads.pure (a : α) : Leads R (Pure.pure a : EStateM ε σ α) := fun s => refl_of R s

theorem Leads.throw (e : ε) : Leads R (MonadExcept.throw e : EStateM ε σ α) :=
  fun s => refl_of R s

theorem Leads.get : Leads R (MonadState.get : EStateM ε σ σ) := fun s => refl_of R s

theorem Leads.final_bind (hf : ∀ a, Leads R (f a)) (s : σ) :
    R (final x s) (final (x >>= f) s) := by
  cases h : x.run s with
  | ok a s' =>
    rw [final_bind_ok h, final_of_ok h]
    exact hf a s'
  | error e s' =>
    rw [final_bind_error h, final_of_error h]
    exact refl_of R s'

theorem Leads.bind (hx : Leads R x) (hf : ∀ a, Leads R (f a)) : Leads R (x >>= f) :=
  fun s => trans_of R (hx s) (Leads.final_bind hf s)

theorem Leads.tryCatch (hx : Leads R x) {h : ε → EStateM ε σ α} (hh : ∀ e, Leads R (h e)) :
    Leads R (MonadExcept.tryCatch x h) := by
  intro s
  have hxs := hx s
  rw [final] at hxs ⊢
  rw [run_tryCatch]
  cases hr : x.run s with
  | ok a s' =>
    rw [hr] at hxs
    exact hxs
  | error e s' =>
    rw [hr] at hxs
    exact trans_of R hxs (hh e s')

theorem Leads.finally (hx : Leads R x) {g : σ → σ} (hg : ∀ s, R s (g s)) :
    Leads R (tryFinally x (modify g)) := by
  intro s
  have hxs := hx s
  rw [final] at hxs ⊢
  rw [run_finally_modify]
  cases hr : x.run s with
  | ok a s' | error e s' =>
    rw [hr] at hxs
    exact trans_of R hxs (hg s')

end Leads

/-! ### Postconditions -/

/-- Run from the state `s`, the program ends with a value and a state that satisfy `Q`, or with an
exception and a state that satisfy `E`. -/
def Ends (x : EStateM ε σ α) (s : σ) (Q : α → σ → Prop) (E : ε → σ → Prop) : Prop :=
  (∀ a t, x.run s = .ok a t → Q a t) ∧ ∀ e t, x.run s = .error e t → E e t

section Ends

variable {Q : α → σ → Prop} {E : ε → σ → Prop}

theorem Ends.pure {a : α} (h : Q a s) : Ends (Pure.pure a : EStateM ε σ α) s Q E :=
  ⟨by rintro _ _ ⟨⟩; exact h, by rintro _ _ ⟨⟩⟩

theorem Ends.throw {e : ε} (h : E e s) : Ends (MonadExcept.throw e : EStateM ε σ α) s Q E :=
  ⟨by rintro _ _ ⟨⟩, by rintro _ _ ⟨⟩; exact h⟩

theorem Ends.update {g : σ → σ} {Q : PUnit → σ → Prop} (h : Q ⟨⟩ (g s)) :
    Ends (modify g : EStateM ε σ PUnit) s Q E :=
  ⟨by rintro _ _ ⟨⟩; exact h, by rintro _ _ ⟨⟩⟩

theorem Ends.mono {Q' : α → σ → Prop} {E' : ε → σ → Prop} (hx : Ends x s Q E)
    (hQ : ∀ a t, Q a t → Q' a t) (hE : ∀ e t, E e t → E' e t) : Ends x s Q' E' :=
  ⟨fun a t h => hQ a t (hx.1 a t h), fun e t h => hE e t (hx.2 e t h)⟩

theorem Ends.bind {R : β → σ → Prop} (hx : Ends x s Q E)
    (hf : ∀ a t, Q a t → Ends (f a) t R E) : Ends (x >>= f) s R E := by
  constructor
  · intro b u h
    cases hr : x.run s with
    | ok a t => exact (hf a t (hx.1 a t hr)).1 b u (run_bind_ok (f := f) hr ▸ h)
    | error e t => rw [run_bind_error hr] at h; cases h
  · intro e u h
    cases hr : x.run s with
    | ok a t => exact (hf a t (hx.1 a t hr)).2 e u (run_bind_ok (f := f) hr ▸ h)
    | error e' t =>
      rw [run_bind_error hr] at h
      cases h
      exact hx.2 _ _ hr

theorem Ends.finally {g : σ → σ} (hx : Ends x s (fun a t => Q a (g t)) fun e t => E e (g t)) :
    Ends (tryFinally x (modify g)) s Q E := by
  have hrun := run_finally_modify x g s
  cases hr : x.run s with
  | ok a t =>
    rw [hr] at hrun
    refine ⟨fun b u h => ?_, fun e u h => ?_⟩ <;> rw [hrun] at h <;> cases h
    exact hx.1 a t hr
  | error e t =>
    rw [hr] at hrun
    refine ⟨fun b u h => ?_, fun e' u h => ?_⟩ <;> rw [hrun] at h <;> cases h
    exact hx.2 e t hr

end Ends

/-! ### Two programs side by side -/

section Coupled

variable {α' β' : Type} {V : α → α' → Prop} {W : β → β' → Prop} {R : σ → σ → Prop}
  {y : EStateM ε σ α'} {g : α' → EStateM ε σ β'} {t : σ}

/-- Both results are values or both are the same exception, and values and states are related. -/
def Alike (V : α → α' → Prop) (R : σ → σ → Prop) :
    EStateM.Result ε σ α → EStateM.Result ε σ α' → Prop
  | .ok a s, .ok a' t => V a a' ∧ R s t
  | .error e s, .error e' t => e = e' ∧ R s t
  | _, _ => False

/-- From related states the two programs come to results that are alike. -/
def Coupled (V : α → α' → Prop) (R : σ → σ → Prop) (x : EStateM ε σ α) (y : EStateM ε σ α') :
    Prop :=
  ∀ s t, R s t → Alike V R (x.run s) (y.run t)

theorem Alike.states (h : Alike V R (x.run s) (y.run t)) : R (final x s) (final y t) := by
  rw [final, final]
  cases hx : x.run s <;> cases hy : y.run t <;> rw [hx, hy] at h
  · exact h.2
  · exact h.elim
  · exact h.elim
  · exact h.2

/-- The continuations need only be alike where the first programs come to. -/
theorem Alike.bind (h : Alike V R (x.run s) (y.run t))
    (hk : ∀ a a' s' t', x.run s = .ok a s' → V a a' → R s' t' →
      Alike W R ((f a).run s') ((g a').run t')) :
    Alike W R ((x >>= f).run s) ((y >>= g).run t) := by
  cases hx : x.run s <;> cases hy : y.run t <;> rw [hx, hy] at h
  · rw [run_bind_ok hx, run_bind_ok hy]
    exact hk _ _ _ _ hx h.1 h.2
  · exact h.elim
  · exact h.elim
  · rw [run_bind_error hx, run_bind_error hy]
    exact h

theorem Coupled.pure {a : α} {a' : α'} (h : V a a') :
    Coupled V R (Pure.pure a : EStateM ε σ α) (Pure.pure a') := fun _ _ hR => ⟨h, hR⟩

theorem Coupled.throw (e : ε) :
    Coupled V R (MonadExcept.throw e : EStateM ε σ α) (MonadExcept.throw e) :=
  fun _ _ hR => ⟨rfl, hR⟩

theorem Coupled.update {p q : σ → σ} (h : ∀ s t, R s t → R (p s) (q t)) :
    Coupled Eq R (modify p : EStateM ε σ PUnit) (modify q) := fun s t hR => ⟨rfl, h s t hR⟩

theorem Coupled.get :
    Coupled R R (MonadState.get : EStateM ε σ σ) (MonadState.get : EStateM ε σ σ) :=
  fun _ _ hR => ⟨hR, hR⟩

theorem Coupled.bind (hx : Coupled V R x y) (hf : ∀ a a', V a a' → Coupled W R (f a) (g a')) :
    Coupled W R (x >>= f) (y >>= g) :=
  fun s t hR => (hx s t hR).bind fun a a' s' t' _ hV hR' => hf a a' hV s' t' hR'

theorem Alike.tryCatch (h : Alike V R (x.run s) (y.run t)) {p : ε → EStateM ε σ α}
    {q : ε → EStateM ε σ α'} (hpq : ∀ e, Coupled V R (p e) (q e)) :
    Alike V R ((MonadExcept.tryCatch x p).run s) ((MonadExcept.tryCatch y q).run t) := by
  rw [run_tryCatch, run_tryCatch]
  cases hx : x.run s <;> cases hy : y.run t <;> rw [hx, hy] at h
  · exact h
  · exact h.elim
  · exact h.elim
  · obtain ⟨rfl, hR⟩ := h
    exact hpq _ _ _ hR

theorem Coupled.finally (h : Coupled V R x y) {p q : σ → σ} (hpq : ∀ s t, R s t → R (p s) (q t)) :
    Coupled V R (tryFinally x (modify p)) (tryFinally y (modify q)) := by
  intro s t hR
  have hxy := h s t hR
  rw [run_finally_modify, run_finally_modify]
  cases hx : x.run s <;> cases hy : y.run t <;> rw [hx, hy] at hxy
  · exact ⟨hxy.1, hpq _ _ hxy.2⟩
  · exact hxy.elim
  · exact hxy.elim
  · exact ⟨hxy.1, hpq _ _ hxy.2⟩

end Coupled

end Effects
