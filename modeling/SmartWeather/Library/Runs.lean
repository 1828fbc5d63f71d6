import Mathlib.Tactic

/-!
# Runs of an event-driven program

A program that reacts to events is a partial step function `σ → α → Except ε σ` (`ε` = the ways
an event can stop it).  `run step s es` handles the events `es` one after the other.

* `bind_eq_ok`, `map_eq_ok`, `mapError_eq_ok`, `exists_of_toOption_map`, `exists_of_mapM_eq_ok`,
  `exists_mapM_eq_ok`: when a computation goes through;
* `run_append_eq_ok`, `run_snoc_eq_ok`: a run splits at every point;
* `Along step P s es`: every event of the run that is reached is met in a state satisfying `P`;
* `Throughout P es`: every event of the list stands in the relation `P` to the events before it;
* `along_append`: a run is checked part by part;
* `along_of_invariant`, `Along.imp`: an invariant that every step keeps, and from which `P` follows;
* `Along.run_invariant`: the invariant at the end of the run;
* `run_induction`: a property of (history, state) kept by every step holds after every run;
* `along_iff`: two step properties that agree as long as an invariant holds, one of which keeps
  the invariant, agree along whole runs;
* `run_total`: a run whose steps all go through under an invariant goes through.
-/

namespace Runs

variable {σ α ε : Type}

/-! ### Results -/

theorem bind_eq_ok {β : Type} {x : Except ε σ} {f : σ → Except ε β} {b : β} :
    x >>= f = .ok b ↔ ∃ a, x = .ok a ∧ f a = .ok b := by
  cases x with
  | error e => exact ⟨fun h => (nomatch h), fun ⟨_, h, _⟩ => (nomatch h)⟩
  | ok a =>
    refine ⟨fun h => ⟨a, rfl, h⟩, ?_⟩
    rintro ⟨_, ⟨⟩, h⟩
    exact h

theorem map_eq_ok {β : Type} {x : Except ε σ} {f : σ → β} {b : β} :
    x.map f = .ok b ↔ ∃ a, x = .ok a ∧ f a = b := by
  cases x <;> simp [Except.map]

theorem mapError_eq_ok {ε' : Type} {x : Except ε σ} {f : ε → ε'} {a : σ} :
    x.mapError f = .ok a ↔ x = .ok a := by
  cases x <;> simp [Except.mapError]

/-- A result that was computed: the computation goes through, and its value is known in part. -/
theorem exists_of_toOption_map {β : Type} {x : Except ε σ} {f : σ → β} {b : β}
    (h : x.toOption.map f = some b) : ∃ a, x = .ok a ∧ f a = b := by
  cases x with
  | error e => cases h
  | ok a => exact ⟨a, rfl, Option.some.inj h⟩

/-- A traversal goes through only if it goes through at every element. -/
theorem exists_of_mapM_eq_ok {β : Type} {f : α → Except ε β} {l : List α} {bs : List β}
    (h : l.mapM f = .ok bs) : ∀ a ∈ l, ∃ b, f a = .ok b := by
  induction l generalizing bs with
  | nil => exact fun a ha => (nomatch ha)
  | cons a l ih =>
    rw [List.mapM_cons] at h
    obtain ⟨b, hb, h⟩ := bind_eq_ok.1 h
    obtain ⟨bs', hl, -⟩ := bind_eq_ok.1 h
    rintro x hx
    rcases List.mem_cons.1 hx with rfl | hx
    · exact ⟨b, hb⟩
    · exact ih hl x hx

/-- A traversal goes through if it goes through at every element. -/
theorem exists_mapM_eq_ok {β : Type} {f : α → Except ε β} {P : α → β → Prop} {l : List α}
    (h : ∀ a ∈ l, ∃ b, f a = .ok b ∧ P a b) :
    ∃ bs, l.mapM f = .ok bs ∧ List.Forall₂ P l bs := by
  induction l with
  | nil => exact ⟨[], rfl, List.Forall₂.nil⟩
  | cons a l ih =>
    obtain ⟨b, hb, hP⟩ := h a List.mem_cons_self
    obtain ⟨bs, hbs, hall⟩ := ih fun a ha => h a (List.mem_cons_of_mem _ ha)
    refine ⟨b :: bs, ?_, List.Forall₂.cons hP hall⟩
    rw [List.mapM_cons, hb]
    show l.mapM f >>= _ = _
    rw [hbs]
    rfl

theorem exists_of_mem_mapM {β : Type} {f : α → Except ε β} {l : List α} {bs : List β}
    (h : l.mapM f = .ok bs) : ∀ b ∈ bs, ∃ a ∈ l, f a = .ok b := by
  induction l generalizing bs with
  | nil =>
    cases h
    exact fun b hb => (List.not_mem_nil hb).elim
  | cons a l ih =>
    rw [List.mapM_cons] at h
    obtain ⟨b, hb, h⟩ := bind_eq_ok.1 h
    obtain ⟨rest, hrest, h⟩ := bind_eq_ok.1 h
    cases h
    intro c hc
    rcases List.mem_cons.1 hc with rfl | hc
    · exact ⟨a, List.mem_cons_self, hb⟩
    · obtain ⟨a', ha', hc'⟩ := ih hrest c hc
      exact ⟨a', List.mem_cons_of_mem _ ha', hc'⟩

theorem length_of_mapM_eq_ok {β : Type} {f : α → Except ε β} {l : List α} {bs : List β}
    (h : l.mapM f = .ok bs) : bs.length = l.length := by
  induction l generalizing bs with
  | nil =>
    cases h
    rfl
  | cons a l ih =>
    rw [List.mapM_cons] at h
    obtain ⟨b, -, h⟩ := bind_eq_ok.1 h
    obtain ⟨rest, hrest, h⟩ := bind_eq_ok.1 h
    cases h
    rw [List.length_cons, List.length_cons, ih hrest]

/-! ### Runs -/

/-- Handle the events one after the other, stopping at the first fault. -/
def run (step : σ → α → Except ε σ) (s : σ) : List α → Except ε σ
  | [] => .ok s
  | e :: es =>
      match step s e with
      | .ok s' => run step s' es
      | .error x => .error x

/-- Every event of the run that is reached is met in a state that satisfies `P`. -/
def Along (step : σ → α → Except ε σ) (P : σ → α → Prop) (s : σ) : List α → Prop
  | [] => True
  | e :: es => P s e ∧ ∀ s', step s e = .ok s' → Along step P s' es

variable {step : σ → α → Except ε σ} {s t : σ} {e : α} {es fs : List α}

@[simp] theorem run_nil : run step s [] = .ok s := rfl

theorem run_cons_ok {s' : σ} (h : step s e = .ok s') : run step s (e :: es) = run step s' es := by
  simp only [run, h]

theorem run_cons_eq_ok (h : run step s (e :: es) = .ok t) :
    ∃ s', step s e = .ok s' ∧ run step s' es = .ok t := by
  cases hs : step s e with
  | ok s' => exact ⟨s', rfl, by rwa [run_cons_ok hs] at h⟩
  | error x => simp [run, hs] at h

theorem run_append_ok (h : run step s es = .ok t) :
    run step s (es ++ fs) = run step t fs := by
  induction es generalizing s with
  | nil => cases h; rfl
  | cons e es ih =>
    obtain ⟨s', hs, h'⟩ := run_cons_eq_ok h
    rw [List.cons_append, run_cons_ok hs, ih h']

theorem run_append_eq_ok (h : run step s (es ++ fs) = .ok t) :
    ∃ m, run step s es = .ok m ∧ run step m fs = .ok t := by
  induction es generalizing s with
  | nil => exact ⟨s, rfl, h⟩
  | cons e es ih =>
    obtain ⟨s', hs, h'⟩ := run_cons_eq_ok h
    obtain ⟨m, hm, hf⟩ := ih h'
    exact ⟨m, by rw [run_cons_ok hs, hm], hf⟩

theorem run_snoc_eq_ok (h : run step s (es ++ [e]) = .ok t) :
    ∃ m, run step s es = .ok m ∧ step m e = .ok t := by
  obtain ⟨m, hm, he⟩ := run_append_eq_ok h
  obtain ⟨t', ht, hnil⟩ := run_cons_eq_ok he
  cases hnil
  exact ⟨m, hm, ht⟩

/-- A property of the history and the state that every step keeps holds after every run. -/
theorem run_induction {motive : List α → σ → Prop} (h0 : motive [] s)
    (hstep : ∀ p m e m', run step s p = .ok m → motive p m → step m e = .ok m' →
      motive (p ++ [e]) m') :
    ∀ es t, run step s es = .ok t → motive es t := by
  intro es
  induction es using List.reverseRecOn with
  | nil => rintro t ⟨⟩; exact h0
  | append_singleton p e ih =>
    intro t ht
    obtain ⟨m, hm, he⟩ := run_snoc_eq_ok ht
    exact hstep p m e t hm (ih m hm) he

/-- A run whose steps all go through under an invariant goes through and keeps it. -/
theorem run_total {I : List α → σ → Prop} (h0 : I [] s)
    (hstep : ∀ p e q m, es = p ++ e :: q → run step s p = .ok m → I p m →
      ∃ m', step m e = .ok m' ∧ I (p ++ [e]) m') :
    ∃ t, run step s es = .ok t ∧ I es t := by
  have main : ∀ p, p <+: es → ∃ t, run step s p = .ok t ∧ I p t := by
    intro p
    induction p using List.reverseRecOn with
    | nil => exact fun _ => ⟨s, rfl, h0⟩
    | append_singleton p e ih =>
      rintro ⟨q, hq⟩
      obtain ⟨m, hm, hi⟩ := ih ⟨e :: q, by simpa using hq⟩
      obtain ⟨m', he, hi'⟩ := hstep p e q m (by simpa using hq.symm) hm hi
      exact ⟨m', by rw [run_append_ok hm, run_cons_ok he, run_nil], hi'⟩
  exact main es (List.prefix_refl es)

/-- A run follows the plain loop over an abstract state that each of its steps follows. -/
theorem run_refines {τ : Type} {R : σ → τ → Prop} {abstractStep : τ → α → τ} {a : τ} (h0 : R s a)
    (hstep : ∀ s a, R s a → ∀ e, ∃ s', step s e = .ok s' ∧ R s' (abstractStep a e)) :
    ∃ t, run step s es = .ok t ∧ R t (es.foldl abstractStep a) := by
  induction es generalizing s a with
  | nil => exact ⟨s, rfl, h0⟩
  | cons e es ih =>
    obtain ⟨s', hs, h'⟩ := hstep s a h0 e
    rw [run_cons_ok hs]
    exact ih h'

/-! ### Properties of all steps of a run -/

section Along

variable {P Q A : σ → α → Prop} {I : σ → Prop}

theorem Along.at_split {p : List α} {m : σ} (h : Along step P s (p ++ e :: es))
    (hp : run step s p = .ok m) : P m e := by
  induction p generalizing s with
  | nil => cases hp; exact h.1
  | cons a p ih =>
    obtain ⟨s', hs, hp'⟩ := run_cons_eq_ok hp
    exact ih (h.2 s' hs) hp'

/-- The first event goes through, and the run is checked from the next state on. -/
theorem Along.cons {s' : σ} (he : P s e) (hs : step s e = .ok s') (h : Along step P s' es) :
    Along step P s (e :: es) := by
  refine ⟨he, fun t ht => ?_⟩
  rw [hs] at ht
  cases ht
  exact h

theorem along_append : Along step P s (es ++ fs) ↔
    Along step P s es ∧ ∀ t, run step s es = .ok t → Along step P t fs := by
  induction es generalizing s with
  | nil => exact ⟨fun h => ⟨trivial, fun t ht => by cases ht; exact h⟩, fun h => h.2 s rfl⟩
  | cons e es ih =>
    constructor
    · rintro ⟨he, hrest⟩
      refine ⟨⟨he, fun s' hs => (ih.1 (hrest s' hs)).1⟩, fun t ht => ?_⟩
      obtain ⟨s', hs, ht'⟩ := run_cons_eq_ok ht
      exact (ih.1 (hrest s' hs)).2 t ht'
    · rintro ⟨⟨he, hes⟩, hfs⟩
      refine ⟨he, fun s' hs => ih.2 ⟨hes s' hs, fun t ht => hfs t ?_⟩⟩
      rw [run_cons_ok hs, ht]

/-- A property that the events have in the states of an invariant holds along the run. -/
theorem along_of_invariant (hinv : I s) (hP : ∀ s, ∀ e ∈ es, I s → P s e)
    (hkeep : ∀ s e s', I s → step s e = .ok s' → I s') : Along step P s es := by
  induction es generalizing s with
  | nil => exact trivial
  | cons e es ih =>
    refine ⟨hP s e List.mem_cons_self hinv, fun s' hs => ih (hkeep s e s' hinv hs) ?_⟩
    exact fun s e he => hP s e (List.mem_cons_of_mem _ he)

/-- A property that follows from `A` in the states of an invariant holds along the run. -/
theorem Along.imp (hA : Along step A s es) (hinv : I s) (hP : ∀ s e, I s → A s e → P s e)
    (hkeep : ∀ s e s', I s → A s e → step s e = .ok s' → I s') : Along step P s es := by
  induction es generalizing s with
  | nil => exact trivial
  | cons e es ih =>
    exact ⟨hP s e hinv hA.1, fun s' hs => ih (hA.2 s' hs) (hkeep s e s' hinv hA.1 hs)⟩

/-- An invariant that is kept by the steps with the property `A` holds after the run. -/
theorem Along.run_invariant (hA : Along step A s es) (hinv : I s)
    (hkeep : ∀ s e s', I s → A s e → step s e = .ok s' → I s') (h : run step s es = .ok t) :
    I t := by
  induction es generalizing s with
  | nil => cases h; exact hinv
  | cons e es ih =>
    obtain ⟨s', hs, h'⟩ := run_cons_eq_ok h
    exact ih (hA.2 s' hs) (hkeep s e s' hinv hA.1 hs) h'

/-- As long as an invariant holds `P` and `Q` say the same of a step, and a step with `P` keeps
the invariant: then `P` and `Q` say the same of whole runs. -/
theorem along_iff (hA : Along step A s es) (hinv : I s)
    (hiff : ∀ s e, I s → A s e → (P s e ↔ Q s e))
    (hkeep : ∀ s e s', I s → A s e → P s e → step s e = .ok s' → I s') :
    Along step P s es ↔ Along step Q s es := by
  induction es generalizing s with
  | nil => exact Iff.rfl
  | cons e es ih =>
    have hPQ := hiff s e hinv hA.1
    constructor
    · rintro ⟨hP, hrest⟩
      exact ⟨hPQ.1 hP, fun s' hs =>
        (ih (hA.2 s' hs) (hkeep s e s' hinv hA.1 hP hs)).1 (hrest s' hs)⟩
    · rintro ⟨hQ, hrest⟩
      have hP := hPQ.2 hQ
      exact ⟨hP, fun s' hs =>
        (ih (hA.2 s' hs) (hkeep s e s' hinv hA.1 hP hs)).2 (hrest s' hs)⟩

end Along

/-! ### Properties of histories -/

/-- Every event stands in the relation `P` to the events before it. -/
def Throughout (P : List α → α → Prop) (es : List α) : Prop :=
  ∀ p e q, es = p ++ e :: q → P p e

section Throughout

variable {P : List α → α → Prop}

theorem throughout_nil : Throughout P [] := by
  rintro p e q h
  simp at h

theorem throughout_cons_iff :
    Throughout P (e :: es) ↔ P [] e ∧ Throughout (fun p => P (e :: p)) es := by
  refine ⟨fun h => ⟨h [] e es rfl, fun p x q hes => h (e :: p) x q (by rw [hes]; rfl)⟩, ?_⟩
  rintro ⟨he, hes⟩ p x q h
  cases p with
  | nil =>
    obtain ⟨rfl, -⟩ := List.cons_eq_cons.1 h
    exact he
  | cons a p =>
    obtain ⟨rfl, hq⟩ := List.cons_eq_cons.1 h
    exact hes p x q hq

theorem Throughout.left (h : Throughout P (es ++ fs)) : Throughout P es :=
  fun p e q hes => h p e (q ++ fs) (by simp [hes])

/-- A property of histories is checked event by event. -/
theorem throughout_snoc_iff : Throughout P (es ++ [e]) ↔ Throughout P es ∧ P es e := by
  refine ⟨fun h => ⟨h.left, h es e [] rfl⟩, ?_⟩
  rintro ⟨hes, he⟩ p x q h
  rcases List.eq_nil_or_concat q with rfl | ⟨q, y, rfl⟩
  · obtain ⟨rfl, hx⟩ := List.append_inj' h rfl
    exact List.singleton_inj.1 hx ▸ he
  · rw [List.concat_eq_append, ← List.cons_append, ← List.append_assoc] at h
    exact hes p x q (List.append_inj' h rfl).1

end Throughout

end Runs
