/-!
# Labelled transition systems

A system is a relation `step s e s'`: from the state `s` the event `e` leads to the state `s'`. A run is a list of events
taken one after another. What one step preserves a whole run preserves (`Run.invariant`), and a system whose steps are
steps of another one, seen through an abstraction of states and events, has only runs of the other one (`Run.simulation`;
`Run.refines` when a step is several steps of the other one, or none). Two systems that can follow each other step by step
have the same runs (`Bisim.runs_iff`).
-/

namespace Lts

variable {σ ε τ δ : Type}

/-- The runs of a system: the events from one state to another, in order. -/
inductive Run (step : σ → ε → σ → Prop) : σ → List ε → σ → Prop where
  | nil (s : σ) : Run step s [] s
  | snoc {s t u : σ} {es : List ε} {e : ε} : Run step s es t → step t e u → Run step s (es ++ [e]) u

variable {step step' : σ → ε → σ → Prop} {s t u : σ} {es : List ε}

/-- A single step is a run. -/
theorem Run.single {e : ε} (h : step s e t) : Run step s [e] t := Run.snoc (Run.nil s) h

/-- Runs compose. -/
theorem Run.append {es' : List ε} (h : Run step s es t) (h' : Run step t es' u) : Run step s (es ++ es') u := by
  induction h' with
  | nil => rwa [List.append_nil]
  | snoc _ hs ih =>
    rw [← List.append_assoc]
    exact Run.snoc ih hs

/-- The runs of a system are runs of one with more steps. -/
theorem Run.mono (hstep : ∀ s e s', step s e s' → step' s e s') (h : Run step s es t) : Run step' s es t := by
  induction h with
  | nil => exact Run.nil _
  | snoc _ hs ih => exact Run.snoc ih (hstep _ _ _ hs)

/-- A predicate that holds of the first state and is kept by every step holds of the last. -/
theorem Run.invariant {I : σ → Prop} (hstep : ∀ s e s', I s → step s e s' → I s') (h : Run step s es t) (h0 : I s) :
    I t := by
  induction h with
  | nil => exact h0
  | snoc _ hs ih => exact hstep _ _ _ ih hs

/-- What every step from a state of the invariant shows in its event, every event of a run shows. -/
theorem Run.events {I : σ → Prop} {P : ε → Prop} (hI : ∀ s e s', I s → step s e s' → I s')
    (hstep : ∀ s e s', I s → step s e s' → P e) (h : Run step s es t) (h0 : I s) : ∀ e ∈ es, P e := by
  induction h with
  | nil => exact fun _ he => by nomatch he
  | snoc hr hs ih =>
    intro e he
    rcases List.mem_append.mp he with he | he
    · exact ih e he
    · rw [List.mem_singleton.mp he]
      exact hstep _ _ _ (hr.invariant hI h0) hs

/-- Forward simulation: when every step from a state of the invariant is, through the abstraction, a step of the abstract
system, every run is a run of the abstract system. -/
theorem Run.simulation {astep : τ → δ → τ → Prop} {I : σ → Prop} (abs : σ → τ) (obs : ε → δ)
    (hI : ∀ s e s', I s → step s e s' → I s')
    (hsim : ∀ s e s', I s → step s e s' → astep (abs s) (obs e) (abs s')) (h : Run step s es t) (h0 : I s) :
    Run astep (abs s) (es.map obs) (abs t) := by
  induction h with
  | nil => exact Run.nil _
  | snoc hr hs ih =>
    rw [List.map_append]
    exact Run.snoc ih (hsim _ _ _ (hr.invariant hI h0) hs)

/-- Forward simulation by several steps or none: when every step from a state of the invariant is, through the abstraction, a
run of the abstract system over what its event shows, every run is a run of the abstract system. -/
theorem Run.refines {astep : τ → δ → τ → Prop} {I : σ → Prop} (abs : σ → τ) (obs : ε → List δ)
    (hI : ∀ s e s', I s → step s e s' → I s')
    (hsim : ∀ s e s', I s → step s e s' → Run astep (abs s) (obs e) (abs s')) (h : Run step s es t) (h0 : I s) :
    Run astep (abs s) (es.flatMap obs) (abs t) := by
  induction h with
  | nil => exact Run.nil _
  | snoc hr hs ih =>
    rw [List.flatMap_append, List.flatMap_singleton]
    exact ih.append (hsim _ _ _ (hr.invariant hI h0) hs)

/-! ## Two systems with the same runs -/

/-- From related states each system can follow a step of the other by a step with the same event, to related states. -/
structure Bisim (step : σ → ε → σ → Prop) (step' : τ → ε → τ → Prop) (R : σ → τ → Prop) : Prop where
  forth : ∀ s t e s', R s t → step s e s' → ∃ t', step' t e t' ∧ R s' t'
  back : ∀ s t e t', R s t → step' t e t' → ∃ s', step s e s' ∧ R s' t'

variable {bstep : τ → ε → τ → Prop} {R : σ → τ → Prop} {b : τ}

/-- The relation holds in both directions. -/
theorem Bisim.symm (h : Bisim step bstep R) : Bisim bstep step (fun b s => R s b) where
  forth _ _ _ _ hR hs := h.back _ _ _ _ hR hs
  back _ _ _ _ hR hs := h.forth _ _ _ _ hR hs

/-- A run of one system is followed by the other. -/
theorem Bisim.run (h : Bisim step bstep R) (hR : R s b) (hr : Run step s es t) : ∃ c, Run bstep b es c ∧ R t c := by
  induction hr with
  | nil => exact ⟨b, Run.nil b, hR⟩
  | snoc _ hs ih =>
    obtain ⟨c, hc, hRc⟩ := ih
    obtain ⟨d, hd, hRd⟩ := h.forth _ _ _ _ hRc hs
    exact ⟨d, Run.snoc hc hd, hRd⟩

/-- From related states both systems have the same runs. -/
theorem Bisim.runs_iff (h : Bisim step bstep R) (hR : R s b) : (∃ t, Run step s es t) ↔ ∃ c, Run bstep b es c := by
  constructor
  · rintro ⟨t, hr⟩
    obtain ⟨c, hc, _⟩ := h.run hR hr
    exact ⟨c, hc⟩
  · rintro ⟨c, hr⟩
    obtain ⟨t, ht, _⟩ := h.symm.run hR hr
    exact ⟨t, ht⟩

end Lts
