import NetHelper.Lib.Fifo

/-!
# Systems in series

Two systems one behind the other: what leaves the first at a step joins a link, and what the second takes in at a step comes
off the link, in order (`SeriesStep`). A run is a run of each of the two, and the link neither loses nor reorders anything
(`Series.link_eq`, `Series.through`). When the two are queues, so is the whole: it holds what the second one holds, what is on
the link and what the first one holds (`Series.conservation`).
-/

namespace Fifo

variable {σ τ ε δ α : Type}

/-- A system is a queue: the invariant is kept, and every step is a step of the queue of the items that the state holds. -/
structure Queueing (step : σ → ε → σ → Prop) (inv : σ → Prop) (held : σ → List α) (act : ε → Act α) : Prop where
  inv_step : ∀ s e s', inv s → step s e s' → inv s'
  queue_step : ∀ s e s', inv s → step s e s' → Step (held s) (act e) (held s')

/-- A run of a queue conserves the items, in order. -/
theorem Queueing.conservation {step : σ → ε → σ → Prop} {inv : σ → Prop} {held : σ → List α} {act : ε → Act α} {s s' : σ}
    {es : List ε} (h : Queueing step inv held act) (hr : Lts.Run step s es s') (h0 : inv s) :
    es.flatMap (fun e => (act e).outs) ++ held s' = held s ++ es.flatMap (fun e => (act e).ins) := by
  have hc := Fifo.conservation (hr.simulation held act h.inv_step h.queue_step h0)
  rwa [List.flatMap_map, List.flatMap_map] at hc

/-- The states of two systems, and what is on its way from the first to the second, oldest first. -/
structure Series (σ τ α : Type) where
  left : σ
  link : List α
  right : τ

/-- The steps of two systems in series. -/
inductive SeriesStep (step : σ → ε → σ → Prop) (out : ε → List α) (step' : τ → δ → τ → Prop) (inp : δ → List α) :
    Series σ τ α → ε ⊕ δ → Series σ τ α → Prop where
  | left {l l' : σ} {link : List α} {r : τ} {e : ε} (h : step l e l') :
      SeriesStep step out step' inp ⟨l, link, r⟩ (.inl e) ⟨l', link ++ out e, r⟩
  | right {l : σ} {link : List α} {r r' : τ} {d : δ} (h : step' r d r') :
      SeriesStep step out step' inp ⟨l, inp d ++ link, r⟩ (.inr d) ⟨l, link, r'⟩

/-- The events of the first system. -/
def lefts (es : List (ε ⊕ δ)) : List ε := es.filterMap Sum.getLeft?

/-- The events of the second system. -/
def rights (es : List (ε ⊕ δ)) : List δ := es.filterMap Sum.getRight?

theorem lefts_append (es es' : List (ε ⊕ δ)) : lefts (es ++ es') = lefts es ++ lefts es' := List.filterMap_append

theorem rights_append (es es' : List (ε ⊕ δ)) : rights (es ++ es') = rights es ++ rights es' := List.filterMap_append

@[simp] theorem lefts_map_inl (es : List ε) : lefts (es.map (Sum.inl : ε → ε ⊕ δ)) = es := by
  induction es with
  | nil => rfl
  | cons e es ih => exact congrArg (e :: ·) ih

@[simp] theorem lefts_map_inr (es : List δ) : lefts (es.map (Sum.inr : δ → ε ⊕ δ)) = [] := by
  induction es with
  | nil => rfl
  | cons e es ih => exact ih

namespace Series

variable {step : σ → ε → σ → Prop} {out : ε → List α} {step' : τ → δ → τ → Prop} {inp : δ → List α} {s t : Series σ τ α}
  {es : List (ε ⊕ δ)}

/-- A run is a run of the first system. -/
theorem run_left (h : Lts.Run (SeriesStep step out step' inp) s es t) : Lts.Run step s.left (lefts es) t.left := by
  induction h with
  | nil => exact Lts.Run.nil _
  | snoc _ hs ih =>
    rw [lefts_append]
    cases hs with
    | left h => exact Lts.Run.snoc ih h
    | right h =>
      change Lts.Run step _ (_ ++ []) _
      rwa [List.append_nil]

/-- A run is a run of the second system. -/
theorem run_right (h : Lts.Run (SeriesStep step out step' inp) s es t) : Lts.Run step' s.right (rights es) t.right := by
  induction h with
  | nil => exact Lts.Run.nil _
  | snoc _ hs ih =>
    rw [rights_append]
    cases hs with
    | left h =>
      change Lts.Run step' _ (_ ++ []) _
      rwa [List.append_nil]
    | right h => exact Lts.Run.snoc ih h

/-- What was on the link and what joined it is what came off it and what is on it. -/
theorem link_eq (h : Lts.Run (SeriesStep step out step' inp) s es t) :
    s.link ++ (lefts es).flatMap out = (rights es).flatMap inp ++ t.link := by
  induction h with
  | nil => simp [lefts, rights]
  | snoc _ hs ih =>
    rw [lefts_append, rights_append, List.flatMap_append, List.flatMap_append, ← List.append_assoc, ih]
    cases hs with
    | left h => simp [lefts, rights]
    | right h => simp [lefts, rights]

/-- A run of the first system alone. -/
theorem of_left {l l' : σ} {r : τ} {link : List α} {es : List ε} (h : Lts.Run step l es l') :
    Lts.Run (SeriesStep step out step' inp) ⟨l, link, r⟩ (es.map Sum.inl) ⟨l', link ++ es.flatMap out, r⟩ := by
  induction h with
  | nil =>
    rw [List.flatMap_nil, List.append_nil]
    exact Lts.Run.nil _
  | snoc _ hs ih =>
    rw [List.map_append, List.flatMap_append, List.flatMap_singleton, ← List.append_assoc]
    exact Lts.Run.snoc ih (SeriesStep.left hs)

/-- A run of the second system alone. -/
theorem of_right {l : σ} {r r' : τ} {link : List α} {ds : List δ} (h : Lts.Run step' r ds r') :
    Lts.Run (SeriesStep step out step' inp) ⟨l, ds.flatMap inp ++ link, r⟩ (ds.map Sum.inr) ⟨l, link, r'⟩ := by
  induction h generalizing link with
  | nil => exact Lts.Run.nil _
  | snoc _ hs ih =>
    rw [List.map_append, List.flatMap_append, List.flatMap_singleton, List.append_assoc]
    exact Lts.Run.snoc ih (SeriesStep.right hs)

/-- What came out of the second system, and what is in the whole, against what was in it and what went into the first: the first
system has given up `out` for what went into it, and the second has given `got` for what it took in. -/
theorem through {x₀ x y₀ y sent got : List α} (hr : Lts.Run (SeriesStep step out step' inp) s es t)
    (hl : (lefts es).flatMap out ++ x = x₀ ++ sent) (hg : got ++ y = y₀ ++ (rights es).flatMap inp) :
    got ++ (y ++ t.link ++ x) = y₀ ++ s.link ++ x₀ ++ sent := by
  have hlink := link_eq hr
  calc
    got ++ (y ++ t.link ++ x) = (got ++ y) ++ t.link ++ x := by simp only [List.append_assoc]
    _ = y₀ ++ ((rights es).flatMap inp ++ t.link) ++ x := by
      rw [hg]
      simp only [List.append_assoc]
    _ = y₀ ++ s.link ++ ((lefts es).flatMap out ++ x) := by
      rw [← hlink]
      simp only [List.append_assoc]
    _ = y₀ ++ s.link ++ x₀ ++ sent := by
      rw [hl]
      simp only [List.append_assoc]

/-- Two queues in series are a queue. -/
theorem conservation {inv : σ → Prop} {held : σ → List α} {act : ε → Act α} {inv' : τ → Prop} {held' : τ → List α}
    {act' : δ → Act α} (h : Queueing step inv held act) (h' : Queueing step' inv' held' act')
    (hr : Lts.Run (SeriesStep step (fun e => (act e).outs) step' (fun d => (act' d).ins)) s es t) (h0 : inv s.left)
    (h0' : inv' s.right) :
    (rights es).flatMap (fun d => (act' d).outs) ++ (held' t.right ++ t.link ++ held t.left) =
      held' s.right ++ s.link ++ held s.left ++ (lefts es).flatMap (fun e => (act e).ins) :=
  through hr (h.conservation (run_left hr) h0) (h'.conservation (run_right hr) h0')

end Series

end Fifo
