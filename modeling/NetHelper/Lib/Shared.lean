import Mathlib.Data.List.Basic
import Mathlib.Data.Set.Function
import NetHelper.Lib.Lts

/-!
# Parts over one memory

Several parts work on one memory. Each has a state of its own, in which it sees the memory as it is at the moment, and steps
in which it may change both; the steps of the parts come in any order (`Parts.Step`). When each part keeps to cells of its
own, and what it is to keep depends on no other cell (`Parts.Confined`), a part keeps it in every run of the whole, and what
it does is what it would do alone (`Confined.project`).
-/

namespace Shared

variable {ι α β : Type}

/-- Parts over one memory: what each sees of the memory, how it looks with another memory, and its steps. -/
structure Parts (ι α β : Type) where
  State : ι → Type
  Event : ι → Type
  mem : ∀ i, State i → α → β
  withMem : ∀ i, State i → (α → β) → State i
  step : ∀ i, State i → Event i → State i → Prop

namespace Parts

variable (P : Parts ι α β)

/-- The states of the parts, and the memory. What a state says of the memory is what its part saw last. -/
structure Whole where
  part : ∀ i, P.State i
  mem : α → β

variable {P}

/-- A part with the memory as it is. -/
def Whole.view (w : P.Whole) (i : ι) : P.State i := P.withMem i (w.part i) w.mem

/-- An event of one part, as seen from the part `i`. -/
def at? [DecidableEq ι] (i : ι) (e : (j : ι) × P.Event j) : Option (P.Event i) :=
  if h : e.1 = i then some (h ▸ e.2) else none

/-- The events of the part `i`, in order. -/
def eventsAt [DecidableEq ι] (i : ι) (es : List ((j : ι) × P.Event j)) : List (P.Event i) := es.filterMap (at? i)

/-- What each event shows at the part `i`, one event after another. -/
theorem flatMap_at? [DecidableEq ι] {δ : Type} (i : ι) (act : P.Event i → δ) (es : List ((j : ι) × P.Event j)) :
    es.flatMap (fun e => ((at? i e).map act).toList) = (eventsAt i es).map act := by
  rw [eventsAt, List.map_filterMap, List.filterMap_eq_flatMap_toList]

/-- A step of the whole is a step of one of the parts. -/
inductive Step [DecidableEq ι] : P.Whole → (i : ι) × P.Event i → P.Whole → Prop where
  | part {w : P.Whole} {i : ι} {e : P.Event i} {s' : P.State i} (h : P.step i (w.view i) e s') :
      Step w ⟨i, e⟩ { part := Function.update w.part i s', mem := P.mem i s' }

/-- The parts keep to themselves: each has cells of its own, changes no others, and keeps its invariant, which depends on no
others. -/
structure Confined (P : Parts ι α β) (own : ∀ i, P.State i → Set α) (inv : ∀ i, P.State i → Prop) : Prop where
  mem_withMem : ∀ i s m, P.mem i (P.withMem i s m) = m
  withMem_mem : ∀ i s, P.withMem i s (P.mem i s) = s
  withMem_withMem : ∀ i s m m', P.withMem i (P.withMem i s m) m' = P.withMem i s m'
  own_withMem : ∀ i s m, own i (P.withMem i s m) = own i s
  inv_withMem : ∀ i s m, inv i s → Set.EqOn m (P.mem i s) (own i s) → inv i (P.withMem i s m)
  inv_step : ∀ i s e s', inv i s → P.step i s e s' → inv i s'
  own_step : ∀ i s e s', inv i s → P.step i s e s' → own i s' = own i s
  mem_step : ∀ i s e s', inv i s → P.step i s e s' → ∀ a ∉ own i s, P.mem i s' a = P.mem i s a

/-- Every part keeps its invariant, and no two have a cell in common. -/
structure Whole.Apart (own : ∀ i, P.State i → Set α) (inv : ∀ i, P.State i → Prop) (w : P.Whole) : Prop where
  inv : ∀ i, inv i (w.view i)
  disjoint : ∀ i j, i ≠ j → ∀ a ∈ own i (w.view i), a ∉ own j (w.view j)

namespace Confined

variable [DecidableEq ι] {own : ∀ i, P.State i → Set α} {inv : ∀ i, P.State i → Prop} {w w' : P.Whole}
  {e : (i : ι) × P.Event i} {es : List ((i : ι) × P.Event i)}

/-- What a step shows to each part: the part that made it has made a step, and every other part sees a memory that is the
same on its own cells. -/
theorem step_cases (hP : P.Confined own inv) (hw : w.Apart own inv) (hs : Step w e w') :
    P.step e.1 (w.view e.1) e.2 (w'.view e.1) ∧ ∀ j ≠ e.1, ∃ m, w'.view j = P.withMem j (w.view j) m ∧
      Set.EqOn m (P.mem j (w.view j)) (own j (w.view j)) := by
  cases hs with
  | @part i e s' h =>
    refine ⟨?_, ?_⟩
    · have hview : Whole.view { part := Function.update w.part i s', mem := P.mem i s' } i = s' := by
        simp only [Whole.view, Function.update_self]
        exact hP.withMem_mem i s'
      rwa [hview]
    · intro j hj
      refine ⟨P.mem i s', ?_, ?_⟩
      · simp only [Whole.view, Function.update_of_ne hj, hP.withMem_withMem]
      · intro a ha
        have hnot : a ∉ own i (w.view i) := fun hi => hw.disjoint i j hj.symm a hi ha
        rw [hP.mem_step i _ _ _ (hw.inv i) h a hnot, Whole.view, Whole.view, hP.mem_withMem, hP.mem_withMem]

/-- A step keeps every part's cells where they are. -/
theorem own_view (hP : P.Confined own inv) (hw : w.Apart own inv) (hs : Step w e w') (j : ι) :
    own j (w'.view j) = own j (w.view j) := by
  obtain ⟨hstep, hother⟩ := hP.step_cases hw hs
  by_cases hj : j = e.1
  · subst hj
    exact hP.own_step _ _ _ _ (hw.inv _) hstep
  · obtain ⟨m, hm, _⟩ := hother j hj
    rw [hm, hP.own_withMem]

/-- A step keeps every part's invariant, and the parts apart. -/
theorem apart_step (hP : P.Confined own inv) (hw : w.Apart own inv) (hs : Step w e w') : w'.Apart own inv := by
  obtain ⟨hstep, hother⟩ := hP.step_cases hw hs
  refine ⟨?_, ?_⟩
  · intro j
    by_cases hj : j = e.1
    · subst hj
      exact hP.inv_step _ _ _ _ (hw.inv _) hstep
    · obtain ⟨m, hm, heq⟩ := hother j hj
      rw [hm]
      exact hP.inv_withMem j _ _ (hw.inv j) heq
  · intro i j hij
    rw [hP.own_view hw hs, hP.own_view hw hs]
    exact hw.disjoint i j hij

/-- A run keeps every part's invariant, and the parts apart. -/
theorem apart_run (hP : P.Confined own inv) (hw : w.Apart own inv) (hr : Lts.Run Step w es w') : w'.Apart own inv :=
  hr.invariant (fun _ _ _ hw hs => hP.apart_step hw hs) hw

/-- One part in a run of the whole: when each of its steps is, through an abstraction that depends on its own cells only, a
step of an abstract system, the run is a run of the abstract system over the part's events. -/
theorem project {τ δ : Type} {astep : τ → δ → τ → Prop} (hP : P.Confined own inv) (i : ι) (abs : P.State i → τ)
    (act : P.Event i → δ) (habs : ∀ s m, inv i s → Set.EqOn m (P.mem i s) (own i s) → abs (P.withMem i s m) = abs s)
    (hsim : ∀ s e s', inv i s → P.step i s e s' → astep (abs s) (act e) (abs s')) (hw : w.Apart own inv)
    (hr : Lts.Run Step w es w') : Lts.Run astep (abs (w.view i)) ((eventsAt i es).map act) (abs (w'.view i)) := by
  have hstep : ∀ v e v', Whole.Apart own inv v → Step v e v' →
      Lts.Run astep (abs (v.view i)) ((at? i e).map act).toList (abs (v'.view i)) := by
    intro v e v' hv hs
    obtain ⟨hself, hother⟩ := hP.step_cases hv hs
    by_cases hi : e.1 = i
    · subst hi
      have hat : at? e.1 e = some e.2 := dif_pos rfl
      rw [hat]
      exact Lts.Run.single (hsim _ _ _ (hv.inv _) hself)
    · have hat : at? i e = none := dif_neg hi
      obtain ⟨m, hm, heq⟩ := hother i (fun h => hi h.symm)
      rw [hat, hm, habs _ _ (hv.inv i) heq]
      exact Lts.Run.nil _
  have hrun := hr.refines (fun w => abs (w.view i)) (fun e => ((at? i e).map act).toList)
    (fun _ _ _ hw hs => hP.apart_step hw hs) hstep hw
  rwa [flatMap_at?] at hrun

end Confined

end Parts

end Shared
