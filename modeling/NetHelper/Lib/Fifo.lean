import NetHelper.Lib.Lts

/-!
# First-in first-out queues

The abstract queue: its state is the list of the items it holds, oldest first; items are put in at the back and taken out at
the front, any number at a time. Over any run, what came out followed by what is left is what was there followed by what
went in (`conservation`): nothing is lost, duplicated or reordered.

A queue with room for so many items is seen from two sides: from the side where items are asked for (`Bounded`), and from the
side where they are offered, for which only their number counts (`Places`).
-/

namespace Fifo

variable {α : Type}

/-- What one step of a queue does. -/
inductive Act (α : Type) where
  | put (xs : List α)
  | take (xs : List α)

/-- The items an action puts in. -/
def Act.ins : Act α → List α
  | .put xs => xs
  | .take _ => []

/-- The items an action takes out. -/
def Act.outs : Act α → List α
  | .put _ => []
  | .take xs => xs

/-- The steps of the queue: items join at the back, items leave at the front. -/
inductive Step : List α → Act α → List α → Prop where
  | put (q xs : List α) : Step q (.put xs) (q ++ xs)
  | take (xs q : List α) : Step (xs ++ q) (.take xs) q

/-- The step that puts nothing in. -/
theorem Step.idle (q : List α) : Step q (.put []) q := by
  have h := Step.put q []
  rwa [List.append_nil] at h

/-- One step conserves the items. -/
theorem Step.conservation {q q' : List α} {a : Act α} (h : Step q a q') : a.outs ++ q' = q ++ a.ins := by
  cases h with
  | put => rfl
  | take => simp [Act.ins, Act.outs]

/-- What leaves was there. -/
theorem Step.mem_of_mem_outs {q q' : List α} {a : Act α} (h : Step q a q') : ∀ x ∈ a.outs, x ∈ q := by
  cases h with
  | put => exact fun _ hx => absurd hx List.not_mem_nil
  | take xs q => exact fun _ hx => List.mem_append_left _ hx

/-- A whole run conserves the items, in order. -/
theorem conservation {q q' : List α} {acts : List (Act α)} (h : Lts.Run Step q acts q') :
    acts.flatMap Act.outs ++ q' = q ++ acts.flatMap Act.ins := by
  induction h with
  | nil => simp
  | snoc _ hs ih =>
    simp only [List.flatMap_append, List.flatMap_singleton, List.append_assoc]
    rw [hs.conservation, ← List.append_assoc, ih, List.append_assoc]

/-- The number of items held is the number put in less the number taken out, for a queue that started empty. -/
theorem length_eq {q : List α} {acts : List (Act α)} (h : Lts.Run Step [] acts q) :
    q.length + (acts.flatMap Act.outs).length = (acts.flatMap Act.ins).length := by
  have hc := congrArg List.length (conservation h)
  simp only [List.length_append, List.nil_append] at hc
  omega

/-! ## Bounded queues -/

/-- What happens at a bounded queue, from the side where items are asked for: items arrive, or one is asked for, with the
answer. -/
inductive Call (α : Type) where
  | arrive (xs : List α)
  | ask (x : Option α)

/-- A queue with room for `cap` items, all of them with the property `ok`. -/
inductive Bounded (cap : Nat) (ok : α → Prop) : List α → Call α → List α → Prop where
  | arrive {q xs : List α} (hroom : q.length + xs.length ≤ cap) (hok : ∀ x ∈ xs, ok x) :
      Bounded cap ok q (.arrive xs) (q ++ xs)
  | ask {x : α} {q : List α} : Bounded cap ok (x :: q) (.ask (some x)) q
  | empty : Bounded cap ok [] (.ask none) []

/-- What happens at a bounded queue, as an action of the queue. -/
def Call.act : Call α → Act α
  | .arrive xs => .put xs
  | .ask x => .take x.toList

/-- A queue can be emptied by asking. -/
theorem Bounded.empty_run (cap : Nat) (ok : α → Prop) (q : List α) :
    ∃ es, Lts.Run (Bounded cap ok) q es [] ∧ (es.map Call.act).flatMap Act.ins = [] := by
  induction q with
  | nil => exact ⟨[], Lts.Run.nil _, rfl⟩
  | cons x q ih =>
    obtain ⟨es, hr, hins⟩ := ih
    exact ⟨.ask (some x) :: es, (Lts.Run.single Bounded.ask).append hr, hins⟩

/-- Through a queue with room for one item any items can be taken, and the queue is empty at the end. -/
theorem Bounded.drain_run {cap : Nat} {ok : α → Prop} (hcap : 1 ≤ cap) (q : List α) {xs : List α} (hok : ∀ x ∈ xs, ok x) :
    ∃ es, Lts.Run (Bounded cap ok) q es [] ∧ (es.map Call.act).flatMap Act.ins = xs := by
  induction xs generalizing q with
  | nil => exact Bounded.empty_run cap ok q
  | cons x xs ih =>
    obtain ⟨es, hr, hins⟩ := Bounded.empty_run cap ok q
    obtain ⟨es', hr', hins'⟩ := ih [x] (fun y hy => hok y (List.mem_cons_of_mem _ hy))
    have harrive : Bounded cap ok [] (.arrive [x]) [x] :=
      Bounded.arrive hcap (fun y hy => List.mem_singleton.mp hy ▸ hok x List.mem_cons_self)
    refine ⟨es ++ .arrive [x] :: es', hr.append ((Lts.Run.single harrive).append hr'), ?_⟩
    rw [List.map_append, List.flatMap_append, hins, List.map_cons, List.flatMap_cons, hins']
    rfl

/-- What happens at a bounded queue, from the side where items are offered: one is offered, and taken or not, or places become
free. -/
inductive Offer (α : Type) where
  | offer (x : α) (taken : Bool)
  | free (k : Nat)

/-- The number of places in use, of `cap`: an item with the property `ok` is taken exactly when there is a place for it. -/
inductive Places (cap : Nat) (ok : α → Prop) : Nat → Offer α → Nat → Prop where
  | offer {n : Nat} {x : α} (hroom : n < cap) (hok : ok x) : Places cap ok n (.offer x true) (n + 1)
  | full {x : α} (hok : ok x) : Places cap ok cap (.offer x false) cap
  | free {n k : Nat} (hk : k ≤ n) : Places cap ok n (.free k) (n - k)

end Fifo
