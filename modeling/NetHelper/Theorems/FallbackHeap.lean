import Mathlib.Data.List.Basic
import NetHelper.Theorems.FallbackChannel

/-!
# Many fallback rings

Rings and channels are made at any time, and the handles made so far are used in any order. Every handle refers to a queue of
the heap, and two handles that refer to one queue are the two of one channel (`Tidy`). So what happens at a queue is what
happens at the one channel, and a ring that was made alone is one half of a channel whose other half nobody has
(`fallback_rings_apart`).
-/

namespace NetHelper

/-- Nothing was made yet. -/
structure FallbackRings.Unused (s : FallbackRings) : Prop where
  txs : s.txs = []
  rxs : s.rxs = []
  queue : ∀ r, s.heap.queue r = []

namespace FallbackHeapAux

/-- Queues not made yet are empty, every handle refers to a queue that was made, to one of one capacity, and no queue outgrows
its capacity. -/
structure Tidy (s : FallbackRings) : Prop where
  fresh : ∀ r, s.heap.next ≤ r → s.heap.queue r = []
  made : ∀ g ∈ s.rings, g.queue < s.heap.next
  same : ∀ g ∈ s.rings, ∀ g' ∈ s.rings, g.queue = g'.queue → g = g'
  bounded : ∀ g ∈ s.rings, (s.heap.queue g.queue).length ≤ g.maxSize

variable {s s' : FallbackRings} {e : FallbackEvent} {g : SharedRing} {h' : Heap}

theorem mem_rings_tx {tx : FallbackTxRing} (h : tx ∈ s.txs) : tx.ring ∈ s.rings :=
  List.mem_append_left _ (List.mem_map_of_mem h)

theorem mem_rings_rx {rx : FallbackRxRing} (h : rx ∈ s.rxs) : rx.ring ∈ s.rings :=
  List.mem_append_right _ (List.mem_map_of_mem h)

/-- The start. -/
theorem tidy_unused (h : s.Unused) : Tidy s := by
  have hnil : s.rings = [] := by
    rw [FallbackRings.rings, h.txs, h.rxs, List.map_nil, List.map_nil, List.append_nil]
  refine ⟨fun r _ => h.queue r, ?_, ?_, ?_⟩ <;> simp [hnil]

/-- Allocating takes a queue that is empty already. -/
theorem Tidy.queue_alloc (h : Tidy s) : s.heap.alloc.2.queue = s.heap.queue := by
  rw [Heap.alloc, Function.update_eq_self_iff]
  exact (h.fresh _ (Nat.le_refl _)).symm

/-- New handles to the queue just allocated. -/
theorem Tidy.grow (h : Tidy s) (hheap : s'.heap = s.heap.alloc.2) (maxSize : Nat)
    (hrings : ∀ g ∈ s'.rings, g = ⟨s.heap.next, maxSize⟩ ∨ g ∈ s.rings) : Tidy s' := by
  have hnext : s'.heap.next = s.heap.next + 1 := by
    rw [hheap]
    rfl
  have hqueue : s'.heap.queue = s.heap.queue := by
    rw [hheap]
    exact h.queue_alloc
  refine ⟨?_, ?_, ?_, ?_⟩
  · intro r hr
    rw [hqueue]
    exact h.fresh r (by omega)
  · intro g hg
    rcases hrings g hg with rfl | hold
    · simp only [hnext]
      omega
    · have hlt := h.made g hold
      omega
  · intro g hg g' hg' heq
    rcases hrings g hg with rfl | hold <;> rcases hrings g' hg' with rfl | hold'
    · rfl
    · have hlt := h.made g' hold'
      simp only at heq
      omega
    · have hlt := h.made g hold
      simp only at heq
      omega
    · exact h.same g hold g' hold' heq
  · intro g hg
    rw [hqueue]
    rcases hrings g hg with rfl | hold
    · simp [h.fresh _ (Nat.le_refl _)]
    · exact h.bounded g hold

/-- The two handles of a channel, whether both were made or not. -/
theorem Tidy.channel (h : Tidy s) (hg : g ∈ s.rings) : Channel { ring := g } { ring := g } s.heap :=
  ⟨rfl, h.bounded g hg⟩

/-- A TX ring is one half of a channel. -/
theorem Tidy.tx (h : Tidy s) {tx : FallbackTxRing} (htx : tx ∈ s.txs) : Channel tx { ring := tx.ring } s.heap :=
  h.channel (mem_rings_tx htx)

/-- An RX ring is one half of a channel. -/
theorem Tidy.rx (h : Tidy s) {rx : FallbackRxRing} (hrx : rx ∈ s.rxs) : Channel { ring := rx.ring } rx s.heap :=
  h.channel (mem_rings_rx hrx)

/-- A call at a queue that was made. -/
theorem Tidy.call (h : Tidy s) (hg : g ∈ s.rings) (hc : Channel { ring := g } { ring := g } h') (hn : h'.next = s.heap.next)
    (ho : ∀ r ≠ g.queue, h'.queue r = s.heap.queue r) : Tidy { s with heap := h' } := by
  refine ⟨?_, ?_, h.same, ?_⟩
  · intro r hr
    have hlt := h.made g hg
    simp only [hn] at hr
    rw [ho r (by omega)]
    exact h.fresh r hr
  · intro g' hg'
    simp only [hn]
    exact h.made g' hg'
  · intro g' hg'
    by_cases heq : g'.queue = g.queue
    · rw [h.same g' hg' g hg heq]
      exact hc.bounded
    · rw [ho _ heq]
      exact h.bounded g' hg'

/-- A send touches the queue of its handle only. -/
theorem send_frame {tx : FallbackTxRing} {h : Heap} {buf : Bytes} {res : Except Error Unit}
    (hc : tx.send h buf = (res, h')) : h'.next = h.next ∧ ∀ r ≠ tx.ring.queue, h'.queue r = h.queue r := by
  unfold FallbackTxRing.send at hc
  by_cases hfull : (h.queue tx.ring.queue).length ≥ tx.ring.maxSize
  · simp only [if_pos hfull] at hc
    cases hc
    exact ⟨rfl, fun _ _ => rfl⟩
  · simp only [if_neg hfull] at hc
    cases hc
    exact ⟨rfl, fun r hr => Function.update_of_ne hr _ _⟩

/-- A receive touches the queue of its handle only. -/
theorem recv_frame {rx : FallbackRxRing} {h : Heap} {frame : Option Frame} (hc : rx.recv h = (frame, h')) :
    h'.next = h.next ∧ ∀ r ≠ rx.ring.queue, h'.queue r = h.queue r := by
  unfold FallbackRxRing.recv at hc
  cases hq : h.queue rx.ring.queue with
  | nil =>
    rw [hq] at hc
    cases hc
    exact ⟨rfl, fun _ _ => rfl⟩
  | cons buf queue =>
    rw [hq] at hc
    cases hc
    exact ⟨rfl, fun r hr => Function.update_of_ne hr _ _⟩

/-- A call at one queue, as seen at any queue. -/
theorem call_at {r : Nat} {e : ChannelEvent} {h : Heap} {mem : Memory}
    (hq : Fifo.Step (h.queue g.queue) (e.act mem) (h'.queue g.queue)) (ho : ∀ r ≠ g.queue, h'.queue r = h.queue r) :
    Lts.Run Fifo.Step (h.queue r) (((if g.queue = r then some e else none).map (ChannelEvent.act mem)).toList)
      (h'.queue r) := by
  by_cases hr : g.queue = r
  · subst hr
    rw [if_pos rfl]
    exact Lts.Run.single hq
  · rw [if_neg hr, ho r (fun heq => hr heq.symm)]
    exact Lts.Run.nil _

/-- One step keeps the rings tidy, and at every queue it is a step of the queue or none. -/
theorem tidy_step (hs : Tidy s) (mem : Memory) (ht : FallbackStep s e s') :
    Tidy s' ∧ ∀ r, Lts.Run Fifo.Step (s.heap.queue r) (((e.at? r).map (ChannelEvent.act mem)).toList)
      (s'.heap.queue r) := by
  have hmade : ∀ r, Lts.Run Fifo.Step (s.heap.queue r) [] (s.heap.alloc.2.queue r) := by
    intro r
    rw [hs.queue_alloc]
    exact Lts.Run.nil _
  cases ht with
  | @newTx maxSize _ _ hc =>
    cases hc
    refine ⟨hs.grow rfl maxSize ?_, hmade⟩
    simp [FallbackRings.rings]
  | @newRx maxSize _ _ hc =>
    cases hc
    refine ⟨hs.grow rfl maxSize ?_, hmade⟩
    intro g hg
    rcases List.mem_append.mp hg with hg | hg
    · exact Or.inr (List.mem_append_left _ hg)
    · rcases List.mem_cons.mp hg with hg | hg
      · exact Or.inl hg
      · exact Or.inr (List.mem_append_right _ hg)
  | @channel maxSize _ _ _ hc =>
    cases hc
    refine ⟨hs.grow rfl maxSize ?_, hmade⟩
    intro g hg
    rcases List.mem_append.mp hg with hg | hg <;> rcases List.mem_cons.mp hg with hg | hg
    · exact Or.inl hg
    · exact Or.inr (List.mem_append_left _ hg)
    · exact Or.inl hg
    · exact Or.inr (List.mem_append_right _ hg)
  | send htx hc =>
    have hg := mem_rings_tx htx
    obtain ⟨hn, ho⟩ := send_frame hc
    obtain ⟨hchannel, hq⟩ := (hs.tx htx).step mem (ChannelStep.send hc)
    exact ⟨hs.call hg hchannel hn ho, fun r => call_at hq ho⟩
  | recv hrx hc =>
    have hg := mem_rings_rx hrx
    obtain ⟨hn, ho⟩ := recv_frame hc
    obtain ⟨hchannel, hq⟩ := (hs.rx hrx).step mem (ChannelStep.recv hc)
    exact ⟨hs.call hg hchannel hn ho, fun r => call_at hq ho⟩

/-! ## Runs -/

variable {s₀ : FallbackRings} {es : List FallbackEvent}

theorem tidy_run (h₀ : Tidy s₀) (hr : Lts.Run FallbackStep s₀ es s) : Tidy s :=
  hr.invariant (fun _ _ _ hs ht => (tidy_step hs (fun _ => 0) ht).1) h₀

/-- A run, as seen at one queue. -/
theorem queue_run (h₀ : Tidy s₀) (hr : Lts.Run FallbackStep s₀ es s) (mem : Memory) (r : Nat) :
    Lts.Run Fifo.Step (s₀.heap.queue r) ((FallbackEvent.eventsAt r es).map (ChannelEvent.act mem)) (s.heap.queue r) := by
  have hI : ∀ a e b, Tidy a → FallbackStep a e b → Tidy b := fun _ _ _ hs ht => (tidy_step hs mem ht).1
  have hrun := hr.refines (fun a => a.heap.queue r) (fun e => ((e.at? r).map (ChannelEvent.act mem)).toList) hI
    (fun _ _ _ hs ht => (tidy_step hs mem ht).2 r) h₀
  rwa [← List.filterMap_eq_flatMap_toList, ← List.map_filterMap] at hrun

/-- The handle that an event uses, if any, is one of those made. -/
def UsesMade (s : FallbackRings) : FallbackEvent → Prop
  | .send tx _ _ => tx ∈ s.txs
  | .recv rx _ => rx ∈ s.rxs
  | _ => True

/-- Handles stay. -/
theorem handles_step (ht : FallbackStep s e s') : UsesMade s' e ∧ ∀ e', UsesMade s e' → UsesMade s' e' := by
  cases ht with
  | newTx hc =>
    refine ⟨trivial, fun e' => ?_⟩
    cases e' <;> simp +contextual [UsesMade]
  | newRx hc =>
    refine ⟨trivial, fun e' => ?_⟩
    cases e' <;> simp +contextual [UsesMade]
  | channel hc =>
    refine ⟨trivial, fun e' => ?_⟩
    cases e' <;> simp +contextual [UsesMade]
  | send htx hc => exact ⟨htx, fun e' => by cases e' <;> exact id⟩
  | recv hrx hc => exact ⟨hrx, fun e' => by cases e' <;> exact id⟩

/-- Every handle used in a run was made. -/
theorem handles_run (hr : Lts.Run FallbackStep s₀ es s) : ∀ e ∈ es, UsesMade s e := by
  induction hr with
  | nil => simp
  | snoc _ ht ih =>
    obtain ⟨hself, hstay⟩ := handles_step ht
    intro e he
    rcases List.mem_append.mp he with he | he
    · exact hstay e (ih e he)
    · rw [List.mem_singleton.mp he]
      exact hself

/-- At a queue without an RX handle nothing is received. -/
theorem received_nil (h : Tidy s) (hused : ∀ e ∈ es, UsesMade s e) (hg : g ∈ s.rings) (hlone : ∀ rx ∈ s.rxs, rx.ring ≠ g)
    (mem : Memory) : ChannelEvent.received mem (FallbackEvent.eventsAt g.queue es) = [] := by
  rw [ChannelEvent.received, List.flatMap_eq_nil_iff]
  intro a ha
  obtain ⟨c, hc, rfl⟩ := List.mem_map.mp ha
  obtain ⟨e, he, hat⟩ := List.mem_filterMap.mp hc
  cases e with
  | newTx | newRx | channel => cases hat
  | send tx buf res =>
    by_cases hr : tx.ring.queue = g.queue
    · rw [FallbackEvent.at?, if_pos hr] at hat
      cases hat
      cases res <;> rfl
    · rw [FallbackEvent.at?, if_neg hr] at hat
      cases hat
  | recv rx frame =>
    have hrx : rx ∈ s.rxs := hused _ he
    have hr : rx.ring.queue ≠ g.queue := fun hr => hlone rx hrx (h.same _ (mem_rings_rx hrx) _ hg hr)
    rw [FallbackEvent.at?, if_neg hr] at hat
    cases hat

/-- At a queue without a TX handle nothing is sent. -/
theorem sent_nil (h : Tidy s) (hused : ∀ e ∈ es, UsesMade s e) (hg : g ∈ s.rings) (hlone : ∀ tx ∈ s.txs, tx.ring ≠ g)
    (mem : Memory) : ChannelEvent.sent mem (FallbackEvent.eventsAt g.queue es) = [] := by
  rw [ChannelEvent.sent, List.flatMap_eq_nil_iff]
  intro a ha
  obtain ⟨c, hc, rfl⟩ := List.mem_map.mp ha
  obtain ⟨e, he, hat⟩ := List.mem_filterMap.mp hc
  cases e with
  | newTx | newRx | channel => cases hat
  | send tx buf res =>
    have htx : tx ∈ s.txs := hused _ he
    have hr : tx.ring.queue ≠ g.queue := fun hr => hlone tx htx (h.same _ (mem_rings_tx htx) _ hg hr)
    rw [FallbackEvent.at?, if_neg hr] at hat
    cases hat
  | recv rx frame =>
    by_cases hr : rx.ring.queue = g.queue
    · rw [FallbackEvent.at?, if_pos hr] at hat
      cases hat
      rfl
    · rw [FallbackEvent.at?, if_neg hr] at hat
      cases hat

end FallbackHeapAux

open FallbackHeapAux ChannelEvent FallbackEvent

/-- Over every run of a program that makes fallback rings and channels and uses their handles in any order:

* at the queue of every handle, the payloads received followed by those in the queue are the payloads of the sends that
  succeeded there, in order, whatever was done at all other rings, and handles at one queue are those of one channel;
* the next send of a TX ring is refused exactly when the sends that succeeded are ahead of the frames received by its
  capacity, and the next receive of an RX ring returns nothing exactly when they are level;
* a TX ring that was made alone never takes more packets than its capacity in all, and an RX ring that was made alone never
  receives one. -/
theorem fallback_rings_apart {s₀ s : FallbackRings} {es : List FallbackEvent} (hnew : s₀.Unused)
    (hr : Lts.Run FallbackStep s₀ es s) (mem : Memory) :
    (∀ g ∈ s.rings, received mem (eventsAt g.queue es) ++ s.heap.queue g.queue = sent mem (eventsAt g.queue es) ∧
        ∀ g' ∈ s.rings, g.queue = g'.queue → g = g') ∧
      (∀ tx ∈ s.txs, ∀ buf, (tx.send s.heap buf).1 = .error .wouldBlock ↔
        (sent mem (eventsAt tx.ring.queue es)).length =
          (received mem (eventsAt tx.ring.queue es)).length + tx.ring.maxSize) ∧
      (∀ rx ∈ s.rxs, (rx.recv s.heap).1 = none ↔
        (sent mem (eventsAt rx.ring.queue es)).length = (received mem (eventsAt rx.ring.queue es)).length) ∧
      (∀ tx ∈ s.txs, (∀ rx ∈ s.rxs, rx.ring ≠ tx.ring) → (sent mem (eventsAt tx.ring.queue es)).length ≤ tx.ring.maxSize ∧
        ((sent mem (eventsAt tx.ring.queue es)).length = tx.ring.maxSize →
          ∀ buf, tx.send s.heap buf = (.error .wouldBlock, s.heap))) ∧
      ∀ rx ∈ s.rxs, (∀ tx ∈ s.txs, tx.ring ≠ rx.ring) →
        received mem (eventsAt rx.ring.queue es) = [] ∧ rx.recv s.heap = (none, s.heap) := by
  have h₀ := tidy_unused hnew
  have hs := tidy_run h₀ hr
  have hused := handles_run hr
  have hcons : ∀ r, received mem (eventsAt r es) ++ s.heap.queue r = sent mem (eventsAt r es) := by
    intro r
    have hq := Fifo.conservation (queue_run h₀ hr mem r)
    rwa [hnew.queue, List.nil_append] at hq
  have hlen : ∀ r, (received mem (eventsAt r es)).length + (s.heap.queue r).length = (sent mem (eventsAt r es)).length := by
    intro r
    rw [← hcons r, List.length_append]
  refine ⟨fun g hg => ⟨hcons g.queue, hs.same g hg⟩, ?_, ?_, ?_, ?_⟩
  · intro tx htx buf
    have hl := hlen tx.ring.queue
    rcases (hs.tx htx).send_cases buf with ⟨hfull, he⟩ | ⟨hroom, he⟩
    · rw [he]
      exact ⟨fun _ => by omega, fun _ => rfl⟩
    · rw [he]
      exact ⟨fun hf => (nomatch hf), fun _ => by omega⟩
  · intro rx hrx
    have hl := hlen rx.ring.queue
    rcases (hs.rx hrx).recv_cases with ⟨hnone, he⟩ | ⟨buf, queue, hsome, he⟩
    · rw [he]
      rw [hnone, List.length_nil] at hl
      exact ⟨fun _ => by omega, fun _ => rfl⟩
    · rw [he]
      rw [hsome, List.length_cons] at hl
      exact ⟨fun hf => (nomatch hf), fun _ => by omega⟩
  · intro tx htx hlone
    have hg := mem_rings_tx htx
    have hl := hlen tx.ring.queue
    have hb := hs.bounded _ hg
    rw [received_nil hs hused hg hlone, List.length_nil] at hl
    refine ⟨by omega, ?_⟩
    intro hmax buf
    rcases (hs.tx htx).send_cases buf with ⟨_, he⟩ | ⟨hroom, _⟩
    · exact he
    · omega
  · intro rx hrx hlone
    have hg := mem_rings_rx hrx
    have hc := hcons rx.ring.queue
    rw [sent_nil hs hused hg hlone, List.append_eq_nil_iff] at hc
    refine ⟨hc.1, ?_⟩
    rcases (hs.rx hrx).recv_cases with ⟨_, he⟩ | ⟨buf, queue, hsome, _⟩
    · exact he
    · rw [hc.2] at hsome
      cases hsome

/-- `fallback_rings_apart` at a TX ring of capacity one beside a channel: the ring takes a packet and is full for good, and
what is sent over the channel is received. -/
theorem fallback_rings_apart_beside :
    ∃ (s : FallbackRings) (es : List FallbackEvent) (tx : FallbackTxRing) (rx : FallbackRxRing),
      Lts.Run FallbackStep { heap := { next := 0, queue := fun _ => [] }, txs := [], rxs := [] } es s ∧ es.length = 5 ∧
      tx.send s.heap [9] = (.error .wouldBlock, s.heap) ∧
      received (fun _ => 0) (eventsAt rx.ring.queue es) ++ s.heap.queue rx.ring.queue = [[7]] := by
  have hnewTx : ∀ s m, FallbackStep s (.newTx m)
      { s with heap := (FallbackTxRing.new m s.heap).2, txs := (FallbackTxRing.new m s.heap).1 :: s.txs } :=
    fun _ _ => FallbackStep.newTx rfl
  have hchannel : ∀ s m, FallbackStep s (.channel m)
      { heap := (createFallbackChannel m s.heap).2, txs := (createFallbackChannel m s.heap).1.1 :: s.txs,
        rxs := (createFallbackChannel m s.heap).1.2 :: s.rxs } :=
    fun _ _ => FallbackStep.channel rfl
  have hsend : ∀ s tx buf, tx ∈ s.txs →
      FallbackStep s (.send tx buf (tx.send s.heap buf).1) { s with heap := (tx.send s.heap buf).2 } :=
    fun _ _ _ htx => FallbackStep.send htx rfl
  have hrecv : ∀ s rx, rx ∈ s.rxs → FallbackStep s (.recv rx (rx.recv s.heap).1) { s with heap := (rx.recv s.heap).2 } :=
    fun _ _ hrx => FallbackStep.recv hrx rfl
  have h1 := Lts.Run.single (hnewTx { heap := { next := 0, queue := fun _ => [] }, txs := [], rxs := [] } 1)
  have h2 := Lts.Run.snoc h1 (hchannel _ 4)
  have h3 := Lts.Run.snoc h2 (hsend _ { ring := ⟨0, 1⟩ } [8] (List.mem_cons_of_mem _ List.mem_cons_self))
  have h4 := Lts.Run.snoc h3 (hsend _ { ring := ⟨1, 4⟩ } [7] List.mem_cons_self)
  have h5 := Lts.Run.snoc h4 (hrecv _ { ring := ⟨1, 4⟩ } List.mem_cons_self)
  obtain ⟨hcons, _, _, hlone, _⟩ := fallback_rings_apart ⟨rfl, rfl, fun _ => rfl⟩ h5 (fun _ => 0)
  have htx := hlone { ring := ⟨0, 1⟩ } (List.mem_cons_of_mem _ List.mem_cons_self) (by decide)
  have hrx := hcons ⟨1, 4⟩ List.mem_cons_self
  exact ⟨_, _, { ring := ⟨0, 1⟩ }, { ring := ⟨1, 4⟩ }, h5, rfl, htx.2 rfl _, hrx.1⟩

end NetHelper
