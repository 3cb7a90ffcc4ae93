import NetHelper.Lemmas.Rx
import NetHelper.Lemmas.RxSync

/-!
# The RX ring protocol

Whole runs of an RX ring: the payloads handed out, followed by the packets still waiting, are the packets that waited at the
start followed by all arrivals, in order. The packets waiting are the queue; receiving takes from its front, a kernel RX
sync puts at its back.
-/

namespace NetHelper

open RingMem

/-- What receiving does on a ring, in terms of the window: it returns; it hands out nothing exactly when nothing waits (or
there is no room in the batch), and then changes nothing; `head` stays short of `tail` and is all that moves, with `cur`. -/
structure RingMem.ReceivesWell (s : RingMem) : Prop where
  recv_returns : ∃ r, RxRing.recv s = .ok r
  recv_none : ∀ f s', RxRing.recv s = .ok (f, s') → (f = none ↔ s.head = s.tail) ∧ (f = none → s' = s)
  recv_moves : ∀ f s', RxRing.recv s = .ok (f, s') →
    s' = s.moveHead s'.head ∧ Circ.Between s.numSlots s.head s'.head s.tail
  recvBatch_returns : ∀ batch, ∃ r, RxRing.recvBatch s batch = .ok r
  recvBatch_zero : ∀ batch count batch' s', RxRing.recvBatch s batch = .ok (count, batch', s') →
    (count = 0 ↔ s.head = s.tail ∨ batch = []) ∧ (count = 0 → s' = s)
  recvBatch_moves : ∀ batch count batch' s', RxRing.recvBatch s batch = .ok (count, batch', s') →
    s' = s.moveHead s'.head ∧ Circ.Between s.numSlots s.head s'.head s.tail

namespace RxAux

variable {s s' : RingMem} {e : RxEvent}

/-- Moving over `k` waiting packets leaves the others waiting. -/
theorem waiting_advance (h : s.Valid) {k : Nat} (hk : k ≤ s.free) :
    s.waiting = (Circ.span s.numSlots s.head k).map s.packetAt ++ (s.advance k).waiting := by
  rw [waiting, owned, Circ.window_adv h.head_lt h.tail_lt hk, List.map_append]
  rfl

/-- Moving over slots of the window stays short of `tail`. -/
theorem between_advance (h : s.Valid) {k : Nat} (hk : k ≤ s.free) :
    Circ.Between s.numSlots s.head (s.advance k).head s.tail :=
  Circ.between_adv h.head_lt h.head_lt h.tail_lt (Circ.between_refl h.head_lt) hk

/-- The frames handed out show, in the memory as the call leaves it, the packets of their slots. -/
theorem payloads_frames (s : RingMem) (k : Nat) (is : List Nat) :
    (is.map s.frameAt).map (fun f => f.payload (s.advance k).mem) = is.map s.packetAt := by
  rw [List.map_map]
  apply List.map_congr_left
  intro i _
  exact payload_frameAt s i

/-- What a batch hands out: the first waiting packets, as many as there is room for. -/
theorem take_recvBatch (h : s.Valid) {batch batch' : List Frame} {count : Nat}
    (hc : RxRing.recvBatch s batch = .ok (count, batch', s')) :
    count = min s.free batch.length ∧ s' = s.advance count ∧
      batch'.take count = (Circ.span s.numSlots s.head count).map s.frameAt := by
  rw [RxRing.recvBatch_eq h] at hc
  cases hc
  refine ⟨rfl, rfl, ?_⟩
  have ht := RxRing.take_splice_zero batch ((Circ.span s.numSlots s.head (min s.free batch.length)).map s.frameAt)
  rwa [List.length_map, Circ.length_span] at ht

/-- One step leaves a well-formed ring and is a step of the queue of waiting packets. -/
theorem step (h : s.Valid) (hs : RxStep s e s') : s'.Valid ∧ Fifo.Step s.waiting e.act s'.waiting := by
  cases hs with
  | recv hc =>
    rcases RxRing.recv_cases h hc with ⟨_, rfl, rfl⟩ | ⟨hf, rfl, rfl⟩
    · exact ⟨h, Fifo.Step.take [] _⟩
    · refine ⟨h.advance, ?_⟩
      have h0 : Circ.adv s.numSlots s.head 0 = s.head := Circ.adv_zero h.head_lt
      rw [waiting_advance h (k := 1) hf]
      have hone : (Circ.span s.numSlots s.head 1).map s.packetAt =
          (Option.map (fun f => Frame.payload f (s.advance 1).mem) (some (s.frameAt s.head))).toList := by
        simp [Circ.span, h0, payload_frameAt]
      rw [hone]
      exact Fifo.Step.take _ _
  | recvBatch hc =>
    obtain ⟨hcount, rfl, htake⟩ := take_recvBatch h hc
    refine ⟨h.advance, ?_⟩
    rw [htake, payloads_frames, waiting_advance h (k := _) (hcount ▸ Nat.min_le_left _ _)]
    exact Fifo.Step.take _ _
  | sync hk =>
    refine ⟨hk.valid h, ?_⟩
    rw [hk.waiting h]
    exact Fifo.Step.put _ _

/-- Receiving does well on every well-formed ring. -/
theorem receivesWell (h : s.Valid) : s.ReceivesWell := by
  have hfree := h.free_eq_zero
  refine ⟨⟨_, RxRing.recv_eq h⟩, ?_, ?_, fun batch => ⟨_, RxRing.recvBatch_eq h batch⟩, ?_, ?_⟩
  · intro f s' hc
    rcases RxRing.recv_cases h hc with ⟨h0, rfl, rfl⟩ | ⟨hf, rfl, rfl⟩
    · exact ⟨⟨fun _ => hfree.mp h0, fun _ => rfl⟩, fun _ => rfl⟩
    · refine ⟨⟨fun hn => absurd hn (by simp), fun he => ?_⟩, fun hn => absurd hn (by simp)⟩
      have := hfree.mpr he
      omega
  · intro f s' hc
    rcases RxRing.recv_cases h hc with ⟨_, _, hs⟩ | ⟨hf, rfl, rfl⟩
    · rw [hs]
      have hb := between_advance h (Nat.zero_le s.free)
      rw [h.advance_zero] at hb
      refine ⟨?_, hb⟩
      conv_lhs => rw [← h.advance_zero, advance, Circ.adv_zero h.head_lt]
    · exact ⟨rfl, between_advance h hf⟩
  · intro batch count batch' s' hc
    obtain ⟨hcount, rfl, _⟩ := take_recvBatch h hc
    refine ⟨?_, ?_⟩
    · rw [← hfree, ← List.length_eq_zero_iff]
      omega
    · rintro rfl
      exact h.advance_zero
  · intro batch count batch' s' hc
    obtain ⟨hcount, rfl, _⟩ := take_recvBatch h hc
    exact ⟨rfl, between_advance h (hcount ▸ Nat.min_le_left _ _)⟩

end RxAux

open RxAux

/-- The RX ring protocol, over every run of an application and the kernel: `head` and `cur` are one slot of the ring,
receiving does well in every state reached, and the payloads handed out followed by the packets still waiting are the
packets that waited at the start followed by all arrivals, in order. -/
theorem rx_protocol {s₀ s : RingMem} {es : List RxEvent} (h0 : s₀.Valid) (hr : Lts.Run RxStep s₀ es s) :
    s.head = s.cur ∧ s.head < s.numSlots ∧ s.ReceivesWell ∧
      RxEvent.handedOut es ++ s.waiting = s₀.waiting ++ RxEvent.arrived es := by
  have hI : ∀ t e t', RingMem.Valid t → RxStep t e t' → RingMem.Valid t' := fun _ _ _ h hs => (step h hs).1
  have hs : s.Valid := hr.invariant hI h0
  have hq := hr.simulation RingMem.waiting RxEvent.act hI (fun _ _ _ h hs => (step h hs).2) h0
  exact ⟨hs.cur_eq.symm, hs.head_lt, receivesWell hs, Fifo.conservation hq⟩

/-- `rx_protocol` at the run in which two packets arrive, one is received alone and the other in a batch. -/
theorem rx_protocol_two_packets :
    ∃ es s, Lts.Run RxStep (fresh 4 64 0 0) es s ∧ RxEvent.arrived es = [[7], [8, 9]] ∧
      RxEvent.handedOut es ++ s.waiting = (fresh 4 64 0 0).waiting ++ RxEvent.arrived es := by
  have hv : (fresh 4 64 0 0).Valid := fresh_valid (by decide) (by decide) (by decide)
  have hk : RxSync (fresh 4 64 0 0) [[7], [8, 9]] ((fresh 4 64 0 0).deliver [[7], [8, 9]]) :=
    RxSync.deliver _ _ hv (fresh_distinct 4 64 0 0) (fun _ hi => by nomatch hi) (by decide) (by decide)
  have h1 := Lts.Run.single (RxStep.sync hk)
  have h2 := Lts.Run.snoc h1 (RxStep.recv (RxRing.recv_eq (hk.valid hv)))
  have h3 := Lts.Run.snoc h2 (RxStep.recvBatch (RxRing.recvBatch_eq (hk.valid hv).advance [Frame.new Slice.empty]))
  exact ⟨_, _, h3, rfl, (rx_protocol hv h3).2.2.2⟩

end NetHelper
