import NetHelper.Theorems.FallbackChannel
import NetHelper.Theorems.RxProtocol
import NetHelper.Theorems.TxProtocol

/-!
# The fallback in the place of a ring

On platforms without netmap a fallback channel stands where a ring would be. For packets that fit a buffer nobody can tell the
two apart: an RX ring of `n` slots and a channel of capacity `n - 1` are both a queue with room for `n - 1` packets to whoever
receives (`rx_stand_in`), and a TX ring and such a channel are both `n - 1` places to whoever sends (`tx_stand_in`).
-/

namespace NetHelper

open RingMem

/-- The packets that a buffer, and a slot's length, have room for. -/
def FitsBuffer (size : Nat) (p : Bytes) : Prop := p.length ≤ min size 65535

/-! ## What is seen of the two -/

/-- An RX ring, as its receiver sees it: packets arrive at a kernel RX sync, and `recv` is called. -/
def RingInStep (s : RingMem) : Fifo.Call Bytes → RingMem → Prop
  | .arrive ps, s' => RxStep s (.sync ps) s'
  | .ask payload, s' => RxStep s (.recv payload) s'

/-- A channel for packets that fit, as its receiver sees it: packets arrive when they are sent, one after another, and `recv`
is called. Payloads are read in the memory `mem`. -/
def ChannelInStep (tx : FallbackTxRing) (rx : FallbackRxRing) (size : Nat) (mem : Memory) (h : Heap) :
    Fifo.Call Bytes → Heap → Prop
  | .arrive ps, h' =>
    (∀ p ∈ ps, FitsBuffer size p) ∧ Lts.Run (ChannelStep tx rx) h (ps.map (fun p => .send p (.ok ()))) h'
  | .ask payload, h' => ∃ frame, payload = frame.map (fun f => f.payload mem) ∧ ChannelStep tx rx h (.recv frame) h'

/-- A TX ring, as a sender of packets that fit sees it: `send` is called, and slots become free at a TX sync. -/
def RingOutStep (s : TxSys) : Fifo.Offer Bytes → TxSys → Prop
  | .offer p true, s' => FitsBuffer s.ring.nrBufSize p ∧ TxStep s (.send p (.ok ())) s'
  | .offer p false, s' => FitsBuffer s.ring.nrBufSize p ∧ TxStep s (.send p (.error .insufficientSpace)) s'
  | .free k, s' => ∃ taken, TxStep s (.sync taken k) s'

/-- A channel, as a sender of packets that fit sees it: `send` is called, and places become free when frames are received. -/
def ChannelOutStep (tx : FallbackTxRing) (rx : FallbackRxRing) (size : Nat) (h : Heap) : Fifo.Offer Bytes → Heap → Prop
  | .offer p true, h' => FitsBuffer size p ∧ ChannelStep tx rx h (.send p (.ok ())) h'
  | .offer p false, h' => FitsBuffer size p ∧ ChannelStep tx rx h (.send p (.error .wouldBlock)) h'
  | .free k, h' =>
    ∃ frames : List Frame, frames.length = k ∧ Lts.Run (ChannelStep tx rx) h (frames.map (fun f => .recv (some f))) h'

namespace StandInAux

/-! ## Channels -/

section Channels

variable {tx : FallbackTxRing} {rx : FallbackRxRing} {h h' : Heap}

theorem channel_run {es : List ChannelEvent} (hc : Channel tx rx h) (hr : Lts.Run (ChannelStep tx rx) h es h') :
    Channel tx rx h' :=
  hr.invariant (fun _ _ _ hs ht => (hs.step (fun _ => 0) ht).1) hc

/-- A send into a channel with room. -/
theorem channel_send (hc : Channel tx rx h) (hroom : (h.queue tx.ring.queue).length < tx.ring.maxSize) (p : Bytes) :
    ∃ h', ChannelStep tx rx h (.send p (.ok ())) h' ∧ h'.queue tx.ring.queue = h.queue tx.ring.queue ++ [p] := by
  rcases hc.send_cases p with ⟨hfull, _⟩ | ⟨_, he⟩
  · omega
  · exact ⟨_, ChannelStep.send he, Heap.set_queue_self _ _ _⟩

/-- What a send that succeeds has done. -/
theorem channel_sent (hc : Channel tx rx h) {p : Bytes} (hs : ChannelStep tx rx h (.send p (.ok ())) h') :
    (h.queue tx.ring.queue).length < tx.ring.maxSize ∧ h'.queue tx.ring.queue = h.queue tx.ring.queue ++ [p] := by
  cases hs with
  | send hs =>
    rcases hc.send_cases p with ⟨_, he⟩ | ⟨hroom, he⟩
    · rw [he] at hs
      nomatch hs
    · rw [he] at hs
      cases hs
      exact ⟨hroom, Heap.set_queue_self _ _ _⟩

/-- Packets for which there is room can be sent one after another. -/
theorem sends_run (ps : List Bytes) (hc : Channel tx rx h)
    (hroom : (h.queue tx.ring.queue).length + ps.length ≤ tx.ring.maxSize) :
    ∃ h', Lts.Run (ChannelStep tx rx) h (ps.map (fun p => .send p (.ok ()))) h' ∧
      h'.queue tx.ring.queue = h.queue tx.ring.queue ++ ps := by
  induction ps generalizing h with
  | nil => exact ⟨h, Lts.Run.nil h, by simp⟩
  | cons p ps ih =>
    rw [List.length_cons] at hroom
    obtain ⟨h₁, hs, hq⟩ := channel_send hc (by omega) p
    have hc₁ := (hc.step (fun _ => 0) hs).1
    obtain ⟨h₂, hr, hq₂⟩ := ih hc₁ (by rw [hq, List.length_append, List.length_singleton]; omega)
    refine ⟨h₂, (Lts.Run.single hs).append hr, ?_⟩
    rw [hq₂, hq, List.append_assoc]
    rfl

/-- What sends that succeed have done. -/
theorem queue_of_sends (ps : List Bytes) (hc : Channel tx rx h)
    (hr : Lts.Run (ChannelStep tx rx) h (ps.map (fun p => .send p (.ok ()))) h') :
    h'.queue tx.ring.queue = h.queue tx.ring.queue ++ ps := by
  let mem : Memory := fun _ => 0
  have hq := hr.simulation (fun a => a.queue tx.ring.queue) (ChannelEvent.act mem)
    (fun _ _ _ hs ht => (hs.step mem ht).1) (fun _ _ _ hs ht => (hs.step mem ht).2) hc
  have houts : ∀ qs : List Bytes,
      ((qs.map (fun p => ChannelEvent.send p (.ok ()))).map (ChannelEvent.act mem)).flatMap Fifo.Act.outs = [] ∧
        ((qs.map (fun p => ChannelEvent.send p (.ok ()))).map (ChannelEvent.act mem)).flatMap Fifo.Act.ins = qs := by
    intro qs
    induction qs with
    | nil => exact ⟨rfl, rfl⟩
    | cons q qs ih =>
      simp only [List.map_cons, List.flatMap_cons, ih.1, ih.2]
      exact ⟨rfl, rfl⟩
  have hcons := Fifo.conservation hq
  rwa [(houts ps).1, (houts ps).2, List.nil_append] at hcons

/-- As many frames can be received one after another as there are packets in the queue. -/
theorem receives_run (k : Nat) (hc : Channel tx rx h) (hk : k ≤ (h.queue tx.ring.queue).length) :
    ∃ (frames : List Frame) (h' : Heap), frames.length = k ∧
      Lts.Run (ChannelStep tx rx) h (frames.map (fun f => .recv (some f))) h' ∧
      (h'.queue tx.ring.queue).length = (h.queue tx.ring.queue).length - k := by
  induction k generalizing h with
  | zero => exact ⟨[], h, rfl, Lts.Run.nil h, rfl⟩
  | succ k ih =>
    rcases hc.recv_cases with ⟨hnone, _⟩ | ⟨buf, queue, hsome, he⟩
    · rw [hnone, List.length_nil] at hk
      omega
    · rw [hsome, List.length_cons] at hk
      have hs : ChannelStep tx rx h _ _ := ChannelStep.recv he
      have hc₁ := (hc.step (fun _ => 0) hs).1
      have hq : (h.set tx.ring.queue queue).queue tx.ring.queue = queue := Heap.set_queue_self _ _ _
      obtain ⟨frames, h₂, hlen, hr, hq₂⟩ := ih hc₁ (by rw [hq]; omega)
      refine ⟨Frame.newOwned buf :: frames, h₂, by rw [List.length_cons, hlen], (Lts.Run.single hs).append hr, ?_⟩
      rw [hq₂, hq, hsome, List.length_cons]
      omega

/-- What receives that return frames have done. -/
theorem queue_of_receives (frames : List Frame) (hc : Channel tx rx h)
    (hr : Lts.Run (ChannelStep tx rx) h (frames.map (fun f => .recv (some f))) h') :
    frames.length + (h'.queue tx.ring.queue).length = (h.queue tx.ring.queue).length := by
  let mem : Memory := fun _ => 0
  have hq := hr.simulation (fun a => a.queue tx.ring.queue) (ChannelEvent.act mem)
    (fun _ _ _ hs ht => (hs.step mem ht).1) (fun _ _ _ hs ht => (hs.step mem ht).2) hc
  have hcons := congrArg List.length (Fifo.conservation hq)
  have hrec : (ChannelEvent.received mem (frames.map (fun f => .recv (some f)))).length = frames.length := by
    rw [ChannelEvent.length_received, List.countP_map]
    exact List.countP_eq_length.mpr (fun _ _ => rfl)
  have hsent : (ChannelEvent.sent mem (frames.map (fun f => .recv (some f)))).length = 0 := by
    rw [ChannelEvent.length_sent, List.countP_map]
    exact List.countP_eq_zero.mpr (fun _ _ => Bool.false_ne_true)
  rw [ChannelEvent.received] at hrec
  rw [ChannelEvent.sent] at hsent
  rw [List.length_append, List.length_append, hrec, hsent] at hcons
  exact hcons

end Channels

/-! ## The receiver's side -/

/-- An RX ring of `cap + 1` slots, with buffers of `size` bytes, that holds the packets `q`. -/
structure RingHolds (cap size : Nat) (s : RingMem) (q : List Bytes) : Prop where
  valid : s.Valid
  distinct : s.DistinctBufs
  fits : ∀ i ∈ s.owned, (s.slot i).len ≤ s.nrBufSize
  numSlots : s.numSlots = cap + 1
  size_eq : s.nrBufSize = size
  waiting : s.waiting = q

/-- A channel of capacity `cap` that holds the packets `q`. -/
structure ChannelHolds (cap : Nat) (tx : FallbackTxRing) (rx : FallbackRxRing) (h : Heap) (q : List Bytes) : Prop where
  channel : Channel tx rx h
  maxSize : tx.ring.maxSize = cap
  queue : h.queue tx.ring.queue = q

variable {cap size : Nat} {mem : Memory} {tx : FallbackTxRing} {rx : FallbackRxRing}

/-- As many packets wait as there are slots in the window. -/
theorem RingHolds.length {s : RingMem} {q : List Bytes} (h : RingHolds cap size s q) : q.length = s.free := by
  rw [← h.waiting, RingMem.waiting, List.length_map, RingMem.owned, Circ.length_window]
  rfl

theorem RingHolds.sync {s s' : RingMem} {q ps : List Bytes} (h : RingHolds cap size s q) (hk : RxSync s ps s') :
    RingHolds cap size s' (q ++ ps) :=
  ⟨hk.valid h.valid, hk.distinct h.distinct, hk.fits_owned h.valid h.fits, hk.numSlots.trans h.numSlots,
    hk.nrBufSize.trans h.size_eq, by rw [hk.waiting h.valid, h.waiting]⟩

/-- Moving over the first of the packets that wait. -/
theorem RingHolds.advance {s : RingMem} {q : List Bytes} (h : RingHolds cap size s q) (hf : 0 < s.free) :
    ∃ q', q = s.packetAt s.head :: q' ∧ RingHolds cap size (s.advance 1) q' := by
  have hspan : Circ.span s.numSlots s.head 1 = [s.head] := by
    rw [Circ.span_cons h.valid.head_lt, Circ.span_zero]
  have hw := RxAux.waiting_advance h.valid (k := 1) hf
  rw [hspan, List.map_singleton, h.waiting] at hw
  refine ⟨_, hw, h.valid.advance, h.distinct, ?_, h.numSlots, h.size_eq, rfl⟩
  intro i hi
  apply h.fits
  rw [owned, Circ.window_adv h.valid.head_lt h.valid.tail_lt hf]
  exact List.mem_append_right _ hi

/-- What `recv` shows of the first packet is the packet. -/
theorem shown_frameAt (s : RingMem) :
    (some (s.frameAt s.head)).map (fun f => f.payload (s.advance 1).mem) = some (s.packetAt s.head) :=
  congrArg some (payload_frameAt s s.head)

/-- An RX ring is a bounded queue to its receiver. -/
theorem ring_bisim : Lts.Bisim RingInStep (Fifo.Bounded cap (FitsBuffer size)) (RingHolds cap size) where
  forth s q e s' h hs := by
    have hlen := h.length
    have hn := h.numSlots
    cases e with
    | arrive ps =>
      cases hs with
      | sync hk =>
        have hroom := hk.room
        refine ⟨_, Fifo.Bounded.arrive (by omega) ?_, h.sync hk⟩
        intro p hp
        rw [FitsBuffer, ← h.size_eq]
        exact hk.fits p hp
    | ask payload =>
      cases hs with
      | recv hc =>
        rcases RxRing.recv_cases h.valid hc with ⟨h0, rfl, rfl⟩ | ⟨hf, rfl, rfl⟩
        · rw [h0, List.length_eq_zero_iff] at hlen
          subst hlen
          exact ⟨[], Fifo.Bounded.empty, h⟩
        · obtain ⟨q', rfl, h'⟩ := h.advance hf
          rw [shown_frameAt]
          exact ⟨q', Fifo.Bounded.ask, h'⟩
  back s q e q' h hs := by
    have hlen := h.length
    have hn := h.numSlots
    cases hs with
    | @arrive _ ps hroom hok =>
      have hk := RxSync.deliver ps s h.valid h.distinct h.fits (by omega) (by rw [h.size_eq]; exact hok)
      exact ⟨_, RxStep.sync hk, h.sync hk⟩
    | ask =>
      rw [List.length_cons] at hlen
      have hf : 0 < s.free := by omega
      obtain ⟨q'', hq, h'⟩ := h.advance hf
      cases hq
      have hc := RxRing.recv_eq h.valid
      rw [if_neg (by omega)] at hc
      have hs := RxStep.recv hc
      rw [shown_frameAt] at hs
      exact ⟨_, hs, h'⟩
    | empty =>
      have hc := RxRing.recv_eq h.valid
      have h0 : s.free = 0 := hlen.symm
      rw [if_pos h0] at hc
      exact ⟨s, RxStep.recv hc, h⟩

/-- A channel is a bounded queue to its receiver. -/
theorem channel_bisim :
    Lts.Bisim (ChannelInStep tx rx size mem) (Fifo.Bounded cap (FitsBuffer size)) (ChannelHolds cap tx rx) where
  forth h q e h' hq hs := by
    obtain ⟨hc, hmax, rfl⟩ := hq
    cases e with
    | arrive ps =>
      obtain ⟨hok, hr⟩ := hs
      have hqueue := queue_of_sends ps hc hr
      have hc' := channel_run hc hr
      have hbound := hc'.bounded
      rw [hqueue, List.length_append, hmax] at hbound
      exact ⟨_, Fifo.Bounded.arrive hbound hok, hc', hmax, hqueue⟩
    | ask payload =>
      obtain ⟨frame, rfl, hs⟩ := hs
      have hc' := (hc.step mem hs).1
      cases hs with
      | recv hs =>
        rcases hc.recv_cases with ⟨hnone, he⟩ | ⟨buf, queue, hsome, he⟩
        · rw [he] at hs
          cases hs
          rw [hnone]
          exact ⟨[], Fifo.Bounded.empty, hc, hmax, hnone⟩
        · rw [he] at hs
          cases hs
          rw [hsome]
          exact ⟨queue, Fifo.Bounded.ask, hc', hmax, Heap.set_queue_self _ _ _⟩
  back h q e q' hq hs := by
    obtain ⟨hc, hmax, hqueue⟩ := hq
    cases hs with
    | arrive hroom hok =>
      obtain ⟨h', hr, hq'⟩ := sends_run _ hc (by rw [hqueue, hmax]; exact hroom)
      exact ⟨h', ⟨hok, hr⟩, channel_run hc hr, hmax, by rw [hq', hqueue]⟩
    | ask =>
      rcases hc.recv_cases with ⟨hnone, _⟩ | ⟨buf, queue, hsome, he⟩
      · rw [hnone] at hqueue
        nomatch hqueue
      · rw [hsome] at hqueue
        cases hqueue
        have hs : ChannelStep tx rx h _ _ := ChannelStep.recv he
        exact ⟨_, ⟨_, rfl, hs⟩, (hc.step mem hs).1, hmax, Heap.set_queue_self _ _ _⟩
    | empty =>
      rcases hc.recv_cases with ⟨_, he⟩ | ⟨buf, queue, hsome, _⟩
      · exact ⟨h, ⟨_, rfl, ChannelStep.recv he⟩, hc, hmax, hqueue⟩
      · rw [hsome] at hqueue
        nomatch hqueue

/-! ## The sender's side -/

/-- A TX ring of `cap + 1` slots, with buffers of `size` bytes, of which `n` are not free. -/
structure RingUses (cap size : Nat) (s : TxSys) (n : Nat) : Prop where
  valid : s.ring.Valid
  numSlots : s.ring.numSlots = cap + 1
  size_eq : s.ring.nrBufSize = size
  used : n + s.ring.free = cap

/-- A channel of capacity `cap` of which `n` places are in use. -/
structure ChannelUses (cap : Nat) (tx : FallbackTxRing) (rx : FallbackRxRing) (h : Heap) (n : Nat) : Prop where
  channel : Channel tx rx h
  maxSize : tx.ring.maxSize = cap
  used : (h.queue tx.ring.queue).length = n

/-- A packet sent uses one slot more. -/
theorem RingUses.sent {s : TxSys} {n : Nat} {p : Bytes} (h : RingUses cap size s n) (hf : 0 < s.ring.free) :
    RingUses cap size { s with ring := (s.ring.fill s.ring.head p).advance 1 } (n + 1) := by
  have hused := h.used
  have hleft : ((s.ring.fill s.ring.head p).advance 1).free = s.ring.free - 1 := h.valid.fill.free_advance hf
  refine ⟨h.valid.fill.advance, h.numSlots, h.size_eq, ?_⟩
  simp only [hleft]
  omega

/-- A TX sync uses fewer. -/
theorem RingUses.synced {s : TxSys} {n k : Nat} (h : RingUses cap size s n) (hroom : s.ring.free + k < s.ring.numSlots) :
    RingUses cap size { s with ring := s.ring.txSync k, khead := s.ring.head } (n - k) := by
  have hv := h.valid
  have hused := h.used
  have hn := h.numSlots
  have hfree : (s.ring.txSync k).free = s.ring.free + k := Circ.dist_adv_add hv.head_lt hv.tail_lt hroom
  refine ⟨⟨hv.pos, hv.le, hv.head_lt, hv.cur_eq, Circ.adv_lt hv.numSlots_pos⟩, hn, h.size_eq, ?_⟩
  simp only [hfree]
  omega

/-- A TX ring is so many places to its sender. -/
theorem ring_places : Lts.Bisim RingOutStep (Fifo.Places cap (FitsBuffer size)) (RingUses cap size) where
  forth s n e s' h hs := by
    have hused := h.used
    have hn := h.numSlots
    match e, hs with
    | .offer p true, ⟨hok, hs⟩ =>
      cases hs with
      | send hc =>
        rcases TxRing.send_cases h.valid hc with ⟨_, he, _⟩ | ⟨_, _, hf, rfl⟩
        · nomatch he
        · exact ⟨n + 1, Fifo.Places.offer (by omega) (h.size_eq ▸ hok), h.sent hf⟩
    | .offer p false, ⟨hok, hs⟩ =>
      cases hs with
      | send hc =>
        rw [TxRing.send_eq h.valid, if_neg (Nat.not_lt.mpr (Nat.le_trans hok (Nat.min_le_left _ _)))] at hc
        by_cases h0 : s.ring.free = 0
        · rw [if_pos h0] at hc
          cases hc
          obtain rfl : n = cap := by omega
          exact ⟨n, Fifo.Places.full (h.size_eq ▸ hok), h⟩
        · rw [if_neg h0] at hc
          nomatch hc
    | .free k, ⟨taken, hs⟩ =>
      cases hs with
      | sync hroom => exact ⟨n - k, Fifo.Places.free (by omega), h.synced hroom⟩
  back s n e n' h hs := by
    have hused := h.used
    have hn := h.numSlots
    cases hs with
    | offer hroom hok =>
      have hfits : FitsBuffer s.ring.nrBufSize _ := h.size_eq ▸ hok
      have hf : 0 < s.ring.free := by omega
      exact ⟨_, ⟨hfits, TxStep.send (TxRing.send_ok h.valid (Nat.le_trans hfits (Nat.min_le_left _ _)) hf)⟩, h.sent hf⟩
    | full hok =>
      have hfits : FitsBuffer s.ring.nrBufSize _ := h.size_eq ▸ hok
      have hf : s.ring.free = 0 := by omega
      exact ⟨s, ⟨hfits, TxStep.send (TxRing.send_full h.valid (Nat.le_trans hfits (Nat.min_le_left _ _)) hf)⟩, h⟩
    | @free _ k hk =>
      have hroom : s.ring.free + k < s.ring.numSlots := by omega
      exact ⟨_, ⟨_, TxStep.sync hroom⟩, h.synced hroom⟩

/-- A channel is so many places to its sender. -/
theorem channel_places :
    Lts.Bisim (ChannelOutStep tx rx size) (Fifo.Places cap (FitsBuffer size)) (ChannelUses cap tx rx) where
  forth h n e h' hn hs := by
    obtain ⟨hc, hmax, rfl⟩ := hn
    match e, hs with
    | .offer p true, ⟨hok, hs⟩ =>
      obtain ⟨hroom, hqueue⟩ := channel_sent hc hs
      refine ⟨_, Fifo.Places.offer (hmax ▸ hroom) hok, (hc.step (fun _ => 0) hs).1, hmax, ?_⟩
      rw [hqueue, List.length_append, List.length_singleton]
    | .offer p false, ⟨hok, hs⟩ =>
      cases hs with
      | send hs =>
        rcases hc.send_cases p with ⟨hfull, he⟩ | ⟨_, he⟩
        · rw [he] at hs
          cases hs
          rw [hfull, hmax]
          exact ⟨cap, Fifo.Places.full hok, hc, hmax, hfull.trans hmax⟩
        · rw [he] at hs
          nomatch hs
    | .free k, ⟨frames, hlen, hr⟩ =>
      have hqueue := queue_of_receives frames hc hr
      exact ⟨_, Fifo.Places.free (by omega), channel_run hc hr, hmax, by omega⟩
  back h n e n' hn hs := by
    obtain ⟨hc, hmax, hused⟩ := hn
    cases hs with
    | offer hroom hok =>
      obtain ⟨h', hs, hqueue⟩ := channel_send hc (by rw [hused, hmax]; exact hroom) _
      refine ⟨h', ⟨hok, hs⟩, (hc.step (fun _ => 0) hs).1, hmax, ?_⟩
      rw [hqueue, List.length_append, List.length_singleton, hused]
    | full hok =>
      rcases hc.send_cases _ with ⟨_, he⟩ | ⟨hroom, _⟩
      · exact ⟨h, ⟨hok, ChannelStep.send he⟩, hc, hmax, hused⟩
      · omega
    | @free _ k hk =>
      obtain ⟨frames, h', hlen, hr, hqueue⟩ := receives_run k hc (hused.symm ▸ hk)
      exact ⟨h', ⟨frames, hlen, hr⟩, channel_run hc hr, hmax, by rw [hqueue, hused]⟩

end StandInAux

open StandInAux

/-- To whoever receives, an RX ring on which nothing waits and a new fallback channel with a place for each of its slots but
one are one thing, for packets that fit a buffer: both have the runs of a bounded queue, and so the same. -/
theorem rx_stand_in {s : RingMem} (hv : s.Valid) (hd : s.DistinctBufs) (hw : s.head = s.tail) {tx : FallbackTxRing}
    {rx : FallbackRxRing} {h₀ h : Heap} (hc : createFallbackChannel (s.numSlots - 1) h₀ = ((tx, rx), h)) (mem : Memory)
    (es : List (Fifo.Call Bytes)) :
    ((∃ s', Lts.Run RingInStep s es s') ↔
        ∃ q, Lts.Run (Fifo.Bounded (s.numSlots - 1) (FitsBuffer s.nrBufSize)) [] es q) ∧
      ((∃ s', Lts.Run RingInStep s es s') ↔ ∃ h', Lts.Run (ChannelInStep tx rx s.nrBufSize mem) h es h') := by
  have hpos := hv.pos
  have hempty : s.owned = [] := by
    rw [owned, hw]
    exact Circ.window_self hv.tail_lt
  have hring : RingHolds (s.numSlots - 1) s.nrBufSize s [] := by
    refine ⟨hv, hd, ?_, by omega, rfl, ?_⟩
    · rw [hempty]
      exact fun _ hi => absurd hi List.not_mem_nil
    · rw [RingMem.waiting, hempty, List.map_nil]
  obtain ⟨hnew, hqueue⟩ := Channel.create (s.numSlots - 1) h₀
  have hmax : (createFallbackChannel (s.numSlots - 1) h₀).1.1.ring.maxSize = s.numSlots - 1 := rfl
  rw [hc] at hnew hqueue hmax
  have hchannel : ChannelHolds (s.numSlots - 1) tx rx h [] := ⟨hnew, hmax, hqueue⟩
  have hsame : Lts.Bisim (ChannelInStep tx rx s.nrBufSize mem) (Fifo.Bounded (s.numSlots - 1) (FitsBuffer s.nrBufSize))
      (ChannelHolds (s.numSlots - 1) tx rx) := channel_bisim
  exact ⟨ring_bisim.runs_iff hring, (ring_bisim.runs_iff hring).trans (hsame.runs_iff hchannel).symm⟩

/-- To whoever sends, a TX ring all of whose slots but one are free and a new fallback channel with a place for each of these
are one thing, for packets that fit a buffer: both have the runs of so many places, and so the same. -/
theorem tx_stand_in {s : TxSys} (hv : s.ring.Valid) (hf : s.ring.free = s.ring.numSlots - 1) {tx : FallbackTxRing}
    {rx : FallbackRxRing} {h₀ h : Heap} (hc : createFallbackChannel (s.ring.numSlots - 1) h₀ = ((tx, rx), h))
    (es : List (Fifo.Offer Bytes)) :
    ((∃ s', Lts.Run RingOutStep s es s') ↔
        ∃ n, Lts.Run (Fifo.Places (s.ring.numSlots - 1) (FitsBuffer s.ring.nrBufSize)) 0 es n) ∧
      ((∃ s', Lts.Run RingOutStep s es s') ↔ ∃ h', Lts.Run (ChannelOutStep tx rx s.ring.nrBufSize) h es h') := by
  have hpos := hv.pos
  have hring : RingUses (s.ring.numSlots - 1) s.ring.nrBufSize s 0 := ⟨hv, by omega, rfl, by omega⟩
  obtain ⟨hnew, hqueue⟩ := Channel.create (s.ring.numSlots - 1) h₀
  have hmax : (createFallbackChannel (s.ring.numSlots - 1) h₀).1.1.ring.maxSize = s.ring.numSlots - 1 := rfl
  rw [hc] at hnew hqueue hmax
  have hchannel : ChannelUses (s.ring.numSlots - 1) tx rx h 0 := by
    refine ⟨hnew, hmax, ?_⟩
    rw [hqueue]
    rfl
  have hsame : Lts.Bisim (ChannelOutStep tx rx s.ring.nrBufSize)
      (Fifo.Places (s.ring.numSlots - 1) (FitsBuffer s.ring.nrBufSize)) (ChannelUses (s.ring.numSlots - 1) tx rx) :=
    channel_places
  exact ⟨ring_places.runs_iff hring, (ring_places.runs_iff hring).trans (hsame.runs_iff hchannel).symm⟩

/-- `rx_stand_in` at a ring of four slots and a channel of capacity three: both take the run in which two packets arrive and
one is received. -/
theorem rx_stand_in_three : ∃ s', Lts.Run RingInStep (fresh 4 64 0 0) [.arrive [[7], [8]], .ask (some [7])] s' := by
  have hc : createFallbackChannel 3 { next := 0, queue := fun _ => [] } = ((_, _), _) := rfl
  have hall := rx_stand_in (fresh_valid (by decide) (by decide) (by decide)) (fresh_distinct 4 64 0 0) rfl hc (fun _ => 0)
    [.arrive [[7], [8]], .ask (some [7])]
  have h1 : Fifo.Bounded 3 (FitsBuffer 64) [] (.arrive [[7], [8]]) [[7], [8]] :=
    Fifo.Bounded.arrive (by decide) (by simp [FitsBuffer])
  exact hall.1.mpr ⟨_, Lts.Run.snoc (Lts.Run.single h1) Fifo.Bounded.ask⟩

/-- `tx_stand_in` at a ring of two slots and a channel of capacity one: neither takes a second packet before the first is gone.
-/
theorem tx_stand_in_one : ∃ h', Lts.Run (ChannelOutStep { ring := ⟨0, 1⟩ } { ring := ⟨0, 1⟩ } 64)
    (createFallbackChannel 1 { next := 0, queue := fun _ => [] }).2 [.offer [7] true, .offer [8] false, .free 1] h' := by
  have hc : createFallbackChannel 1 { next := 0, queue := fun _ => [] } = ((_, _), _) := rfl
  have hall := tx_stand_in (s := { ring := fresh 2 64 0 1, khead := 0, held := [] })
    (fresh_valid (by decide) (by decide) (by decide)) rfl hc [.offer [7] true, .offer [8] false, .free 1]
  have hok : ∀ b : UInt8, FitsBuffer 64 [b] := fun b => (by decide : 1 ≤ min 64 65535)
  have h1 : Fifo.Places 1 (FitsBuffer 64) 0 (.offer [7] true) 1 := Fifo.Places.offer (by decide) (hok 7)
  have h2 := Lts.Run.snoc (Lts.Run.single h1) (Fifo.Places.full (hok 8))
  exact hall.2.mp (hall.1.mpr ⟨_, Lts.Run.snoc h2 (Fifo.Places.free (Nat.le_refl 1))⟩)

end NetHelper
