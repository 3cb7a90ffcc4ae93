import NetHelper.Pipe
import NetHelper.Theorems.Interface
import NetHelper.Theorems.StandIn

/-!
# From one end of a pipe to the other

A TX ring is a queue (`TxSys.Serial.queueing`), an RX ring is a queue (`RxAux.queueing`), and a pipe is the two in series, so
what is received is what was sent, in order. Nothing stays behind: whatever was done before, the kernel and the receiver can
bring everything through (`pipe_fifo`). The RX ring does it as the bounded queue that it is (`StandIn.lean`).
-/

namespace NetHelper

open RingMem

/-- A TX ring in disciplined use is a queue. -/
theorem TxSys.Serial.queueing : Fifo.Queueing DisciplinedStep TxSys.Serial TxSys.inFlight TxEvent.act where
  inv_step _ _ _ hs h := (hs.step h).1
  queue_step _ _ _ hs h := (hs.step h).2

/-- An RX ring is a queue. -/
theorem RxAux.queueing : Fifo.Queueing RxStep RingMem.Valid RingMem.waiting RxEvent.act where
  inv_step _ _ _ hs h := (RxAux.step hs h).1
  queue_step _ _ _ hs h := (RxAux.step hs h).2

namespace PipeAux

open StandInAux

variable {cap size : Nat}

/-! ## The RX ring -/

/-- A ring that holds packets holds packets after every step. -/
theorem holds_step {s s' : RingMem} {e : RxEvent} (h : RingHolds cap size s s.waiting) (hs : RxStep s e s') :
    RingHolds cap size s' s'.waiting := by
  obtain ⟨hbufs, hfits⟩ := RxAux.rx_confined h.valid h.fits hs
  exact ⟨(RxAux.step h.valid hs).1, hbufs.distinct h.distinct, hfits, hbufs.numSlots.trans h.numSlots,
    hbufs.nrBufSize.trans h.size_eq, rfl⟩

/-- What is seen of a ring by its receiver, as an event of the ring. -/
def rxEvent : Fifo.Call Bytes → RxEvent
  | .arrive ps => .sync ps
  | .ask payload => .recv payload

theorem act_rxEvent (c : Fifo.Call Bytes) : (rxEvent c).act = c.act := by
  cases c <;> rfl

/-- Packets that fit can be delivered and received, all of them, and those waiting as well. -/
theorem receive_all {s : RingMem} {q ps : List Bytes} (h : RingHolds cap size s q) (hcap : 1 ≤ cap)
    (hok : ∀ p ∈ ps, FitsBuffer size p) :
    ∃ es s', Lts.Run RxStep s es s' ∧ es.flatMap (fun e => e.act.ins) = ps ∧ s'.waiting = [] := by
  obtain ⟨cs, hb, hins⟩ := Fifo.Bounded.drain_run hcap q hok
  obtain ⟨s', hr, hs'⟩ := ring_bisim.symm.run h hb
  have hsim : ∀ t c t', True → RingInStep t c t' → RxStep t (rxEvent c) t' := by
    intro t c t' _ hs
    cases c <;> exact hs
  have hrx : Lts.Run RxStep s (cs.map rxEvent) s' := hr.simulation id rxEvent (fun _ _ _ _ _ => trivial) hsim trivial
  refine ⟨cs.map rxEvent, s', hrx, ?_, hs'.waiting⟩
  rw [← hins, List.flatMap_map, List.flatMap_map]
  simp only [act_rxEvent]

/-! ## The sender -/

/-- A sender at one end: what leaves it was in flight, and fits the buffers of the other end, and everything in flight can leave, at
events that are `quiet`. -/
structure Sends {σ ε : Type} (size : Nat) (step : σ → ε → σ → Prop) (out : ε → List Bytes) (inv : σ → Prop)
    (inFlight : σ → List Bytes) (quiet : ε → Prop) : Prop where
  inv_step : ∀ s e s', inv s → step s e s' → inv s'
  fits : ∀ s, inv s → ∀ p ∈ inFlight s, FitsBuffer size p
  leaves : ∀ s e s', inv s → step s e s' → ∀ p ∈ out e, p ∈ inFlight s
  flush : ∀ s, inv s → ∃ es s', Lts.Run step s es s' ∧ (∀ e ∈ es, quiet e) ∧ es.flatMap out = inFlight s ∧ inFlight s' = []

/-- The packets in flight on a TX ring fit buffers no smaller than its own. -/
theorem fits_inFlight {s : TxSys} (hs : s.Serial) (hsize : s.ring.nrBufSize ≤ size) :
    ∀ p ∈ s.inFlight, FitsBuffer size p := by
  intro p hp
  obtain ⟨i, hi, rfl⟩ := List.mem_map.mp hp
  have hlen := hs.fits i hi
  have hsmall := hs.small
  rw [FitsBuffer, length_packetAt]
  omega

/-- Nothing is left at one end after a reservation is given back, if one is open, and a TX sync. -/
theorem take_all {s : TxSys} (hs : s.Serial) :
    ∃ es s', Lts.Run DisciplinedStep s es s' ∧ (∀ e ∈ es, e.act.ins = []) ∧ es.flatMap (fun e => e.act.outs) = s.inFlight ∧
      s'.inFlight = [] := by
  have hsync : ∀ t : TxSys, t.Serial → t.held = [] → ∃ t', DisciplinedStep t (.sync t.inFlight 0) t' ∧ t'.inFlight = [] := by
    intro t ht hheld
    refine ⟨{ ring := t.ring.txSync 0, khead := t.ring.head, held := t.held }, ⟨hheld, TxStep.sync ht.valid.free_lt⟩, ?_⟩
    simp [TxSys.inFlight, TxSys.published, txSync, Circ.window_self ht.valid.head_lt]
  rcases hs.alone with hheld | ⟨h, hheld, _⟩
  · obtain ⟨s', hstep, hnone⟩ := hsync s hs hheld
    exact ⟨_, s', Lts.Run.single hstep, by simp [TxEvent.act, Fifo.Act.ins], List.append_nil _, hnone⟩
  · have hdrop : DisciplinedStep s (.drop h) { s with held := [] } :=
      ⟨trivial, TxStep.drop (l := []) (r := []) hheld⟩
    obtain ⟨s', hstep, hnone⟩ := hsync _ hs.release rfl
    exact ⟨_, s', Lts.Run.snoc (Lts.Run.single hdrop) hstep, by simp [TxEvent.act, Fifo.Act.ins], List.append_nil _, hnone⟩

/-- A TX ring in disciplined use sends. -/
theorem sends_tx : Sends size DisciplinedStep (fun e => e.act.outs) (fun s => s.Serial ∧ s.ring.nrBufSize ≤ size)
    TxSys.inFlight (fun e => e.act.ins = []) where
  inv_step s e s' hs h := by
    refine ⟨(hs.1.step h).1, ?_⟩
    rw [(hs.1.confined h).1.nrBufSize]
    exact hs.2
  fits s hs := fits_inFlight hs.1 hs.2
  leaves s e s' hs h := (hs.1.step h).2.mem_of_mem_outs
  flush s hs := take_all hs.1

/-! ## The pipe -/

section Flowing

variable {σ ε : Type} {step : σ → ε → σ → Prop} {out : ε → List Bytes} {inv : σ → Prop} {inFlight : σ → List Bytes}
  {quiet : ε → Prop} {s s' : Fifo.Series σ RingMem Bytes} {es : List (ε ⊕ RxEvent)}

/-- The invariant of a pipe: each end keeps its own, and every packet between them fits the buffers of the second. -/
structure Flowing (cap size : Nat) (inv : σ → Prop) (s : Fifo.Series σ RingMem Bytes) : Prop where
  left : inv s.left
  link : ∀ p ∈ s.link, FitsBuffer size p
  right : RingHolds cap size s.right s.right.waiting

/-- The states a run may start from satisfy the invariant. -/
theorem flowing_start (hl : inv s.left) (hlink : s.link = []) (hr : s.right.ReadyFor size) :
    Flowing (s.right.numSlots - 1) s.right.nrBufSize inv s := by
  have hslots := hr.slots
  refine ⟨hl, ?_, hr.quiescent.valid, hr.distinct, ?_, by omega, rfl, rfl⟩
  · simp [hlink]
  · simp [hr.quiescent.owned]

/-- A run keeps the invariant. -/
theorem Flowing.run (h : Flowing cap size inv s) (hsend : Sends size step out inv inFlight quiet)
    (hr : Lts.Run (Fifo.SeriesStep step out RxStep (fun e => e.act.ins)) s es s') : Flowing cap size inv s' := by
  refine hr.invariant ?_ h
  intro t e t' ht hs
  cases hs with
  | left hl =>
    refine ⟨hsend.inv_step _ _ _ ht.left hl, ?_, ht.right⟩
    intro p hp
    rcases List.mem_append.mp hp with hp | hp
    · exact ht.link p hp
    · exact hsend.fits _ ht.left p (hsend.leaves _ _ _ ht.left hl p hp)
  | right hl => exact ⟨ht.left, fun p hp => ht.link p (List.mem_append_right _ hp), holds_step ht.right hl⟩

/-- Everything in a pipe can be brought through. -/
theorem Flowing.drain (h : Flowing cap size inv s) (hsend : Sends size step out inv inFlight quiet) (hcap : 1 ≤ cap) :
    ∃ es s', Lts.Run (Fifo.SeriesStep step out RxStep (fun e => e.act.ins)) s es s' ∧ (∀ e ∈ Fifo.lefts es, quiet e) ∧
      inFlight s'.left = [] ∧ s'.link = [] ∧ s'.right.waiting = [] := by
  obtain ⟨ts, l', hts, hquiet, houts, hleft⟩ := hsend.flush _ h.left
  have hok : ∀ p ∈ s.link ++ inFlight s.left, FitsBuffer size p := by
    intro p hp
    rcases List.mem_append.mp hp with hp | hp
    · exact h.link p hp
    · exact hsend.fits _ h.left p hp
  obtain ⟨rs, r', hrx, hins, hright⟩ := receive_all h.right hcap hok
  have h1 : Lts.Run (Fifo.SeriesStep step out RxStep (fun e => e.act.ins)) s (ts.map Sum.inl)
      ⟨l', s.link ++ inFlight s.left, s.right⟩ := by
    rw [← houts]
    exact Fifo.Series.of_left hts
  have h2 : Lts.Run (Fifo.SeriesStep step out RxStep (fun e => e.act.ins)) ⟨l', s.link ++ inFlight s.left, s.right⟩
      (rs.map Sum.inr) ⟨l', [], r'⟩ := by
    rw [← hins, ← List.append_nil (rs.flatMap _)]
    exact Fifo.Series.of_right hrx
  refine ⟨_, _, h1.append h2, ?_, hleft, rfl, hright⟩
  rw [Fifo.lefts_append, Fifo.lefts_map_inl, Fifo.lefts_map_inr, List.append_nil]
  exact hquiet

end Flowing

/-- Over a run from a start what was received, and what is in the pipe, is what was sent. -/
theorem run_conservation {s₀ s : Pipe} {es : List (TxEvent ⊕ RxEvent)} (h0 : s₀.Start) (hr : Lts.Run PipeStep s₀ es s) :
    Pipe.handedOut es ++ (s.right.waiting ++ s.link ++ s.left.inFlight) = Pipe.accepted es := by
  have hc := Fifo.Series.conservation TxSys.Serial.queueing RxAux.queueing hr h0.tx.serial.1 h0.rx.quiescent.valid
  rw [h0.rx.quiescent.waiting, h0.link, h0.tx.serial.2] at hc
  simp only [Pipe.handedOut, Pipe.accepted, RxEvent.handedOut, TxEvent.accepted, List.flatMap_map]
  exact hc

end PipeAux

open PipeAux

/-- Over every run of the users of the two ends of a pipe and the kernel, what was handed out at one end, followed by what
waits there, what is on its way and what is in flight at the other end, is what was accepted at the other end, in order. Every
call returns, and nothing stays behind: from every state reached the kernel and the receiver can bring everything through, with
nothing more accepted. -/
theorem pipe_fifo {s₀ s : Pipe} {es : List (TxEvent ⊕ RxEvent)} (h0 : s₀.Start) (hr : Lts.Run PipeStep s₀ es s) :
    Pipe.handedOut es ++ (s.right.waiting ++ s.link ++ s.left.inFlight) = Pipe.accepted es ∧ s.left.CallsReturn ∧
      s.right.ReceivesWell ∧ ∃ es' s', Lts.Run PipeStep s es' s' ∧ Pipe.accepted es' = [] ∧
        Pipe.handedOut (es ++ es') = Pipe.accepted es := by
  have hslots := h0.rx.slots
  have hsend := @sends_tx s₀.right.nrBufSize
  have hs := (flowing_start ⟨h0.tx.serial.1, h0.rx.size_le⟩ h0.link h0.rx).run hsend hr
  refine ⟨run_conservation h0 hr, hs.left.1.callsReturn, RxAux.receivesWell hs.right.valid, ?_⟩
  obtain ⟨es', s', hr', hquiet, hleft, hlink, hright⟩ := hs.drain hsend (by omega)
  have hacc : Pipe.accepted es' = [] := by
    rw [Pipe.accepted, TxEvent.accepted, List.flatMap_map]
    exact List.flatMap_eq_nil_iff.mpr hquiet
  have hall := run_conservation h0 (hr.append hr')
  rw [hleft, hlink, hright] at hall
  refine ⟨es', s', hr', hacc, ?_⟩
  have happ : Pipe.accepted (es ++ es') = Pipe.accepted es ++ Pipe.accepted es' := by
    simp only [Pipe.accepted, TxEvent.accepted, Fifo.lefts_append, List.map_append, List.flatMap_append]
  rw [happ, hacc] at hall
  simpa using hall

/-- `pipe_fifo` at a pipe on which one packet was sent and taken by the kernel: it can still be received. -/
theorem pipe_fifo_one_packet : ∃ s₀ s es, Lts.Run PipeStep s₀ es s ∧ Pipe.accepted es = [[7]] ∧ s.link = [[7]] ∧
    ∃ es' s', Lts.Run PipeStep s es' s' ∧ Pipe.handedOut (es ++ es') = [[7]] := by
  have h0 : Pipe.Start ⟨{ ring := fresh 4 64 0 2, khead := 0, held := [] }, [], fresh 2 64 0 0⟩ :=
    ⟨TxSys.start_fresh (by decide), RingMem.ReadyFor.fresh (by decide), rfl⟩
  have h1 : DisciplinedStep { ring := fresh 4 64 0 2, khead := 0, held := [] } (.send [7] (.ok ()))
      { ring := ((fresh 4 64 0 2).fill 0 [7]).advance 1, khead := 0, held := [] } :=
    ⟨rfl, TxStep.send (TxRing.send_ok h0.tx.serial.1.valid (by decide) (by decide))⟩
  have h2 : DisciplinedStep { ring := ((fresh 4 64 0 2).fill 0 [7]).advance 1, khead := 0, held := [] }
      (.sync (TxSys.inFlight { ring := ((fresh 4 64 0 2).fill 0 [7]).advance 1, khead := 0, held := [] }) 1) _ :=
    ⟨rfl, TxStep.sync (by decide)⟩
  have hr : Lts.Run PipeStep ⟨_, [], fresh 2 64 0 0⟩ _ _ := Fifo.Series.of_left (Lts.Run.snoc (Lts.Run.single h1) h2)
  obtain ⟨_, _, _, es', s', hr', _, hall⟩ := pipe_fifo h0 hr
  exact ⟨_, _, _, hr, rfl, rfl, es', s', hr', hall⟩

end NetHelper
