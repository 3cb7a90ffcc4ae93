import NetHelper.Theorems.AsyncProtocol
import NetHelper.Theorems.GeneratorStream
import NetHelper.Theorems.Pipe

/-!
# Other writers at a pipe

One end of a pipe may be written by the asynchronous wrapper, or by the generator. Each of the two is known by what it puts into
its TX ring in whole runs, and that is all that is needed to say what comes out at the other end (`async_pipe_fifo`,
`generator_pipe`).
-/

namespace NetHelper

open Generator Mm512 RingMem

/-- A pipe whose one end is written asynchronously. -/
abbrev AsyncPipe : Type := Fifo.Series AsyncTx RingMem Bytes

/-- The steps of an asynchronous writer at one end, of a receiver at the other, and of the kernel. -/
def AsyncPipeStep : AsyncPipe → PollEvent ⊕ RxEvent → AsyncPipe → Prop :=
  Fifo.SeriesStep PollStep (fun e => e.acts.flatMap Fifo.Act.outs) RxStep (fun e => e.act.ins)

/-- A pipe whose one end is written by the generator. -/
abbrev GeneratorPipe : Type := Fifo.Series Wire RingMem Bytes

/-- The steps of the send loop at one end, of a receiver at the other, and of the kernel. -/
def GeneratorPipeStep (packetCount : Nat) : GeneratorPipe → WireEvent ⊕ RxEvent → GeneratorPipe → Prop :=
  Fifo.SeriesStep (WireStep packetCount) WireEvent.taken RxStep (fun e => e.act.ins)

namespace PipeWritersAux

open PipeAux AsyncProtocolAux GeneratorStreamAux

variable {size : Nat}

/-- What a receiver was handed and what waits is what arrived. -/
theorem received_run {s₀ s : RingMem} {es : List RxEvent} (h0 : s₀.Quiescent) (hr : Lts.Run RxStep s₀ es s) :
    RxEvent.handedOut es ++ s.waiting = [] ++ es.flatMap (fun e => e.act.ins) := by
  have hc := RxAux.queueing.conservation hr h0.valid
  rw [h0.waiting] at hc
  rw [RxEvent.handedOut, List.flatMap_map]
  exact hc

/-! ## The asynchronous writer -/

/-- What the kernel takes at a step is nothing, or everything in flight. -/
theorem taken_async {s s' : AsyncTx} {e : PollEvent} (h : PollStep s e s') :
    e.acts.flatMap Fifo.Act.outs = [] ∨ e.acts.flatMap Fifo.Act.outs = s.tx.inFlight := by
  cases h <;> simp [PollEvent.acts, Fifo.Act.outs]

/-- An asynchronous writer sends. -/
theorem sends_async : Sends size PollStep (fun e => e.acts.flatMap Fifo.Act.outs)
    (fun s => Roomy s ∧ s.world.ring.nrBufSize ≤ size) (fun s => s.tx.inFlight)
    (fun e => e.acts.flatMap Fifo.Act.ins = []) where
  inv_step s e s' hs h := by
    have hdone := step hs.1 h
    refine ⟨hdone.roomy, ?_⟩
    rw [hdone.size]
    exact hs.2
  fits s hs := fits_inFlight hs.1.serial hs.2
  leaves s e s' hs h p hp := by
    rcases taken_async h with hout | hout
    · rw [hout] at hp
      cases hp
    · rwa [hout] at hp
  flush s hs := by
    have hk : s.world.ring.Synced (s.world.ring.txSync 0) := ⟨0, hs.1.serial.valid.free_lt, rfl⟩
    have hstep := @PollStep.sync s { s.world with ring := s.world.ring.txSync 0 } hk
    exact ⟨_, _, Lts.Run.single hstep, by simp [PollEvent.acts, Fifo.Act.ins], by simp [PollEvent.acts, Fifo.Act.outs],
      (serial_synced hs.1 hk).2.2.1⟩

/-- Over a run from a start what was received, and what is in the pipe, is what was written. -/
theorem async_conservation {s₀ s : AsyncPipe} {es : List (PollEvent ⊕ RxEvent)} (h0 : s₀.left.Start)
    (hrx : s₀.right.Quiescent) (hlink : s₀.link = []) (hr : Lts.Run AsyncPipeStep s₀ es s) :
    RxEvent.handedOut (Fifo.rights es) ++ (s.right.waiting ++ s.link ++ s.left.tx.inFlight) =
      PollEvent.accepted (Fifo.lefts es) := by
  have hl := (conserved_run h0 (Fifo.Series.run_left hr)).2
  rw [PollEvent.consumed, List.flatMap_assoc, ← List.nil_append (PollEvent.accepted _)] at hl
  have hthrough := Fifo.Series.through hr hl (received_run hrx (Fifo.Series.run_right hr))
  rw [hthrough, hlink]
  rfl

/-! ## The generator -/

/-- The send loop sends. -/
theorem sends_generator {packetCount : Nat} : Sends size (WireStep packetCount) WireEvent.taken
    (fun w => (∃ n, OnWire n w) ∧ w.sender.ring.nrBufSize ≤ size) (fun w => w.tx.inFlight)
    (fun e => e.published = 0) where
  inv_step w e w' hw h := by
    obtain ⟨⟨n, hn⟩, hsize⟩ := hw
    cases h with
    | round _ hc =>
      have hd := step_round hn hc
      refine ⟨⟨_, hd.onWire⟩, ?_⟩
      dsimp only
      rw [hd.bufs.nrBufSize]
      exact hsize
    | sync _ => exact ⟨⟨n, (step_sync hn _).1⟩, hsize⟩
  fits w hw := hw.1.elim fun _ hn => fits_inFlight hn.serial hw.2
  leaves w e w' hw h p hp := by
    cases h with
    | round _ _ => cases hp
    | sync _ => exact hp
  flush w hw := by
    obtain ⟨⟨n, hn⟩, _⟩ := hw
    have hstep := @WireStep.sync packetCount w 0 hn.serial.valid.free_lt
    exact ⟨_, _, Lts.Run.single hstep, by simp [WireEvent.published], by simp [WireEvent.taken], (step_sync hn 0).2⟩

/-- Over a run from a start what was received, and what is in the pipe, is the generated packets. -/
theorem generator_conservation {packetCount : Nat} {s₀ s : GeneratorPipe} {es : List (WireEvent ⊕ RxEvent)}
    (h0 : s₀.left.Start) (hrx : s₀.right.Quiescent) (hlink : s₀.link = [])
    (hr : Lts.Run (GeneratorPipeStep packetCount) s₀ es s) :
    RxEvent.handedOut (Fifo.rights es) ++ (s.right.waiting ++ s.link ++ s.left.tx.inFlight) =
      (List.range (publishedIn (Fifo.lefts es))).map (fun k => bytes (generated k)) := by
  have hl := (streamed_run h0 (Fifo.Series.run_left hr)).packets
  rw [← List.nil_append (List.map _ _)] at hl
  have hthrough := Fifo.Series.through hr hl (received_run hrx (Fifo.Series.run_right hr))
  rw [hthrough, hlink]
  rfl

end PipeWritersAux

open PipeAux PipeWritersAux AsyncWriteAux

/-- Over every run of an asynchronous writer at one end of a pipe, a receiver at the other, and the kernel, which may sync the TX
ring during the calls: what was handed out, followed by what waits, what is on its way and what is in flight, is what was
written, in order; and from every state reached everything can be brought through, with nothing more written. -/
theorem async_pipe_fifo {s₀ s : AsyncPipe} {es : List (PollEvent ⊕ RxEvent)} (h0 : s₀.left.Start)
    (hrx : s₀.right.ReadyFor s₀.left.world.ring.nrBufSize) (hlink : s₀.link = []) (hr : Lts.Run AsyncPipeStep s₀ es s) :
    RxEvent.handedOut (Fifo.rights es) ++ (s.right.waiting ++ s.link ++ s.left.tx.inFlight) =
        PollEvent.accepted (Fifo.lefts es) ∧
      ∃ es' s', Lts.Run AsyncPipeStep s es' s' ∧ PollEvent.accepted (Fifo.lefts es') = [] ∧
        RxEvent.handedOut (Fifo.rights (es ++ es')) = PollEvent.accepted (Fifo.lefts es) := by
  have hslots := hrx.slots
  have hsend := @sends_async s₀.right.nrBufSize
  have hs := (flowing_start ⟨⟨h0.tx.serial.1, h0.room⟩, hrx.size_le⟩ hlink hrx).run hsend hr
  refine ⟨async_conservation h0 hrx.quiescent hlink hr, ?_⟩
  obtain ⟨es', s', hr', hquiet, hleft, hlink', hright⟩ := hs.drain hsend (by omega)
  have hacc : PollEvent.accepted (Fifo.lefts es') = [] := by
    rw [PollEvent.accepted, List.flatMap_assoc]
    exact List.flatMap_eq_nil_iff.mpr hquiet
  have hall := async_conservation h0 hrx.quiescent hlink (hr.append hr')
  rw [hleft, hlink', hright] at hall
  refine ⟨es', s', hr', hacc, ?_⟩
  have happ : PollEvent.accepted (Fifo.lefts (es ++ es')) =
      PollEvent.accepted (Fifo.lefts es) ++ PollEvent.accepted (Fifo.lefts es') := by
    simp only [PollEvent.accepted, Fifo.lefts_append, List.flatMap_append]
  rw [happ, hacc] at hall
  simpa using hall

/-- `async_pipe_fifo` at the run in which a packet is written, taken, delivered and received. -/
theorem async_pipe_fifo_received : ∃ es s, Lts.Run AsyncPipeStep ⟨start 4 0 2, [], fresh 2 64 0 0⟩ es s ∧ es.length = 4 ∧
    s.left.tx.inFlight = [] ∧ s.link = [] ∧ RxEvent.handedOut (Fifo.rights es) ++ s.right.waiting = [[7]] := by
  have h0 : AsyncTx.Start (start 4 0 2) := ⟨TxSys.start_fresh (by decide), by decide⟩
  have hrx : (fresh 2 64 0 0).ReadyFor 64 := RingMem.ReadyFor.fresh (by decide)
  have hq : ∀ env ∈ [quiet], env.Quiet := by simp [quiet_quiet]
  have h1 : PollStep (start 4 0 2) (.pollWrite [7] (.ready (.ok 1)) []) _ := PollStep.pollWrite hq rfl
  have h2 := Lts.Run.snoc (Lts.Run.single h1) (@PollStep.sync _ ⟨(start 4 0 2).world.fd, _, []⟩ ⟨0, by decide, rfl⟩)
  have hv := hrx.quiescent.valid
  have hk : RxSync (fresh 2 64 0 0) [[7]] ((fresh 2 64 0 0).deliver [[7]]) :=
    RxSync.deliver _ _ hv hrx.distinct (fun _ hi => by cases hi) (by decide) (by decide)
  have h3 := Lts.Run.snoc (Lts.Run.single (RxStep.sync hk)) (RxStep.recv (RxRing.recv_eq (hk.valid hv)))
  have hl : Lts.Run AsyncPipeStep ⟨start 4 0 2, [], fresh 2 64 0 0⟩ _ _ := Fifo.Series.of_left h2
  have hr := hl.append (Fifo.Series.of_right h3)
  exact ⟨_, _, hr, rfl, rfl, rfl, (async_pipe_fifo h0 hrx rfl hr).1⟩

/-- Over every run of the send loop at one end of a pipe, on buffers that hold a packet and its payload, of a receiver at the
other, and of the kernel: what was handed out, followed by what waits, what is on its way and what is in flight, is the generated
packets, from the first one on, without a gap and in order; and from every state reached everything published can be brought
through, with nothing more published. -/
theorem generator_pipe {packetCount : Nat} {s₀ s : GeneratorPipe} {es : List (WireEvent ⊕ RxEvent)} (h0 : s₀.left.Start)
    (hrx : s₀.right.ReadyFor s₀.left.sender.ring.nrBufSize) (hlink : s₀.link = [])
    (hr : Lts.Run (GeneratorPipeStep packetCount) s₀ es s) :
    RxEvent.handedOut (Fifo.rights es) ++ (s.right.waiting ++ s.link ++ s.left.tx.inFlight) =
        (List.range (publishedIn (Fifo.lefts es))).map (fun k => bytes (generated k)) ∧
      ∃ es' s', Lts.Run (GeneratorPipeStep packetCount) s es' s' ∧ publishedIn (Fifo.lefts es') = 0 ∧
        RxEvent.handedOut (Fifo.rights (es ++ es')) =
          (List.range (publishedIn (Fifo.lefts es))).map (fun k => bytes (generated k)) := by
  have hslots := hrx.slots
  have hsend := @sends_generator s₀.right.nrBufSize packetCount
  have hstart : GeneratorStreamAux.Streamed packetCount [] s₀.left := GeneratorStreamAux.Streamed.start h0
  have hs := (flowing_start ⟨⟨_, hstart.onWire⟩, hrx.size_le⟩ hlink hrx).run hsend hr
  refine ⟨generator_conservation h0 hrx.quiescent hlink hr, ?_⟩
  obtain ⟨es', s', hr', hquiet, hleft, hlink', hright⟩ := hs.drain hsend (by omega)
  have hpub : publishedIn (Fifo.lefts es') = 0 := by
    rw [publishedIn, List.sum_eq_zero_iff_forall_eq_nat]
    intro k hk
    obtain ⟨e, he, rfl⟩ := List.mem_map.mp hk
    exact hquiet e he
  have hall := generator_conservation h0 hrx.quiescent hlink (hr.append hr')
  rw [hleft, hlink', hright] at hall
  refine ⟨es', s', hr', hpub, ?_⟩
  have happ : publishedIn (Fifo.lefts (es ++ es')) = publishedIn (Fifo.lefts es) + publishedIn (Fifo.lefts es') := by
    simp only [publishedIn, Fifo.lefts_append, List.map_append, List.sum_append]
  rw [happ, hpub] at hall
  simpa using hall

/-- `generator_pipe` at the run in which a round publishes two packets and the kernel takes them: they can still be received. -/
theorem generator_pipe_two_packets : ∃ s₀ s es, Lts.Run (GeneratorPipeStep 1) s₀ es s ∧ es.length = 2 ∧
    ∃ es' s', Lts.Run (GeneratorPipeStep 1) s es' s' ∧
      RxEvent.handedOut (Fifo.rights (es ++ es')) = (List.range 2).map (fun k => bytes (generated k)) := by
  have h0 : Wire.Start { sender := ⟨fresh 4 2048 0 2, templateZmm, 0⟩, khead := 0 } := Wire.start_fresh (by decide)
  have hrx : (fresh 4 2048 0 0).ReadyFor 2048 := RingMem.ReadyFor.fresh (by decide)
  have h1 := @WireStep.round 1 { sender := ⟨fresh 4 2048 0 2, templateZmm, 0⟩, khead := 0 } _ (by decide) rfl
  have h2 := Lts.Run.snoc (Lts.Run.single h1) (@WireStep.sync 1 _ 1 (by decide))
  have hr : Lts.Run (GeneratorPipeStep 1) ⟨_, [], fresh 4 2048 0 0⟩ _ _ := Fifo.Series.of_left h2
  obtain ⟨_, es', s', hr', _, hall⟩ := generator_pipe h0 hrx rfl hr
  exact ⟨_, _, _, hr, rfl, es', s', hr', hall⟩

end NetHelper
