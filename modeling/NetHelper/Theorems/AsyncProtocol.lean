import NetHelper.Theorems.AsyncWrite
import NetHelper.Theorems.TxProtocol

/-!
# The asynchronous writer alone on a ring

`poll_write` takes a ring for full one slot early, and on a ring with no free slot it writes all the same. A user who only
ever writes through it, on a ring that has a free slot, never comes to such a ring: the last free slot is never used
(`async_writer_protocol`). Then nothing is lost or written over, however the kernel acts between the calls and during them;
what it costs is one slot.
-/

namespace NetHelper

open Checked RingMem

/-- What acts on the ring during a pass of `poll_write` keeps `P`. -/
structure WriteEnv.Keeps (env : WriteEnv) (P : RingMem → Prop) : Prop where
  beforePoll : ∀ w, P w.ring → P (env.beforePoll w).ring
  beforeClear : ∀ w, P w.ring → P (env.beforeClear w).ring
  beforeNext : ∀ w, P w.ring → P (env.beforeNext w).ring

namespace AsyncTx

/-- The TX ring that is written, with no reservation open. -/
def tx (s : AsyncTx) : TxSys := { ring := s.world.ring, khead := s.khead, held := [] }

/-- The states a run may start from: nothing published, and a slot free. -/
structure Start (s : AsyncTx) : Prop where
  tx : s.tx.Start
  room : 1 ≤ s.world.ring.free

end AsyncTx

/-- What is seen of an asynchronous writer: its calls with their results, and the packets that the kernel takes meanwhile. -/
inductive PollEvent where
  | pollWrite (buf : Bytes) (r : Poll (Except IoError Nat)) (taken : List Bytes)
  | pollFlush (r : Except IoError Unit) (taken : List Bytes)
  | pollShutdown (r : Except IoError Unit) (taken : List Bytes)
  | sync (taken : List Bytes)

/-- The steps of an asynchronous writer. During a call of `poll_write` nothing else acts, or the kernel syncs the ring, once
or many times, and changes the readiness. Flushing and shutting down are TX syncs when they succeed. -/
inductive PollStep : AsyncTx → PollEvent → AsyncTx → Prop where
  | pollWrite {s : AsyncTx} {envs : List WriteEnv} {buf : Bytes} {r : Poll (Except IoError Nat)} {w' : World}
      (hq : ∀ env ∈ envs, env.Quiet) (hc : AsyncNetmapTxRing.pollWrite envs s.world buf = .ok (some r, w')) :
      PollStep s (.pollWrite buf r []) { s with world := w' }
  | pollWriteSynced {s : AsyncTx} {envs : List WriteEnv} {buf : Bytes} {r : Poll (Except IoError Nat)} {w' : World}
      (hk : ∀ env ∈ envs, env.Keeps s.world.ring.Synced)
      (hc : AsyncNetmapTxRing.pollWrite envs s.world buf = .ok (some r, w')) :
      PollStep s (.pollWrite buf r s.tx.inFlight) { world := w', khead := s.world.ring.head }
  | pollFlush {s : AsyncTx} {ioctl : World → Except Int World} {w' : World}
      (hk : ∀ w, ioctl s.world = .ok w → s.world.ring.Synced w.ring)
      (hc : AsyncNetmapTxRing.pollFlush ioctl s.world = (.ready (.ok ()), w')) :
      PollStep s (.pollFlush (.ok ()) s.tx.inFlight) { world := w', khead := s.world.ring.head }
  | pollFlushErr {s : AsyncTx} {ioctl : World → Except Int World} {e : IoError} {w' : World}
      (hc : AsyncNetmapTxRing.pollFlush ioctl s.world = (.ready (.error e), w')) :
      PollStep s (.pollFlush (.error e) []) { s with world := w' }
  | pollShutdown {s : AsyncTx} {ioctl : World → Except Int World} {w' : World}
      (hk : ∀ w, ioctl s.world = .ok w → s.world.ring.Synced w.ring)
      (hc : AsyncNetmapTxRing.pollShutdown ioctl s.world = (.ready (.ok ()), w')) :
      PollStep s (.pollShutdown (.ok ()) s.tx.inFlight) { world := w', khead := s.world.ring.head }
  | pollShutdownErr {s : AsyncTx} {ioctl : World → Except Int World} {e : IoError} {w' : World}
      (hc : AsyncNetmapTxRing.pollShutdown ioctl s.world = (.ready (.error e), w')) :
      PollStep s (.pollShutdown (.error e) []) { s with world := w' }
  | sync {s : AsyncTx} {w' : World} (hk : s.world.ring.Synced w'.ring) :
      PollStep s (.sync s.tx.inFlight) { world := w', khead := s.world.ring.head }

namespace PollEvent

/-- The packet that a call of `poll_write` has written, if it has written one. -/
def written (buf : Bytes) : Poll (Except IoError Nat) → List Bytes
  | .ready (.ok _) => if buf = [] then [] else [buf]
  | _ => []

/-- What a step does to the queue between the writer and the kernel. -/
def acts : PollEvent → List (Fifo.Act Bytes)
  | .pollWrite buf r taken => [.take taken, .put (written buf r)]
  | .pollFlush _ taken => [.take taken]
  | .pollShutdown _ taken => [.take taken]
  | .sync taken => [.take taken]

/-- The packets written in a run, in the order of the calls. -/
def accepted (es : List PollEvent) : List Bytes := (es.flatMap acts).flatMap Fifo.Act.ins

/-- The packets the kernel has taken in a run, in order. -/
def consumed (es : List PollEvent) : List Bytes := (es.flatMap acts).flatMap Fifo.Act.outs

end PollEvent

namespace AsyncProtocolAux

open AsyncWriteAux

/-! ## A call of `poll_write` -/

variable {w w' : World} {buf : Bytes} {env : WriteEnv} {envs : List WriteEnv} {r : Poll (Except IoError Nat)}
  {P : RingMem → Prop}

/-- A call has written nothing: it returned no number, or the packet was empty. -/
def WroteNothing (buf : Bytes) (r : Poll (Except IoError Nat)) : Prop := ∀ k, r = .ready (.ok k) → buf = []

/-- A pass on a ring taken for full goes through states that what acts on the ring keeps. -/
theorem pass_full (buf : Bytes) (hv : ∀ ring, P ring → ring.Valid) (hk : env.Keeps P) (h : P w.ring)
    (hfull : Circ.adv w.ring.numSlots w.ring.head 1 = w.ring.tail) :
    ∃ res w₁, AsyncNetmapTxRing.pollWritePass env w buf = .ok (res, w₁) ∧ P w₁.ring ∧
      ∀ k, res ≠ some (.ready (.ok k)) := by
  have hvalid := hv _ h
  have hh := hvalid.head_lt
  have hle := hvalid.le
  have hfull' : ((w.ring.head + 1) % w.ring.numSlots == w.ring.tail) = true := beq_iff_eq.mpr hfull
  have hpoll := hk.beforePoll w h
  unfold AsyncNetmapTxRing.pollWritePass
  dsimp only
  rw [add_of_lt (by omega), ok_bind, rem_of_pos hvalid.numSlots_pos, ok_bind]
  simp only [hfull', if_true]
  cases env.pollErr with
  | some errno => exact ⟨_, _, rfl, hpoll, fun k he => by nomatch he⟩
  | none =>
    unfold AsyncFd.pollWriteReady
    by_cases hr : (env.beforePoll w).fd.writeReady
    · simp only [hr, if_true]
      exact ⟨_, _, rfl, hk.beforeNext _ (hk.beforeClear _ hpoll), fun k he => by nomatch he⟩
    · simp only [hr, Bool.false_eq_true, if_false]
      exact ⟨_, _, rfl, hpoll, fun k he => by nomatch he⟩

/-- A pass for an empty packet on a ring not taken for full writes nothing. -/
theorem pass_empty (hvalid : w.ring.Valid) (hroom : Circ.adv w.ring.numSlots w.ring.head 1 ≠ w.ring.tail) :
    AsyncNetmapTxRing.pollWritePass env w [] = .ok (some (.ready (.ok 0)), w) := by
  have hh := hvalid.head_lt
  have hle := hvalid.le
  have hfull : ((w.ring.head + 1) % w.ring.numSlots == w.ring.tail) = false := beq_eq_false_iff_ne.mpr hroom
  unfold AsyncNetmapTxRing.pollWritePass
  dsimp only
  rw [add_of_lt (by omega), ok_bind, rem_of_pos hvalid.numSlots_pos, ok_bind]
  simp only [hfull, Bool.false_eq_true, if_false, if_true]

/-- What a call that returns has done, whatever acts on the ring meanwhile keeps: nothing more, or the packet is written into
a ring that was kept. -/
theorem pollWrite_rule (hv : ∀ ring, P ring → ring.Valid) (hk : ∀ env ∈ envs, env.Keeps P) (h : P w.ring)
    (hc : AsyncNetmapTxRing.pollWrite envs w buf = .ok (some r, w')) :
    (P w'.ring ∧ WroteNothing buf r) ∨ ∃ ring, P ring ∧ WroteInto ring buf r w'.ring := by
  induction envs generalizing w with
  | nil => cases hc
  | cons env envs ih =>
    rw [AsyncNetmapTxRing.pollWrite] at hc
    by_cases hfull : Circ.adv w.ring.numSlots w.ring.head 1 = w.ring.tail
    · obtain ⟨res, w₁, hpass, hP, hno⟩ := pass_full buf hv (hk env (by simp)) h hfull
      rw [hpass, ok_bind] at hc
      cases res with
      | none => exact ih (fun env' hmem => hk env' (by simp [hmem])) hP hc
      | some r₁ =>
        cases hc
        left
        exact ⟨hP, fun k he => absurd (congrArg some he) (hno k)⟩
    · by_cases hb : buf = []
      · subst hb
        rw [pass_empty (hv _ h) hfull, ok_bind] at hc
        cases hc
        left
        exact ⟨h, fun _ _ => rfl⟩
      · rw [pollWritePass_room (hv _ h) hb hfull, ok_bind] at hc
        by_cases hlong : w.ring.nrBufSize < buf.length
        · rw [if_pos hlong] at hc
          cases hc
          left
          exact ⟨h, fun k he => by cases he⟩
        · rw [if_neg hlong] at hc
          cases hc
          right
          exact ⟨w.ring, h, hfull, hb, by omega, rfl, rfl⟩

/-- Shutting down is flushing. -/
theorem pollShutdown_eq (ioctl : World → Except Int World) (w : World) :
    AsyncNetmapTxRing.pollShutdown ioctl w = AsyncNetmapTxRing.pollFlush ioctl w := by
  unfold AsyncNetmapTxRing.pollShutdown AsyncNetmapTxRing.pollFlush
  cases ioctl w <;> rfl

/-! ## Steps -/

variable {t : TxSys} {s s' : AsyncTx} {e : PollEvent} {ring' : RingMem}

/-- Flags are no part of a packet. -/
theorem setFlags_packetAt (ring : RingMem) (i flags j : Nat) : (ring.setFlags i flags).packetAt j = ring.packetAt j := by
  rw [packetAt, packetAt, sameBufs_setFlags.bufPtr, setFlags_len, setFlags_mem]

/-- Storing flags keeps what the protocol says of the ring, and changes nothing in flight. -/
theorem serial_setFlags (ht : t.Serial) (i flags : Nat) :
    TxSys.Serial { t with ring := t.ring.setFlags i flags, held := [] } ∧
      TxSys.inFlight { t with ring := t.ring.setFlags i flags, held := [] } = t.inFlight := by
  refine ⟨⟨ht.valid.setFlags, ht.small, sameBufs_setFlags.distinct ht.distinct, ht.khead_lt, ht.between, ?_, Or.inl rfl⟩, ?_⟩
  · intro j hj
    rw [setFlags_len]
    exact ht.fits j hj
  · exact List.map_congr_left (fun j _ => setFlags_packetAt _ _ _ j)

/-- Publishing the slot at `head` puts its packet behind those in flight. -/
theorem serial_publish_one (ht : t.Serial) (hroom : 1 ≤ t.ring.free)
    (hfit : (t.ring.slot t.ring.head).len ≤ t.ring.nrBufSize) :
    TxSys.Serial { t with ring := t.ring.advance 1, held := [] } ∧
      TxSys.inFlight { t with ring := t.ring.advance 1, held := [] } = t.inFlight ++ [t.ring.packetAt t.ring.head] := by
  have h0 : Circ.adv t.ring.numSlots t.ring.head 0 = t.ring.head := Circ.adv_zero ht.valid.head_lt
  have hspan : Circ.span t.ring.numSlots t.ring.head 1 = [t.ring.head] := by
    rw [Circ.span_cons ht.valid.head_lt, Circ.span_zero]
  have hpub := ht.publish (k := 1) hroom (by
    intro i hi
    obtain rfl : i = 0 := by omega
    rw [h0]
    exact hfit)
  rwa [hspan, List.map_singleton] at hpub

/-- A packet stored, without flags, in the slot at `head` is not published yet. -/
theorem serial_stored (ht : t.Serial) (hroom : 1 ≤ t.ring.free) (hb : buf.length ≤ t.ring.nrBufSize) :
    TxSys.Serial { t with ring := (t.ring.fill t.ring.head buf).setFlags t.ring.head 0, held := [] } ∧
      TxSys.inFlight { t with ring := (t.ring.fill t.ring.head buf).setFlags t.ring.head 0, held := [] } = t.inFlight := by
  have hfill := ht.fill (k := 0) hroom hb
  rw [Circ.adv_zero ht.valid.head_lt] at hfill
  obtain ⟨hs, hq⟩ := serial_setFlags hfill.1 t.ring.head 0
  exact ⟨hs, hq.trans hfill.2⟩

/-- A packet written keeps what the protocol says of the ring and leaves a slot free; it is behind those in flight. -/
theorem serial_written (ht : t.Serial) (hroom : 1 ≤ t.ring.free) (h : WroteInto t.ring buf r ring') :
    TxSys.Serial { t with ring := ring', held := [] } ∧ 1 ≤ ring'.free ∧
      TxSys.inFlight { t with ring := ring', held := [] } = t.inFlight ++ [buf] ∧
      ∀ i, i ≠ t.ring.head → ring'.slot i = t.ring.slot i := by
  have hv := ht.valid
  have hsmall := ht.small
  have hfits := h.fits
  have hone := mt (full_iff hv).mpr h.room
  have hself : ((t.ring.fill t.ring.head buf).setFlags t.ring.head 0).packetAt t.ring.head = buf := by
    rw [setFlags_packetAt]
    exact packetAt_fill_self (by omega)
  have hslot : ∀ i, i ≠ t.ring.head →
      ((t.ring.fill t.ring.head buf).setFlags t.ring.head 0).slot i = t.ring.slot i := by
    intro i hi
    rw [setFlags_slot_of_ne hi, fill_slot_of_ne hi]
  have hhead : ((t.ring.fill t.ring.head buf).setFlags t.ring.head 0).head = t.ring.head := rfl
  have hfree : ((t.ring.fill t.ring.head buf).setFlags t.ring.head 0).free = t.ring.free := rfl
  have hsize : ((t.ring.fill t.ring.head buf).setFlags t.ring.head 0).nrBufSize = t.ring.nrBufSize := rfl
  have hring := h.ring_eq
  obtain ⟨hs1, hq1⟩ := serial_stored ht hroom hfits
  -- from here on only these facts about the ring with the packet in it matter
  generalize (t.ring.fill t.ring.head buf).setFlags t.ring.head 0 = stored at *
  have hlen : (stored.slot stored.head).len ≤ stored.nrBufSize := by
    rw [← length_packetAt, hhead, hself, hsize]
    exact hfits
  obtain ⟨hs2, hq2⟩ := serial_publish_one hs1 (by simp only [hfree]; exact hroom) hlen
  rw [hring]
  refine ⟨hs2, ?_, ?_, hslot⟩
  · have hleft : (stored.advance 1).free = stored.free - 1 := hs1.valid.free_advance (by simp only [hfree]; exact hroom)
    omega
  · rw [hq2, hq1]
    simp only [hhead, hself]

/-- The invariant: the protocol of the ring, and a slot free. -/
structure Roomy (s : AsyncTx) : Prop where
  serial : s.tx.Serial
  room : 1 ≤ s.world.ring.free

/-- The ring after TX syncs, with everything taken. -/
theorem serial_synced (hs : Roomy s) (hk : s.world.ring.Synced ring') :
    TxSys.Serial { ring := ring', khead := s.world.ring.head, held := [] } ∧ 1 ≤ ring'.free ∧
      TxSys.inFlight { ring := ring', khead := s.world.ring.head, held := [] } = [] ∧ ring'.slot = s.world.ring.slot ∧
      ring'.head = s.world.ring.head := by
  obtain ⟨freed, hfree, rfl⟩ := hk
  have hv : s.world.ring.Valid := hs.serial.valid
  have hroom := hs.room
  have hself : Circ.window s.world.ring.numSlots s.world.ring.head s.world.ring.head = [] := Circ.window_self hv.head_lt
  refine ⟨hs.serial.sync rfl freed, ?_, ?_, rfl, rfl⟩
  · rw [free_txSync hv hfree]
    omega
  · simp [TxSys.inFlight, TxSys.published, txSync, hself]

/-- What a step does: it keeps the invariant and the size of the buffers, it is a step or two of the queue, and it changes no slot
outside the window. -/
structure Done (s : AsyncTx) (e : PollEvent) (s' : AsyncTx) : Prop where
  roomy : Roomy s'
  size : s'.world.ring.nrBufSize = s.world.ring.nrBufSize
  queue : Lts.Run Fifo.Step s.tx.inFlight e.acts s'.tx.inFlight
  slot : ∀ i, i ∉ s.world.ring.owned → s'.world.ring.slot i = s.world.ring.slot i

/-- What the kernel takes is everything in flight. -/
theorem take_all (q : List Bytes) : Lts.Run Fifo.Step q [.take q] [] := by
  have h := Fifo.Step.take q []
  rw [List.append_nil] at h
  exact Lts.Run.single h

/-- The kernel takes everything in flight, at a sync of its own or at one it was asked for. -/
theorem done_synced (hs : Roomy s) {w' : World} (hk : s.world.ring.Synced w'.ring)
    (hacts : e.acts = [.take s.tx.inFlight]) : Done s e { world := w', khead := s.world.ring.head } := by
  obtain ⟨hserial, hroom, hnone, hslot, -⟩ := serial_synced hs hk
  refine ⟨⟨hserial, hroom⟩, hk.sameBufs.nrBufSize, ?_, fun i _ => congrFun hslot i⟩
  rw [hacts]
  change Lts.Run Fifo.Step s.tx.inFlight _ (TxSys.inFlight { ring := w'.ring, khead := s.world.ring.head, held := [] })
  rw [hnone]
  exact take_all _

/-- A call that wrote nothing puts nothing into the queue. -/
theorem written_nothing (h : WroteNothing buf r) : PollEvent.written buf r = [] := by
  unfold PollEvent.written
  split
  · rw [if_pos (h _ rfl)]
  · rfl

/-- A call that wrote the packet puts it into the queue. -/
theorem written_into {ring : RingMem} (h : WroteInto ring buf r ring') : PollEvent.written buf r = [buf] := by
  rw [h.result]
  exact if_neg h.some

/-- A call during which nothing else acts. -/
theorem done_quiet (hs : Roomy s) (hq : ∀ env ∈ envs, env.Quiet)
    (hc : AsyncNetmapTxRing.pollWrite envs s.world buf = .ok (some r, w')) :
    Done s (.pollWrite buf r []) { s with world := w' } := by
  have hv : s.world.ring.Valid := hs.serial.valid
  have hkeeps : ∀ env ∈ envs, env.Keeps (fun ring => ring = s.world.ring) := by
    intro env hmem
    have henv := hq env hmem
    exact ⟨fun w hw => by rw [henv.beforePoll, hw], fun w hw => by rw [henv.beforeClear, hw],
      fun w hw => by rw [henv.beforeNext, hw]⟩
  have hvalid : ∀ ring, ring = s.world.ring → ring.Valid := by
    rintro _ rfl
    exact hv
  rcases pollWrite_rule hvalid hkeeps rfl hc with ⟨hring, hno⟩ | ⟨ring, rfl, hinto⟩
  · have htx : ({ s with world := w' } : AsyncTx).tx = s.tx := by
      simp only [AsyncTx.tx, hring]
    refine ⟨⟨?_, ?_⟩, congrArg RingMem.nrBufSize hring, ?_, fun i _ => by rw [hring]⟩
    · rw [htx]
      exact hs.serial
    · simp only [hring]
      exact hs.room
    · rw [htx, PollEvent.acts, written_nothing hno]
      exact Lts.Run.snoc (Lts.Run.single (Fifo.Step.take [] _)) (Fifo.Step.idle _)
  · obtain ⟨hserial, hroom, hq', hslot⟩ := serial_written hs.serial hs.room hinto
    refine ⟨⟨hserial, hroom⟩, hinto.sameBufs.nrBufSize, ?_, ?_⟩
    · rw [PollEvent.acts, written_into hinto]
      change Lts.Run Fifo.Step _ _ (TxSys.inFlight { s.tx with ring := w'.ring, held := [] })
      rw [hq']
      exact Lts.Run.snoc (Lts.Run.single (Fifo.Step.take [] _)) (Fifo.Step.put _ _)
    · intro i hi
      exact hslot i (fun he => hi (he ▸ head_mem_owned hv hs.room))

/-- A call during which the kernel syncs the ring. -/
theorem done_pollWriteSynced (hs : Roomy s) (hk : ∀ env ∈ envs, env.Keeps s.world.ring.Synced)
    (hc : AsyncNetmapTxRing.pollWrite envs s.world buf = .ok (some r, w')) :
    Done s (.pollWrite buf r s.tx.inFlight) { world := w', khead := s.world.ring.head } := by
  have hv : s.world.ring.Valid := hs.serial.valid
  rcases pollWrite_rule (fun _ => Synced.valid hv) hk hv.synced hc with ⟨hring, hno⟩ | ⟨ring, hring, hinto⟩
  · have hdone := done_synced (e := .sync s.tx.inFlight) hs hring rfl
    refine ⟨hdone.roomy, hdone.size, ?_, hdone.slot⟩
    rw [PollEvent.acts, written_nothing hno]
    exact Lts.Run.snoc hdone.queue (Fifo.Step.idle _)
  · obtain ⟨hserial, hroom, hnone, hslot, hhead⟩ := serial_synced hs hring
    obtain ⟨hserial', hroom', hq', hslot'⟩ := serial_written hserial hroom hinto
    refine ⟨⟨hserial', hroom'⟩, hinto.sameBufs.nrBufSize.trans hring.sameBufs.nrBufSize, ?_, ?_⟩
    · rw [PollEvent.acts, written_into hinto]
      change Lts.Run Fifo.Step _ _ (TxSys.inFlight { ring := w'.ring, khead := s.world.ring.head, held := [] })
      rw [hq', hnone]
      exact Lts.Run.snoc (take_all _) (Fifo.Step.put _ _)
    · intro i hi
      have hne : i ≠ ring.head := fun he => hi (he ▸ hhead ▸ head_mem_owned hv hs.room)
      rw [← congrFun hslot i]
      exact hslot' i hne

/-- A call that changes nothing. -/
theorem done_idle (hs : Roomy s) (hacts : e.acts = [.take []]) : Done s e s := by
  refine ⟨hs, rfl, ?_, fun _ _ => rfl⟩
  rw [hacts]
  exact Lts.Run.single (Fifo.Step.take [] _)

/-- One step of the writer, or of the kernel. -/
theorem step (hs : Roomy s) (ht : PollStep s e s') : Done s e s' := by
  cases ht with
  | pollWrite hq hc => exact done_quiet hs hq hc
  | pollWriteSynced hk hc => exact done_pollWriteSynced hs hk hc
  | pollFlush hk hc => exact done_synced hs (hk _ (pollFlush_ok hc)) rfl
  | pollFlushErr hc =>
    rw [pollFlush_error hc]
    exact done_idle hs rfl
  | pollShutdown hk hc =>
    rw [pollShutdown_eq] at hc
    exact done_synced hs (hk _ (pollFlush_ok hc)) rfl
  | pollShutdownErr hc =>
    rw [pollShutdown_eq] at hc
    rw [pollFlush_error hc]
    exact done_idle hs rfl
  | sync hk => exact done_synced hs hk rfl

/-- A packet that fits is written, when nothing else acts, exactly when two slots are free. -/
theorem writes_iff (hs : Roomy s) (hq : ∀ env ∈ envs, env.Quiet) (hl : 2 ≤ envs.length) (hb : buf ≠ [])
    (hfit : buf.length ≤ s.world.ring.nrBufSize) :
    (∃ w', AsyncNetmapTxRing.pollWrite envs s.world buf = .ok (some (.ready (.ok buf.length)), w')) ↔
      2 ≤ s.world.ring.free := by
  have hv : s.world.ring.Valid := hs.serial.valid
  have hroom := hs.room
  have hlt := hv.free_lt
  constructor
  · rintro ⟨w', hc⟩
    by_contra hone
    obtain ⟨r, fd, hcall, hno⟩ := pollWrite_full buf hv hq hl ((full_iff hv).mpr (by omega))
    rw [hcall] at hc
    cases hc
    exact hno _ rfl
  · intro htwo
    have hcall := pollWrite_room hv hb hl (mt (full_iff hv).mp (by omega))
    rw [if_neg (by omega)] at hcall
    exact ⟨_, hcall⟩

/-- A whole run. -/
theorem conserved_run {s₀ : AsyncTx} {es : List PollEvent} (h0 : s₀.Start) (hr : Lts.Run PollStep s₀ es s) :
    Roomy s ∧ PollEvent.consumed es ++ s.tx.inFlight = PollEvent.accepted es := by
  obtain ⟨hserial, hempty⟩ := h0.tx.serial
  have hI : ∀ a e b, Roomy a → PollStep a e b → Roomy b := fun _ _ _ hs ht => (step hs ht).roomy
  have hq := hr.refines (fun a => a.tx.inFlight) PollEvent.acts hI (fun _ _ _ hs ht => (step hs ht).queue)
    ⟨hserial, h0.room⟩
  have hcons := Fifo.conservation hq
  rw [hempty, List.nil_append] at hcons
  exact ⟨hr.invariant hI ⟨hserial, h0.room⟩, hcons⟩

end AsyncProtocolAux

open AsyncProtocolAux AsyncWriteAux

/-- Over every run of a writer that only uses `poll_write`, `poll_flush` and `poll_shutdown` on a ring with a free slot, and
of the kernel, which may sync the ring between the calls and during them: a slot stays free; `head` lies between the kernel's
head and `tail`; the packets taken followed by those in flight are the packets written, in order; a further step changes no
slot that the application does not own. When nothing else acts, a packet that fits is written exactly when two slots are free.
-/
theorem async_writer_protocol {s₀ s : AsyncTx} {es : List PollEvent} (h0 : s₀.Start) (hr : Lts.Run PollStep s₀ es s) :
    1 ≤ s.world.ring.free ∧ s.Placed ∧ PollEvent.consumed es ++ s.tx.inFlight = PollEvent.accepted es ∧
      (∀ e s', PollStep s e s' → ∀ i, i ∉ s.world.ring.owned → s'.world.ring.slot i = s.world.ring.slot i) ∧
      ∀ envs buf, (∀ env ∈ envs, env.Quiet) → 2 ≤ envs.length → buf ≠ [] → buf.length ≤ s.world.ring.nrBufSize →
        ((∃ w', AsyncNetmapTxRing.pollWrite envs s.world buf = .ok (some (.ready (.ok buf.length)), w')) ↔
          2 ≤ s.world.ring.free) := by
  obtain ⟨hs, hcons⟩ := conserved_run h0 hr
  exact ⟨hs.room, ⟨hs.serial.valid, hs.serial.khead_lt, hs.serial.between⟩, hcons, fun _ _ ht => (step hs ht).slot,
    fun _ _ hquiet hl hb hfit => writes_iff hs hquiet hl hb hfit⟩

/-- `async_writer_protocol` at the run in which a packet is written, a second one finds one slot free and is not, and the
kernel takes the first. -/
theorem async_writer_protocol_two_slots : ∃ es s, Lts.Run PollStep (start 4 0 2) es s ∧ PollEvent.accepted es = [[7]] ∧
    PollEvent.consumed es ++ s.tx.inFlight = PollEvent.accepted es ∧ 1 ≤ s.world.ring.free := by
  have h0 : AsyncTx.Start (start 4 0 2) := ⟨TxSys.start_fresh (by decide), by decide⟩
  have hq : ∀ env ∈ [quiet], env.Quiet := by simp [quiet_quiet]
  have h1 : PollStep (start 4 0 2) (.pollWrite [7] (.ready (.ok 1)) []) _ := PollStep.pollWrite hq rfl
  have h2 := Lts.Run.snoc (Lts.Run.single h1) (@PollStep.pollWrite _ _ [8] .pending _ hq rfl)
  have h3 := Lts.Run.snoc h2 (PollStep.sync ⟨0, by decide, rfl⟩)
  have hall := async_writer_protocol h0 h3
  exact ⟨_, _, h3, rfl, hall.2.2.1, hall.1⟩

end NetHelper
