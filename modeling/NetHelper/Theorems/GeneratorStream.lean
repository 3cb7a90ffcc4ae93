import NetHelper.Theorems.GeneratedPackets
import NetHelper.Theorems.GeneratorStores
import NetHelper.Theorems.SendLoop
import NetHelper.Theorems.TxProtocol

/-!
# What the generator puts on the wire

The send loop and the kernel together. The payload runs past the slices the loop was given, but on buffers of at least 256
bytes it stays inside the buffers, and so the packets published are what the loop meant to send: whatever the kernel takes,
followed by what it has not taken yet, is the generated packets from the first one on (`generator_stream`).
-/

namespace NetHelper

open Checked Mm512 Generator RingMem

namespace Generator

/-- The send loop, and the head the kernel saw last. -/
structure Wire where
  sender : Sender
  khead : Nat

/-- The TX ring of the loop. Between two rounds no reservation is open. -/
def Wire.tx (w : Wire) : TxSys := { ring := w.sender.ring, khead := w.khead, held := [] }

/-- A round of the loop, with the number of packets it published, or a TX sync, with the packets the kernel took. -/
inductive WireEvent where
  | round (published : Nat)
  | sync (taken : List Bytes) (freed : Nat)

/-- The number of packets published. -/
def WireEvent.published : WireEvent → Nat
  | .round published => published
  | .sync _ _ => 0

/-- The packets taken. -/
def WireEvent.taken : WireEvent → List Bytes
  | .round _ => []
  | .sync taken _ => taken

/-- The number of packets published in a run. -/
def publishedIn (es : List WireEvent) : Nat := (es.map WireEvent.published).sum

/-- The steps of the loop for so many packets, and of the kernel. -/
inductive WireStep (packetCount : Nat) : Wire → WireEvent → Wire → Prop where
  | round {w : Wire} {s' : Sender} (hi : w.sender.i < packetCount) (hc : sendRound w.sender = .ok (.next s')) :
      WireStep packetCount w (.round (Circ.dist w.sender.ring.numSlots w.sender.ring.head s'.ring.head))
        { w with sender := s' }
  | sync {w : Wire} {freed : Nat} (hroom : w.sender.ring.free + freed < w.sender.ring.numSlots) :
      WireStep packetCount w (.sync w.tx.inFlight freed)
        { sender := { w.sender with ring := w.sender.ring.txSync freed }, khead := w.sender.ring.head }

/-- The program as it enters the loop, on a ring with nothing published whose buffers hold a packet and its payload. -/
structure Wire.Start (w : Wire) : Prop where
  tx : w.tx.Start
  size : 256 ≤ w.sender.ring.nrBufSize
  current : w.sender.currentPacketZmm = templateZmm
  i_eq : w.sender.i = 0

/-- The program may enter the loop on a fresh ring. -/
theorem Wire.start_fresh {n size head tail : Nat} (h : n ≤ 2 ^ 31 ∧ 256 ≤ size ∧ size ≤ 65535 ∧ head < n ∧ tail < n) :
    Wire.Start { sender := { ring := fresh n size head tail, currentPacketZmm := templateZmm, i := 0 }, khead := head } :=
  ⟨TxSys.start_fresh ⟨h.1, h.2.2⟩, h.2.1, rfl, rfl⟩

end Generator

namespace GeneratorStreamAux

open GeneratorStoresAux SendLoopAux

variable {packetCount : Nat} {s s' : Sender} {v : Zmm} {f : Filling} {khead : Nat}

/-- The packets after the packet number `n` are the packets from there on. -/
theorem packetAfter_generated (n k : Nat) : packetAfter (generated n) k = generated (n + k) := by
  induction k with
  | zero => rfl
  | succ k ih =>
    rw [packetAfter, ih]
    rfl

/-- Where buffers hold an entry, none begins behind another. -/
theorem not_behind {r : RingMem} (hd : r.DistinctBufs) (hsize : 256 ≤ r.nrBufSize) {i j : Nat} (hi : i < r.numSlots)
    (hj : j < r.numSlots) : ¬r.Behind i j := by
  rintro ⟨hlt, hbehind⟩
  have hne : i ≠ j := by
    rintro rfl
    omega
  rcases hd.disjoint hi hj hne with h | h <;> omega

/-- Filling a batch leaves the slots of no entry as they are. -/
theorem others_slot {b : BatchReservation} {r : RingMem} (hn : r.numSlots < 2 ^ 32) (hb : b.count < r.numSlots)
    (hc : fillLoop b b.count 0 (Filling.start r v) = .ok f) {j : Nat}
    (hj : ∀ z < b.count, entrySlot b r.numSlots z ≠ j) : f.ring.slot j = r.slot j := by
  have h := fillLoop_rule (P := fun z f => f.After r v z ∧ f.ring.slot j = r.slot j) ?_ (by omega) hc
    ⟨Filling.after_start, rfl⟩
  · exact h.2
  · rintro z f f' hz ⟨hf, hprev⟩ he
    obtain ⟨-, rfl, hf'⟩ := hf.step hn hb hz he
    exact ⟨hf', (putEntry_slot_of_ne (hj z hz).symm).trans hprev⟩

/-- A batch in the making leaves a well-formed ring. -/
theorem valid_after {r : RingMem} {z : Nat} (hf : f.After r v z) (h : r.Valid) : f.ring.Valid := by
  refine ⟨?_, ?_, ?_, ?_, ?_⟩
  · rw [hf.bufs.numSlots]; exact h.pos
  · rw [hf.bufs.numSlots]; exact h.le
  · rw [hf.head, hf.bufs.numSlots]; exact h.head_lt
  · rw [hf.cur, hf.head]; exact h.cur_eq
  · rw [hf.tail, hf.bufs.numSlots]; exact h.tail_lt

/-- Filling everything that is free keeps what the protocol says of the ring, changes nothing in flight, and leaves the packets
in their slots. -/
theorem serial_filled {t : TxSys} (ht : t.Serial) (hsize : 256 ≤ t.ring.nrBufSize)
    (hc : fillLoop { start := t.ring.head, count := t.ring.free } t.ring.free 0 (Filling.start t.ring v) = .ok f) :
    TxSys.Serial { t with ring := f.ring, held := [] } ∧
      TxSys.inFlight { t with ring := f.ring, held := [] } = t.inFlight ∧
      ∀ z < t.ring.free, f.ring.packetAt (Circ.adv t.ring.numSlots t.ring.head z) = bytes (packetAfter v z) := by
  have hv := ht.valid
  have hle := hv.le
  have hlt := hv.free_lt
  have hn : t.ring.numSlots < 2 ^ 32 := by omega
  have hafter := fillLoop_after (b := { start := t.ring.head, count := t.ring.free }) hn hlt (Nat.le_refl _) hc
  have hbehind : ∀ i < t.ring.numSlots, ∀ j < t.ring.numSlots, ¬t.ring.Behind i j :=
    fun _ hi _ hj => not_behind ht.distinct hsize hi hj
  have hslot : ∀ z, entrySlot { start := t.ring.head, count := t.ring.free } t.ring.numSlots z < t.ring.numSlots :=
    fun z => entrySlot_lt hlt z
  have hpackets := packets_kept (v := v) hn hv.head_lt hlt ht.distinct (by omega)
    (fun z _ y _ => hbehind _ (hslot z) _ (hslot y)) f hc
  have hbuffers := others_kept (v := v) hn hlt ht.distinct (by omega)
    (fun z _ j hj _ => hbehind _ (hslot z) _ hj) f hc
  -- a published slot is not among those that are filled
  have hapart : ∀ j ∈ t.published, ∀ z < t.ring.free,
      entrySlot { start := t.ring.head, count := t.ring.free } t.ring.numSlots z ≠ j := by
    intro j hj z hz he
    rw [← he] at hj
    exact ht.not_published hz hj
  have hpub : TxSys.published { t with ring := f.ring, held := [] } = t.published := by
    simp only [TxSys.published, hafter.bufs.numSlots, hafter.head]
  have hkept : ∀ j ∈ t.published, f.ring.slot j = t.ring.slot j ∧ f.ring.packetAt j = t.ring.packetAt j := by
    intro j hj
    have hsl := others_slot hn hlt hc (hapart j hj)
    have hbuf := hbuffers j (ht.published_lt j hj) (hapart j hj)
    refine ⟨hsl, ?_⟩
    rw [buffer, buffer, hafter.bufs.bufPtr, hafter.bufs.nrBufSize] at hbuf
    rw [packetAt, packetAt, hafter.bufs.bufPtr, hsl]
    apply ByteMem.read_congr
    intro k hk
    have hfit := ht.fits j hj
    exact ByteMem.eq_of_read_eq hbuf k (by omega)
  refine ⟨⟨valid_after hafter hv, ?_, hafter.bufs.distinct ht.distinct, ?_, ?_, ?_, Or.inl rfl⟩, ?_, hpackets⟩
  · simp only [hafter.bufs.nrBufSize]
    exact ht.small
  · simp only [hafter.bufs.numSlots]
    exact ht.khead_lt
  · simp only [hafter.bufs.numSlots, hafter.head, hafter.tail]
    exact ht.between
  · intro j hj
    rw [hpub] at hj
    simp only [(hkept j hj).1, hafter.bufs.nrBufSize]
    exact ht.fits j hj
  · rw [TxSys.inFlight, TxSys.inFlight, hpub]
    exact List.map_congr_left (fun j hj => (hkept j hj).2)

/-- A round that is followed by another: it found no free slot and did nothing, or it filled all of them and moved `head` over
them. -/
theorem round_filled (h : s.ring.Valid) (hc : sendRound s = .ok (.next s')) :
    (s.ring.free = 0 ∧ s' = s) ∨
      (0 < s.ring.free ∧ ∃ f, fillLoop { start := s.ring.head, count := s.ring.free } s.ring.free 0
          (Filling.start s.ring s.currentPacketZmm) = .ok f ∧
        s' = { ring := f.ring.advance s.ring.free, currentPacketZmm := f.currentPacketZmm, i := s.i + 1 }) := by
  have hle := h.le
  have hlt := h.free_lt
  have hn : s.ring.numSlots < 2 ^ 32 := by omega
  unfold sendRound at hc
  obtain ⟨res, hr, hc⟩ := of_bind_ok hc
  rcases TxRing.reserveAll_cases h (of_call_ok hr) with ⟨h0, rfl⟩ | ⟨hpos, rfl⟩
  · left
    cases hc
    exact ⟨h0, rfl⟩
  · right
    obtain ⟨f, hl, hc⟩ := of_bind_ok hc
    obtain ⟨ring', hm, hc⟩ := of_bind_ok hc
    cases hc
    have hf := fillLoop_after (b := { start := s.ring.head, count := s.ring.free }) hn hlt (Nat.le_refl _) hl
    have hring := BatchReservation.commit_ok (by rw [hf.bufs.numSlots]; exact hn) (by rw [hf.bufs.numSlots]; exact hlt)
      (by rw [hf.written]; exact hpos) (Nat.le_of_eq hf.written) (of_call_ok hm)
    rw [hf.written] at hring
    refine ⟨hpos, f, hl, ?_⟩
    rw [hring, advance, hf.head]

/-- What is known between two steps: the protocol of the ring, and which packet comes next. -/
structure OnWire (n : Nat) (w : Wire) : Prop where
  serial : w.tx.Serial
  size : 256 ≤ w.sender.ring.nrBufSize
  current : w.sender.currentPacketZmm = generated n

/-- What a round that is followed by another has done: the packets that come next are published, as many as there were slots
for, and one is counted for them. -/
structure RoundDone (n : Nat) (w : Wire) (s' : Sender) : Prop where
  onWire : OnWire (n + w.sender.ring.free) { w with sender := s' }
  published : Circ.dist w.sender.ring.numSlots w.sender.ring.head s'.ring.head = w.sender.ring.free
  bufs : SameBufs w.sender.ring s'.ring
  counted : (w.sender.ring.free = 0 ∧ s'.i = w.sender.i) ∨ (0 < w.sender.ring.free ∧ s'.i = w.sender.i + 1)
  inFlight : (Wire.mk s' w.khead).tx.inFlight =
    w.tx.inFlight ++ (List.range w.sender.ring.free).map (fun k => bytes (generated (n + k)))

theorem step_round {n : Nat} {w : Wire} (h : OnWire n w) (hc : sendRound w.sender = .ok (.next s')) : RoundDone n w s' := by
  have hs := h.serial
  have hv : w.sender.ring.Valid := hs.valid
  have hle := hv.le
  have hlt := hv.free_lt
  rcases round_filled hv hc with ⟨h0, rfl⟩ | ⟨hpos, f, hl, rfl⟩
  · refine ⟨?_, ?_, SameBufs.refl _, Or.inl ⟨h0, rfl⟩, ?_⟩
    · rw [h0]
      exact h
    · rw [h0]
      exact Circ.dist_self hv.head_lt
    · simp [h0, Wire.tx]
  · have hf := fillLoop_after (b := { start := w.sender.ring.head, count := w.sender.ring.free }) (by omega) hlt
      (Nat.le_refl _) hl
    obtain ⟨hs1, hq1, hpk⟩ := serial_filled hs h.size hl
    have hfree : f.ring.free = w.sender.ring.free := by
      rw [free, free, hf.bufs.numSlots, hf.head, hf.tail]
    have hspan : (Circ.span f.ring.numSlots f.ring.head w.sender.ring.free).map f.ring.packetAt =
        (List.range w.sender.ring.free).map (fun k => bytes (generated (n + k))) := by
      rw [Circ.span, List.map_map]
      apply List.map_congr_left
      intro k hk
      have hpacket := hpk k (List.mem_range.mp hk)
      rw [h.current, packetAfter_generated] at hpacket
      rw [← hpacket, hf.bufs.numSlots, hf.head]
      rfl
    have hfit : ∀ k < w.sender.ring.free,
        (f.ring.slot (Circ.adv f.ring.numSlots f.ring.head k)).len ≤ f.ring.nrBufSize := by
      intro k hk
      have hsize := h.size
      rw [← length_packetAt, hf.bufs.numSlots, hf.head, hf.bufs.nrBufSize]
      have hpacket := hpk k hk
      change f.ring.packetAt (Circ.adv w.sender.ring.numSlots w.sender.ring.head k) = _ at hpacket
      rw [hpacket, length_bytes]
      omega
    obtain ⟨hs2, hq2⟩ := hs1.publish (k := w.sender.ring.free) (Nat.le_of_eq hfree.symm) hfit
    refine ⟨⟨hs2, ?_, ?_⟩, ?_, ?_, Or.inr ⟨hpos, rfl⟩, ?_⟩
    · simp only [advance_nrBufSize, hf.bufs.nrBufSize]
      exact h.size
    · rw [hf.current, h.current, packetAfter_generated]
    · rw [advance_head, hf.bufs.numSlots, hf.head, Circ.dist_adv hv.head_lt hlt]
    · exact hf.bufs.trans sameBufs_moveHead
    · rw [hspan, hq1] at hq2
      exact hq2

/-- A TX sync takes everything in flight. -/
theorem step_sync {n : Nat} {w : Wire} (h : OnWire n w) (freed : Nat) :
    OnWire n { sender := { w.sender with ring := w.sender.ring.txSync freed }, khead := w.sender.ring.head } ∧
      (Wire.mk { w.sender with ring := w.sender.ring.txSync freed } w.sender.ring.head).tx.inFlight = [] := by
  refine ⟨⟨h.serial.sync rfl freed, h.size, h.current⟩, ?_⟩
  have hself : Circ.window w.sender.ring.numSlots w.sender.ring.head w.sender.ring.head = [] :=
    Circ.window_self h.serial.valid.head_lt
  simp [Wire.tx, TxSys.inFlight, TxSys.published, txSync, hself]

/-- What is known of a run so far. -/
structure Streamed (packetCount : Nat) (es : List WireEvent) (w : Wire) : Prop where
  onWire : OnWire (publishedIn es) w
  packets : es.flatMap WireEvent.taken ++ w.tx.inFlight =
    (List.range (publishedIn es)).map (fun k => bytes (generated k))
  counted : w.sender.i ≤ packetCount
  atLeast : w.sender.i ≤ publishedIn es
  atMost : publishedIn es ≤ w.sender.i * (w.sender.ring.numSlots - 1)

theorem publishedIn_snoc (es : List WireEvent) (e : WireEvent) : publishedIn (es ++ [e]) = publishedIn es + e.published := by
  simp [publishedIn]

variable {w : Wire} {es : List WireEvent}

theorem Streamed.start (h : w.Start) : Streamed packetCount [] w := by
  obtain ⟨hs, hq⟩ := h.tx.serial
  refine ⟨⟨hs, h.size, h.current⟩, ?_, ?_, ?_, Nat.zero_le _⟩
  · simpa [publishedIn] using hq
  · rw [h.i_eq]
    exact Nat.zero_le _
  · rw [h.i_eq]
    exact Nat.zero_le _

theorem Streamed.round (h : Streamed packetCount es w) (hi : w.sender.i < packetCount)
    (hc : sendRound w.sender = .ok (.next s')) :
    Streamed packetCount (es ++ [.round (Circ.dist w.sender.ring.numSlots w.sender.ring.head s'.ring.head)])
      { w with sender := s' } := by
  have hd := step_round h.onWire hc
  have hlt : w.sender.ring.free < w.sender.ring.numSlots := h.onWire.serial.valid.free_lt
  have hmin := h.atLeast
  have hmax := h.atMost
  have hpub : publishedIn (es ++ [.round (Circ.dist w.sender.ring.numSlots w.sender.ring.head s'.ring.head)]) =
      publishedIn es + w.sender.ring.free := by
    rw [publishedIn_snoc, WireEvent.published, hd.published]
  refine ⟨?_, ?_, ?_, ?_, ?_⟩
  · rw [hpub]
    exact hd.onWire
  · rw [hpub, List.flatMap_append, List.flatMap_singleton, WireEvent.taken, List.append_nil, hd.inFlight,
      ← List.append_assoc, h.packets, List.range_add, List.map_append, List.map_map]
    rfl
  · rcases hd.counted with ⟨-, hs⟩ | ⟨-, hs⟩ <;> simp only [hs] <;> omega
  · rw [hpub]
    rcases hd.counted with ⟨-, hs⟩ | ⟨hpos, hs⟩ <;> simp only [hs] <;> omega
  · rw [hpub, hd.bufs.numSlots]
    rcases hd.counted with ⟨h0, hs⟩ | ⟨-, hs⟩
    · rw [h0, hs]
      exact hmax
    · rw [hs, Nat.succ_mul]
      omega

theorem Streamed.sync (h : Streamed packetCount es w) (freed : Nat) :
    Streamed packetCount (es ++ [.sync w.tx.inFlight freed])
      { sender := { w.sender with ring := w.sender.ring.txSync freed }, khead := w.sender.ring.head } := by
  obtain ⟨hon, hnone⟩ := step_sync h.onWire freed
  have hpub : publishedIn (es ++ [.sync w.tx.inFlight freed]) = publishedIn es := publishedIn_snoc es _
  refine ⟨?_, ?_, h.counted, ?_, ?_⟩
  · rw [hpub]
    exact hon
  · rw [hpub, List.flatMap_append, List.flatMap_singleton, WireEvent.taken, hnone, List.append_nil]
    exact h.packets
  · rw [hpub]
    exact h.atLeast
  · rw [hpub]
    exact h.atMost

/-- One step after a run. -/
theorem Streamed.step {w' : Wire} {e : WireEvent} (h : Streamed packetCount es w) (hs : WireStep packetCount w e w') :
    Streamed packetCount (es ++ [e]) w' := by
  cases hs with
  | round hi hc => exact h.round hi hc
  | sync _ => exact h.sync _

/-- A whole run. -/
theorem streamed_run {w₀ : Wire} (h0 : w₀.Start) (hr : Lts.Run (WireStep packetCount) w₀ es w) :
    Streamed packetCount es w := by
  induction hr with
  | nil => exact Streamed.start h0
  | snoc _ hs ih => exact ih.step hs

end GeneratorStreamAux

open GeneratorStreamAux

/-- Over every run of the send loop and the kernel, on buffers that hold a packet and its payload: the packets taken followed
by those in flight are the generated packets, from the first one on, without a gap and in order; `head` stays between the
kernel's head and `tail`; and the counter is no more than the packets published, which are at most a full ring for each time
it went up. -/
theorem generator_stream {packetCount : Nat} {w₀ w : Wire} {es : List WireEvent} (h0 : w₀.Start)
    (hr : Lts.Run (WireStep packetCount) w₀ es w) :
    es.flatMap WireEvent.taken ++ w.tx.inFlight =
        (List.range (publishedIn es)).map (fun k => bytes (generated k)) ∧
      Circ.Between w.sender.ring.numSlots w.khead w.sender.ring.head w.sender.ring.tail ∧
      w.sender.i ≤ packetCount ∧ w.sender.i ≤ publishedIn es ∧
      publishedIn es ≤ w.sender.i * (w.sender.ring.numSlots - 1) := by
  have h := streamed_run h0 hr
  exact ⟨h.packets, h.onWire.serial.between, h.counted, h.atLeast, h.atMost⟩

/-- `generator_stream` at the run in which a round publishes two packets and the kernel takes them. -/
theorem generator_stream_two_packets : ∃ es w,
    Lts.Run (WireStep 1) { sender := ⟨fresh 4 2048 0 2, templateZmm, 0⟩, khead := 0 } es w ∧ publishedIn es = 2 ∧
      es.flatMap WireEvent.taken ++ w.tx.inFlight = (List.range 2).map (fun k => bytes (generated k)) := by
  have h0 : Wire.Start { sender := ⟨fresh 4 2048 0 2, templateZmm, 0⟩, khead := 0 } := Wire.start_fresh (by decide)
  have h1 := @WireStep.round 1 { sender := ⟨fresh 4 2048 0 2, templateZmm, 0⟩, khead := 0 } _ (by decide) rfl
  have hr := Lts.Run.snoc (Lts.Run.single h1) (@WireStep.sync 1 _ 1 (by decide))
  exact ⟨_, _, hr, rfl, (generator_stream h0 hr).1⟩

end NetHelper
