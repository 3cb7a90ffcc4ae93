import NetHelper.Interface
import NetHelper.Theorems.RxProtocol

/-!
# Rings that share a memory

The rings of an interface do not get in each other's way. A step of a ring stores into its own buffers only
(`TxSys.Serial.confined`, `rx_confined`), and what a ring is to keep depends on no other bytes (`TxSys.Serial.withMem`,
`Fitting.withMem`); the rest is the general argument of `Lib/Shared.lean`. So each ring keeps to its protocol whatever is
done, in whatever order, with all the others (`interface_protocols`).
-/

namespace NetHelper

open RingMem

namespace RingMem

variable {s t : RingMem} {m : Memory} {i : Nat}

/-! ## The bytes of a ring -/

/-- The buffers of a ring are the same bytes as long as the slots keep their buffers. -/
theorem SameBufs.cells (h : SameBufs s t) : t.cells = s.cells := by
  unfold RingMem.cells
  simp only [h.numSlots, h.nrBufSize, h.bufPtr]

/-- Rings of one pool with no buffer in common have no byte in common. -/
theorem OtherBuffers.disjoint (h : s.OtherBuffers t) : ∀ a ∈ s.cells, a ∉ t.cells := by
  rintro a ⟨i, hi, hsl, hsu⟩ ⟨j, hj, htl, htu⟩
  have key : ∀ x y : Nat, x < y → x * t.nrBufSize + t.nrBufSize ≤ y * t.nrBufSize := by
    intro x y hxy
    rw [← Nat.succ_mul]
    exact Nat.mul_le_mul_right _ hxy
  have hbase := h.base
  simp only [bufPtr, h.size] at hsl hsu htl htu
  rcases Nat.lt_trichotomy (s.slot i).bufIdx (t.slot j).bufIdx with hlt | heq | hgt
  · have := key _ _ hlt
    omega
  · exact h.bufIdx i hi j hj heq
  · have := key _ _ hgt
    omega

/-- A packet put into a slot is stored in the buffers of the ring. -/
theorem fill_mem_of_not_mem {bytes : Bytes} {a : Nat} (hi : i < s.numSlots) (hb : bytes.length ≤ s.nrBufSize)
    (ha : a ∉ s.cells) : (s.fill i bytes).mem a = s.mem a := by
  rw [fill_mem]
  apply ByteMem.write_of_outside
  by_contra hin
  exact ha ⟨i, hi, by omega, by omega⟩

/-- A packet that fits its buffer is the same in a memory that agrees on the buffers. -/
theorem packetAt_withMem (hm : Set.EqOn m s.mem s.cells) (hi : i < s.numSlots) (hl : (s.slot i).len ≤ s.nrBufSize) :
    (s.withMem m).packetAt i = s.packetAt i := by
  apply ByteMem.read_congr
  intro k hk
  have hin : k < s.nrBufSize := Nat.lt_of_lt_of_le hk hl
  exact hm ⟨i, hi, Nat.le_add_right _ _, Nat.add_lt_add_left hin _⟩

/-- The packets waiting are the same in a memory that agrees on the buffers. -/
theorem waiting_withMem (h : s.Valid) (hf : s.Fitting) (hm : Set.EqOn m s.mem s.cells) :
    (s.withMem m).waiting = s.waiting := by
  apply List.map_congr_left
  intro i hi
  exact packetAt_withMem hm ((Circ.mem_window_iff h.head_lt).mp hi).1 (hf i hi)

/-- Moving over slots of the window leaves packets that fit. -/
theorem Fitting.advance {k : Nat} (h : s.Valid) (hf : s.Fitting) (hk : k ≤ s.free) : (s.advance k).Fitting := by
  intro i hi
  apply hf
  rw [owned, Circ.window_adv h.head_lt h.tail_lt hk]
  exact List.mem_append_right _ hi

end RingMem

/-! ## A TX ring among others -/

namespace TxSys

variable {s s' : TxSys} {e : TxEvent} {m : Memory}

/-- The TX ring with another memory behind it. -/
def withMem (s : TxSys) (m : Memory) : TxSys := { s with ring := s.ring.withMem m }

theorem ring_grant (s : TxSys) (res : Except Error BatchReservation) : (s.grant res).ring = s.ring := by
  cases res <;> rfl

namespace Serial

/-- A step of a disciplined user, or of the kernel, stores into the buffers of the ring only, and leaves the slots their
buffers. -/
theorem confined (hs : s.Serial) (h : DisciplinedStep s e s') :
    SameBufs s.ring s'.ring ∧ ∀ a ∉ s.ring.cells, s'.ring.mem a = s.ring.mem a := by
  have hsame : SameBufs s.ring s.ring ∧ ∀ a ∉ s.ring.cells, s.ring.mem a = s.ring.mem a :=
    ⟨SameBufs.refl _, fun _ _ => rfl⟩
  have hadv : ∀ k (bytes : Bytes), k < s.ring.numSlots → bytes.length ≤ s.ring.nrBufSize →
      SameBufs s.ring (s.ring.fill k bytes) ∧ ∀ a ∉ s.ring.cells, (s.ring.fill k bytes).mem a = s.ring.mem a :=
    fun _ _ hk hb => ⟨sameBufs_fill, fun _ ha => fill_mem_of_not_mem hk hb ha⟩
  obtain ⟨hd, ht⟩ := h
  cases ht with
  | send hc =>
    rcases TxRing.send_cases hs.valid hc with ⟨_, _, rfl⟩ | ⟨_, hb, _, rfl⟩
    · exact hsame
    · obtain ⟨hbufs, hmem⟩ := hadv _ _ hs.valid.head_lt hb
      exact ⟨hbufs.trans sameBufs_moveHead, hmem⟩
  | reserveAll hc =>
    rw [ring_grant]
    exact hsame
  | reserveBatch => exact absurd hd id
  | packet hh hc =>
    obtain ⟨rfl, rfl, hf⟩ := hs.held_eq hh
    rcases BatchReservation.packet_store (hs.res_fits hf) hs.valid.le hc with ⟨_, he, _⟩ | ⟨_, sl', hsl, _, _, hst⟩
    · cases he
    · cases hsl
      rw [hst]
      exact hadv _ _ (Circ.adv_lt hs.valid.numSlots_pos) hd
  | packetErr hh hc =>
    obtain ⟨rfl, rfl, hf⟩ := hs.held_eq hh
    rcases BatchReservation.packet_store (hs.res_fits hf) hs.valid.le hc with ⟨_, _, rfl⟩ | ⟨_, sl', hsl, _⟩
    · exact hsame
    · cases hsl
  | commit hh hc =>
    obtain ⟨rfl, rfl, hf⟩ := hs.held_eq hh
    rw [BatchReservation.commit_eq (hs.res_fits hf) hs.valid.le] at hc
    split at hc
    · cases hc
      exact hsame
    · cases hc
      exact ⟨sameBufs_moveHead, fun _ _ => rfl⟩
  | drop => exact hsame
  | sync => exact ⟨sameBufs_txSync _, fun _ _ => rfl⟩

/-- The invariant depends on the bytes of the ring's own buffers only. -/
theorem withMem (hs : s.Serial) (hm : Set.EqOn m s.ring.mem s.ring.cells) : (s.withMem m).Serial := by
  refine ⟨⟨hs.valid.pos, hs.valid.le, hs.valid.head_lt, hs.valid.cur_eq, hs.valid.tail_lt⟩, hs.small, hs.distinct,
    hs.khead_lt, hs.between, hs.fits, ?_⟩
  rcases hs.alone with h0 | ⟨h, h1, hf⟩
  · exact Or.inl h0
  · refine Or.inr ⟨h, h1, hf.res_eq, ?_⟩
    intro i p hp
    obtain ⟨hi, hl, hpk⟩ := hf.stored i p hp
    refine ⟨hi, hl, ?_⟩
    have hlen : (s.ring.slot (Circ.adv s.ring.numSlots s.ring.head i)).len ≤ s.ring.nrBufSize := by
      rw [← length_packetAt, hpk]
      exact hl
    exact (packetAt_withMem hm (Circ.adv_lt hs.valid.numSlots_pos) hlen).trans hpk

/-- So do the packets in flight. -/
theorem inFlight_withMem (hs : s.Serial) (hm : Set.EqOn m s.ring.mem s.ring.cells) :
    (s.withMem m).inFlight = s.inFlight := by
  apply List.map_congr_left
  intro i hi
  exact packetAt_withMem hm (hs.published_lt i hi) (hs.fits i hi)

end Serial

end TxSys

/-! ## An RX ring among others -/

namespace RxAux

variable {s s' : RingMem} {e : RxEvent}

/-- A step leaves the slots their buffers, and packets that fit. -/
theorem rx_confined (h : s.Valid) (hf : s.Fitting) (hs : RxStep s e s') : SameBufs s s' ∧ s'.Fitting := by
  cases hs with
  | recv hc =>
    rcases RxRing.recv_cases h hc with ⟨_, rfl, rfl⟩ | ⟨hpos, rfl, rfl⟩
    · exact ⟨SameBufs.refl _, hf⟩
    · exact ⟨sameBufs_moveHead, hf.advance h hpos⟩
  | recvBatch hc =>
    obtain ⟨hcount, rfl, _⟩ := take_recvBatch h hc
    exact ⟨sameBufs_moveHead, hf.advance h (hcount ▸ Nat.min_le_left _ _)⟩
  | sync hk => exact ⟨hk.sameBufs, hk.fits_owned h hf⟩

end RxAux

/-! ## All of them -/

namespace Interface

variable {ι κ : Type}

/-- The bytes of a ring's buffers. -/
def own (n : RingName ι κ) (s : (rings ι κ).State n) : Set Nat := (ring n s).cells

/-- What a ring is to keep. -/
def inv : (n : RingName ι κ) → (rings ι κ).State n → Prop
  | .tx _, s => TxSys.Serial s
  | .rx _, s => RingMem.Valid s ∧ RingMem.Fitting s

/-- The rings keep to their own buffers. -/
theorem confined : (rings ι κ).Confined own inv where
  mem_withMem n s m := by cases n <;> rfl
  withMem_mem n s := by cases n <;> rfl
  withMem_withMem n s m m' := by cases n <;> rfl
  own_withMem n s m := by cases n <;> rfl
  inv_withMem n s m hs hm := by
    cases n with
    | tx i => exact TxSys.Serial.withMem hs hm
    | rx k => exact ⟨⟨hs.1.pos, hs.1.le, hs.1.head_lt, hs.1.cur_eq, hs.1.tail_lt⟩, hs.2⟩
  inv_step n s e s' hs hstep := by
    cases n with
    | tx i => exact (TxSys.Serial.step hs hstep).1
    | rx k => exact ⟨(RxAux.step hs.1 hstep.1).1, (RxAux.rx_confined hs.1 hs.2 hstep.1).2⟩
  own_step n s e s' hs hstep := by
    cases n with
    | tx i => exact (TxSys.Serial.confined hs hstep).1.cells
    | rx k => exact (RxAux.rx_confined hs.1 hs.2 hstep.1).1.cells
  mem_step n s e s' hs hstep := by
    cases n with
    | tx i => exact (TxSys.Serial.confined hs hstep).2
    | rx k => exact hstep.2

/-- An interface a run may start from has its rings apart. -/
theorem Start.apart {w : Sys ι κ} (h : Start w) : w.Apart own inv := by
  refine ⟨?_, fun n n' hne => (h.other n n' hne).disjoint⟩
  intro n
  cases n with
  | tx i => exact (h.tx i).serial.1
  | rx k => exact h.rx k

variable [DecidableEq ι] [DecidableEq κ] {w₀ w : Sys ι κ} {es : List ((n : RingName ι κ) × (rings ι κ).Event n)}

/-- A TX ring in a run of all rings. -/
theorem tx_run (h0 : Start w₀) (hr : Lts.Run Shared.Parts.Step w₀ es w) (i : ι) :
    (w.tx i).Serial ∧ TxEvent.consumed (txEvents i es) ++ (w.tx i).inFlight = TxEvent.accepted (txEvents i es) := by
  have hs : (w.tx i).Serial := (confined.apart_run h0.apart hr).inv (.tx i)
  have hq := confined.project (.tx i) TxSys.inFlight TxEvent.act
    (fun s m hs hm => TxSys.Serial.inFlight_withMem hs hm) (fun s e s' hs hstep => (TxSys.Serial.step hs hstep).2) h0.apart hr
  have hcons := Fifo.conservation hq
  have hempty : (w₀.tx i).inFlight = [] := (h0.tx i).serial.2
  change _ = (w₀.tx i).inFlight ++ _ at hcons
  rw [hempty, List.nil_append] at hcons
  exact ⟨hs, hcons⟩

/-- An RX ring in a run of all rings. -/
theorem rx_run (h0 : Start w₀) (hr : Lts.Run Shared.Parts.Step w₀ es w) (k : κ) :
    (w.rx k).Valid ∧
      RxEvent.handedOut (rxEvents k es) ++ (w.rx k).waiting = (w₀.rx k).waiting ++ RxEvent.arrived (rxEvents k es) := by
  have hs : (w.rx k).Valid ∧ (w.rx k).Fitting := (confined.apart_run h0.apart hr).inv (.rx k)
  have hq := confined.project (.rx k) RingMem.waiting RxEvent.act
    (fun s m hs hm => waiting_withMem hs.1 hs.2 hm) (fun s e s' hs hstep => (RxAux.step hs.1 hstep.1).2) h0.apart hr
  exact ⟨hs.1, Fifo.conservation hq⟩

end Interface

open Interface

variable {ι κ : Type} [DecidableEq ι] [DecidableEq κ]

/-- The rings of an interface, over every run of all their users and the kernel. On each TX ring the protocol of a single TX
ring holds: the kernel finds no index it rejects, every call returns, and the packets taken followed by those in flight are
the packets accepted on that ring, in order. On each RX ring receiving does well, and the payloads handed out followed by the
packets waiting are the packets that waited at the start followed by the arrivals at that ring, in order. -/
theorem interface_protocols {w₀ w : Sys ι κ} {es : List ((n : RingName ι κ) × (rings ι κ).Event n)} (h0 : Start w₀)
    (hr : Lts.Run Shared.Parts.Step w₀ es w) :
    (∀ i, (w.tx i).ring.head = (w.tx i).ring.cur ∧ (w.tx i).ring.head < (w.tx i).ring.numSlots ∧
      Circ.Between (w.tx i).ring.numSlots (w.tx i).khead (w.tx i).ring.head (w.tx i).ring.tail ∧ (w.tx i).CallsReturn ∧
      TxEvent.consumed (txEvents i es) ++ (w.tx i).inFlight = TxEvent.accepted (txEvents i es)) ∧
    ∀ k, (w.rx k).head = (w.rx k).cur ∧ (w.rx k).head < (w.rx k).numSlots ∧ (w.rx k).ReceivesWell ∧
      RxEvent.handedOut (rxEvents k es) ++ (w.rx k).waiting = (w₀.rx k).waiting ++ RxEvent.arrived (rxEvents k es) := by
  refine ⟨?_, ?_⟩
  · intro i
    obtain ⟨hs, hcons⟩ := tx_run h0 hr i
    exact ⟨hs.valid.cur_eq.symm, hs.valid.head_lt, hs.between, hs.callsReturn, hcons⟩
  · intro k
    obtain ⟨hs, hcons⟩ := rx_run h0 hr k
    exact ⟨hs.cur_eq.symm, hs.head_lt, RxAux.receivesWell hs, hcons⟩

namespace Interface

/-- A TX ring of four slots, two of them free. -/
def pairTx : TxSys := { ring := fresh 4 64 0 2, khead := 0, held := [] }

/-- An RX ring of four slots, its buffers in the pool behind those of the TX ring. -/
def pairRx : RingMem :=
  { fresh 4 64 0 0 with addr := 6144, addr_pos := by decide, bufOfs := 2048,
                        slot := fun i => { bufIdx := 4 + i, len := 0, flags := 0 } }

/-- An interface with one ring of each direction. -/
def pair : Sys ι κ where
  part
    | .tx _ => pairTx
    | .rx _ => pairRx
  mem := fun _ => 0

theorem pairTx_start : pairTx.Start := TxSys.start_fresh (by decide)

theorem pairRx_valid : pairRx.Valid ∧ pairRx.Fitting :=
  ⟨⟨by decide, by decide, by decide, rfl, by decide⟩, fun i hi => absurd hi List.not_mem_nil⟩

theorem pair_start {α β : Type} [Subsingleton α] [Subsingleton β] : Start (pair : Sys α β) := by
  refine ⟨fun _ => pairTx_start, fun _ => pairRx_valid, ?_⟩
  intro n n' hne
  have hlt : ∀ i j, i < 4 → i ≠ 4 + j := fun i j hi => by omega
  rcases n with ⟨i⟩ | ⟨k⟩
  · rcases n' with ⟨j⟩ | ⟨k⟩
    · exact absurd (congrArg _ (Subsingleton.elim i j)) hne
    · exact ⟨rfl, rfl, fun i hi j _ => hlt i j hi⟩
  · rcases n' with ⟨j⟩ | ⟨k'⟩
    · exact ⟨rfl, rfl, fun i _ j hj => (hlt j i hj).symm⟩
    · exact absurd (congrArg _ (Subsingleton.elim k k')) hne

end Interface

/-- `interface_protocols` at the run in which a packet is sent on one ring and another one arrives at the other. -/
theorem interface_protocols_pair : ∃ es w, Lts.Run Shared.Parts.Step (pair : Sys Unit Unit) es w ∧
    TxEvent.consumed (txEvents () es) ++ (Sys.tx w ()).inFlight = [[7]] ∧
      RxEvent.handedOut (rxEvents () es) ++ (Sys.rx w ()).waiting = [[8]] := by
  have h0 : Start (pair : Sys Unit Unit) := pair_start
  have hv : pairTx.ring.Valid := pairTx_start.serial.1.valid
  have h1 : Shared.Parts.Step (pair : Sys Unit Unit) ⟨.tx (), TxEvent.send [7] (.ok ())⟩ _ :=
    Shared.Parts.Step.part (P := rings Unit Unit) (i := .tx ())
      ⟨rfl, TxStep.send (TxRing.send_ok hv (by decide) (by decide))⟩
  have hrx := (confined.apart_step h0.apart h1).inv (.rx ())
  have hd : ∀ s : RingMem, s.numSlots = 4 → (∀ i, (s.slot i).bufIdx = 4 + i) → s.DistinctBufs := by
    intro s _ hb i _ j _ he
    rw [hb, hb] at he
    omega
  have hk := RxSync.deliver [[8]] _ hrx.1 (hd _ rfl (fun _ => rfl)) hrx.2 (by decide) (by decide)
  have h2 := Shared.Parts.Step.part (P := rings Unit Unit) (i := .rx ()) (e := RxEvent.sync [[8]])
    ⟨RxStep.sync hk, fun a ha => fill_mem_of_not_mem hrx.1.tail_lt (by decide) ha⟩
  have hr := Lts.Run.snoc (Lts.Run.single h1) h2
  have hall := interface_protocols h0 hr
  exact ⟨_, _, hr, (hall.1 ()).2.2.2.2, (hall.2 ()).2.2.2⟩

end NetHelper
