import NetHelper.Lemmas.Rx
import NetHelper.Lemmas.RxSync

/-!
# Frames that are kept

`recvBatch` moves `head` over the slots at once, so the frames it hands out borrow buffers that are no longer in the window:
the next RX sync gives them to the kernel. A frame therefore keeps its payload exactly until a sync finds it held
(`held_frames_valid`); with a second batch and a ring that wraps, it shows another packet (`held_frame_overwritten`).
-/

namespace NetHelper

open RingMem

namespace FrameSys

/-- No frame with bytes is held. -/
def HoldsNothing (s : FrameSys) : Prop := ∀ h ∈ s.held, h.frame.len = 0

/-- Every frame held still shows what it showed when it was handed out. -/
def FramesValid (s : FrameSys) : Prop := ∀ h ∈ s.held, h.frame.payload s.ring.mem = h.seen

/-- The states a run may start from: distinct buffers, packets that fit them, and no frames. -/
structure Start (s : FrameSys) : Prop where
  valid : s.ring.Valid
  distinct : s.ring.DistinctBufs
  fits : ∀ i ∈ s.ring.owned, (s.ring.slot i).len ≤ s.ring.nrBufSize
  held_eq : s.held = []

end FrameSys

/-- A sync, by the application or by the kernel, happens only when no frame with bytes is held (or the ioctl fails). -/
def FrameEvent.Careful (s : FrameSys) : FrameEvent → Prop
  | .recvBatch _ => True
  | .release => True
  | .sync ioctl => (∃ e, ioctl s.ring = .error e) ∨ s.HoldsNothing
  | .kernel _ => s.HoldsNothing

/-- A step of an application that lets go of its frames before the next sync. -/
def CarefulStep (s : FrameSys) (e : FrameEvent) (s' : FrameSys) : Prop := e.Careful s ∧ FrameStep s e s'

namespace FrameSys

/-- The invariant: the frames held show what they did, and the slots of those with bytes lie between the place of `head` at
the last sync and `head`. -/
structure Kept (s : FrameSys) : Prop where
  valid : s.ring.Valid
  distinct : s.ring.DistinctBufs
  fits : ∀ i ∈ s.ring.owned, (s.ring.slot i).len ≤ s.ring.nrBufSize
  framesValid : s.FramesValid
  slots : ∃ base < s.ring.numSlots, Circ.Between s.ring.numSlots base s.ring.head s.ring.tail ∧
    ∀ h ∈ s.held, h.frame.len ≠ 0 →
      ∃ i ∈ Circ.window s.ring.numSlots base s.ring.head, h.frame = s.ring.frameAt i ∧
        (s.ring.slot i).len ≤ s.ring.nrBufSize

namespace Kept

variable {s s' : FrameSys} {e : FrameEvent}

/-- A frame without bytes shows nothing in any memory. -/
theorem payload_of_len_zero {f : Frame} (h : f.len = 0) (mem : Memory) : f.payload mem = [] := by
  have := f.length_payload mem
  exact List.eq_nil_of_length_eq_zero (this.trans h)

/-- A frame held with bytes belongs to a slot outside the window, whose buffer it shows from the start. -/
theorem slot_released (hs : s.Kept) {h : HeldFrame} (hh : h ∈ s.held) (hne : h.frame.len ≠ 0) :
    ∃ i < s.ring.numSlots, i ∉ s.ring.owned ∧ h.frame = s.ring.frameAt i ∧ (s.ring.slot i).len ≠ 0 ∧
      (s.ring.slot i).len ≤ s.ring.nrBufSize := by
  obtain ⟨base, hbase, hbt, hslots⟩ := hs.slots
  obtain ⟨i, hi, hf, hl⟩ := hslots h hh hne
  obtain ⟨hlt, hd⟩ := (Circ.mem_window_iff hbase).mp hi
  refine ⟨i, hlt, ?_, hf, ?_, hl⟩
  · -- the slots of the window are past head, counted from base
    intro hown
    obtain ⟨k, hk, rfl⟩ := Circ.mem_span.mp hown
    exact Circ.adv_not_mem_window hbase hs.valid.head_lt hs.valid.tail_lt hbt hk hi
  · rw [hf, len_frameAt] at hne
    exact hne

/-- A batch hands out frames of the slots that `head` passes. -/
theorem step_recvBatch (hs : s.Kept) {batch batch' : List Frame} {count : Nat} {ring' : RingMem}
    (hc : RxRing.recvBatch s.ring batch = .ok (count, batch', ring')) :
    Kept { ring := ring', held := s.held ++ (batch'.take count).map (fun f => ⟨f, f.payload ring'.mem⟩) } := by
  obtain ⟨base, hbase, hbt, hslots⟩ := hs.slots
  have hle : count ≤ s.ring.free ∧ ring' = s.ring.advance count ∧
      batch'.take count = (Circ.span s.ring.numSlots s.ring.head count).map s.ring.frameAt := by
    rw [RxRing.recvBatch_eq hs.valid] at hc
    cases hc
    have ht := RxRing.take_splice_zero batch
      ((Circ.span s.ring.numSlots s.ring.head (min s.ring.free batch.length)).map s.ring.frameAt)
    rw [List.length_map, Circ.length_span] at ht
    exact ⟨Nat.min_le_left _ _, rfl, ht⟩
  obtain ⟨hcount, rfl, htake⟩ := hle
  rw [htake]
  have hgrow := Circ.window_grow hbase hs.valid.head_lt hs.valid.tail_lt hbt hcount
  have hsplit := Circ.window_adv hs.valid.head_lt hs.valid.tail_lt hcount
  have hown : ∀ i, i ∈ Circ.span s.ring.numSlots s.ring.head count ∨ i ∈ (s.ring.advance count).owned →
      i ∈ s.ring.owned := by
    intro i hi
    rw [owned, hsplit]
    exact List.mem_append.mpr hi
  refine ⟨hs.valid.advance, hs.distinct, fun i hi => hs.fits i (hown i (Or.inr hi)), ?_, base, hbase, ?_, ?_⟩
  · intro h hh
    rcases List.mem_append.mp hh with hh | hh
    · exact hs.framesValid h hh
    · obtain ⟨f, _, rfl⟩ := List.mem_map.mp hh
      rfl
  · exact Circ.between_adv hbase hs.valid.head_lt hs.valid.tail_lt hbt hcount
  · intro h hh hne
    rw [advance_head, advance_numSlots, hgrow]
    rcases List.mem_append.mp hh with hh | hh
    · obtain ⟨i, hi, hf, hl⟩ := hslots h hh hne
      exact ⟨i, List.mem_append_left _ hi, hf, hl⟩
    · obtain ⟨f, hf, rfl⟩ := List.mem_map.mp hh
      obtain ⟨i, hi, rfl⟩ := List.mem_map.mp hf
      exact ⟨i, List.mem_append_right _ hi, rfl, hs.fits i (hown i (Or.inl hi))⟩

/-- A sync while no frame with bytes is held keeps the invariant: the frames left show nothing before and after. -/
theorem step_sync (hs : s.Kept) (hn : s.HoldsNothing) {ps : List Bytes} {ring' : RingMem}
    (hk : RxSync s.ring ps ring') : Kept { s with ring := ring' } := by
  have hv := hk.valid hs.valid
  refine ⟨hv, hk.distinct hs.distinct, hk.fits_owned hs.valid hs.fits, ?_, ring'.head, hv.head_lt,
    Circ.between_refl hv.head_lt, ?_⟩
  · intro h hh
    rw [← hs.framesValid h hh, payload_of_len_zero (hn h hh), payload_of_len_zero (hn h hh)]
  · intro h hh hne
    exact absurd (hn h hh) hne

/-- One step of a careful application keeps the invariant. -/
theorem step (hs : s.Kept) (h : CarefulStep s e s') : s'.Kept := by
  obtain ⟨hcare, ht⟩ := h
  cases ht with
  | recvBatch hc => exact hs.step_recvBatch hc
  | release hk =>
    obtain ⟨base, hbase, hbt, hslots⟩ := hs.slots
    exact ⟨hs.valid, hs.distinct, hs.fits, fun h hh => hs.framesValid h (hk.subset hh), base, hbase, hbt,
      fun h hh => hslots h (hk.subset hh)⟩
  | @sync ioctl hk =>
    unfold RxRing.sync
    cases hi : ioctl s.ring with
    | error err => exact hs
    | ok ring' =>
      obtain ⟨ps, hsync⟩ := hk ring' hi
      rcases hcare with ⟨err, he⟩ | hn
      · rw [hi] at he
        nomatch he
      · exact hs.step_sync hn hsync
  | kernel hk => exact hs.step_sync hcare hk

/-- The kernel may put another byte at the start of the buffer of a slot outside the window. -/
theorem exists_overwrite (hs : s.Kept) {i : Nat} (hi : i < s.ring.numSlots) (hout : i ∉ s.ring.owned)
    (hpos : 0 < s.ring.nrBufSize) (b : UInt8) : RxSync s.ring [] (s.ring.store (s.ring.bufPtr i) [b]) := by
  refine ⟨rfl, rfl, rfl, rfl, rfl, rfl, fun _ => rfl, hs.valid.free_lt, (Circ.adv_zero hs.valid.tail_lt).symm, ?_, rfl,
    fun _ hp => by nomatch hp⟩
  intro j hj
  have hjlt : j < s.ring.numSlots := ((Circ.mem_window_iff hs.valid.head_lt).mp hj).1
  have hl := hs.fits j hj
  have hne : j ≠ i := fun he => hout (he ▸ hj)
  have hread : ByteMem.read (ByteMem.write s.ring.mem (s.ring.bufPtr i) [b]) (s.ring.bufPtr j) (s.ring.slot j).len =
      ByteMem.read s.ring.mem (s.ring.bufPtr j) (s.ring.slot j).len := by
    apply ByteMem.read_write_of_disjoint
    rw [List.length_singleton]
    rcases hs.distinct.disjoint hjlt hi hne with h | h
    · left; omega
    · right; omega
  exact ⟨rfl, hread⟩

/-- From a state of the invariant, every sync the kernel may make leaves the frames valid exactly when no frame with bytes
is held. -/
theorem sync_keeps_iff (hs : s.Kept) :
    (∀ ps ring', RxSync s.ring ps ring' → FramesValid { s with ring := ring' }) ↔ s.HoldsNothing := by
  constructor
  · intro hall h hh
    by_contra hne
    obtain ⟨i, hi, hout, hf, hlen, hle⟩ := hs.slot_released hh hne
    have hover := hs.exists_overwrite hi hout (by omega) (s.ring.mem (s.ring.bufPtr i) + 1)
    have hafter := hall _ _ hover h hh
    rw [← hs.framesValid h hh, hf, frameAt_eq hlen] at hafter
    have hbyte := ByteMem.eq_of_read_eq hafter 0 (by simp only; omega)
    simp [store, ByteMem.write] at hbyte
  · intro hn ps ring' hk
    exact (hs.step_sync hn hk).framesValid

end Kept

/-- A ring without frames satisfies the invariant. -/
theorem Start.kept {s : FrameSys} (h : s.Start) : s.Kept := by
  have hnone : ∀ x, x ∉ s.held := by
    intro x hx
    rw [h.held_eq] at hx
    nomatch hx
  exact ⟨h.valid, h.distinct, h.fits, fun x hx => absurd hx (hnone x), s.ring.head, h.valid.head_lt,
    Circ.between_refl h.valid.head_lt, fun x hx => absurd hx (hnone x)⟩

end FrameSys

/-- Over every run in which no sync happens while a frame with bytes is held, every frame held shows in every state what it
showed when it was handed out. From such a state a further sync keeps that up, whatever the kernel does with the slots
outside the window, exactly when no frame with bytes is held; and the slot of a frame with bytes is outside the window. -/
theorem held_frames_valid {s₀ s : FrameSys} {es : List FrameEvent} (h0 : s₀.Start)
    (hr : Lts.Run CarefulStep s₀ es s) :
    s.FramesValid ∧
      ((∀ ps ring', RxSync s.ring ps ring' → FrameSys.FramesValid { s with ring := ring' }) ↔ s.HoldsNothing) ∧
      ∀ h ∈ s.held, h.frame.len ≠ 0 → ∃ i, i ∉ s.ring.owned ∧ h.frame = s.ring.frameAt i := by
  have hs : s.Kept := hr.invariant (fun _ _ _ hs h => hs.step h) h0.kept
  refine ⟨hs.framesValid, hs.sync_keeps_iff, ?_⟩
  intro h hh hne
  obtain ⟨i, _, hout, hf, _⟩ := hs.slot_released hh hne
  exact ⟨i, hout, hf⟩

namespace HeldFramesAux

/-- A ring of two slots in which the packet `[7]` waits. -/
def waiting : RingMem := (fresh 2 64 0 0).deliver [[7]]

/-- The ring after a batch of one has taken `[7]` out of it. -/
def taken : RingMem := waiting.advance 1

/-- The application once it holds the frame that showed `[7]`. -/
def holding : FrameSys := { ring := taken, held := [⟨waiting.frameAt 0, [7]⟩] }

theorem waiting_valid : waiting.Valid := ⟨by decide, by decide, by decide, rfl, by decide⟩

theorem waiting_distinct : waiting.DistinctBufs := by
  unfold DistinctBufs
  decide

theorem waiting_start : FrameSys.Start { ring := waiting, held := [] } :=
  ⟨waiting_valid, waiting_distinct, by decide, rfl⟩

theorem taken_valid : taken.Valid := waiting_valid.advance

theorem taken_distinct : taken.DistinctBufs := waiting_distinct

/-- The batch of one that takes `[7]`. -/
theorem receive : FrameStep { ring := waiting, held := [] } (.recvBatch 1) holding :=
  @FrameStep.recvBatch { ring := waiting, held := [] } [Frame.new Slice.empty] [waiting.frameAt 0] 1 taken rfl

/-- The packet `[8]` arrives in the slot that was never used. -/
theorem arrival : RxSync taken [[8]] (taken.deliver [[8]]) :=
  RxSync.deliver _ _ taken_valid taken_distinct (fun _ hi => by nomatch hi) (by decide) (by decide)

/-- The application when `[8]` has arrived. -/
def full : FrameSys := { ring := taken.deliver [[8]], held := holding.held }

/-- The application once it holds both frames. -/
def both : FrameSys :=
  { ring := full.ring.advance 1,
    held := full.held ++ [⟨full.ring.frameAt 1, (full.ring.frameAt 1).payload full.ring.mem⟩] }

end HeldFramesAux

open HeldFramesAux

/-- `held_frames_valid` at the run that receives a batch of one, lets the frame go, syncs and receives the next packet: its
frame is held and shows `[8]`, until the next sync. -/
theorem held_frames_valid_release_first :
    ∃ es s, Lts.Run CarefulStep { ring := waiting, held := [] } es s ∧ es.length = 4 ∧ s.held.map HeldFrame.seen = [[8]] ∧
      s.FramesValid ∧ ¬∀ ps ring', RxSync s.ring ps ring' → FrameSys.FramesValid { s with ring := ring' } := by
  have h1 : CarefulStep { ring := waiting, held := [] } (.recvBatch 1) holding := ⟨trivial, receive⟩
  have h2 : CarefulStep holding .release { ring := taken, held := [] } :=
    ⟨trivial, FrameStep.release (List.nil_sublist _)⟩
  have h3 : CarefulStep { ring := taken, held := [] } (.kernel [[8]]) { ring := taken.deliver [[8]], held := [] } :=
    ⟨fun _ hh => (nomatch hh), FrameStep.kernel arrival⟩
  have h4 : CarefulStep { ring := taken.deliver [[8]], held := [] } (.recvBatch 1)
      { ring := (taken.deliver [[8]]).advance 1, held := [⟨(taken.deliver [[8]]).frameAt 1, [8]⟩] } :=
    ⟨trivial, @FrameStep.recvBatch { ring := taken.deliver [[8]], held := [] } [Frame.new Slice.empty]
      [(taken.deliver [[8]]).frameAt 1] 1 ((taken.deliver [[8]]).advance 1) rfl⟩
  have hr := Lts.Run.snoc (Lts.Run.snoc (Lts.Run.snoc (Lts.Run.single h1) h2) h3) h4
  obtain ⟨hvalid, hsync, -⟩ := held_frames_valid waiting_start hr
  refine ⟨_, _, hr, rfl, rfl, hvalid, fun hall => ?_⟩
  exact absurd (hsync.mp hall _ List.mem_cons_self) (by decide)

/-- A second batch and a second sync in a ring of two slots, with the first frame held: it showed `[7]` and shows `[9]`. -/
theorem held_frame_overwritten :
    ∃ s₀ es s, FrameSys.Start s₀ ∧ Lts.Run FrameStep s₀ es s ∧
      ∃ h ∈ s.held, h.seen = [7] ∧ h.frame.payload s.ring.mem = [9] := by
  have h2 : FrameStep holding (.kernel [[8]]) full := FrameStep.kernel arrival
  have h3 : FrameStep full (.recvBatch 1) both :=
    @FrameStep.recvBatch full [Frame.new Slice.empty] [full.ring.frameAt 1] 1 (full.ring.advance 1) rfl
  have hv : both.ring.Valid := (arrival.valid taken_valid).advance
  have hd : full.ring.DistinctBufs := arrival.distinct taken_distinct
  have hk : RxSync both.ring [[9]] (both.ring.deliver [[9]]) :=
    RxSync.deliver _ _ hv hd (fun _ hi => by nomatch hi) (by decide) (by decide)
  have h4 : FrameStep both (.kernel [[9]]) { both with ring := both.ring.deliver [[9]] } := FrameStep.kernel hk
  have hr := Lts.Run.snoc (Lts.Run.snoc (Lts.Run.snoc (Lts.Run.single receive) h2) h3) h4
  have hshown : (waiting.frameAt 0).payload (both.ring.deliver [[9]]).mem = [9] := by decide +kernel
  exact ⟨_, _, _, waiting_start, hr, _, List.mem_cons_self, rfl, hshown⟩

end NetHelper
