import NetHelper.RxSystem

/-!
# The kernel's RX sync

What follows from `RxSync`: the ring stays well formed, the window grows by the arrivals, and two syncs in a row are one.
The kernel that only delivers (`RingMem.deliver`) acts as `RxSync` allows, because distinct buffers do not meet
(`RxSync.deliver`).
-/

namespace NetHelper

open Checked RingMem

variable {s t u : RingMem} {ps qs : List Bytes}

namespace RxSync

/-- A kernel RX sync keeps the indices in the ring. -/
theorem indexed (h : s.Indexed) (hk : RxSync s ps t) : t.Indexed := by
  refine ⟨?_, ?_, ?_, ?_⟩
  · rw [hk.numSlots]; exact h.pos
  · rw [hk.numSlots]; exact h.le
  · rw [hk.numSlots, hk.head]; exact h.head_lt
  · rw [hk.numSlots, hk.tail]; exact Circ.adv_lt h.pos

/-- A kernel RX sync leaves a well-formed ring. -/
theorem valid (h : s.Valid) (hk : RxSync s ps t) : t.Valid := by
  have hi := hk.indexed h.indexed
  refine ⟨hi.pos, hi.le, hi.head_lt, ?_, hi.tail_lt⟩
  rw [hk.cur, hk.head]
  exact h.cur_eq

/-- A kernel RX sync leaves every slot its buffer. -/
theorem sameBufs (hk : RxSync s ps t) : SameBufs s t := ⟨hk.addr, hk.bufOfs, hk.numSlots, hk.nrBufSize, hk.bufIdx⟩

theorem distinct (hd : s.DistinctBufs) (hk : RxSync s ps t) : t.DistinctBufs := hk.sameBufs.distinct hd

/-- The window grows by the slots of the arrivals. -/
theorem owned (h : s.Indexed) (hk : RxSync s ps t) :
    t.owned = s.owned ++ Circ.span s.numSlots s.tail ps.length := by
  rw [RingMem.owned, hk.numSlots, hk.head, hk.tail]
  exact Circ.window_extend h.head_lt h.tail_lt hk.room

theorem free (h : s.Indexed) (hk : RxSync s ps t) : t.free = s.free + ps.length := by
  have hlen := congrArg List.length (hk.owned h)
  simpa [RingMem.owned, RingMem.free] using hlen

/-- The arrivals wait behind the packets that waited before. -/
theorem waiting (h : s.Valid) (hk : RxSync s ps t) : t.waiting = s.waiting ++ ps := by
  rw [RingMem.waiting, hk.owned h.indexed, List.map_append, hk.stored]
  congr 1
  apply List.map_congr_left
  intro i hi
  exact (hk.kept i hi).2

/-- Packets that fit their buffers still do. -/
theorem fits_owned (h : s.Valid) (hk : RxSync s ps t) (hf : ∀ i ∈ s.owned, (s.slot i).len ≤ s.nrBufSize) :
    ∀ i ∈ t.owned, (t.slot i).len ≤ t.nrBufSize := by
  intro i hi
  rw [hk.nrBufSize]
  rw [hk.owned h.indexed] at hi
  rcases List.mem_append.mp hi with hi | hi
  · rw [(hk.kept i hi).1]
    exact hf i hi
  · have hp : t.packetAt i ∈ ps := by
      rw [← hk.stored]
      exact List.mem_map_of_mem hi
    have := hk.fits _ hp
    rw [length_packetAt] at this
    omega

/-- A sync at which nothing arrives and nothing is touched. -/
theorem refl (ht : s.tail < s.numSlots) : RxSync s [] s :=
  ⟨rfl, rfl, rfl, rfl, rfl, rfl, fun _ => rfl, Circ.dist_lt (Nat.zero_lt_of_lt ht), (Circ.adv_zero ht).symm,
    fun _ _ => ⟨rfl, rfl⟩, rfl, fun _ hp => by nomatch hp⟩

/-- Two syncs in a row are one. -/
theorem trans (h : s.Indexed) (hk : RxSync s ps t) (hl : RxSync t qs u) : RxSync s (ps ++ qs) u := by
  have hroom := hl.room
  have hown := hk.owned h
  rw [hk.free h, hk.numSlots] at hroom
  refine ⟨hl.addr.trans hk.addr, hl.bufOfs.trans hk.bufOfs, hl.numSlots.trans hk.numSlots,
    hl.nrBufSize.trans hk.nrBufSize, hl.head.trans hk.head, hl.cur.trans hk.cur,
    fun i => (hl.bufIdx i).trans (hk.bufIdx i), ?_, ?_, ?_, ?_, ?_⟩
  · rw [List.length_append]
    omega
  · rw [hl.tail, hk.numSlots, hk.tail, Circ.adv_adv, List.length_append]
  · intro i hi
    have hi' : i ∈ t.owned := by
      rw [hown]
      exact List.mem_append_left _ hi
    exact ⟨(hl.kept i hi').1.trans (hk.kept i hi).1, (hl.kept i hi').2.trans (hk.kept i hi).2⟩
  · rw [List.length_append, Circ.span_add, List.map_append]
    have hfirst : (Circ.span s.numSlots s.tail ps.length).map u.packetAt = ps := by
      conv_rhs => rw [← hk.stored]
      apply List.map_congr_left
      intro i hi
      have hi' : i ∈ t.owned := by
        rw [hown]
        exact List.mem_append_right _ hi
      exact (hl.kept i hi').2
    have hsecond := hl.stored
    rw [hk.numSlots, hk.tail] at hsecond
    rw [hfirst, hsecond]
  · intro p hp
    rcases List.mem_append.mp hp with hp | hp
    · exact hk.fits p hp
    · have := hl.fits p hp
      rwa [hk.nrBufSize] at this

/-- Putting one packet into the slot at `tail` is a sync at which it arrives. -/
theorem single (h : s.Valid) (hd : s.DistinctBufs) (hf : ∀ i ∈ s.owned, (s.slot i).len ≤ s.nrBufSize) {p : Bytes}
    (hroom : s.free + 1 < s.numSlots) (hp : p.length ≤ min s.nrBufSize 65535) :
    RxSync s [p] { s.fill s.tail p with tail := Circ.adv s.numSlots s.tail 1 } := by
  have hne : ∀ i ∈ s.owned, i < s.numSlots ∧ i ≠ s.tail := by
    intro i hi
    obtain ⟨hlt, hdist⟩ := (Circ.mem_window_iff h.head_lt).mp hi
    exact ⟨hlt, fun he => by rw [he] at hdist; omega⟩
  have hbuf : p.length ≤ s.nrBufSize := Nat.le_trans hp (Nat.min_le_left _ _)
  refine ⟨rfl, rfl, rfl, rfl, rfl, rfl, fun i => fill_bufIdx s s.tail i p, hroom, rfl, ?_, ?_, ?_⟩
  · intro i hi
    obtain ⟨hlt, hi'⟩ := hne i hi
    exact ⟨fill_slot_of_ne hi', packetAt_fill_of_ne hd h.tail_lt hlt hi' hbuf (hf i hi)⟩
  · have hself : (s.fill s.tail p).packetAt s.tail = p := packetAt_fill_self (by omega)
    have h0 : Circ.span s.numSlots s.tail 1 = [s.tail] := by
      simp [Circ.span, Circ.adv_zero h.tail_lt]
    rw [List.length_singleton, h0, List.map_singleton]
    exact congrArg (fun q => [q]) hself
  · intro q hq
    rw [List.mem_singleton] at hq
    subst hq
    exact hp

/-- A kernel that delivers packets that fit, while there is room, acts as the sync at which they arrive. -/
theorem deliver : ∀ (ps : List Bytes) (s : RingMem), s.Valid → s.DistinctBufs →
    (∀ i ∈ s.owned, (s.slot i).len ≤ s.nrBufSize) → s.free + ps.length < s.numSlots →
    (∀ p ∈ ps, p.length ≤ min s.nrBufSize 65535) → RxSync s ps (s.deliver ps) := by
  intro ps
  induction ps with
  | nil =>
    intro s h _ _ _ _
    exact refl h.tail_lt
  | cons p ps ih =>
    intro s h hd hf hroom hp
    rw [List.length_cons] at hroom
    have h1 := single h hd hf (by omega) (hp p (by simp))
    have h2 := ih _ (h1.valid h) (h1.distinct hd) (h1.fits_owned h hf)
      (by rw [h1.free h.indexed, h1.numSlots, List.length_singleton]; omega)
      (fun q hq => by rw [h1.nrBufSize]; exact hp q (by simp [hq]))
    exact trans h.indexed h1 h2

end RxSync

end NetHelper
