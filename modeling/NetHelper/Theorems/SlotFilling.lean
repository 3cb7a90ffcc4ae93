import NetHelper.Lemmas.Tx

/-!
# What fits into a slot

A slot has a buffer of `nrBufSize` bytes and a length of sixteen bits. `send` compares the length of a packet with the
buffer only, and `packet` compares it with nothing, so a length past 65535 is stored cut off, and a slice longer than the
buffer reaches into the next one. `slot_filling_iff` says which calls are right; the states are those in which `cur` and
`tail` name slots, whatever `head` is and however large the ring.
-/

namespace NetHelper

open Checked

/-- The `n` bytes from address `a` on lie in the buffer of slot `i`. -/
def RingMem.InBuffer (s : RingMem) (i a n : Nat) : Prop := s.bufPtr i ≤ a ∧ a + n ≤ s.bufPtr i + s.nrBufSize

/-- Two slices have no byte in common. -/
def Slice.Apart (sl sl' : Slice) : Prop := sl.addr + sl.len ≤ sl'.addr ∨ sl'.addr + sl'.len ≤ sl.addr

/-- What sending is to do: report an error and leave the ring as it was, or store the length of the packet in the slot at
`cur` and its bytes in the buffer of that slot. -/
def TxRing.SendFits (s : RingMem) (buf : Bytes) : Prop :=
  (∃ e, send s buf = .ok (.error e, s)) ∨
    ∃ s', send s buf = .ok (.ok (), s') ∧ (s'.slot s.cur).len = buf.length ∧
      s'.mem = ByteMem.write s.mem (s.bufPtr s.cur) buf ∧ s.InBuffer s.cur (s.bufPtr s.cur) buf.length

/-- What asking for a packet is to do: report an error and leave the ring as it was, or store the length in the slot
`index` steps after the start and hand out a slice of that length in the buffer of that slot. -/
def BatchReservation.PacketFits (b : BatchReservation) (s : RingMem) (index len : Nat) : Prop :=
  (∃ e, b.packet s index len = .ok (.error e, s)) ∨
    ∃ sl s', b.packet s index len = .ok (.ok sl, s') ∧ (s'.slot ((b.start + index) % s.numSlots)).len = len ∧
      sl.len = len ∧ s'.InBuffer ((b.start + index) % s.numSlots) sl.addr sl.len

namespace SlotFillingAux

open RingMem

variable {s t : RingMem} {b : BatchReservation} {buf : Bytes} {index len count : Nat}

/-- A length of sixteen bits is stored whole, and only such a length. -/
theorem cast_eq_iff {n : Nat} : cast 16 n = n ↔ n ≤ 65535 := by
  unfold Checked.cast
  omega

/-- When sending does what it is to do. -/
theorem sendFits_iff (h : s.Addressed) :
    TxRing.SendFits s buf ↔ s.nrBufSize < buf.length ∨ s.cur = s.tail ∨ buf.length ≤ 65535 := by
  unfold TxRing.SendFits
  rw [TxRing.send_eq_of_addressed h]
  by_cases hlong : s.nrBufSize < buf.length
  · rw [if_pos hlong]
    exact ⟨fun _ => Or.inl hlong, fun _ => Or.inl ⟨_, rfl⟩⟩
  · rw [if_neg hlong]
    by_cases hfull : s.cur = s.tail
    · rw [if_pos hfull]
      exact ⟨fun _ => Or.inr (Or.inl hfull), fun _ => Or.inl ⟨_, rfl⟩⟩
    · rw [if_neg hfull]
      constructor
      · rintro (⟨e, he⟩ | ⟨s', hs, hlen, -⟩)
        · cases he
        · cases hs
          rw [moveHead_slot, fill_slot_self, cast_eq_iff] at hlen
          exact Or.inr (Or.inr hlen)
      · intro hc
        have hlen : buf.length ≤ 65535 := by omega
        refine Or.inr ⟨_, rfl, ?_, rfl, Nat.le_refl _, by omega⟩
        rw [moveHead_slot, fill_slot_self, cast_eq_iff]
        exact hlen

/-- When asking for a packet does what it is to do. -/
theorem packetFits_iff (hn : s.numSlots < 2 ^ 32) (hb : b.count < s.numSlots) : b.PacketFits s index len ↔
    b.count ≤ index ∨ (b.start + index < 2 ^ 32 ∧ len ≤ s.nrBufSize ∧ len ≤ 65535) := by
  unfold BatchReservation.PacketFits
  rw [BatchReservation.packet_eq_of_lt hn hb]
  by_cases hi : b.count ≤ index
  · rw [if_pos hi]
    exact ⟨fun _ => Or.inl hi, fun _ => Or.inl ⟨_, rfl⟩⟩
  · rw [if_neg hi]
    by_cases hov : b.start + index < 2 ^ 32
    · rw [if_pos hov]
      have hself : ((s.setLen ((b.start + index) % s.numSlots) (cast 16 len)).slot
          ((b.start + index) % s.numSlots)).len = cast 16 len := by
        simp [setLen]
      constructor
      · rintro (⟨e, he⟩ | ⟨sl, s', hs, hlen, -, -, hend⟩)
        · cases he
        · cases hs
          rw [hself, cast_eq_iff] at hlen
          rw [setLen_bufPtr, setLen_nrBufSize] at hend
          simp only at hend
          exact Or.inr ⟨hov, by omega, hlen⟩
      · intro hc
        have hlen : len ≤ s.nrBufSize ∧ len ≤ 65535 := by omega
        refine Or.inr ⟨_, _, rfl, ?_, rfl, ?_, ?_⟩
        · rw [hself, cast_eq_iff]
          exact hlen.2
        · rw [setLen_bufPtr]
        · rw [setLen_bufPtr, setLen_nrBufSize]
          simp only
          omega
    · rw [if_neg hov]
      constructor
      · rintro (⟨e, he⟩ | ⟨sl, s', hs, -⟩)
        · cases he
        · cases hs
      · intro hc
        omega

/-- The slice of a packet that was handed out begins where the buffer of its slot does. -/
theorem packet_ok (hn : s.numSlots < 2 ^ 32) (hb : b.count < s.numSlots) {sl : Slice} {s' : RingMem}
    (hc : b.packet s index len = .ok (.ok sl, s')) :
    index < b.count ∧ sl.addr = s.bufPtr ((b.start + index) % s.numSlots) ∧ sl.len = len := by
  rw [BatchReservation.packet_eq_of_lt hn hb] at hc
  split at hc
  · cases hc
  · split at hc
    · cases hc
      exact ⟨by omega, rfl, rfl⟩
    · cases hc

/-- The slices of two indices of a reservation have no byte in common when neither is longer than a buffer. -/
theorem slices_apart (hn : s.numSlots < 2 ^ 32) (hd : s.DistinctBufs) (hst : b.start < s.numSlots)
    (hb : b.count < s.numSlots) (ht : SameBufs s t) {index' len' : Nat} {sl sl' : Slice} {s' t' : RingMem}
    (hne : index ≠ index') (hc : b.packet s index len = .ok (.ok sl, s'))
    (hc' : b.packet t index' len' = .ok (.ok sl', t')) (hl : len ≤ s.nrBufSize) (hl' : len' ≤ s.nrBufSize) :
    sl.Apart sl' := by
  obtain ⟨hi, ha, hlen⟩ := packet_ok hn hb hc
  obtain ⟨hi', ha', hlen'⟩ := packet_ok (by rw [ht.numSlots]; exact hn) (by rw [ht.numSlots]; exact hb) hc'
  rw [ht.numSlots, ht.bufPtr] at ha'
  have hpos : 0 < s.numSlots := by omega
  have hslots : (b.start + index) % s.numSlots ≠ (b.start + index') % s.numSlots := by
    intro he
    exact hne (Circ.adv_inj hst (by omega) (by omega) he)
  unfold Slice.Apart
  rw [ha, ha', hlen, hlen']
  rcases hd.disjoint (Nat.mod_lt _ hpos) (Nat.mod_lt _ hpos) hslots with h | h
  · left
    omega
  · right
    omega

end SlotFillingAux

open SlotFillingAux

/-- Sending keeps to its slot exactly when the packet is too long for the buffer, or the ring is full, or the length has
sixteen bits. Asking for a packet of a reservation of everything, in any later state of the ring, keeps to its slot exactly
when the index is past the reservation, or the sum of start and index is a u32 and the length has sixteen bits and fits the
buffer. The slices of two indices have no byte in common when both lengths fit the buffer. -/
theorem slot_filling_iff {s₀ s : RingMem} (h₀ : s₀.Addressed) (h : s.Addressed) (hs : RingMem.SameBufs s₀ s)
    (hd : s.DistinctBufs) :
    (∀ buf, TxRing.SendFits s buf ↔ s.nrBufSize < buf.length ∨ s.cur = s.tail ∨ buf.length ≤ 65535) ∧
      ∀ b count, TxRing.reserveAll s₀ = .ok (.ok (b, count)) →
        (∀ index len, b.PacketFits s index len ↔
          b.count ≤ index ∨ (b.start + index < 2 ^ 32 ∧ len ≤ s.nrBufSize ∧ len ≤ 65535)) ∧
        ∀ t, RingMem.SameBufs s t → ∀ index index' len len' sl sl' s' t', index ≠ index' →
          b.packet s index len = .ok (.ok sl, s') → b.packet t index' len' = .ok (.ok sl', t') →
          len ≤ s.nrBufSize → len' ≤ s.nrBufSize → sl.Apart sl' := by
  refine ⟨fun buf => sendFits_iff h, ?_⟩
  intro b count hc
  obtain ⟨hstart, -, -, hcount⟩ := TxRing.reserveAll_ok h₀ hc
  have hcur := h₀.cur_lt
  rw [← hs.numSlots] at hcount hcur
  refine ⟨fun index len => packetFits_iff h.numSlots_lt hcount, ?_⟩
  intro t ht index index' len len' sl sl' s' t' hne hp hp' hl hl'
  exact slices_apart h.numSlots_lt hd (by rw [hstart]; exact hcur) hcount ht hne hp hp' hl hl'

/-- `slot_filling_iff` at a ring of buffers of 64 bytes: a packet as long as the buffer keeps to its slot. -/
theorem slot_filling_whole_buffer :
    BatchReservation.PacketFits { start := 0, count := 3 } (RingMem.fresh 4 64 0 3) 1 64 := by
  have h : (RingMem.fresh 4 64 0 3).Addressed := RingMem.fresh_addressed (by decide) (by decide) (by decide)
  have hall := (slot_filling_iff h h (RingMem.SameBufs.refl _) (RingMem.fresh_distinct 4 64 0 3)).2
    { start := 0, count := 3 } 3 rfl
  exact (hall.1 1 64).mpr (Or.inr (by decide))

/-- Slots are filled past their end. On a ring with buffers of 64 bytes a packet of 65 bytes is handed out, and its slice
meets the slice of the packet after it. On a ring with buffers of 65536 bytes a packet as long as the buffer is sent with the
length 0. -/
theorem packet_past_buffer :
    (∃ s b count sl sl' s' s'', s.Addressed ∧ s.DistinctBufs ∧ TxRing.reserveAll s = .ok (.ok (b, count)) ∧
        ¬b.PacketFits s 0 65 ∧ b.packet s 0 65 = .ok (.ok sl, s') ∧ b.packet s' 1 64 = .ok (.ok sl', s'') ∧
        ¬sl.Apart sl') ∧
      ∃ s buf, s.Addressed ∧ s.DistinctBufs ∧ ¬TxRing.SendFits s buf := by
  have hsmall : (RingMem.fresh 4 64 0 3).Addressed := RingMem.fresh_addressed (by decide) (by decide) (by decide)
  have hlarge : (RingMem.fresh 4 65536 0 3).Addressed := RingMem.fresh_addressed (by decide) (by decide) (by decide)
  refine ⟨⟨RingMem.fresh 4 64 0 3, _, _, _, _, _, _, hsmall, RingMem.fresh_distinct 4 64 0 3, rfl, ?_, rfl, rfl, ?_⟩,
    RingMem.fresh 4 65536 0 3, List.replicate 65536 0, hlarge, RingMem.fresh_distinct 4 65536 0 3, ?_⟩
  · rw [packetFits_iff (by decide) (by decide)]
    decide
  · unfold Slice.Apart
    decide
  · rw [sendFits_iff hlarge, List.length_replicate]
    decide

end NetHelper
