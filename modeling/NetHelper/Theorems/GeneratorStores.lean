import NetHelper.Lemmas.Fill

/-!
# Where the generator stores

The loop asks for slices of 64 bytes and stores 256 bytes at each, so every entry that is stored at all is stored past its
slice (`stores_inside_iff`). What comes of it is decided by the order of the buffers: a packet is lost when its buffer begins
behind that of a later entry, and a slot that was not granted is overwritten when its buffer begins behind that of an entry.
-/

namespace NetHelper

open Mm512 Generator RingMem

/-- Every byte of the second slice is one of the first. -/
def Slice.Covers (sl sl' : Slice) : Prop := sl.addr ≤ sl'.addr ∧ sl'.addr + sl'.len ≤ sl.addr + sl.len

/-- The buffer of slot `j` begins among the 256 bytes stored at the buffer of slot `i`, but not with them. -/
def RingMem.Behind (s : RingMem) (i j : Nat) : Prop := s.bufPtr i < s.bufPtr j ∧ s.bufPtr j < s.bufPtr i + 256

namespace Generator

/-- Filling a batch from the packet `v` on has left in the slot of each entry the packet of that entry. -/
def PacketsKept (b : BatchReservation) (s : RingMem) (v : Zmm) : Prop :=
  ∀ f, fillLoop b b.count 0 (Filling.start s v) = .ok f →
    ∀ z < b.count, f.ring.packetAt (entrySlot b s.numSlots z) = bytes (packetAfter v z)

/-- Filling a batch has changed no byte of the buffers of the other slots. -/
def OthersKept (b : BatchReservation) (s : RingMem) (v : Zmm) : Prop :=
  ∀ f, fillLoop b b.count 0 (Filling.start s v) = .ok f →
    ∀ j < s.numSlots, (∀ z < b.count, entrySlot b s.numSlots z ≠ j) → f.ring.buffer j = s.buffer j

/-- Filling a batch stays inside the packets: every store, in as many entries as are filled, is to the slice handed out for
the entry, and so the packets are kept, and the other slots. -/
structure StoresInside (b : BatchReservation) (s : RingMem) (v : Zmm) : Prop where
  inside : ∀ k ≤ b.count, ∀ f, fillLoop b k 0 (Filling.start s v) = .ok f → ∀ p ∈ f.stored, p.1.Covers p.2
  packets : PacketsKept b s v
  others : OthersKept b s v

end Generator

namespace GeneratorStoresAux

variable {s : RingMem} {b : BatchReservation} {v : Zmm} {i j : Nat}

/-- A buffer that does not begin behind another one does not meet what is stored at it. -/
theorem apart_of_not_behind (hd : s.DistinctBufs) (hsize : 64 ≤ s.nrBufSize) (hi : i < s.numSlots) (hj : j < s.numSlots)
    (hne : i ≠ j) (hbehind : ¬s.Behind i j) :
    s.bufPtr i + 256 ≤ s.bufPtr j ∨ s.bufPtr j + s.nrBufSize ≤ s.bufPtr i := by
  unfold Behind at hbehind
  rcases hd.disjoint hi hj hne with h | h
  · left
    omega
  · right
    exact h

theorem entrySlot_lt (hb : b.count < s.numSlots) (z : Nat) : entrySlot b s.numSlots z < s.numSlots := Circ.adv_lt (by omega)

/-- Different entries of a batch have different slots. -/
theorem entrySlot_inj (hst : b.start < s.numSlots) (hb : b.count < s.numSlots) {y z : Nat} (hy : y < b.count)
    (hz : z < b.count) (h : entrySlot b s.numSlots y = entrySlot b s.numSlots z) : y = z :=
  Circ.adv_inj hst (by omega) (by omega) h

/-- The packets are kept when no entry's buffer begins behind that of a later entry. -/
theorem packets_kept (hn : s.numSlots < 2 ^ 32) (hst : b.start < s.numSlots) (hb : b.count < s.numSlots)
    (hd : s.DistinctBufs) (hsize : 64 ≤ s.nrBufSize)
    (hbehind : ∀ z < b.count, ∀ y < z, ¬s.Behind (entrySlot b s.numSlots z) (entrySlot b s.numSlots y)) :
    PacketsKept b s v := by
  intro f hc z hz
  -- the packets of the entries so far are in their slots
  have h := fillLoop_rule (P := fun z f => f.After s v z ∧
    ∀ y < z, f.ring.packetAt (entrySlot b s.numSlots y) = bytes (packetAfter v y)) ?_ (by omega) hc
    ⟨Filling.after_start, fun y hy => by omega⟩
  · exact h.2 z (by omega)
  · rintro z f f' hz ⟨hf, hprev⟩ he
    obtain ⟨-, rfl, hf'⟩ := hf.step hn hb hz he
    refine ⟨hf', ?_⟩
    intro y hy
    rcases Nat.lt_succ_iff_lt_or_eq.mp hy with hlt | rfl
    · have hne : entrySlot b s.numSlots z ≠ entrySlot b s.numSlots y := by
        intro heq
        have := entrySlot_inj hst hb hz (by omega) heq
        omega
      have hlen : (f.ring.slot (entrySlot b s.numSlots y)).len = 64 := by
        rw [← length_packetAt, hprev y hlt, length_bytes]
      have hapart := apart_of_not_behind hd hsize (entrySlot_lt hb z) (entrySlot_lt hb y) hne (hbehind z hz y hlt)
      rw [← hprev y hlt]
      apply packetAt_putEntry_of_apart (Ne.symm hne)
      rw [hf.bufs.bufPtr, hf.bufs.bufPtr, hlen]
      omega
    · rw [← hf.current]
      exact packetAt_putEntry_self

/-- The other slots are kept when none of their buffers begins behind that of an entry. -/
theorem others_kept (hn : s.numSlots < 2 ^ 32) (hb : b.count < s.numSlots) (hd : s.DistinctBufs) (hsize : 64 ≤ s.nrBufSize)
    (hbehind : ∀ z < b.count, ∀ j < s.numSlots, (∀ y < b.count, entrySlot b s.numSlots y ≠ j) →
      ¬s.Behind (entrySlot b s.numSlots z) j) : OthersKept b s v := by
  intro f hc j hj hother
  have h := fillLoop_rule (P := fun z f => f.After s v z ∧ f.ring.buffer j = s.buffer j) ?_ (by omega) hc
    ⟨Filling.after_start, rfl⟩
  · exact h.2
  · rintro z f f' hz ⟨hf, hprev⟩ he
    obtain ⟨-, rfl, hf'⟩ := hf.step hn hb hz he
    refine ⟨hf', ?_⟩
    have hapart := apart_of_not_behind hd hsize (entrySlot_lt hb z) hj (hother z hz) (hbehind z hz j hj hother)
    rw [← hprev]
    apply buffer_putEntry_of_apart
    rw [hf.bufs.bufPtr, hf.bufs.bufPtr, hf.bufs.nrBufSize]
    exact hapart

/-- The second store of an entry is not to its slice. -/
theorem entryStores_past (a : Nat) : ∃ p ∈ entryStores a, ¬p.1.Covers p.2 := by
  refine ⟨_, List.mem_cons_of_mem _ (List.mem_cons_self ..), ?_⟩
  unfold Slice.Covers
  dsimp only
  omega

/-- Stores stay inside the packets only when the first of them stops the program. -/
theorem storesInside_iff (hn : s.numSlots < 2 ^ 32) (hst : b.start < s.numSlots) (hpos : 0 < b.count)
    (hb : b.count < s.numSlots) : StoresInside b s v ↔ s.bufPtr b.start % 64 ≠ 0 := by
  have hslot : entrySlot b s.numSlots 0 = b.start := Circ.adv_zero hst
  have hfirst : fillEntry b (Filling.start s v) 0 =
      if s.bufPtr b.start % 64 = 0 then .ok ((Filling.start s v).put b.start)
      else .error (.misaligned (s.bufPtr b.start)) := by
    have h := fillEntry_eq (b := b) (f := Filling.start s v) hn hb hpos
    rw [if_pos (by omega)] at h
    change fillEntry b (Filling.start s v) 0 =
      if s.bufPtr (entrySlot b s.numSlots 0) % 64 = 0 then .ok ((Filling.start s v).put (entrySlot b s.numSlots 0))
      else .error (.misaligned (s.bufPtr (entrySlot b s.numSlots 0))) at h
    rwa [hslot] at h
  constructor
  · intro h ha
    rw [if_pos ha] at hfirst
    obtain ⟨p, hp, hpast⟩ := entryStores_past (s.bufPtr b.start)
    have hone : fillLoop b 1 0 (Filling.start s v) = .ok ((Filling.start s v).put b.start) := by
      rw [fillLoop, hfirst]
      rfl
    exact hpast (h.inside 1 hpos _ hone p hp)
  · intro ha
    rw [if_neg ha] at hfirst
    have hstop : ∀ k f, 0 < k → fillLoop b k 0 (Filling.start s v) ≠ .ok f := by
      intro k f hk hc
      obtain ⟨k, rfl⟩ := Nat.exists_eq_succ_of_ne_zero (by omega : k ≠ 0)
      rw [fillLoop, hfirst] at hc
      cases hc
    refine ⟨?_, fun f hc => absurd hc (hstop _ _ hpos), fun f hc => absurd hc (hstop _ _ hpos)⟩
    intro k _ f hc p hp
    rcases Nat.eq_zero_or_pos k with rfl | hk
    · cases hc
      exact absurd hp List.not_mem_nil
    · exact absurd hc (hstop k f hk)

end GeneratorStoresAux

open GeneratorStoresAux

/-- Filling a reservation of everything stays inside the packets exactly when nothing is stored, because the buffer of the
first slot does not begin at a multiple of 64. The packets are kept when no entry's buffer begins behind that of a later
entry, and the other slots when none of their buffers begins behind that of an entry. -/
theorem stores_inside_iff {s : RingMem} {b : BatchReservation} {count : Nat} (h : s.Addressed) (hd : s.DistinctBufs)
    (hsize : 64 ≤ s.nrBufSize) (hc : TxRing.reserveAll s = .ok (.ok (b, count))) (v : Zmm) :
    (StoresInside b s v ↔ s.bufPtr s.cur % 64 ≠ 0) ∧
      ((∀ z < b.count, ∀ y < z, ¬s.Behind (entrySlot b s.numSlots z) (entrySlot b s.numSlots y)) → PacketsKept b s v) ∧
      ((∀ z < b.count, ∀ j < s.numSlots, (∀ y < b.count, entrySlot b s.numSlots y ≠ j) →
        ¬s.Behind (entrySlot b s.numSlots z) j) → OthersKept b s v) := by
  obtain ⟨hstart, hcount, hpos, hb⟩ := TxRing.reserveAll_ok h hc
  have hst : b.start < s.numSlots := by
    rw [hstart]
    exact h.cur_lt
  refine ⟨?_, packets_kept h.numSlots_lt hst hb hd hsize, others_kept h.numSlots_lt hb hd hsize⟩
  rw [storesInside_iff h.numSlots_lt hst (by omega) hb, hstart]

/-- `stores_inside_iff` at a ring whose first free slot has a buffer that does not begin at a multiple of 64, and at one with
buffers of 64 bytes, one after another: each packet is stored after those that overwrote its buffer. -/
theorem stores_inside_ascending : StoresInside { start := 1, count := 2 } (fresh 4 100 1 3) templateZmm ∧
    PacketsKept { start := 0, count := 3 } (fresh 4 64 0 3) templateZmm := by
  have h100 : (fresh 4 100 1 3).Addressed := fresh_addressed (by decide) (by decide) (by decide)
  have h64 : (fresh 4 64 0 3).Addressed := fresh_addressed (by decide) (by decide) (by decide)
  refine ⟨(stores_inside_iff h100 (fresh_distinct 4 100 1 3) (by decide) rfl templateZmm).1.mpr (by decide),
    (stores_inside_iff h64 (fresh_distinct 4 64 0 3) (Nat.le_refl 64) rfl templateZmm).2.1 ?_⟩
  unfold Behind
  decide

/-- The generator stores past its packets. On a ring with buffers of 64 bytes it is handed a slice of 64 bytes and stores 256
there, and the buffer of the slot that was not granted to it is overwritten. -/
theorem stores_past_packet : ∃ s b count, s.Addressed ∧ s.DistinctBufs ∧ 64 ≤ s.nrBufSize ∧
    TxRing.reserveAll s = .ok (.ok (b, count)) ∧ ¬StoresInside b s templateZmm ∧ ¬OthersKept b s templateZmm := by
  have h : (fresh 4 64 0 3).Addressed := fresh_addressed (by decide) (by decide) (by decide)
  refine ⟨fresh 4 64 0 3, { start := 0, count := 3 }, 3, h, fresh_distinct 4 64 0 3, Nat.le_refl 64, rfl, ?_, ?_⟩
  · rw [storesInside_iff (by decide) (by decide) (by decide) (by decide)]
    decide
  · intro h
    have hbuf := ByteMem.eq_of_read_eq (h _ rfl 3 (by decide) (by decide)) 0 (by decide)
    -- the third entry has stored its first register of payload there
    exact absurd hbuf (by decide)

end NetHelper
