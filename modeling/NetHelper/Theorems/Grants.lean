import NetHelper.Lemmas.Tx

/-!
# What a reservation of everything grants

`reserveAll` grants the window from `cur` up to `tail`, neither more nor less: the indices of the reservation stand for the
slots of the window one for one, and committing leads to `tail` exactly when all of them are committed. The u32 arithmetic
on the way never leaves its type.
-/

namespace NetHelper

open Checked RingMem

/-- A reservation stands for the window of a ring. Packets are asked for and the batch is committed in any later state of
the ring in which the indices have not moved. -/
structure BatchReservation.StandsFor (b : BatchReservation) (count : Nat) (s : RingMem) : Prop where
  start_eq : b.start = s.cur
  count_eq : b.count = count
  size : (count : Int) = ((s.tail : Int) - s.cur) % s.numSlots
  size_le : count ≤ s.numSlots - 1
  slots : Set.BijOn (fun index => (b.start + index) % s.numSlots) (Set.Iio count)
    {i | i ∈ Circ.window s.numSlots s.cur s.tail}
  tail : ∀ index < count, (b.start + index) % s.numSlots ≠ s.tail
  packet : ∀ t : RingMem, t.numSlots = s.numSlots → ∀ index < count, ∀ len,
    b.packet t index len =
      .ok (.ok { addr := t.bufPtr ((b.start + index) % s.numSlots), len := len },
        t.setLen ((b.start + index) % s.numSlots) (cast 16 len))
  commit : ∀ t : RingMem, t.numSlots = s.numSlots → t.head = s.head → t.cur = s.cur → ∀ written,
    ∃ t', b.commit t written = .ok t' ∧ t'.head = (s.cur + min written count) % s.numSlots ∧ t'.cur = t'.head ∧
      (t'.head = s.tail ↔ min written count = count)

/-- The sums and differences of u32 values on the way stay in their type, and the casts from usize lose nothing. -/
structure BatchReservation.StaysInU32 (b : BatchReservation) (count : Nat) (s : RingMem) : Prop where
  ahead : s.cur ≤ s.tail ∨ (s.tail + s.numSlots < 2 ^ 32 ∧ s.cur ≤ s.tail + s.numSlots)
  index : ∀ index < count, cast 32 index = index ∧ b.start + index < 2 ^ 32
  written : ∀ written, cast 32 (min written count) = min written count ∧ b.start + min written count < 2 ^ 32

namespace GrantsAux

variable {s : RingMem}

/-- The size of the window is the difference of the indices modulo the size of the ring. -/
theorem free_eq_emod (h : s.Valid) : (s.free : Int) = ((s.tail : Int) - s.head) % s.numSlots := by
  have hh := h.head_lt
  have e : ((s.tail : Int) - s.head) % s.numSlots = (((s.tail + (s.numSlots - s.head) : Nat) : Int)) % s.numSlots := by
    have : ((s.tail + (s.numSlots - s.head) : Nat) : Int) = (s.tail : Int) - s.head + s.numSlots := by omega
    rw [this, Int.add_emod_right]
  rw [e]
  rfl

/-- The slots of the window are not the one at `tail`. -/
theorem adv_ne_tail (h : s.Valid) {index : Nat} (hi : index < s.free) : Circ.adv s.numSlots s.head index ≠ s.tail := by
  intro he
  have hd := Circ.dist_adv h.head_lt (Nat.lt_trans hi h.free_lt)
  rw [he] at hd
  unfold free at hi
  omega

/-- Steps up to the size of the window reach `tail` exactly when they are as many. -/
theorem adv_eq_tail_iff (h : s.Valid) {k : Nat} (hk : k ≤ s.free) :
    Circ.adv s.numSlots s.head k = s.tail ↔ k = s.free := by
  constructor
  · intro he
    have hd := Circ.dist_adv h.head_lt (Nat.lt_of_le_of_lt hk h.free_lt)
    rw [he] at hd
    exact hd.symm
  · rintro rfl
    exact Circ.adv_dist h.head_lt h.tail_lt

/-- The reservation of everything stands for the window. -/
theorem standsFor (h : s.Valid) : BatchReservation.StandsFor { start := s.head, count := s.free } s.free s := by
  have hlt := h.free_lt
  have hfits : ∀ t : RingMem, t.numSlots = s.numSlots →
      BatchReservation.Fits { start := s.head, count := s.free } t ∧ t.numSlots ≤ 2 ^ 31 := by
    intro t ht
    rw [ht]
    exact ⟨⟨by rw [ht]; exact h.head_lt, by rw [ht]; exact Nat.le_of_lt hlt⟩, h.le⟩
  refine ⟨h.cur_eq.symm, rfl, ?_, by omega, ?_, fun index hi => adv_ne_tail h hi, ?_, ?_⟩
  · rw [h.cur_eq]
    exact free_eq_emod h
  · rw [h.cur_eq]
    exact Circ.bijOn_window h.head_lt
  · intro t ht index hi len
    obtain ⟨hf, hle⟩ := hfits t ht
    rw [BatchReservation.packet_eq hf hle, if_neg (by simp only; omega), ht]
    rfl
  · intro t ht hhead hcur written
    obtain ⟨hf, hle⟩ := hfits t ht
    have hmin : min written s.free ≤ s.free := Nat.min_le_right _ _
    have htail := adv_eq_tail_iff h hmin
    refine ⟨_, BatchReservation.commit_eq hf hle written, ?_⟩
    rw [h.cur_eq]
    dsimp only
    split
    · rename_i h0
      rw [h0, Circ.adv_zero h.head_lt] at htail
      rw [h0, hhead, hcur, h.cur_eq]
      exact ⟨(Circ.adv_zero h.head_lt).symm, rfl, htail⟩
    · rw [ht]
      exact ⟨rfl, rfl, htail⟩

/-- The arithmetic of the reservation of everything stays in u32. -/
theorem staysInU32 (h : s.Valid) : BatchReservation.StaysInU32 { start := s.head, count := s.free } s.free s := by
  have hlt := h.free_lt
  have hh := h.head_lt
  have ht := h.tail_lt
  have hle := h.le
  have hcur := h.cur_eq
  refine ⟨by omega, ?_, ?_⟩
  · intro index hi
    exact ⟨cast_of_lt (by omega), by simp only; omega⟩
  · intro written
    exact ⟨cast_of_lt (by omega), by simp only; omega⟩

end GrantsAux

open GrantsAux

/-- Reserving everything reports an error exactly when `cur` is at `tail`, and otherwise grants the window, without
overflow. -/
theorem reserveAll_grants_window (s : RingMem) (h : s.Valid) :
    ((∃ e, TxRing.reserveAll s = .ok (.error e)) ↔ s.cur = s.tail) ∧
      (s.cur ≠ s.tail → ∃ b count, TxRing.reserveAll s = .ok (.ok (b, count)) ∧ b.StandsFor count s ∧
        b.StaysInU32 count s) := by
  have hzero := h.free_eq_zero
  rw [TxRing.reserveAll_eq h, h.cur_eq, ← hzero]
  refine ⟨?_, ?_⟩
  · constructor
    · rintro ⟨e, he⟩
      split at he
      · assumption
      · nomatch he
    · intro h0
      exact ⟨_, by rw [if_pos h0]⟩
  · intro hne
    exact ⟨_, _, by rw [if_neg (mt hzero.mp hne)], standsFor h, staysInU32 h⟩

/-- `reserveAll_grants_window` at a ring whose window wraps around: three slots from 2 on are granted. -/
theorem reserveAll_grants_window_wrapped :
    ∃ b count, TxRing.reserveAll (fresh 4 64 2 1) = .ok (.ok (b, count)) ∧ b.StandsFor count (fresh 4 64 2 1) := by
  have hv : (fresh 4 64 2 1).Valid := fresh_valid (by decide) (by decide) (by decide)
  obtain ⟨b, count, hc, hs, _⟩ := (reserveAll_grants_window (fresh 4 64 2 1) hv).2 (by decide)
  exact ⟨b, count, hc, hs⟩

end NetHelper
