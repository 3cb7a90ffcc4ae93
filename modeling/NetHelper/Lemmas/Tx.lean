import NetHelper.Window

/-!
# What the TX functions compute

One equation for each function of `TxRing` and `BatchReservation`, on the states the kernel hands out: the call returns, and
its result is stated through `free`, `fill` and `advance`. No proof after this file looks into the functions.
-/

namespace NetHelper

open Checked RingMem

namespace TxRing

variable {s : RingMem} {buf : Bytes}

/-- The step of `send` past a slot is one step on the circle. -/
theorem next_eq_adv (h : s.Valid) :
    (if s.head + 1 ≥ s.numSlots then 0 else s.head + 1) = Circ.adv s.numSlots s.head 1 := by
  rw [Circ.adv_one h.head_lt]

/-- Sending on a ring of any size: too long a packet and a full ring are reported and change nothing; otherwise the packet is
put into the slot at `cur`, and `head` and `cur` go to the slot after it. -/
theorem send_eq_of_addressed (h : s.Addressed) : send s buf =
    .ok (if s.nrBufSize < buf.length then (.error (.packetTooLarge buf.length), s)
      else if s.cur = s.tail then (.error .insufficientSpace, s)
      else (.ok (), (s.fill s.cur buf).moveHead (if s.cur + 1 ≥ s.numSlots then 0 else s.cur + 1))) := by
  have hcur := h.cur_lt
  have hlt := h.numSlots_lt
  unfold send maxPayloadSize
  split
  · rfl
  · split
    · rfl
    · rw [add_of_lt (by omega)]
      rfl

/-- Sending: too long a packet and a full ring are reported and change nothing; otherwise the packet is put into the slot at
`head` and `head` moves on by one. -/
theorem send_eq (h : s.Valid) : send s buf =
    .ok (if s.nrBufSize < buf.length then (.error (.packetTooLarge buf.length), s)
      else if s.free = 0 then (.error .insufficientSpace, s)
      else (.ok (), (s.fill s.head buf).advance 1)) := by
  rw [send_eq_of_addressed h.addressed, h.cur_eq, next_eq_adv h]
  simp only [h.free_eq_zero]
  rfl

/-- The packet of a call that succeeds is in the slot at `head`, and `head` is one further. -/
theorem send_ok (h : s.Valid) (hb : buf.length ≤ s.nrBufSize) (hf : 0 < s.free) :
    send s buf = .ok (.ok (), (s.fill s.head buf).advance 1) := by
  rw [send_eq h, if_neg (by omega), if_neg (by omega)]

/-- On a full ring no packet that fits is sent. -/
theorem send_full (h : s.Valid) (hb : buf.length ≤ s.nrBufSize) (hf : s.free = 0) :
    send s buf = .ok (.error .insufficientSpace, s) := by
  rw [send_eq h, if_neg (by omega), if_pos hf]

/-- What a call of `send` can have done. -/
theorem send_cases (h : s.Valid) {res : Except Error Unit} {s' : RingMem} (hc : send s buf = .ok (res, s')) :
    (∃ e, res = .error e ∧ s' = s) ∨
      (res = .ok () ∧ buf.length ≤ s.nrBufSize ∧ 0 < s.free ∧ s' = (s.fill s.head buf).advance 1) := by
  rw [send_eq h] at hc
  split at hc
  · left
    cases hc
    exact ⟨_, rfl, rfl⟩
  · rename_i hlen
    split at hc
    · left
      cases hc
      exact ⟨_, rfl, rfl⟩
    · rename_i hf
      right
      cases hc
      exact ⟨rfl, by omega, by omega, rfl⟩

/-- Reserving everything on a ring of any size: the slots from `cur` up to `tail`, unless there are none. Past zero, the sum
of `tail` and the number of slots must be a u32. -/
theorem reserveAll_eq_of_addressed (h : s.Addressed) : reserveAll s =
    if s.cur ≤ s.tail ∨ s.tail + s.numSlots < 2 ^ 32 then
      .ok (if Circ.dist s.numSlots s.cur s.tail = 0 then .error .insufficientSpace
        else .ok ({ start := s.cur, count := Circ.dist s.numSlots s.cur s.tail }, Circ.dist s.numSlots s.cur s.tail))
    else .error .overflow := by
  have hcur := h.cur_lt
  have htail := h.tail_lt
  have hdist : (if s.tail ≥ s.cur then sub s.tail s.cur
      else (do let past ← add 32 s.tail s.numSlots; sub past s.cur)) =
      if s.cur ≤ s.tail ∨ s.tail + s.numSlots < 2 ^ 32 then .ok (Circ.dist s.numSlots s.cur s.tail)
      else .error .overflow := by
    rw [Circ.dist_eq hcur htail]
    by_cases hle : s.cur ≤ s.tail
    · rw [if_pos hle, if_pos (Or.inl hle), if_pos hle, sub_of_le hle]
    · rw [if_neg hle, if_neg hle]
      by_cases hov : s.tail + s.numSlots < 2 ^ 32
      · rw [add_of_lt hov, ok_bind, sub_of_le (by omega), if_pos (Or.inr hov)]
      · rw [add, if_neg hov, error_bind, if_neg (by omega)]
  unfold reserveAll
  rw [hdist]
  split
  · rw [ok_bind]
    split <;> rfl
  · rfl

/-- Reserving everything: the whole window, unless it is empty. -/
theorem reserveAll_eq (h : s.Valid) : reserveAll s =
    .ok (if s.free = 0 then .error .insufficientSpace else .ok ({ start := s.head, count := s.free }, s.free)) := by
  have ht := h.tail_lt
  have hle := h.le
  rw [reserveAll_eq_of_addressed h.addressed, if_pos (by omega), h.cur_eq]
  rfl

/-- What a call of `reserveAll` that returned gave, on a ring of any size. -/
theorem reserveAll_cases_of_addressed {res : Except Error (BatchReservation × Nat)} (h : s.Addressed)
    (hc : reserveAll s = .ok res) :
    (Circ.dist s.numSlots s.cur s.tail = 0 ∧ res = .error .insufficientSpace) ∨
      (0 < Circ.dist s.numSlots s.cur s.tail ∧
        res = .ok ({ start := s.cur, count := Circ.dist s.numSlots s.cur s.tail }, Circ.dist s.numSlots s.cur s.tail)) := by
  rw [reserveAll_eq_of_addressed h] at hc
  split at hc
  · split at hc
    · left
      cases hc
      exact ⟨‹_›, rfl⟩
    · right
      cases hc
      exact ⟨by omega, rfl⟩
  · nomatch hc

/-- What a call of `reserveAll` can have returned. -/
theorem reserveAll_cases (h : s.Valid) {res : Except Error (BatchReservation × Nat)} (hc : reserveAll s = .ok res) :
    (s.free = 0 ∧ res = .error .insufficientSpace) ∨
      (0 < s.free ∧ res = .ok ({ start := s.head, count := s.free }, s.free)) := by
  rw [reserveAll_eq h] at hc
  split at hc
  · left
    cases hc
    exact ⟨‹_›, rfl⟩
  · right
    cases hc
    exact ⟨by omega, rfl⟩

/-- What `reserveBatch` takes for the number of available slots: one less than there are, and on a full ring all but one. -/
def batchAvailable (s : RingMem) : Nat := if s.free = 0 then s.numSlots - 1 else s.free - 1

/-- Reserving a batch: `count` slots from `head` on, unless more are asked for than `batchAvailable`. -/
theorem reserveBatch_eq (h : s.Valid) (count : Nat) : reserveBatch s count =
    .ok (if batchAvailable s < count then .error .insufficientSpace else .ok { start := s.head, count := count }) := by
  have hh := h.head_lt
  have ht := h.tail_lt
  have hle := h.le
  have hused : wrappingAdd 32 (wrappingSub 32 s.head s.tail) s.numSlots = s.head + s.numSlots - s.tail :=
    wrappingAdd_wrappingSub (by omega) (by omega) (by omega)
  have hrem : (s.head + s.numSlots - s.tail) % s.numSlots = if s.free = 0 then 0 else s.numSlots - s.free := by
    have e : s.head + s.numSlots - s.tail = s.head + (s.numSlots - s.tail) := by omega
    have hd := Circ.dist_eq ht hh
    have hf := Circ.dist_eq hh ht
    rw [e]
    change Circ.dist s.numSlots s.tail s.head = _
    unfold free
    rw [hd, hf]
    split <;> split <;> split <;> omega
  have havail : s.numSlots - 1 - (if s.free = 0 then 0 else s.numSlots - s.free) = batchAvailable s := by
    have hlt := h.free_lt
    unfold batchAvailable
    split <;> omega
  unfold reserveBatch
  rw [rem_of_pos h.numSlots_pos, ok_bind, sub_of_le h.pos, ok_bind, hused, hrem]
  dsimp only
  rw [havail]
  split <;> rfl

end TxRing

namespace BatchReservation

variable {b : BatchReservation} {s : RingMem}

/-- A reservation of a ring: it starts at a slot of the ring and is not larger than the ring. -/
structure Fits (b : BatchReservation) (s : RingMem) : Prop where
  start_lt : b.start < s.numSlots
  count_le : b.count ≤ s.numSlots

/-- The slots of a reservation, in the order of their indices. -/
def slots (b : BatchReservation) (s : RingMem) : List Nat := Circ.span s.numSlots b.start b.count

/-- The u32 sum of the start and an index of the reservation, modulo the size of the ring. -/
theorem slotIdx_eq (hf : b.Fits s) (hle : s.numSlots ≤ 2 ^ 31) {k : Nat} (hk : k ≤ b.count) :
    (do let sum ← add 32 b.start (cast 32 k); rem sum s.numSlots) = .ok (Circ.adv s.numSlots b.start k) := by
  have h1 := hf.start_lt
  have h2 := hf.count_le
  rw [cast_of_lt (by omega), add_of_lt (by omega), ok_bind, rem_of_pos (by omega)]
  rfl

/-- Asking for a packet: an index past the reservation is reported and changes nothing; otherwise the length goes into the
slot `index` steps after the start, and the slice begins where that slot's buffer does. -/
theorem packet_eq (hf : b.Fits s) (hle : s.numSlots ≤ 2 ^ 31) (index len : Nat) : b.packet s index len =
    .ok (if b.count ≤ index then (.error (.invalidRingIndex index), s)
      else (.ok { addr := s.bufPtr (Circ.adv s.numSlots b.start index), len := len },
        s.setLen (Circ.adv s.numSlots b.start index) (cast 16 len))) := by
  unfold packet
  split
  · rfl
  · rename_i h
    have := slotIdx_eq hf hle (show index ≤ b.count by omega)
    rw [← bind_assoc, this, ok_bind]
    simp only [setLen_bufPtr]

/-- The holder who asks for a packet of the length of `bytes` and writes them has put them into the slot. -/
theorem packet_store (hf : b.Fits s) (hle : s.numSlots ≤ 2 ^ 31) {index : Nat} {bytes : Bytes} {res : Except Error Slice}
    {s' : RingMem} (hc : b.packet s index bytes.length = .ok (res, s')) :
    (b.count ≤ index ∧ res = .error (.invalidRingIndex index) ∧ s' = s) ∨
      (index < b.count ∧ ∃ sl, res = .ok sl ∧ sl.len = bytes.length ∧
        sl.addr = s.bufPtr (Circ.adv s.numSlots b.start index) ∧
        s'.store sl.addr bytes = s.fill (Circ.adv s.numSlots b.start index) bytes) := by
  rw [packet_eq hf hle] at hc
  split at hc
  · left
    cases hc
    exact ⟨‹_›, rfl, rfl⟩
  · right
    cases hc
    exact ⟨by omega, _, rfl, rfl, rfl, rfl⟩

/-- Committing: nothing for no packets, otherwise `head` goes to the slot that many steps after the start, and no further
than the end of the reservation. -/
theorem commit_eq (hf : b.Fits s) (hle : s.numSlots ≤ 2 ^ 31) (written : Nat) : b.commit s written =
    .ok (if min written b.count = 0 then s else s.moveHead (Circ.adv s.numSlots b.start (min written b.count))) := by
  unfold commit
  dsimp only
  split
  · rfl
  · have := slotIdx_eq hf hle (Nat.min_le_right written b.count)
    rw [← bind_assoc, this, ok_bind]

/-- Asking for a packet of a reservation that is smaller than the ring, on a ring of any size. -/
theorem packet_eq_of_lt {index len : Nat} (hn : s.numSlots < 2 ^ 32) (hb : b.count < s.numSlots) : b.packet s index len =
    if b.count ≤ index then .ok (.error (.invalidRingIndex index), s)
    else if b.start + index < 2 ^ 32 then
      .ok (.ok { addr := s.bufPtr ((b.start + index) % s.numSlots), len := len },
        s.setLen ((b.start + index) % s.numSlots) (cast 16 len))
    else .error .overflow := by
  unfold packet
  split
  · rfl
  · rw [cast_of_lt (by omega)]
    by_cases hov : b.start + index < 2 ^ 32
    · rw [if_pos hov, add_of_lt hov, ok_bind, rem_of_pos (by omega), ok_bind]
      simp only [setLen_bufPtr]
    · rw [if_neg hov, add, if_neg hov, error_bind]

/-- What a commit that returned did, on a ring of any size, for some of the packets of a reservation smaller than the ring. -/
theorem commit_ok {written : Nat} {s' : RingMem} (hn : s.numSlots < 2 ^ 32) (hb : b.count < s.numSlots)
    (hpos : 0 < written) (hw : written ≤ b.count) (hc : b.commit s written = .ok s') :
    s' = s.moveHead (Circ.adv s.numSlots b.start written) := by
  unfold commit at hc
  rw [Nat.min_eq_left hw] at hc
  dsimp only at hc
  rw [if_neg (by omega), cast_of_lt (by omega)] at hc
  by_cases hov : b.start + written < 2 ^ 32
  · rw [add_of_lt hov, ok_bind, rem_of_pos (by omega), ok_bind] at hc
    cases hc
    rfl
  · rw [add, if_neg hov, error_bind] at hc
    nomatch hc

end BatchReservation

/-- What a reservation of everything is, on a ring of any size: it starts at `cur`, and it has a slot, but not all of them. -/
theorem TxRing.reserveAll_ok {s : RingMem} {b : BatchReservation} {count : Nat} (h : s.Addressed)
    (hc : reserveAll s = .ok (.ok (b, count))) : b.start = s.cur ∧ b.count = count ∧ 0 < count ∧ b.count < s.numSlots := by
  have hcur := h.cur_lt
  have hlt : Circ.dist s.numSlots s.cur s.tail < s.numSlots := Circ.dist_lt (by omega)
  rcases reserveAll_cases_of_addressed h hc with ⟨-, he⟩ | ⟨hpos, he⟩
  · nomatch he
  · cases he
    exact ⟨rfl, rfl, hpos, hlt⟩

end NetHelper
