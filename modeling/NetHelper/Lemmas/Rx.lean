import NetHelper.Window

/-!
# What the RX functions compute

One equation for `recv` and one for `recvBatch`, on the states the kernel hands out: the call returns, hands out a frame for
each slot it passes, and only moves `head` and `cur`. The loop of `recvBatch` is followed with its counter: after `k` rounds
from index `i` on, the batch holds the frames of the `k` slots that lie `i` and more steps after `head`
(`recvBatchLoop_eq`).
-/

namespace NetHelper

open Checked RingMem

namespace RingMem

/-- The frame over the packet in a slot. A packet without bytes is the empty slice. -/
def frameAt (s : RingMem) (i : Nat) : Frame :=
  Frame.new (if (s.slot i).len = 0 then Slice.empty else { addr := s.bufPtr i, len := (s.slot i).len })

variable {s : RingMem} {i : Nat}

/-- The buffer of a slot is never at the null address. -/
theorem bufPtr_ne_zero (s : RingMem) (i : Nat) : s.bufPtr i ≠ 0 := by
  have := s.addr_pos
  unfold bufPtr
  omega

/-- The null check of the source never decides anything. -/
theorem frame_eq_frameAt (s : RingMem) (i : Nat) :
    Frame.new (if s.bufPtr i = 0 ∨ (s.slot i).len = 0 then Slice.empty
      else { addr := s.bufPtr i, len := (s.slot i).len }) = s.frameAt i := by
  simp only [frameAt, bufPtr_ne_zero, false_or]

/-- The payload of the frame of a slot is the packet in it. -/
theorem payload_frameAt (s : RingMem) (i : Nat) : (s.frameAt i).payload s.mem = s.packetAt i := by
  unfold frameAt packetAt
  split
  · rename_i h
    rw [h]
    rfl
  · rfl

/-- The frame of a slot is as long as the packet in it. -/
theorem len_frameAt (s : RingMem) (i : Nat) : (s.frameAt i).len = (s.slot i).len := by
  unfold frameAt
  split
  · rename_i h
    rw [h]
    rfl
  · rfl

/-- A frame over bytes shows the buffer of its slot from the start. -/
theorem frameAt_eq (h : (s.slot i).len ≠ 0) :
    s.frameAt i = Frame.new { addr := s.bufPtr i, len := (s.slot i).len } := by
  rw [frameAt, if_neg h]

end RingMem

namespace RxRing

variable {s : RingMem}

/-- Receiving one packet: nothing on an empty ring, otherwise the frame of the slot at `head`, and `head` one further. -/
theorem recv_eq (h : s.Valid) :
    recv s = .ok (if s.free = 0 then (none, s) else (some (s.frameAt s.head), s.advance 1)) := by
  unfold recv
  simp only [h.free_eq_zero]
  split
  · rfl
  · rw [frame_eq_frameAt, advance, Circ.adv_one h.head_lt]

/-- What a call of `recv` can have done. -/
theorem recv_cases (h : s.Valid) {f : Option Frame} {s' : RingMem} (hc : recv s = .ok (f, s')) :
    (s.free = 0 ∧ f = none ∧ s' = s) ∨ (0 < s.free ∧ f = some (s.frameAt s.head) ∧ s' = s.advance 1) := by
  rw [recv_eq h] at hc
  split at hc
  · left
    cases hc
    exact ⟨‹_›, rfl, rfl⟩
  · right
    cases hc
    exact ⟨by omega, rfl, rfl⟩

/-- The list with the entries from `i` on replaced, one for one, by those of another. -/
def splice (batch fs : List Frame) (i : Nat) : List Frame := batch.take i ++ fs ++ batch.drop (i + fs.length)

/-- Storing one more entry of a splice: the round of the loop that writes entry `i`. -/
theorem splice_cons {batch fs : List Frame} {f : Frame} {i : Nat} (hi : i < batch.length) :
    splice (batch.set i f) fs (i + 1) = splice batch (f :: fs) i := by
  have htake : (batch.set i f).take (i + 1) = batch.take i ++ [f] := by
    rw [List.take_add_one, List.take_set_of_le (Nat.le_refl i), List.getElem?_set_self hi]
    rfl
  have hdrop : (batch.set i f).drop (i + 1 + fs.length) = batch.drop (i + (f :: fs).length) := by
    rw [List.drop_set_of_lt (by omega), List.length_cons]
    congr 1
    omega
  rw [splice, splice, htake, hdrop]
  simp

/-- The loop of `recvBatch`: it returns, and entries `i` to `i + k - 1` of the batch are the frames of the slots that many
steps after `head`. -/
theorem recvBatchLoop_eq (h : s.Valid) : ∀ (k i : Nat) (batch : List Frame), i + k ≤ batch.length →
    i + k ≤ s.numSlots →
    recvBatchLoop s k i batch =
      .ok (splice batch ((Circ.span s.numSlots (Circ.adv s.numSlots s.head i) k).map s.frameAt) i) := by
  intro k
  induction k with
  | zero =>
    intro i batch _ _
    simp [recvBatchLoop, splice]
  | succ k ih =>
    intro i batch hb hn
    have hhead := h.head_lt
    have hle := h.le
    have hpos := h.numSlots_pos
    -- the slot of round i, and what is left of the window after it
    have hspan : Circ.span s.numSlots (Circ.adv s.numSlots s.head i) (k + 1) =
        Circ.adv s.numSlots s.head i :: Circ.span s.numSlots (Circ.adv s.numSlots s.head (i + 1)) k := by
      rw [Circ.span_cons (Circ.adv_lt hpos), Circ.adv_adv]
    unfold recvBatchLoop
    rw [cast_of_lt (by omega), add_of_lt (by omega), ok_bind, rem_of_pos hpos, ok_bind]
    dsimp only
    rw [frame_eq_frameAt, ih (i + 1) _ (by rw [List.length_set]; omega) (by omega), hspan, List.map_cons,
      splice_cons (by omega)]
    rfl

/-- The availability formula of `recvBatch` is the size of the window. -/
theorem avail_eq (h : s.Valid) :
    (if s.head ≤ s.tail then sub s.tail s.head
      else (do let rest ← sub s.numSlots s.head; add 32 rest s.tail)) = .ok s.free := by
  have hh := h.head_lt
  have ht := h.tail_lt
  have hle := h.le
  unfold free
  rw [Circ.dist_eq hh ht]
  split
  · exact sub_of_le ‹_›
  · rw [sub_of_le (by omega), ok_bind, add_of_lt (by omega)]
    congr 1
    omega

/-- Receiving a batch: as many packets as there are and as the batch has room for, their frames at the front of the batch,
the rest of the batch untouched, and `head` that many slots further. -/
theorem recvBatch_eq (h : s.Valid) (batch : List Frame) : recvBatch s batch =
    .ok (min s.free batch.length,
      splice batch ((Circ.span s.numSlots s.head (min s.free batch.length)).map s.frameAt) 0,
      s.advance (min s.free batch.length)) := by
  have hhead := h.head_lt
  have hle := h.le
  have hlt := h.free_lt
  have hmin : min s.free batch.length ≤ s.free := Nat.min_le_left _ _
  have hlen : min s.free batch.length ≤ batch.length := Nat.min_le_right _ _
  have h0 : Circ.adv s.numSlots s.head 0 = s.head := Circ.adv_zero hhead
  unfold recvBatch
  rw [avail_eq h, ok_bind]
  dsimp only
  split
  · rename_i hz
    rw [hz, h.advance_zero]
    simp [splice]
  · rw [recvBatchLoop_eq h _ 0 batch (by omega) (by omega), ok_bind, cast_of_lt (by omega), add_of_lt (by omega), ok_bind,
      rem_of_pos h.numSlots_pos, ok_bind, h0]
    rfl

/-- The first entries of a batch that was filled from its start are the ones filled in. -/
theorem take_splice_zero (batch fs : List Frame) : (splice batch fs 0).take fs.length = fs := by
  simp [splice]

end RxRing

end NetHelper
