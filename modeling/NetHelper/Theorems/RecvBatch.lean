import NetHelper.Lemmas.Rx
import NetHelper.RxSystem

/-!
# A batch is repeated receiving

`recvBatch` computes the size of the window once and goes through it by index; `recv` tests for the end of the window and
steps over it one slot at a time. Both hand out the frames of the same slots (`recv_batch_is_iterated_recv`).
-/

namespace NetHelper

open Checked RingMem

/-- Receive packets one at a time until there are `m` of them or there are no more. -/
def RxRing.recvUpTo : Nat → RingMem → Outcome (List Frame × RingMem)
  | 0, s => .ok ([], s)
  | m + 1, s => do
    let (f, s') ← RxRing.recv s
    match f with
    | none => .ok ([], s')
    | some f => do
      let (fs, s'') ← RxRing.recvUpTo m s'
      .ok (f :: fs, s'')

/-- The u32 arithmetic of a batch of `count` packets stays in its type, and the casts from usize lose nothing. -/
structure RxRing.BatchInU32 (s : RingMem) (count : Nat) : Prop where
  avail : s.head ≤ s.tail ∨ (s.head ≤ s.numSlots ∧ s.numSlots - s.head + s.tail < 2 ^ 32)
  step : ∀ i ≤ count, cast 32 i = i ∧ s.head + i < 2 ^ 32

namespace RecvBatchAux

/-- Receiving one at a time hands out the frames of the first slots of the window, as many as asked for or as there are. -/
theorem recvUpTo_eq {s : RingMem} (h : s.Valid) (m : Nat) : RxRing.recvUpTo m s =
    .ok ((Circ.span s.numSlots s.head (min s.free m)).map s.frameAt, s.advance (min s.free m)) := by
  induction m generalizing s with
  | zero =>
    rw [Nat.min_zero, h.advance_zero]
    rfl
  | succ m ih =>
    rw [RxRing.recvUpTo, RxRing.recv_eq h, ok_bind]
    by_cases hf : s.free = 0
    · rw [if_pos hf, hf, Nat.zero_min, h.advance_zero]
      rfl
    · have hfree : (s.advance 1).free = s.free - 1 := h.free_advance (by omega)
      have hmin : min s.free (m + 1) = min (s.free - 1) m + 1 := by omega
      -- the slots that are left are those of the window one further on
      have hspan : Circ.span s.numSlots s.head (min (s.free - 1) m + 1) =
          s.head :: Circ.span s.numSlots (Circ.adv s.numSlots s.head 1) (min (s.free - 1) m) :=
        Circ.span_cons h.head_lt
      have hadv : (s.advance 1).advance (min (s.free - 1) m) = s.advance (min (s.free - 1) m + 1) := by
        rw [advance, advance_head, advance_numSlots, Circ.adv_adv, Nat.add_comm 1]
        rfl
      rw [if_neg hf]
      simp only [ih h.advance, hfree, ok_bind, hadv, advance_numSlots, advance_head]
      rw [hmin, hspan]
      rfl

/-- The arithmetic of a batch stays in u32. -/
theorem batchInU32 {s : RingMem} (h : s.Valid) (m : Nat) : RxRing.BatchInU32 s (min s.free m) := by
  have hh := h.head_lt
  have ht := h.tail_lt
  have hle := h.le
  have hlt := h.free_lt
  refine ⟨by omega, ?_⟩
  intro i hi
  exact ⟨cast_of_lt (by omega), by omega⟩

end RecvBatchAux

open RecvBatchAux

/-- Receiving a batch returns, without overflow, what receiving one packet after another returns: as many frames, the same
ones in the same order at the front of the batch, with the payloads they show in the memory both leave, and the same ring.
The rest of the batch is left alone. -/
theorem recv_batch_is_iterated_recv (s : RingMem) (h : s.Valid) (batch : List Frame) :
    ∃ frames s', RxRing.recvUpTo batch.length s = .ok (frames, s') ∧ frames.length ≤ batch.length ∧
      RxRing.recvBatch s batch = .ok (frames.length, frames ++ batch.drop frames.length, s') ∧
      s'.mem = s.mem ∧ RxRing.BatchInU32 s frames.length := by
  have hlen : ((Circ.span s.numSlots s.head (min s.free batch.length)).map s.frameAt).length =
      min s.free batch.length := by
    rw [List.length_map, Circ.length_span]
  refine ⟨_, _, recvUpTo_eq h batch.length, ?_, ?_, rfl, ?_⟩
  · rw [hlen]
    exact Nat.min_le_right _ _
  · have hb := RxRing.recvBatch_eq h batch
    rw [RxRing.splice, List.take_zero, List.nil_append, Nat.zero_add] at hb
    rw [hb, hlen]
  · rw [hlen]
    exact batchInU32 h batch.length

namespace RecvBatchAux

/-- A ring in which the packets `[7]` and `[8, 9]` wait, in the last slot and the first. -/
def wrapped : RingMem := (fresh 4 64 3 3).deliver [[7], [8, 9]]

theorem wrapped_valid : wrapped.Valid := ⟨by decide, by decide, by decide, rfl, by decide⟩

end RecvBatchAux

/-- `recv_batch_is_iterated_recv` at a ring in which two packets wait, and a batch with room for three. -/
theorem recv_batch_is_iterated_recv_two : ∃ f g s',
    RxRing.recvUpTo 3 wrapped = .ok ([f, g], s') ∧ f.payload s'.mem = [7] ∧ g.payload s'.mem = [8, 9] ∧
      RxRing.recvBatch wrapped [.newOwned [1], .newOwned [2], .newOwned [3]] = .ok (2, [f, g, .newOwned [3]], s') := by
  obtain ⟨frames, s', hone, -, hbatch, hmem, -⟩ := recv_batch_is_iterated_recv wrapped wrapped_valid
    [.newOwned [1], .newOwned [2], .newOwned [3]]
  have hf : RxRing.recvUpTo 3 wrapped = .ok ([wrapped.frameAt 3, wrapped.frameAt 0], _) := rfl
  rw [List.length_cons, List.length_cons, List.length_singleton, hf] at hone
  cases hone
  exact ⟨_, _, _, hf, by decide, by decide, hbatch⟩

end NetHelper
