import NetHelper.Ring

/-!
# The window of a ring

What a ring is for, read off its memory: the slots from `head` up to `tail` are the ones the application owns (free to send
from on a TX ring, full of packets on an RX ring), and a slot holds the packet that its length and its buffer show. `fill`
and `advance` are what the functions of `Ring.lean` do to it, in these terms.
-/

namespace NetHelper

open Checked

namespace RingMem

/-- The states of a ring between two calls: 1 to 2^31 slots, and indices that name slots, with `head` and `cur` together. -/
structure Valid (s : RingMem) : Prop where
  pos : 1 ≤ s.numSlots
  le : s.numSlots ≤ 2 ^ 31
  head_lt : s.head < s.numSlots
  cur_eq : s.cur = s.head
  tail_lt : s.tail < s.numSlots

/-- The indices of a ring name slots, and `cur` may be anywhere. -/
structure Indexed (s : RingMem) : Prop where
  pos : 1 ≤ s.numSlots
  le : s.numSlots ≤ 2 ^ 31
  head_lt : s.head < s.numSlots
  tail_lt : s.tail < s.numSlots

/-- The states of a ring in which `cur` and `tail` name slots. -/
structure Addressed (s : RingMem) : Prop where
  numSlots_lt : s.numSlots < 2 ^ 32
  cur_lt : s.cur < s.numSlots
  tail_lt : s.tail < s.numSlots

/-- Two states of one ring: its slots have the same buffers in both. -/
structure SameBufs (s t : RingMem) : Prop where
  addr : t.addr = s.addr
  bufOfs : t.bufOfs = s.bufOfs
  numSlots : t.numSlots = s.numSlots
  nrBufSize : t.nrBufSize = s.nrBufSize
  bufIdx : ∀ i, (t.slot i).bufIdx = (s.slot i).bufIdx

/-- No two slots of the ring name the same buffer. -/
def DistinctBufs (s : RingMem) : Prop :=
  ∀ i < s.numSlots, ∀ j < s.numSlots, (s.slot i).bufIdx = (s.slot j).bufIdx → i = j

/-- The number of slots in the circular window from `head` up to `tail`. -/
def free (s : RingMem) : Nat := Circ.dist s.numSlots s.head s.tail

/-- The slots the application owns: from `head` up to `tail`. -/
def owned (s : RingMem) : List Nat := Circ.window s.numSlots s.head s.tail

/-- The packet in a slot: as many bytes of its buffer as its length says. -/
def packetAt (s : RingMem) (i : Nat) : Bytes := ByteMem.read s.mem (s.bufPtr i) (s.slot i).len

/-- The whole buffer of a slot. -/
def buffer (s : RingMem) (i : Nat) : Bytes := ByteMem.read s.mem (s.bufPtr i) s.nrBufSize

/-- Put a packet into a slot: its bytes into the buffer, its length (as a u16) into the slot. -/
def fill (s : RingMem) (i : Nat) (bytes : Bytes) : RingMem :=
  (s.store (s.bufPtr i) bytes).setLen i (cast 16 bytes.length)

/-- Move `head` and `cur` over the next `k` slots. -/
def advance (s : RingMem) (k : Nat) : RingMem := s.moveHead (Circ.adv s.numSlots s.head k)

/-- A ring as the kernel sets it up: every slot has the buffer of its own number, with nothing in it. -/
def fresh (numSlots nrBufSize head tail : Nat) : RingMem :=
  { addr := 4096, addr_pos := by decide, bufOfs := 4096, numSlots := numSlots, nrBufSize := nrBufSize, head := head,
    cur := head, tail := tail, slot := fun i => { bufIdx := i, len := 0, flags := 0 }, mem := fun _ => 0 }

/-! ## The fields after an update -/

section Fields

variable (s : RingMem) (i j a len k : Nat) (bytes : Bytes)

@[simp] theorem setLen_numSlots : (s.setLen i len).numSlots = s.numSlots := rfl
@[simp] theorem setLen_nrBufSize : (s.setLen i len).nrBufSize = s.nrBufSize := rfl
@[simp] theorem setLen_mem : (s.setLen i len).mem = s.mem := rfl

@[simp] theorem fill_numSlots : (s.fill i bytes).numSlots = s.numSlots := rfl
@[simp] theorem fill_nrBufSize : (s.fill i bytes).nrBufSize = s.nrBufSize := rfl
@[simp] theorem fill_head : (s.fill i bytes).head = s.head := rfl
@[simp] theorem fill_cur : (s.fill i bytes).cur = s.cur := rfl
@[simp] theorem fill_tail : (s.fill i bytes).tail = s.tail := rfl
@[simp] theorem fill_free : (s.fill i bytes).free = s.free := rfl
@[simp] theorem fill_mem : (s.fill i bytes).mem = ByteMem.write s.mem (s.bufPtr i) bytes := rfl

@[simp] theorem moveHead_numSlots : (s.moveHead i).numSlots = s.numSlots := rfl
@[simp] theorem moveHead_nrBufSize : (s.moveHead i).nrBufSize = s.nrBufSize := rfl
@[simp] theorem moveHead_head : (s.moveHead i).head = i := rfl
@[simp] theorem moveHead_cur : (s.moveHead i).cur = i := rfl
@[simp] theorem moveHead_tail : (s.moveHead i).tail = s.tail := rfl
@[simp] theorem moveHead_slot : (s.moveHead i).slot = s.slot := rfl
@[simp] theorem moveHead_mem : (s.moveHead i).mem = s.mem := rfl
@[simp] theorem moveHead_packetAt : (s.moveHead i).packetAt j = s.packetAt j := rfl
@[simp] theorem moveHead_buffer : (s.moveHead i).buffer j = s.buffer j := rfl

@[simp] theorem advance_numSlots : (s.advance k).numSlots = s.numSlots := rfl
@[simp] theorem advance_nrBufSize : (s.advance k).nrBufSize = s.nrBufSize := rfl
@[simp] theorem advance_head : (s.advance k).head = Circ.adv s.numSlots s.head k := rfl
@[simp] theorem advance_cur : (s.advance k).cur = Circ.adv s.numSlots s.head k := rfl
@[simp] theorem advance_tail : (s.advance k).tail = s.tail := rfl
@[simp] theorem advance_slot : (s.advance k).slot = s.slot := rfl
@[simp] theorem advance_mem : (s.advance k).mem = s.mem := rfl
@[simp] theorem advance_packetAt : (s.advance k).packetAt j = s.packetAt j := rfl

/-- A length stored in a slot leaves the slot's buffer where it is. -/
@[simp] theorem setLen_bufPtr : (s.setLen i len).bufPtr j = s.bufPtr j := by
  by_cases h : j = i
  · subst h
    simp [bufPtr, setLen]
  · simp [bufPtr, setLen, h]

@[simp] theorem fill_bufPtr : (s.fill i bytes).bufPtr j = s.bufPtr j :=
  setLen_bufPtr (s.store (s.bufPtr i) bytes) i j _

@[simp] theorem fill_bufIdx : ((s.fill i bytes).slot j).bufIdx = (s.slot j).bufIdx := by
  by_cases h : j = i
  · subst h
    simp [fill, setLen, store]
  · simp [fill, setLen, store, h]

@[simp] theorem fill_slot_self : ((s.fill i bytes).slot i).len = cast 16 bytes.length := by
  simp [fill, setLen]

end Fields

variable {s : RingMem} {i j k : Nat} {bytes : Bytes}

theorem fill_slot_of_ne (h : j ≠ i) : (s.fill i bytes).slot j = s.slot j := by
  simp [fill, setLen, store, h]

@[simp] theorem length_packetAt : (s.packetAt i).length = (s.slot i).len := ByteMem.length_read _ _ _

/-! ## Well-formed states stay well-formed -/

theorem Valid.indexed (h : s.Valid) : s.Indexed := ⟨h.pos, h.le, h.head_lt, h.tail_lt⟩

theorem Valid.addressed (h : s.Valid) : s.Addressed :=
  ⟨Nat.lt_of_le_of_lt h.le (by decide), Nat.lt_of_le_of_lt (Nat.le_of_eq h.cur_eq) h.head_lt, h.tail_lt⟩

theorem Valid.numSlots_pos (h : s.Valid) : 0 < s.numSlots := h.pos

/-- The window never covers the whole ring. -/
theorem Valid.free_lt (h : s.Valid) : s.free < s.numSlots := Circ.dist_lt h.numSlots_pos

theorem Valid.free_eq_zero (h : s.Valid) : s.free = 0 ↔ s.head = s.tail :=
  Circ.dist_eq_zero_iff h.head_lt h.tail_lt

theorem Valid.fill (h : s.Valid) : (s.fill i bytes).Valid := ⟨h.pos, h.le, h.head_lt, h.cur_eq, h.tail_lt⟩

theorem Valid.moveHead (h : s.Valid) (hi : i < s.numSlots) : (s.moveHead i).Valid := ⟨h.pos, h.le, hi, rfl, h.tail_lt⟩

theorem Valid.advance (h : s.Valid) : (s.advance k).Valid := h.moveHead (Circ.adv_lt h.numSlots_pos)

/-- Moving over no slot changes nothing. -/
theorem Valid.advance_zero (h : s.Valid) : s.advance 0 = s := by
  obtain ⟨addr, addr_pos, bufOfs, numSlots, nrBufSize, head, cur, tail, slot, mem⟩ := s
  have hcur := h.cur_eq
  simp only at hcur
  subst hcur
  rw [RingMem.advance, Circ.adv_zero h.head_lt]
  rfl

/-- Moving over `k` slots of the window leaves the others. -/
theorem Valid.free_advance (h : s.Valid) (hk : k ≤ s.free) : (s.advance k).free = s.free - k :=
  Circ.dist_adv_left h.head_lt h.tail_lt hk

theorem fresh_valid {numSlots nrBufSize head tail : Nat} (hle : numSlots ≤ 2 ^ 31) (hh : head < numSlots)
    (ht : tail < numSlots) : (fresh numSlots nrBufSize head tail).Valid :=
  ⟨Nat.lt_of_le_of_lt (Nat.zero_le _) hh, hle, hh, rfl, ht⟩

theorem fresh_addressed {numSlots nrBufSize head tail : Nat} (hle : numSlots ≤ 2 ^ 31) (hh : head < numSlots)
    (ht : tail < numSlots) : (fresh numSlots nrBufSize head tail).Addressed := (fresh_valid hle hh ht).addressed

theorem fresh_distinct (numSlots nrBufSize head tail : Nat) : (fresh numSlots nrBufSize head tail).DistinctBufs :=
  fun _ _ _ _ h => h

/-! ## States with the same buffers -/

theorem SameBufs.refl (s : RingMem) : SameBufs s s := ⟨rfl, rfl, rfl, rfl, fun _ => rfl⟩

theorem SameBufs.trans {s t u : RingMem} (h : SameBufs s t) (h' : SameBufs t u) : SameBufs s u :=
  ⟨h'.addr.trans h.addr, h'.bufOfs.trans h.bufOfs, h'.numSlots.trans h.numSlots, h'.nrBufSize.trans h.nrBufSize,
    fun i => (h'.bufIdx i).trans (h.bufIdx i)⟩

theorem sameBufs_fill : SameBufs s (s.fill i bytes) := ⟨rfl, rfl, rfl, rfl, fun j => fill_bufIdx s i j bytes⟩

theorem sameBufs_moveHead : SameBufs s (s.moveHead i) := ⟨rfl, rfl, rfl, rfl, fun _ => rfl⟩

/-- The buffers of a ring are where they were. -/
theorem SameBufs.bufPtr {s t : RingMem} (h : SameBufs s t) (i : Nat) : t.bufPtr i = s.bufPtr i := by
  unfold RingMem.bufPtr
  rw [h.addr, h.bufOfs, h.bufIdx, h.nrBufSize]

theorem SameBufs.distinct {s t : RingMem} (h : SameBufs s t) (hd : s.DistinctBufs) : t.DistinctBufs := by
  intro i hi j hj he
  rw [h.numSlots] at hi hj
  rw [h.bufIdx, h.bufIdx] at he
  exact hd i hi j hj he

theorem DistinctBufs.fill (h : s.DistinctBufs) : (s.fill i bytes).DistinctBufs := sameBufs_fill.distinct h

/-! ## What a packet put into a slot changes -/

/-- The buffers of two slots do not meet. -/
theorem DistinctBufs.disjoint (h : s.DistinctBufs) (hi : i < s.numSlots) (hj : j < s.numSlots) (hne : i ≠ j) :
    s.bufPtr i + s.nrBufSize ≤ s.bufPtr j ∨ s.bufPtr j + s.nrBufSize ≤ s.bufPtr i := by
  have key : ∀ a b : Nat, a < b → a * s.nrBufSize + s.nrBufSize ≤ b * s.nrBufSize := by
    intro a b hab
    rw [← Nat.succ_mul]
    exact Nat.mul_le_mul_right _ hab
  rcases Nat.lt_trichotomy (s.slot i).bufIdx (s.slot j).bufIdx with hlt | heq | hgt
  · left
    have := key _ _ hlt
    unfold bufPtr
    omega
  · exact absurd (h i hi j hj heq) hne
  · right
    have := key _ _ hgt
    unfold bufPtr
    omega

/-- A packet shorter than 2^16 bytes is read back from the slot it was put into. -/
theorem packetAt_fill_self (h : bytes.length < 2 ^ 16) : (s.fill i bytes).packetAt i = bytes := by
  unfold packetAt
  rw [fill_slot_self, fill_bufPtr, fill_mem, cast_of_lt h]
  exact ByteMem.read_write_self _ _ _

/-- A read of up to a buffer's length from the buffer of one slot does not see a packet put into another. -/
theorem read_fill_of_ne (hd : s.DistinctBufs) (hi : i < s.numSlots) (hj : j < s.numSlots) (hne : j ≠ i)
    (hb : bytes.length ≤ s.nrBufSize) {n : Nat} (hn : n ≤ s.nrBufSize) :
    ByteMem.read (s.fill i bytes).mem (s.bufPtr j) n = ByteMem.read s.mem (s.bufPtr j) n := by
  rw [fill_mem]
  apply ByteMem.read_write_of_disjoint
  rcases hd.disjoint hj hi hne with h | h
  · left; omega
  · right; omega

theorem packetAt_fill_of_ne (hd : s.DistinctBufs) (hi : i < s.numSlots) (hj : j < s.numSlots) (hne : j ≠ i)
    (hb : bytes.length ≤ s.nrBufSize) (hl : (s.slot j).len ≤ s.nrBufSize) :
    (s.fill i bytes).packetAt j = s.packetAt j := by
  unfold packetAt
  rw [fill_bufPtr, fill_slot_of_ne hne]
  exact read_fill_of_ne hd hi hj hne hb hl

theorem buffer_fill_of_ne (hd : s.DistinctBufs) (hi : i < s.numSlots) (hj : j < s.numSlots) (hne : j ≠ i)
    (hb : bytes.length ≤ s.nrBufSize) : (s.fill i bytes).buffer j = s.buffer j := by
  unfold buffer
  rw [fill_bufPtr]
  exact read_fill_of_ne hd hi hj hne hb (Nat.le_refl _)

end RingMem

end NetHelper
