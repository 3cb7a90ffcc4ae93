import Mathlib.Logic.Function.Basic
import NetHelper.Lib.Checked
import NetHelper.Lib.Circular
import NetHelper.Error
import NetHelper.Frame

/-!
# Rings

The rings of an interface (`ring.rs`): sending one packet or a reserved batch through a TX ring, receiving one packet or a
batch from an RX ring. A ring handle holds a pointer to a `netmap_ring` in memory that the kernel shares; the functions here
take that memory (`RingMem`) in the place of the pointer and return it as they leave it. Their u32 arithmetic is checked, so
a call is an `Outcome`: its result, or a panic.

The packet buffers lie one after another from `bufOfs` on, each `nrBufSize` bytes long, and a slot names its buffer by
number. Nothing in memory keeps a store that begins in one buffer from running into the next.
-/

namespace NetHelper

open Checked

/-- A slot of a ring: the number of its buffer and the length of the packet in it. -/
structure NetmapSlot where
  bufIdx : Nat
  len : Nat
  flags : Nat
  deriving DecidableEq, Repr

/-- The memory behind a ring pointer: the `netmap_ring` at its address, which is not null, and the bytes of the buffers. -/
structure RingMem where
  addr : Nat
  addr_pos : 0 < addr
  bufOfs : Nat
  numSlots : Nat
  nrBufSize : Nat
  head : Nat
  cur : Nat
  tail : Nat
  slot : Nat → NetmapSlot
  mem : Memory

namespace RingMem

/-- The address of the buffer of a slot (the macro NETMAP_BUF). -/
def bufPtr (s : RingMem) (i : Nat) : Nat := s.addr + s.bufOfs + (s.slot i).bufIdx * s.nrBufSize

/-- Store the length of a slot. -/
def setLen (s : RingMem) (i len : Nat) : RingMem :=
  { s with slot := Function.update s.slot i { s.slot i with len := len } }

/-- Store bytes at an address. -/
def store (s : RingMem) (a : Nat) (bytes : Bytes) : RingMem := { s with mem := ByteMem.write s.mem a bytes }

/-- Move `head` and `cur` to one place. -/
def moveHead (s : RingMem) (i : Nat) : RingMem := { s with cur := i, head := i }

end RingMem

/-- A ring handle: the address of the ring and the ID of the ring. -/
structure Ring where
  ring : Nat
  index : Nat
  deriving DecidableEq, Repr

/-- A handle of a TX ring. -/
structure TxRing where
  ring : Ring
  deriving DecidableEq, Repr

/-- A handle of an RX ring. -/
structure RxRing where
  ring : Ring
  deriving DecidableEq, Repr

/-- Create a new TX ring handle. -/
def TxRing.new (ring index : Nat) : TxRing := { ring := { ring := ring, index := index } }

/-- Create a new RX ring handle. -/
def RxRing.new (ring index : Nat) : RxRing := { ring := { ring := ring, index := index } }

/-! ## Sending -/

namespace TxRing

/-- The maximum payload size of a ring. -/
def maxPayloadSize (s : RingMem) : Nat := s.nrBufSize

/-- Send one packet: copy it into the buffer of the slot at `cur` and move `head` and `cur` past that slot. -/
def send (s : RingMem) (buf : Bytes) : Outcome (Except Error Unit × RingMem) :=
  if buf.length > maxPayloadSize s then
    .ok (.error (.packetTooLarge buf.length), s)
  else if s.cur = s.tail then
    -- the ring is full until the kernel moves tail
    .ok (.error .insufficientSpace, s)
  else do
    let s' := (s.store (s.bufPtr s.cur) buf).setLen s.cur (cast 16 buf.length)
    let next ← add 32 s.cur 1
    let nextIndex := if next ≥ s.numSlots then 0 else next
    .ok (.ok (), s'.moveHead nextIndex)

end TxRing

/-- A batch reservation for TX packets: `count` slots from `start` on. -/
structure BatchReservation where
  start : Nat
  count : Nat
  deriving DecidableEq, Repr

namespace TxRing

/-- Reserve space for batch sending. -/
def reserveBatch (s : RingMem) (count : Nat) : Outcome (Except Error BatchReservation) := do
  let currentUsedSlots ← rem (wrappingAdd 32 (wrappingSub 32 s.head s.tail) s.numSlots) s.numSlots
  let last ← sub s.numSlots 1
  -- saturating_sub is the difference of natural numbers
  let availableSlots := last - currentUsedSlots
  if availableSlots < count then
    .ok (.error .insufficientSpace)
  else
    .ok (.ok { start := s.head, count := count })

/-- Reserve every slot that is available at the moment. -/
def reserveAll (s : RingMem) : Outcome (Except Error (BatchReservation × Nat)) := do
  let availableSlots ←
    (if s.tail ≥ s.cur then sub s.tail s.cur
    else do
      let past ← add 32 s.tail s.numSlots
      sub past s.cur)
  if availableSlots = 0 then
    .ok (.error .insufficientSpace)
  else
    .ok (.ok ({ start := s.cur, count := availableSlots }, availableSlots))

end TxRing

namespace BatchReservation

/-- Hand out the slice for a packet of the batch and store its length in the slot. The holder then writes the slice. -/
def packet (b : BatchReservation) (s : RingMem) (index len : Nat) : Outcome (Except Error Slice × RingMem) :=
  if index ≥ b.count then
    .ok (.error (.invalidRingIndex index), s)
  else do
    let sum ← add 32 b.start (cast 32 index)
    let slotIdx ← rem sum s.numSlots
    let s' := s.setLen slotIdx (cast 16 len)
    .ok (.ok { addr := s'.bufPtr slotIdx, len := len }, s')

/-- Commit the batch: make its first `written` packets visible to the NIC. -/
def commit (b : BatchReservation) (s : RingMem) (written : Nat) : Outcome RingMem :=
  let actualWritten := min written b.count
  if actualWritten = 0 then
    .ok s
  else do
    let sum ← add 32 b.start (cast 32 actualWritten)
    let newHead ← rem sum s.numSlots
    .ok (s.moveHead newHead)

end BatchReservation

/-! ## Receiving -/

namespace RxRing

/-- Receive a single packet: a frame over the buffer of the slot at `head`, and `head` and `cur` past that slot. -/
def recv (s : RingMem) : Outcome (Option Frame × RingMem) :=
  if s.head = s.tail then
    .ok (none, s)
  else
    let len := (s.slot s.head).len
    let rawPtr := s.bufPtr s.head
    let buf := if rawPtr = 0 ∨ len = 0 then Slice.empty else { addr := rawPtr, len := len }
    -- head is widened to usize before the step, so the sum cannot overflow
    let nextIdx := if s.head + 1 ≥ s.numSlots then 0 else s.head + 1
    .ok (some (Frame.new buf), s.moveHead nextIdx)

/-- The loop of `recvBatch`: `k` more slots, the next of them `i` after `head`. -/
def recvBatchLoop (s : RingMem) : (k i : Nat) → List Frame → Outcome (List Frame)
  | 0, _, batch => .ok batch
  | k + 1, i, batch => do
    let sum ← add 32 s.head (cast 32 i)
    let slotIdx ← rem sum s.numSlots
    let len := (s.slot slotIdx).len
    let rawPtr := s.bufPtr slotIdx
    let buf := if rawPtr = 0 ∨ len = 0 then Slice.empty else { addr := rawPtr, len := len }
    recvBatchLoop s k (i + 1) (batch.set i (Frame.new buf))

/-- Receive a batch of packets into `batch`: the number received, the batch and the ring as they are left. -/
def recvBatch (s : RingMem) (batch : List Frame) : Outcome (Nat × List Frame × RingMem) := do
  let avail ←
    (if s.head ≤ s.tail then sub s.tail s.head
    else do
      let rest ← sub s.numSlots s.head
      add 32 rest s.tail)
  let count := min avail batch.length
  if count = 0 then
    .ok (0, batch, s)
  else do
    let batch' ← recvBatchLoop s count 0 batch
    let sum ← add 32 s.head (cast 32 count)
    let newHead ← rem sum s.numSlots
    .ok (count, batch', s.moveHead newHead)

end RxRing

end NetHelper
