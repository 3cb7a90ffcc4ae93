import NetHelper.Ring

/-!
# Asynchronous rings

The Tokio wrappers of the rings (`tokio_async.rs`): `poll_read` on an RX ring, and `poll_write`, `poll_flush` and
`poll_shutdown` on a TX ring. A poll works on the ring and on the descriptor's readiness (`World`), and the kernel may act
on both between its steps: what happens there is a parameter (`ReadEnv`, `WriteEnv`), one function for each place. A slot's
`buf` is taken to be the slot's buffer.
-/

namespace NetHelper

open Checked

/-- The result of a poll. -/
inductive Poll (α : Type) where
  | ready (a : α)
  | pending
  deriving DecidableEq, Repr

/-- An `io::Error`: the system's, by its number, or one of kind `InvalidInput` around an error of the crate. -/
inductive IoError where
  | os (errno : Int)
  | invalidInput (e : Error)
  deriving DecidableEq, Repr

/-- The readiness of a descriptor and whether the waker of the task is registered with it, for reading and for writing. -/
structure AsyncFd where
  readReady : Bool
  writeReady : Bool
  readWaker : Bool
  writeWaker : Bool
  deriving DecidableEq, Repr

namespace AsyncFd

/-- Poll for readability: ready when the flag is set, and otherwise pending with the waker registered. -/
def pollReadReady (fd : AsyncFd) : Poll Unit × AsyncFd :=
  if fd.readReady then (.ready (), fd) else (.pending, { fd with readWaker := true })

/-- Poll for writability: ready when the flag is set, and otherwise pending with the waker registered. -/
def pollWriteReady (fd : AsyncFd) : Poll Unit × AsyncFd :=
  if fd.writeReady then (.ready (), fd) else (.pending, { fd with writeWaker := true })

/-- Clear the readiness for reading. -/
def clearReadReady (fd : AsyncFd) : AsyncFd := { fd with readReady := false }

/-- Clear the readiness for writing. -/
def clearWriteReady (fd : AsyncFd) : AsyncFd := { fd with writeReady := false }

end AsyncFd

/-- What a poll works on. The packets that have arrived so far are remembered for the statements only. -/
structure World where
  fd : AsyncFd
  ring : RingMem
  arrived : List Bytes

/-- Move `cur` and `tail` to one place. -/
def RingMem.moveTail (s : RingMem) (i : Nat) : RingMem := { s with cur := i, tail := i }

/-- Store the flags of a slot. -/
def RingMem.setFlags (s : RingMem) (i flags : Nat) : RingMem :=
  { s with slot := Function.update s.slot i { s.slot i with flags := flags } }

/-! ## Reading -/

/-- The caller's buffer: what has been put into it and how much it holds. -/
structure ReadBuf where
  filled : Bytes
  capacity : Nat
  deriving DecidableEq, Repr

/-- The room left in the buffer. -/
def ReadBuf.remaining (buf : ReadBuf) : Nat := buf.capacity - buf.filled.length

/-- Put bytes into the buffer, behind those in it. -/
def ReadBuf.putSlice (buf : ReadBuf) (bytes : Bytes) : ReadBuf := { buf with filled := buf.filled ++ bytes }

/-- What happens outside a call of `poll_read`: the ioctl, the error that polling the descriptor may report, and what else
acts on the ring and the descriptor before the descriptor is polled, before its readiness is cleared, and before `head` is
read again. -/
structure ReadEnv where
  ioctl : World → Except Int World
  beforePoll : World → World
  pollErr : Option Int
  beforeClear : World → World
  beforeRecheck : World → World

/-- Nothing acts during a call, and the ioctl changes nothing. -/
def ReadEnv.quiet : ReadEnv :=
  { ioctl := .ok, beforePoll := id, pollErr := none, beforeClear := id, beforeRecheck := id }

/-- What a call of `poll_read` leaves. The slot it read, if it read one, is there for the statements only. -/
structure PollRead where
  result : Poll (Except IoError Unit)
  buf : ReadBuf
  world : World
  slotRead : Option Nat

namespace AsyncNetmapRxRing

/-- The part of `poll_read` for an empty ring: the result to return, or none to go on. -/
def waitReadable (env : ReadEnv) (w : World) (tail : Nat) : Option (Poll (Except IoError Unit)) × World :=
  let w := env.beforePoll w
  match env.pollErr with
  | some errno => (some (.ready (.error (.os errno))), w)
  | none =>
    match w.fd.pollReadReady with
    | (.pending, fd) => (some .pending, { w with fd := fd })
    | (.ready (), fd) =>
      let w := env.beforeClear { w with fd := fd }
      let w := env.beforeRecheck { w with fd := w.fd.clearReadReady }
      if w.ring.head = tail then (some .pending, w) else (none, w)

/-- The part of `poll_read` that takes a packet: as much of it as there is room for goes into the buffer. A packet without
bytes and a buffer without room put nothing there. -/
def takePacket (w : World) (tail numSlots : Nat) (buf : ReadBuf) : Outcome PollRead := do
  let currentSlotIdx ← rem tail numSlots
  let packetLen := (w.ring.slot currentSlotIdx).len
  let buf' :=
    if packetLen = 0 ∨ buf.remaining = 0 then
      buf
    else
      buf.putSlice (ByteMem.read w.ring.mem (w.ring.bufPtr currentSlotIdx) (min packetLen buf.remaining))
  let next ← add 32 tail 1
  let newTail ← rem next numSlots
  .ok {
    result := .ready (.ok ())
    buf := buf'
    world := { w with ring := w.ring.moveTail newTail }
    slotRead := some currentSlotIdx }

/-- Attempt to read from the ring into the buffer. Every pass of the loop returns, so there is one. -/
def pollRead (env : ReadEnv) (w : World) (buf : ReadBuf) : Outcome PollRead :=
  match env.ioctl w with
  | .error errno => .ok { result := .ready (.error (.os errno)), buf := buf, world := w, slotRead := none }
  | .ok w =>
    let head := w.ring.head
    let tail := w.ring.tail
    let numSlots := w.ring.numSlots
    if head = tail then
      match waitReadable env w tail with
      | (some result, w) => .ok { result := result, buf := buf, world := w, slotRead := none }
      | (none, w) => takePacket w tail numSlots buf
    else
      takePacket w tail numSlots buf

end AsyncNetmapRxRing

/-! ## Writing -/

/-- What happens outside one pass of the loop of `poll_write`: the error that polling the descriptor may report, and what
else acts on the ring and the descriptor before the descriptor is polled, before its readiness is cleared, and before the
next pass. -/
structure WriteEnv where
  beforePoll : World → World
  pollErr : Option Int
  beforeClear : World → World
  beforeNext : World → World

namespace AsyncNetmapTxRing

/-- One pass of the loop of `poll_write`: the result to return, or none to try again. -/
def pollWritePass (env : WriteEnv) (w : World) (buf : Bytes) : Outcome (Option (Poll (Except IoError Nat)) × World) := do
  let head := w.ring.head
  let tail := w.ring.tail
  let numSlots := w.ring.numSlots
  let maxPayload := w.ring.nrBufSize
  let next ← add 32 head 1
  let newHead ← rem next numSlots
  let isFull := newHead == tail
  if isFull then
    let w := env.beforePoll w
    match env.pollErr with
    | some errno => .ok (some (.ready (.error (.os errno))), w)
    | none =>
      match w.fd.pollWriteReady with
      | (.pending, fd) => .ok (some .pending, { w with fd := fd })
      | (.ready (), fd) =>
        let w := env.beforeClear { w with fd := fd }
        .ok (none, env.beforeNext { w with fd := w.fd.clearWriteReady })
  else if buf = [] then
    .ok (some (.ready (.ok 0)), w)
  else if buf.length > maxPayload then
    .ok (some (.ready (.error (.invalidInput (.packetTooLarge buf.length)))), w)
  else do
    let currentSlotIdx ← rem head numSlots
    let ring := w.ring.store (w.ring.bufPtr currentSlotIdx) buf
    let ring := (ring.setLen currentSlotIdx (cast 16 buf.length)).setFlags currentSlotIdx 0
    .ok (some (.ready (.ok buf.length)), { w with ring := ring.moveHead newHead })

/-- Attempt to write a packet into the ring: one pass for each of the given surroundings, up to the first that returns. No
result means that the loop is still running. -/
def pollWrite : List WriteEnv → World → Bytes → Outcome (Option (Poll (Except IoError Nat)) × World)
  | [], w, _ => .ok (none, w)
  | env :: envs, w, buf => do
    let (result, w') ← pollWritePass env w buf
    match result with
    | some r => .ok (some r, w')
    | none => pollWrite envs w' buf

/-- Flush the packets written to the NIC: the ioctl NIOCTXSYNC. -/
def pollFlush (ioctl : World → Except Int World) (w : World) : Poll (Except IoError Unit) × World :=
  match ioctl w with
  | .error errno => (.ready (.error (.os errno)), w)
  | .ok w' => (.ready (.ok ()), w')

/-- Shut down the write side: flush. -/
def pollShutdown (ioctl : World → Except Int World) (w : World) : Poll (Except IoError Unit) × World :=
  match pollFlush ioctl w with
  | (.ready (.ok ()), w') => (.ready (.ok ()), w')
  | (.ready (.error e), w') => (.ready (.error e), w')
  | (.pending, w') => (.pending, w')

end AsyncNetmapTxRing

end NetHelper
