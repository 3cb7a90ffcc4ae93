import Mathlib.Logic.Function.Basic
import NetHelper.Error
import NetHelper.Frame
import NetHelper.Lib.Fifo

/-!
# The fallback rings

The rings for platforms without netmap (`fallback.rs`). A ring handle holds a reference to a queue, and the two handles of a
channel hold the same one. The queues live in a heap that the functions take and return. Each call holds the lock of its
queue from the first line to the last and cannot panic in between, so a call is one step and the lock is never poisoned.
-/

namespace NetHelper

/-- The queues allocated so far, by reference. -/
structure Heap where
  next : Nat
  queue : Nat → List Bytes

namespace Heap

/-- Allocate an empty queue. -/
def alloc (h : Heap) : Nat × Heap := (h.next, { next := h.next + 1, queue := Function.update h.queue h.next [] })

/-- Store a queue. -/
def set (h : Heap) (r : Nat) (q : List Bytes) : Heap := { h with queue := Function.update h.queue r q }

@[simp] theorem set_queue_self (h : Heap) (r : Nat) (q : List Bytes) : (h.set r q).queue r = q := by
  simp [set]

end Heap

/-- A reference to a queue, and its capacity. -/
structure SharedRing where
  queue : Nat
  maxSize : Nat
  deriving DecidableEq, Repr

/-- The fallback implementation of a TX ring. -/
structure FallbackTxRing where
  ring : SharedRing
  deriving DecidableEq, Repr

/-- The fallback implementation of an RX ring. -/
structure FallbackRxRing where
  ring : SharedRing
  deriving DecidableEq, Repr

/-- Create a new fallback TX ring, with a queue of its own. -/
def FallbackTxRing.new (maxSize : Nat) (h : Heap) : FallbackTxRing × Heap :=
  let (queue, h') := h.alloc
  ({ ring := { queue := queue, maxSize := maxSize } }, h')

/-- Send a packet. -/
def FallbackTxRing.send (tx : FallbackTxRing) (h : Heap) (buf : Bytes) : Except Error Unit × Heap :=
  let queue := h.queue tx.ring.queue
  if queue.length ≥ tx.ring.maxSize then
    (.error .wouldBlock, h)
  else
    (.ok (), h.set tx.ring.queue (queue ++ [buf]))

/-- Create a new fallback RX ring, with a queue of its own. -/
def FallbackRxRing.new (maxSize : Nat) (h : Heap) : FallbackRxRing × Heap :=
  let (queue, h') := h.alloc
  ({ ring := { queue := queue, maxSize := maxSize } }, h')

/-- Receive a packet. -/
def FallbackRxRing.recv (rx : FallbackRxRing) (h : Heap) : Option Frame × Heap :=
  match h.queue rx.ring.queue with
  | [] => (none, h)
  | buf :: queue => (some (Frame.newOwned buf), h.set rx.ring.queue queue)

/-- Create a connected pair of fallback TX and RX rings. -/
def createFallbackChannel (maxSize : Nat) (h : Heap) : (FallbackTxRing × FallbackRxRing) × Heap :=
  let (queue, h') := h.alloc
  let sharedRing : SharedRing := { queue := queue, maxSize := maxSize }
  (({ ring := sharedRing }, { ring := sharedRing }), h')

/-! ## A channel in use -/

/-- The steps of the users of a channel, with what is seen of them. -/
inductive ChannelEvent where
  | send (buf : Bytes) (res : Except Error Unit)
  | recv (frame : Option Frame)

/-- The steps of a channel: any user of one of its handles makes a call. -/
inductive ChannelStep (tx : FallbackTxRing) (rx : FallbackRxRing) : Heap → ChannelEvent → Heap → Prop where
  | send {h h' : Heap} {buf : Bytes} {res : Except Error Unit} (hc : tx.send h buf = (res, h')) :
      ChannelStep tx rx h (.send buf res) h'
  | recv {h h' : Heap} {frame : Option Frame} (hc : rx.recv h = (frame, h')) : ChannelStep tx rx h (.recv frame) h'

namespace ChannelEvent

/-- Whether a step is a send that succeeds. -/
def isSent : ChannelEvent → Bool
  | .send _ (.ok _) => true
  | _ => false

/-- Whether a step is a receive that returns a frame. -/
def isReceived : ChannelEvent → Bool
  | .recv (some _) => true
  | _ => false

/-- What a step does to the queue, with the payloads of frames read in the memory `mem`. -/
def act (mem : Memory) : ChannelEvent → Fifo.Act Bytes
  | .send buf (.ok _) => .put [buf]
  | .send _ (.error _) => .put []
  | .recv frame => .take (frame.map (fun f => f.payload mem)).toList

/-- The payloads of the sends that succeeded, in order. -/
def sent (mem : Memory) (es : List ChannelEvent) : List Bytes := (es.map (act mem)).flatMap Fifo.Act.ins

/-- The payloads received, in order. -/
def received (mem : Memory) (es : List ChannelEvent) : List Bytes := (es.map (act mem)).flatMap Fifo.Act.outs

end ChannelEvent

/-! ## Many rings in use -/

/-- The heap, and the handles that were made on it. -/
structure FallbackRings where
  heap : Heap
  txs : List FallbackTxRing
  rxs : List FallbackRxRing

/-- What every handle refers to. -/
def FallbackRings.rings (s : FallbackRings) : List SharedRing :=
  s.txs.map FallbackTxRing.ring ++ s.rxs.map FallbackRxRing.ring

/-- The steps of a program with fallback rings, with what is seen of them. -/
inductive FallbackEvent where
  | newTx (maxSize : Nat)
  | newRx (maxSize : Nat)
  | channel (maxSize : Nat)
  | send (tx : FallbackTxRing) (buf : Bytes) (res : Except Error Unit)
  | recv (rx : FallbackRxRing) (frame : Option Frame)

/-- Rings and channels are made, and any of the handles made so far is used. -/
inductive FallbackStep : FallbackRings → FallbackEvent → FallbackRings → Prop where
  | newTx {s : FallbackRings} {maxSize : Nat} {tx : FallbackTxRing} {h' : Heap}
      (hc : FallbackTxRing.new maxSize s.heap = (tx, h')) :
      FallbackStep s (.newTx maxSize) { s with heap := h', txs := tx :: s.txs }
  | newRx {s : FallbackRings} {maxSize : Nat} {rx : FallbackRxRing} {h' : Heap}
      (hc : FallbackRxRing.new maxSize s.heap = (rx, h')) :
      FallbackStep s (.newRx maxSize) { s with heap := h', rxs := rx :: s.rxs }
  | channel {s : FallbackRings} {maxSize : Nat} {tx : FallbackTxRing} {rx : FallbackRxRing} {h' : Heap}
      (hc : createFallbackChannel maxSize s.heap = ((tx, rx), h')) :
      FallbackStep s (.channel maxSize) { heap := h', txs := tx :: s.txs, rxs := rx :: s.rxs }
  | send {s : FallbackRings} {tx : FallbackTxRing} {buf : Bytes} {res : Except Error Unit} {h' : Heap} (htx : tx ∈ s.txs)
      (hc : tx.send s.heap buf = (res, h')) : FallbackStep s (.send tx buf res) { s with heap := h' }
  | recv {s : FallbackRings} {rx : FallbackRxRing} {frame : Option Frame} {h' : Heap} (hrx : rx ∈ s.rxs)
      (hc : rx.recv s.heap = (frame, h')) : FallbackStep s (.recv rx frame) { s with heap := h' }

namespace FallbackEvent

/-- A step, as seen at the queue `r`. -/
def at? (r : Nat) : FallbackEvent → Option ChannelEvent
  | .send tx buf res => if tx.ring.queue = r then some (.send buf res) else none
  | .recv rx frame => if rx.ring.queue = r then some (.recv frame) else none
  | _ => none

/-- The steps at the queue `r`, in order. -/
def eventsAt (r : Nat) (es : List FallbackEvent) : List ChannelEvent := es.filterMap (at? r)

end FallbackEvent

end NetHelper
