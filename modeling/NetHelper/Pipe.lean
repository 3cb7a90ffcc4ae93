import NetHelper.Lib.Series
import NetHelper.RxSystem
import NetHelper.Theorems.TxProtocol

/-!
# The two ends of a pipe

A netmap pipe, which `NetmapBuilder` opens under a name of its own, has a TX and an RX ring at each of its ends. What the
kernel takes from the TX ring of one end it delivers, in order, to the RX ring of the other. One direction of a pipe is a TX
ring and an RX ring in series; both are in use as `TxSystem.lean` and `RxSystem.lean` say.
-/

namespace NetHelper

/-- One direction of a pipe: the TX ring of one end, the packets taken from it and not delivered yet, and the RX ring of the
other end. -/
abbrev Pipe : Type := Fifo.Series TxSys RingMem Bytes

/-- The steps of the users of the two ends, each finishing its reservations one by one, and of the kernel. -/
def PipeStep : Pipe → TxEvent ⊕ RxEvent → Pipe → Prop :=
  Fifo.SeriesStep DisciplinedStep (fun e => e.act.outs) RxStep (fun e => e.act.ins)

/-- An RX ring at which nothing waits. -/
structure RingMem.Quiescent (s : RingMem) : Prop where
  valid : s.Valid
  empty : s.head = s.tail

namespace RingMem.Quiescent

variable {s : RingMem}

theorem owned (h : s.Quiescent) : s.owned = [] := by
  rw [RingMem.owned, h.empty]
  exact Circ.window_self h.valid.tail_lt

theorem waiting (h : s.Quiescent) : s.waiting = [] := by
  rw [RingMem.waiting, h.owned, List.map_nil]

theorem fresh {n size head : Nat} (h : n ≤ 2 ^ 31 ∧ head < n) : (RingMem.fresh n size head head).Quiescent :=
  ⟨fresh_valid h.1 h.2 h.2, rfl⟩

end RingMem.Quiescent

/-- An RX ring that is ready for packets of the given size: nothing waits at it, and it has a slot to deliver into, with a buffer
no smaller. -/
structure RingMem.ReadyFor (s : RingMem) (size : Nat) : Prop where
  quiescent : s.Quiescent
  distinct : s.DistinctBufs
  slots : 2 ≤ s.numSlots
  size_le : size ≤ s.nrBufSize

theorem RingMem.ReadyFor.fresh {n size size' head : Nat} (h : n ≤ 2 ^ 31 ∧ head < n ∧ 2 ≤ n ∧ size' ≤ size) :
    (RingMem.fresh n size head head).ReadyFor size' :=
  ⟨Quiescent.fresh ⟨h.1, h.2.1⟩, fresh_distinct n size head head, h.2.2.1, h.2.2.2⟩

/-- A pipe a run may start from: nothing published or reserved at one end and nothing between, and the other end ready for what
one buffer of the first holds. -/
structure Pipe.Start (s : Pipe) : Prop where
  tx : s.left.Start
  rx : s.right.ReadyFor s.left.ring.nrBufSize
  link : s.link = []

/-- The packets accepted at one end, in order. -/
def Pipe.accepted (es : List (TxEvent ⊕ RxEvent)) : List Bytes := TxEvent.accepted (Fifo.lefts es)

/-- The payloads handed out at the other end, in order. -/
def Pipe.handedOut (es : List (TxEvent ⊕ RxEvent)) : List Bytes := RxEvent.handedOut (Fifo.rights es)

end NetHelper
