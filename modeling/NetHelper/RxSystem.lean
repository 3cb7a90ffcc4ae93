import NetHelper.Lib.Fifo
import NetHelper.Window

/-!
# An RX ring in use

The parties of an RX ring. The kernel, at an RX sync, puts arriving packets into the slots from `tail` on and moves `tail`
past them, never as far as `head`; it leaves the packets in the window alone and may do what it likes with the other slots
and their buffers (`RxSync`). The application receives one packet or a batch. In a second system the application also keeps
the frames a batch gave it, each with the bytes it showed when it was handed out.
-/

namespace NetHelper

open Checked RingMem

/-- The kernel's RX sync with the packets `ps` arriving. -/
structure RxSync (s : RingMem) (ps : List Bytes) (s' : RingMem) : Prop where
  addr : s'.addr = s.addr
  bufOfs : s'.bufOfs = s.bufOfs
  numSlots : s'.numSlots = s.numSlots
  nrBufSize : s'.nrBufSize = s.nrBufSize
  head : s'.head = s.head
  cur : s'.cur = s.cur
  bufIdx : ∀ i, (s'.slot i).bufIdx = (s.slot i).bufIdx
  room : s.free + ps.length < s.numSlots
  tail : s'.tail = Circ.adv s.numSlots s.tail ps.length
  kept : ∀ i ∈ s.owned, s'.slot i = s.slot i ∧ s'.packetAt i = s.packetAt i
  stored : (Circ.span s.numSlots s.tail ps.length).map s'.packetAt = ps
  fits : ∀ p ∈ ps, p.length ≤ min s.nrBufSize 65535

/-- A kernel that puts the arriving packets into the slots from `tail` on, one by one, and does nothing else. -/
def RingMem.deliver (s : RingMem) : List Bytes → RingMem
  | [] => s
  | p :: ps => RingMem.deliver { s.fill s.tail p with tail := Circ.adv s.numSlots s.tail 1 } ps

/-- The packets waiting in an RX ring, in order. -/
def RingMem.waiting (s : RingMem) : List Bytes := s.owned.map s.packetAt

/-! ## Receiving -/

/-- The steps of an RX ring, with what is seen of them: the payloads handed out, read at that moment, and the arrivals. -/
inductive RxEvent where
  | recv (payload : Option Bytes)
  | recvBatch (room : Nat) (payloads : List Bytes)
  | sync (arrivals : List Bytes)

/-- The steps of an RX ring. -/
inductive RxStep : RingMem → RxEvent → RingMem → Prop where
  | recv {s s' : RingMem} {f : Option Frame} (hc : RxRing.recv s = .ok (f, s')) :
      RxStep s (.recv (f.map (fun f => f.payload s'.mem))) s'
  | recvBatch {s s' : RingMem} {batch batch' : List Frame} {count : Nat}
      (hc : RxRing.recvBatch s batch = .ok (count, batch', s')) :
      RxStep s (.recvBatch batch.length ((batch'.take count).map (fun f => f.payload s'.mem))) s'
  | sync {s s' : RingMem} {ps : List Bytes} (hk : RxSync s ps s') : RxStep s (.sync ps) s'

/-- The queue between the kernel and the application: arrivals go in, the payloads handed out come out. -/
def RxEvent.act : RxEvent → Fifo.Act Bytes
  | .recv payload => .take payload.toList
  | .recvBatch _ payloads => .take payloads
  | .sync arrivals => .put arrivals

/-- The payloads handed out in a run, in order. -/
def RxEvent.handedOut (es : List RxEvent) : List Bytes := (es.map RxEvent.act).flatMap Fifo.Act.outs

/-- The packets that arrived in a run, in order. -/
def RxEvent.arrived (es : List RxEvent) : List Bytes := (es.map RxEvent.act).flatMap Fifo.Act.ins

/-! ## Keeping frames -/

/-- Sync the RX queue: the ioctl NIOCRXSYNC. When it fails the error is printed and nothing else happens. -/
def RxRing.sync (ioctl : RingMem → Except Int RingMem) (s : RingMem) : RingMem :=
  match ioctl s with
  | .ok s' => s'
  | .error _ => s

/-- A frame the application holds, with the payload it showed when it was handed out. -/
structure HeldFrame where
  frame : Frame
  seen : Bytes

/-- An RX ring and the frames held. -/
structure FrameSys where
  ring : RingMem
  held : List HeldFrame

/-- The steps of an application that receives batches and keeps frames. -/
inductive FrameEvent where
  | recvBatch (room : Nat)
  | release
  | sync (ioctl : RingMem → Except Int RingMem)
  | kernel (arrivals : List Bytes)

/-- The steps: a batch hands out frames, frames are let go of, the application syncs the ring (the ioctl is a kernel RX sync
when it succeeds), the kernel syncs it on its own. -/
inductive FrameStep : FrameSys → FrameEvent → FrameSys → Prop where
  | recvBatch {s : FrameSys} {batch batch' : List Frame} {count : Nat} {ring' : RingMem}
      (hc : RxRing.recvBatch s.ring batch = .ok (count, batch', ring')) :
      FrameStep s (.recvBatch batch.length)
        { ring := ring', held := s.held ++ (batch'.take count).map (fun f => ⟨f, f.payload ring'.mem⟩) }
  | release {s : FrameSys} {kept : List HeldFrame} (hk : kept.Sublist s.held) :
      FrameStep s .release { s with held := kept }
  | sync {s : FrameSys} {ioctl : RingMem → Except Int RingMem}
      (hk : ∀ s', ioctl s.ring = .ok s' → ∃ ps, RxSync s.ring ps s') :
      FrameStep s (.sync ioctl) { s with ring := RxRing.sync ioctl s.ring }
  | kernel {s : FrameSys} {ps : List Bytes} {ring' : RingMem} (hk : RxSync s.ring ps ring') :
      FrameStep s (.kernel ps) { s with ring := ring' }

end NetHelper
