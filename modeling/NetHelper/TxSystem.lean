import NetHelper.Lib.Fifo
import NetHelper.Window

/-!
# A TX ring in use

The parties of a TX ring and the order of their steps. The application sends packets and takes, fills, commits and drops
reservations, any number of them held at once; the kernel, at a TX sync, consumes the slots from the head it saw last up to
`ring.head` and gives finished slots back by moving `tail`. Every step of the application is a call of a function of
`Ring.lean`; a held reservation also remembers, for the statements only, what its holder stored at each index.
-/

namespace NetHelper

open Checked

/-- The kernel's TX sync moves `tail` over the slots it has finished with. -/
def RingMem.txSync (s : RingMem) (freed : Nat) : RingMem := { s with tail := Circ.adv s.numSlots s.tail freed }

/-- The ring `t` is the ring `s` after TX syncs at which the kernel has given slots back. -/
def RingMem.Synced (s t : RingMem) : Prop := ∃ freed, s.free + freed < s.numSlots ∧ t = s.txSync freed

namespace RingMem

variable {s t : RingMem}

theorem free_txSync (h : s.Valid) {freed : Nat} (hroom : s.free + freed < s.numSlots) :
    (s.txSync freed).free = s.free + freed := Circ.dist_adv_add h.head_lt h.tail_lt hroom

theorem Valid.txSync (h : s.Valid) (freed : Nat) : (s.txSync freed).Valid :=
  ⟨h.pos, h.le, h.head_lt, h.cur_eq, Circ.adv_lt h.numSlots_pos⟩

/-- No sync is a sync that gives no slot back. -/
theorem Valid.synced (h : s.Valid) : s.Synced s := by
  refine ⟨0, h.free_lt, ?_⟩
  rw [RingMem.txSync, Circ.adv_zero h.tail_lt]

theorem Synced.valid (h : s.Valid) (hs : s.Synced t) : t.Valid := by
  obtain ⟨freed, _, rfl⟩ := hs
  exact h.txSync freed

theorem sameBufs_txSync (freed : Nat) : SameBufs s (s.txSync freed) := ⟨rfl, rfl, rfl, rfl, fun _ => rfl⟩

theorem Synced.sameBufs (hs : s.Synced t) : SameBufs s t := by
  obtain ⟨freed, _, rfl⟩ := hs
  exact sameBufs_txSync freed

end RingMem

/-- What is left by a system call on the descriptor of a ring: what it made of the ring, or the ring as it was if it failed. -/
def TxRing.afterCall (f : RingMem → Except Int RingMem) (s : RingMem) : RingMem :=
  match f s with
  | .ok s' => s'
  | .error _ => s

/-- Sync the TX queue: the ioctl NIOCTXSYNC. When it fails the error is printed, unless the call was interrupted, and nothing
else happens. -/
def TxRing.syncIoctl (ioctl : RingMem → Except Int RingMem) (s : RingMem) : RingMem := TxRing.afterCall ioctl s

/-- Sync the TX queue: a poll for room, which lasts no longer than 10 ms. When it fails the error is printed and nothing else
happens. -/
def TxRing.sync (poll : RingMem → Except Int RingMem) (s : RingMem) : RingMem := TxRing.afterCall poll s

/-- A reservation in the hands of the application, with the packet stored last at each of its indices. -/
structure Held where
  res : BatchReservation
  filled : Nat → Option Bytes

/-- The packet stored at an index is the one stored last. -/
def Held.store (h : Held) (index : Nat) (bytes : Bytes) : Held :=
  { h with filled := Function.update h.filled index (some bytes) }

/-- The packets stored at the first `k` indices. -/
def Held.packets (h : Held) (k : Nat) : List Bytes := (List.range k).map (fun i => (h.filled i).getD [])

/-- A TX ring, the head the kernel saw last, and the reservations held. -/
structure TxSys where
  ring : RingMem
  khead : Nat
  held : List Held

namespace TxSys

/-- The slots published and not yet consumed: from the kernel's head up to `ring.head`. -/
def published (s : TxSys) : List Nat := Circ.window s.ring.numSlots s.khead s.ring.head

/-- The packets published and not yet consumed. -/
def inFlight (s : TxSys) : List Bytes := s.published.map s.ring.packetAt

/-- What a reserving call does to the reservations held. -/
def grant (s : TxSys) : Except Error BatchReservation → TxSys
  | .ok b => { s with held := s.held ++ [{ res := b, filled := fun _ => none }] }
  | .error _ => s

end TxSys

/-- The steps of a TX ring, with what is seen of them: the arguments and results of the calls, the packets the kernel takes.
-/
inductive TxEvent where
  | send (buf : Bytes) (res : Except Error Unit)
  | reserveAll (res : Except Error (BatchReservation × Nat))
  | reserveBatch (count : Nat) (res : Except Error BatchReservation)
  | packet (h : Held) (index : Nat) (bytes : Bytes) (res : Except Error Slice)
  | commit (h : Held) (written : Nat)
  | drop (h : Held)
  | sync (taken : List Bytes) (freed : Nat)

/-- The steps of a TX ring. A holder who asks for a packet fills the whole slice. -/
inductive TxStep : TxSys → TxEvent → TxSys → Prop where
  | send {s : TxSys} {buf : Bytes} {res : Except Error Unit} {ring' : RingMem}
      (hc : TxRing.send s.ring buf = .ok (res, ring')) : TxStep s (.send buf res) { s with ring := ring' }
  | reserveAll {s : TxSys} {res : Except Error (BatchReservation × Nat)} (hc : TxRing.reserveAll s.ring = .ok res) :
      TxStep s (.reserveAll res) (s.grant (res.map Prod.fst))
  | reserveBatch {s : TxSys} {count : Nat} {res : Except Error BatchReservation}
      (hc : TxRing.reserveBatch s.ring count = .ok res) : TxStep s (.reserveBatch count res) (s.grant res)
  | packet {s : TxSys} {l r : List Held} {h : Held} {index : Nat} {bytes : Bytes} {sl : Slice} {ring' : RingMem}
      (hh : s.held = l ++ h :: r) (hc : h.res.packet s.ring index bytes.length = .ok (.ok sl, ring')) :
      TxStep s (.packet h index bytes (.ok sl))
        { s with ring := ring'.store sl.addr bytes, held := l ++ h.store index bytes :: r }
  | packetErr {s : TxSys} {l r : List Held} {h : Held} {index : Nat} {bytes : Bytes} {e : Error} {ring' : RingMem}
      (hh : s.held = l ++ h :: r) (hc : h.res.packet s.ring index bytes.length = .ok (.error e, ring')) :
      TxStep s (.packet h index bytes (.error e)) { s with ring := ring' }
  | commit {s : TxSys} {l r : List Held} {h : Held} {written : Nat} {ring' : RingMem}
      (hh : s.held = l ++ h :: r) (hc : h.res.commit s.ring written = .ok ring') :
      TxStep s (.commit h written) { s with ring := ring', held := l ++ r }
  | drop {s : TxSys} {l r : List Held} {h : Held} (hh : s.held = l ++ h :: r) :
      TxStep s (.drop h) { s with held := l ++ r }
  | sync {s : TxSys} {freed : Nat} (hroom : s.ring.free + freed < s.ring.numSlots) :
      TxStep s (.sync s.inFlight freed) { s with ring := s.ring.txSync freed, khead := s.ring.head }

/-- The queue between the application and the kernel: a packet sent or committed goes in, what the kernel takes comes out.
-/
def TxEvent.act : TxEvent → Fifo.Act Bytes
  | .send buf (.ok _) => .put [buf]
  | .commit h written => .put (h.packets (min written h.res.count))
  | .sync taken _ => .take taken
  | _ => .put []

/-- The packets accepted by a run, in the order of the calls that accepted them. -/
def TxEvent.accepted (es : List TxEvent) : List Bytes := (es.map TxEvent.act).flatMap Fifo.Act.ins

/-- The packets the kernel has taken in a run, in order. -/
def TxEvent.consumed (es : List TxEvent) : List Bytes := (es.map TxEvent.act).flatMap Fifo.Act.outs

end NetHelper
