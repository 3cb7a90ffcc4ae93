import NetHelper.Generator
import NetHelper.TxSystem

/-!
# The main loop

The loop of `main.rs` with the syncs in it. After a batch is committed the loop syncs the ring; when the ring was full it syncs
it too, and then waits for room. What the kernel does at these calls is a parameter of a round (`Syncs`).
-/

namespace NetHelper

namespace Generator

/-- What the system calls of one round do. -/
structure Syncs where
  ioctl : RingMem → Except Int RingMem
  poll : RingMem → Except Int RingMem

/-- One round of the main loop. -/
def mainRound (k : Syncs) (s : Sender) : Exec Round := do
  let res ← call (TxRing.reserveAll s.ring)
  match res with
  | .ok (batch, count) => do
    let f ← fillLoop batch count 0
      { ring := s.ring, currentPacketZmm := s.currentPacketZmm, packetsWritten := 0, stored := [] }
    let ring ← call (batch.commit f.ring f.packetsWritten)
    .ok (.next { ring := TxRing.syncIoctl k.ioctl ring, currentPacketZmm := f.currentPacketZmm, i := s.i + 1 })
  | .error .insufficientSpace =>
    -- the ring is full: sync it in case the last sync failed, and wait for the NIC
    .ok (.next { s with ring := TxRing.sync k.poll (TxRing.syncIoctl k.ioctl s.ring) })
  | .error _ => .ok (.leave s)

/-- The main loop for so many packets: one round for each of the given surroundings, as long as the counter is below that
number. No result means that the loop is still running. -/
def mainLoop (packetCount : Nat) : List Syncs → Sender → Exec (Option Sender)
  | [], s => if s.i < packetCount then .ok none else .ok (some s)
  | k :: ks, s =>
    if s.i < packetCount then do
      let round ← mainRound k s
      match round with
      | .next s' => mainLoop packetCount ks s'
      | .leave s' => .ok (some s')
    else
      .ok (some s)

end Generator

end NetHelper
