import NetHelper.MainLoop
import NetHelper.Netmap

/-!
# The program

`main` of the program of the crate, from its arguments to its end: the interface named by the first argument is opened, its first
TX ring is looked up, and on a machine with AVX-512 the main loop runs on that ring. What it prints is left out, and so is the
closing of the interface at its end.
-/

namespace NetHelper

open Checked

namespace Generator

/-- The number the main loop counts to. -/
def packetCount : Nat := 1000000

/-- What the program runs on: the netmap headers, `nm_open`, the ring that is in memory at an address, and whether the processor
has AVX-512. -/
structure Machine where
  ffi : Ffi
  nmOpen : NmOpen
  ringAt : Nat → RingMem
  avx512f : Bool

/-- How the program ends: with a panic when no interface is named, with an error, or by returning, with the loop as it was left
if there was one. -/
inductive Ending where
  | noInterface
  | failed (e : Error)
  | returned (s : Option Sender)

/-- The program, with the given surroundings for the rounds of its main loop. No ending means that the loop is still running. -/
def main (m : Machine) (ks : List Syncs) (args : List (List Char)) : Exec (Option Ending) :=
  match args[1]? with
  | none => .ok (some .noInterface)
  | some ifname =>
    match (NetmapBuilder.new ifname).build m.ffi m.nmOpen with
    | .error e => .ok (some (.failed e))
    | .ok nm =>
      match nm.txRing 0 with
      | .error e => .ok (some (.failed e))
      | .ok txRing =>
        if m.avx512f then do
          let s ← mainLoop packetCount ks { ring := m.ringAt txRing.ring.ring, currentPacketZmm := templateZmm, i := 0 }
          .ok (s.map (fun s => .returned (some s)))
        else
          .ok (some (.returned none))

end Generator

end NetHelper
