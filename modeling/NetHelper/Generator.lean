import NetHelper.Lib.Mm512
import NetHelper.Ring

/-!
# The packet generator

The program of the crate (`main.rs`), on a machine with AVX-512: a packet of sixteen lanes is changed a little for each
packet sent, and the loop fills one reservation of everything after another with such packets. An aligned store to an
address that is not a multiple of 64 faults, so a piece of the program may stop for more reasons than a panic (`Stop`). The
signed lanes of the source are unsigned here, bit for bit.
-/

namespace NetHelper

open Checked Mm512

/-! ## The template -/

namespace Generator

/-- The destination MAC address. -/
def dstMac : UInt64 := 0xDDCCBBAA2211

/-- The source MAC address. -/
def srcMac : UInt64 := 0xFFEE66554433

def elem0 : UInt32 := ((dstMac >>> 16) &&& 0xFFFFFFFF).toUInt32
def elem1 : UInt32 := (((dstMac &&& 0xFFFF) <<< 16) ||| ((srcMac >>> 32) &&& 0xFFFF)).toUInt32
def elem2 : UInt32 := (srcMac &&& 0xFFFFFFFF).toUInt32

/-- The EtherType, and the first half-word of the IP header. -/
def elem3 : UInt32 := 0x45000800

/-- The total length and the IP ID. -/
def elem4 : UInt32 := 0x0001002E

/-- The flags, the TTL and the protocol. -/
def elem5 : UInt32 := 0x40114000

/-- The checksum of the IP header, and the first half of the source IP. -/
def elem6 : UInt32 := 0xC0A80005

/-- The second half of the source IP, and the first half of the destination IP. -/
def elem7 : UInt32 := 0xC0A80101

def baseDstIpEnd : UInt32 := 0x010A
def baseSrcPort : UInt32 := 0x0050

/-- The second half of the destination IP, and the UDP source port. -/
def elem8 : UInt32 := (baseSrcPort <<< 16) ||| baseDstIpEnd

def baseDstPort : UInt32 := 0x1F90
def udpLen : UInt32 := 0x001A

/-- The UDP destination port and the UDP length. -/
def elem9 : UInt32 := (udpLen <<< 16) ||| baseDstPort

/-- The packet the others are made from. -/
def templateZmm : Zmm :=
  setEpi32 0 0 0 0 0 0 elem9 elem8 elem7 elem6 elem5 elem4 elem3 elem2 elem1 elem0

/-! ## The next packet -/

/-- What is added for each packet. -/
def incrementZmm : Zmm := setEpi32 0 0 0 0 0 0 1 1 0 0 0 0 0 0 0 0

/-- What is subtracted for each packet. -/
def checksumDecrementZmm : Zmm := setEpi32 0 0 0 0 0 0 0 0 0 ((1 : UInt32) <<< 16) 0 0 0 0 0 0

/-- The lanes at which the correction is made. -/
def checksumZeroTrigger : Zmm := setEpi32 0 0 0 0 0 0 0 0 0 0x0000C0A8 0 0 0 0 0 0

/-- The correction. -/
def checksumCorrectionZmm : Zmm := setEpi32 0 0 0 0 0 0 0 0 0 ((1 : UInt32) <<< 16) 0 0 0 0 0 0

/-- The lanes that are taken over into the next packet; the others are the template's. -/
def blendMask : Mask := maskOfBits 0xD0

/-- The packet after the current one. -/
def nextPacket (currentPacketZmm : Zmm) : Zmm :=
  let nextFieldsZmm := addEpi32 currentPacketZmm incrementZmm
  let nextFieldsZmm := subEpi32 nextFieldsZmm checksumDecrementZmm
  let cmpMask := cmpeqEpi32Mask nextFieldsZmm checksumZeroTrigger
  let nextFieldsZmm := maskSubEpi32 nextFieldsZmm cmpMask nextFieldsZmm checksumCorrectionZmm
  maskBlendEpi32 blendMask templateZmm nextFieldsZmm

/-- The packet after so many others. -/
def packetAfter (currentPacketZmm : Zmm) : Nat → Zmm
  | 0 => currentPacketZmm
  | k + 1 => nextPacket (packetAfter currentPacketZmm k)

def payloadZmm1 : Zmm := set1Epi8 0xAA
def payloadZmm2 : Zmm := set1Epi8 0xBB
def payloadZmm3 : Zmm := set1Epi8 0xCC

/-! ## The send loop -/

/-- Why a piece of the program stops: a panic, or an aligned store to an address that is not aligned. -/
inductive Stop where
  | panic (p : Panic)
  | misaligned (addr : Nat)
  deriving DecidableEq, Repr

/-- A piece of the program: its value, or why it stopped. -/
abbrev Exec (α : Type) := Except Stop α

/-- A call of a function of the crate. -/
def call {α : Type} : Outcome α → Exec α
  | .ok a => .ok a
  | .error p => .error (.panic p)

/-- Store a register at an address that is a multiple of 64 (`_mm512_stream_si512`). -/
def streamSi512 (s : RingMem) (addr : Nat) (v : Zmm) : Exec RingMem :=
  if addr % 64 = 0 then .ok (s.store addr (bytes v)) else .error (.misaligned addr)

/-- Filling a batch: the ring, the packet to store next, and how many have been stored. The slices handed out, and the places
stored to for each, are remembered for the statements only. -/
structure Filling where
  ring : RingMem
  currentPacketZmm : Zmm
  packetsWritten : Nat
  stored : List (Slice × Slice)

/-- Store the packet and the payload for one entry of the batch. -/
def fillEntry (batch : BatchReservation) (f : Filling) (z : Nat) : Exec Filling := do
  let (res, ring) ← call (batch.packet f.ring z 64)
  match res with
  | .error _ => .ok { f with ring := ring }
  | .ok dstPtr => do
    let ring ← streamSi512 ring dstPtr.addr f.currentPacketZmm
    let ring ← streamSi512 ring (dstPtr.addr + 64) payloadZmm1
    let ring ← streamSi512 ring (dstPtr.addr + 128) payloadZmm2
    let ring ← streamSi512 ring (dstPtr.addr + 192) payloadZmm3
    .ok {
      ring := ring
      currentPacketZmm := nextPacket f.currentPacketZmm
      packetsWritten := f.packetsWritten + 1
      stored := f.stored ++
        [(dstPtr, { addr := dstPtr.addr, len := 64 }), (dstPtr, { addr := dstPtr.addr + 64, len := 64 }),
          (dstPtr, { addr := dstPtr.addr + 128, len := 64 }), (dstPtr, { addr := dstPtr.addr + 192, len := 64 })] }

/-- The loop over the entries of a batch: `k` more, the next of them `z`. -/
def fillLoop (batch : BatchReservation) : (k z : Nat) → Filling → Exec Filling
  | 0, _, f => .ok f
  | k + 1, z, f => do
    let f ← fillEntry batch f z
    fillLoop batch k (z + 1) f

/-- The program between two rounds of the send loop: the ring, the packet to send next and the counter. -/
structure Sender where
  ring : RingMem
  currentPacketZmm : Zmm
  i : Nat

/-- How a round of the send loop ends: with another to follow, or by leaving the loop. -/
inductive Round where
  | next (s : Sender)
  | leave (s : Sender)

/-- One round of the send loop. The syncs in it are the kernel's business. -/
def sendRound (s : Sender) : Exec Round := do
  let res ← call (TxRing.reserveAll s.ring)
  match res with
  | .ok (batch, count) => do
    let f ← fillLoop batch count 0
      { ring := s.ring, currentPacketZmm := s.currentPacketZmm, packetsWritten := 0, stored := [] }
    let ring ← call (batch.commit f.ring f.packetsWritten)
    .ok (.next { ring := ring, currentPacketZmm := f.currentPacketZmm, i := s.i + 1 })
  | .error .insufficientSpace => .ok (.next s)
  | .error _ => .ok (.leave s)

end Generator

end NetHelper
