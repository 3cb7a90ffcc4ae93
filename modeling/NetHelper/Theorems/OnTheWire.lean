import NetHelper.Theorems.GeneratorStream

/-!
# The packets on the wire

Of the generated packets nothing changes but the source IP, which comes round after 65536 packets, and the checksum is not brought
up to date. So it is the same 65536 packets over and over that leave the program, and one of them has the right checksum
(`packets_on_the_wire`).
-/

namespace NetHelper

open Mm512 Generator

namespace Generator

/-- The EtherType of a frame. -/
def etherType (p : Bytes) : Bytes := (p.drop 12).take 2

/-- The IP header of a frame, when it has no options. -/
def frameHeader (p : Bytes) : Bytes := (p.drop 14).take 20

/-- The checksum of the IP header of a frame is right: its words sum to all ones. -/
def ChecksumRight (p : Bytes) : Prop := OnesComplement.sum (OnesComplement.words (frameHeader p)) = 65535

end Generator

namespace OnTheWireAux

open GeneratedPacketsAux GeneratorStreamAux

/-! ## One packet -/

/-- Packets are the same when their numbers are, modulo 65536. -/
theorem bytes_generated_eq_iff (j l : Nat) : bytes (generated j) = bytes (generated l) ↔ j % 65536 = l % 65536 := by
  rw [bytes_inj, generated_eq, generated_eq]
  constructor
  · intro h
    have hlane : (lane6 j).toNat = (lane6 l).toNat := congrArg UInt32.toNat (congrFun h 6)
    rw [toNat_lane6, toNat_lane6] at hlane
    omega
  · intro h
    have hlane : lane6 j = lane6 l := by
      rw [← UInt32.toNat_inj, toNat_lane6, toNat_lane6]
      omega
    rw [hlane]

theorem frameHeader_bytes (v : Zmm) : frameHeader (bytes v) = ipHeader v := by
  refine List.ext_getElem (by simp [frameHeader, ipHeader]) ?_
  intro i h _
  simp [frameHeader, ipHeader, bytes]

/-- The checksum is right when the sum of the header is nothing modulo `0xFFFF`, for its first word is not zero. -/
theorem checksumRight_iff (k : Nat) : ChecksumRight (bytes (generated k)) ↔ headerSum (generated k) = 0 := by
  rw [ChecksumRight, frameHeader_bytes, headerSum]
  refine OnesComplement.sum_eq_allOnes_iff (fun w => OnesComplement.le_of_mem_words) ?_
  rw [generated_eq, words_withLane6]
  exact ⟨0x0045, List.mem_cons_self, by decide⟩

/-- One packet in 65536 has the right checksum. -/
theorem checksumRight_generated (k : Nat) : ChecksumRight (bytes (generated k)) ↔ k % 65536 = 18594 := by
  have hlt : (0xC0A8 + 65535 * k) % 65536 < 65536 := Nat.mod_lt _ (by decide)
  rw [checksumRight_iff, generated_eq, headerSum_withLane6 hlt (toNat_lane6 k)]
  omega

/-- The EtherType of every packet is the template's. -/
theorem etherType_generated (k : Nat) : etherType (bytes (generated k)) = [0x00, 0x08] := by
  have h12 : byte (generated k) 12 = 0x00 := (byte_generated (by decide) (by decide)).trans (by decide)
  have h13 : byte (generated k) 13 = 0x08 := (byte_generated (by decide) (by decide)).trans (by decide)
  rw [← h12, ← h13]
  rfl

/-! ## The packets taken -/

/-- The packets taken are the generated ones, by their place. -/
theorem taken_eq {packetCount : Nat} {w₀ w : Wire} {es : List WireEvent} (h0 : w₀.Start)
    (hr : Lts.Run (WireStep packetCount) w₀ es w) {j : Nat} {p : Bytes} (hp : (es.flatMap WireEvent.taken)[j]? = some p) :
    p = bytes (generated j) := by
  have hall := (streamed_run h0 hr).packets
  obtain ⟨hj, rfl⟩ := List.getElem?_eq_some_iff.mp hp
  have hlen := congrArg List.length hall
  rw [List.length_append, List.length_map, List.length_range] at hlen
  have hget : (es.flatMap WireEvent.taken)[j]? = ((List.range (publishedIn es)).map (fun k => bytes (generated k)))[j]? := by
    rw [← hall, List.getElem?_append_left hj]
  rw [List.getElem?_map, List.getElem?_range (by omega), hp] at hget
  exact Option.some.inj hget

end OnTheWireAux

open OnTheWireAux

/-- Over every run of the send loop and the kernel: two packets that were taken are the same exactly when their places are the same
modulo 65536; the checksum of the header is right in one packet of 65536, the one at place 18594; and the EtherType is in every one
`0x0008`, which is not that of IPv4. -/
theorem packets_on_the_wire {packetCount : Nat} {w₀ w : Wire} {es : List WireEvent} (h0 : w₀.Start)
    (hr : Lts.Run (WireStep packetCount) w₀ es w) :
    (∀ j l p q, (es.flatMap WireEvent.taken)[j]? = some p → (es.flatMap WireEvent.taken)[l]? = some q →
        (p = q ↔ j % 65536 = l % 65536)) ∧
      ∀ j p, (es.flatMap WireEvent.taken)[j]? = some p → (ChecksumRight p ↔ j % 65536 = 18594) ∧ etherType p = [0x00, 0x08] := by
  refine ⟨?_, ?_⟩
  · intro j l p q hp hq
    rw [taken_eq h0 hr hp, taken_eq h0 hr hq]
    exact bytes_generated_eq_iff j l
  · intro j p hp
    rw [taken_eq h0 hr hp]
    exact ⟨checksumRight_generated j, etherType_generated j⟩

/-- `packets_on_the_wire` at the run in which a round publishes two packets and the kernel takes them: they differ, and neither has
the right checksum. -/
theorem packets_on_the_wire_two : ∃ es w p q,
    Lts.Run (WireStep 1) { sender := ⟨RingMem.fresh 4 2048 0 2, templateZmm, 0⟩, khead := 0 } es w ∧
      es.flatMap WireEvent.taken = [p, q] ∧ p ≠ q ∧ ¬ChecksumRight p ∧ ¬ChecksumRight q := by
  have h0 : Wire.Start { sender := ⟨RingMem.fresh 4 2048 0 2, templateZmm, 0⟩, khead := 0 } := Wire.start_fresh (by decide)
  have h1 := @WireStep.round 1 { sender := ⟨RingMem.fresh 4 2048 0 2, templateZmm, 0⟩, khead := 0 } _ (by decide) rfl
  have hr := Lts.Run.snoc (Lts.Run.single h1) (@WireStep.sync 1 _ 1 (by decide))
  obtain ⟨hsame, hright⟩ := packets_on_the_wire h0 hr
  exact ⟨_, _, _, _, hr, rfl, (hsame 0 1 _ _ rfl rfl).not.mpr (by decide), (hright 0 _ rfl).1.not.mpr (by decide),
    (hright 1 _ rfl).1.not.mpr (by decide)⟩

end NetHelper
