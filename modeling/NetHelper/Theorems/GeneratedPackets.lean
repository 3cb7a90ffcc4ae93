import NetHelper.Generator
import NetHelper.Lib.OnesComplement

/-!
# The packets of the generator

The mask of the generator takes over lanes 4, 6 and 7, the increments go to lanes 8 and 9, and the decrement goes to the high
half of lane 6, which holds the first half of the source IP. So nothing but the source IP changes (`generated_eq`), and it
comes back after 65536 packets. The checksum of the header is right, and the packet varies as it is meant to, only then
(`checksum_kept_iff`, `varies_as_meant_iff`).
-/

namespace NetHelper

open Mm512 Generator

/-- The packet after so many others, from the template on. -/
def Generator.generated (k : Nat) : Zmm := packetAfter templateZmm k

/-- The bytes of the IP header of a packet. -/
def Generator.ipHeader (v : Zmm) : List UInt8 := List.ofFn (fun j : Fin 20 => byte v ⟨14 + j, by omega⟩)

/-- The ones'-complement sum of the IP header of a packet, modulo `0xFFFF`. -/
def Generator.headerSum (v : Zmm) : Nat := OnesComplement.sum (OnesComplement.words (ipHeader v)) % 0xFFFF

/-- What is meant to vary: the low halves of lanes 8 and 9 go up by one for each packet, and of the other bytes only the
checksum of the IP header changes. -/
structure Generator.VariesAsMeant (k : Nat) : Prop where
  dstIp : (generated k 8).toNat % 2 ^ 16 = ((templateZmm 8).toNat % 2 ^ 16 + k) % 2 ^ 16
  dstPort : (generated k 9).toNat % 2 ^ 16 = ((templateZmm 9).toNat % 2 ^ 16 + k) % 2 ^ 16
  others : ∀ n : Fin 64, n ∉ ([24, 25, 32, 33, 36, 37] : List (Fin 64)) → byte (generated k) n = byte templateZmm n

namespace GeneratedPacketsAux

/-! ## What the generator does -/

/-- Lane 6 after `k` packets: `k` less in its high half, and the checksum as it was. -/
def lane6 (k : Nat) : UInt32 := UInt32.ofNat ((0xC0A8 + 65535 * k) % 65536 * 65536 + 5)

theorem toNat_lane6 (k : Nat) : (lane6 k).toNat = (0xC0A8 + 65535 * k) % 65536 * 65536 + 5 := by
  rw [lane6, UInt32.toNat_ofNat', Nat.mod_eq_of_lt (by omega)]

theorem lane6_zero : lane6 0 = elem6 := by decide

/-- One more packet takes one more from the high half. -/
theorem lane6_succ (k : Nat) : lane6 (k + 1) = lane6 k - 65536 := by
  have h65536 : (65536 : UInt32).toNat = 65536 := rfl
  rw [← UInt32.toNat_inj, UInt32.toNat_sub, toNat_lane6, toNat_lane6, h65536]
  omega

/-- The trigger of the correction is never met. -/
theorem lane6_ne_trigger (k : Nat) : lane6 k ≠ 0x0000C0A8 := by
  intro he
  have h := congrArg UInt32.toNat he
  have htrigger : (0x0000C0A8 : UInt32).toNat = 0xC0A8 := rfl
  rw [toNat_lane6, htrigger] at h
  omega

/-- A packet that is the template but for lane 6. -/
def withLane6 (x : UInt32) : Zmm := fun i => if i = 6 then x else templateZmm i

theorem withLane6_elem6 : withLane6 elem6 = templateZmm := by
  funext i
  revert i
  decide

/-- The next packet, lane by lane. -/
theorem nextPacket_apply (v : Zmm) (i : Fin 16) : nextPacket v i =
    if blendMask i then
      if v i + incrementZmm i - checksumDecrementZmm i == checksumZeroTrigger i then
        v i + incrementZmm i - checksumDecrementZmm i - checksumCorrectionZmm i
      else v i + incrementZmm i - checksumDecrementZmm i
    else templateZmm i := rfl

/-- The lanes of the template other than lane 6 do not change: what is taken over has nothing added, and what has something
added is not taken over. -/
theorem nextPacket_template : ∀ i : Fin 16, i ≠ 6 → nextPacket templateZmm i = templateZmm i := by decide

/-- The next packet changes lane 6 only, when the trigger is not met. -/
theorem nextPacket_withLane6 {x : UInt32} (h : x - 65536 ≠ 0x0000C0A8) :
    nextPacket (withLane6 x) = withLane6 (x - 65536) := by
  funext i
  by_cases hi : i = 6
  · subst hi
    have hcmp : (x - 65536 == 0x0000C0A8) = false := beq_eq_false_iff_ne.mpr h
    have hx : x + incrementZmm 6 - checksumDecrementZmm 6 = x - 65536 := by
      change x + 0 - 65536 = x - 65536
      rw [UInt32.add_zero]
    have hlane : nextPacket (withLane6 x) 6 = if x - 65536 == 0x0000C0A8 then x - 65536 - 65536 else x - 65536 := by
      rw [← hx]
      rfl
    rw [hlane, hcmp]
    rfl
  · have hsame : withLane6 x i = templateZmm i := if_neg hi
    have hsame' : withLane6 (x - 65536) i = templateZmm i := if_neg hi
    rw [nextPacket_apply, hsame, hsame', ← nextPacket_apply, nextPacket_template i hi]

/-- After `k` packets only lane 6 differs from the template. -/
theorem generated_eq (k : Nat) : generated k = withLane6 (lane6 k) := by
  induction k with
  | zero =>
    rw [lane6_zero, withLane6_elem6]
    rfl
  | succ k ih =>
    have hnext : generated (k + 1) = nextPacket (generated k) := rfl
    have hne : lane6 k - 65536 ≠ 0x0000C0A8 := by
      rw [← lane6_succ]
      exact lane6_ne_trigger (k + 1)
    rw [hnext, ih, nextPacket_withLane6 hne, lane6_succ]

/-- The template comes back after 65536 packets. -/
theorem generated_of_dvd {k : Nat} (h : 65536 ∣ k) : generated k = templateZmm := by
  obtain ⟨m, rfl⟩ := h
  have helem : elem6.toNat = 0xC0A8 * 65536 + 5 := by decide
  have hlane : lane6 (65536 * m) = elem6 := by
    rw [← UInt32.toNat_inj, toNat_lane6, helem]
    omega
  rw [generated_eq, hlane, withLane6_elem6]

/-! ## The sum of the header -/

theorem ipHeader_eq (v : Zmm) : ipHeader v = [byte v 14, byte v 15, byte v 16, byte v 17, byte v 18, byte v 19, byte v 20,
    byte v 21, byte v 22, byte v 23, byte v 24, byte v 25, byte v 26, byte v 27, byte v 28, byte v 29, byte v 30, byte v 31,
    byte v 32, byte v 33] := rfl

/-- The bytes of the other lanes are the template's. -/
theorem byte_withLane6 (x : UInt32) (n : Fin 64) (h : n.val / 4 ≠ 6) : byte (withLane6 x) n = byte templateZmm n := by
  have hne : (⟨n / 4, by omega⟩ : Fin 16) ≠ 6 := by
    intro he
    exact h (congrArg Fin.val he)
  rw [byte, byte, withLane6, if_neg hne]

/-- The words of the header of a packet that is the template but for lane 6. -/
theorem words_withLane6 (x : UInt32) : OnesComplement.words (ipHeader (withLane6 x)) =
    [0x0045, 0x2E00, 0x0100, 0x0040, 0x1140,
      (UInt8.ofNat (x.toNat / 256 ^ 0)).toNat * 256 + (UInt8.ofNat (x.toNat / 256 ^ 1)).toNat,
      (UInt8.ofNat (x.toNat / 256 ^ 2)).toNat * 256 + (UInt8.ofNat (x.toNat / 256 ^ 3)).toNat,
      0x0101, 0xA8C0, 0x0A01] := by
  rw [ipHeader_eq]
  simp (disch := decide) only [byte_withLane6]
  rfl

/-- The sum of the ten words of a header, those of lane 6 last. -/
theorem sum_header (a b c d e f g h i j : Nat) :
    ([a, b, c, d, e, f, g, h, i, j] : List Nat).sum = a + b + c + d + e + h + i + j + (f + g) := by
  simp only [List.sum_cons, List.sum_nil]
  omega

/-- The sum of a header whose lane 6 has `h` in its high half: a constant, and `h` with its bytes swapped. -/
theorem headerSum_withLane6 {x : UInt32} {h : Nat} (hh : h < 65536) (hx : x.toNat = h * 65536 + 5) :
    headerSum (withLane6 x) = (0xF987 + (h % 256 * 256 + h / 256)) % 0xFFFF := by
  have h0 : x.toNat / 256 ^ 0 % 2 ^ 8 = 5 := by omega
  have h1 : x.toNat / 256 ^ 1 % 2 ^ 8 = 0 := by omega
  have h2 : x.toNat / 256 ^ 2 % 2 ^ 8 = h % 256 := by omega
  have h3 : x.toNat / 256 ^ 3 % 2 ^ 8 = h / 256 := by omega
  have hconst : 0x0045 + 0x2E00 + 0x0100 + 0x0040 + 0x1140 + 0x0101 + 0xA8C0 + 0x0A01 = 0xF487 := rfl
  rw [headerSum, OnesComplement.sum_mod, words_withLane6, sum_header, hconst, UInt8.toNat_ofNat', UInt8.toNat_ofNat',
    UInt8.toNat_ofNat', UInt8.toNat_ofNat', h0, h1, h2, h3]
  omega

/-- No other half-word has the sum of the template's. -/
theorem sum_eq_iff {h : Nat} (hh : h < 65536) :
    (0xF987 + (h % 256 * 256 + h / 256)) % 0xFFFF = (0xF987 + (0xC0A8 % 256 * 256 + 0xC0A8 / 256)) % 0xFFFF ↔
      h = 0xC0A8 := by
  omega

/-- Every packet has the template's bytes but for the two of the high half of lane 6. -/
theorem byte_generated {k : Nat} {n : Fin 64} (h26 : n.val ≠ 26) (h27 : n.val ≠ 27) :
    byte (generated k) n = byte templateZmm n := by
  rw [generated_eq]
  by_cases h6 : n.val / 4 = 6
  · -- the low half of lane 6 is five in every packet
    have hlane : (⟨n / 4, by omega⟩ : Fin 16) = 6 := Fin.ext h6
    have helem : elem6.toNat = 0xC0A8 * 65536 + 5 := by decide
    have hn : n.val % 4 = 0 ∨ n.val % 4 = 1 := by omega
    rw [← withLane6_elem6, byte, byte, hlane]
    change UInt8.ofNat ((lane6 k).toNat / _) = UInt8.ofNat (elem6.toNat / _)
    rw [toNat_lane6, helem, ← UInt8.toNat_inj, UInt8.toNat_ofNat', UInt8.toNat_ofNat']
    rcases hn with hn | hn
    · rw [hn]
      omega
    · rw [hn]
      omega
  · exact byte_withLane6 (lane6 k) n h6

end GeneratedPacketsAux

open GeneratedPacketsAux

/-- The sum of the IP header of the packet after `k` others is the template's exactly when `k` is a multiple of 65536; the
packet is then the template. -/
theorem checksum_kept_iff (k : Nat) :
    (headerSum (generated k) = headerSum (generated 0) ↔ 65536 ∣ k) ∧ (65536 ∣ k → generated k = generated 0) := by
  refine ⟨?_, fun h => generated_of_dvd h⟩
  have hlt : (0xC0A8 + 65535 * k) % 65536 < 65536 := Nat.mod_lt _ (by decide)
  have hzero : generated 0 = withLane6 elem6 := withLane6_elem6.symm
  rw [generated_eq k, hzero, headerSum_withLane6 hlt (toNat_lane6 k),
    headerSum_withLane6 (x := elem6) (h := 0xC0A8) (by decide) (by decide), sum_eq_iff hlt]
  omega

/-- The packet after one other has another sum. -/
theorem checksum_lost : ∃ k, headerSum (generated k) ≠ headerSum (generated 0) := ⟨1, by decide⟩

/-- The packet after `k` others differs from the template in what is meant to vary, and in nothing else, exactly when `k` is
a multiple of 65536. In every packet the fields that are meant to vary are the template's, and the source IP goes down by one
for each packet. -/
theorem varies_as_meant_iff (k : Nat) :
    (VariesAsMeant k ↔ 65536 ∣ k) ∧
      (∀ n : Fin 64, n.val ≠ 26 → n.val ≠ 27 → byte (generated k) n = byte templateZmm n) ∧
      (generated k 6).toNat / 2 ^ 16 = (0xC0A8 + 65535 * k) % 2 ^ 16 := by
  have hgen := generated_eq k
  refine ⟨⟨?_, ?_⟩, ?_, ?_⟩
  · intro h
    have hip := h.dstIp
    have hlane : generated k 8 = templateZmm 8 := by
      rw [hgen]
      rfl
    have helem : (templateZmm 8).toNat = 0x0050010A := by decide
    rw [hlane, helem] at hip
    omega
  · intro hdvd
    have hsame := generated_of_dvd hdvd
    refine ⟨?_, ?_, fun n _ => by rw [hsame]⟩
    · rw [hsame]
      omega
    · rw [hsame]
      omega
  · exact fun n h26 h27 => byte_generated h26 h27
  · have hlane : generated k 6 = lane6 k := by
      rw [hgen]
      rfl
    rw [hlane, toNat_lane6]
    omega

/-- In the packet after one other the destination port is the template's, and the source IP is not. -/
theorem varies_otherwise : ∃ k, ¬VariesAsMeant k := by
  refine ⟨1, ?_⟩
  intro h
  exact absurd h.dstPort (by decide)

end NetHelper
