import Mathlib.Algebra.Group.Nat.Defs
import Mathlib.Data.Fin.VecNotation
import Mathlib.Data.List.OfFn

/-!
# Registers of sixteen lanes

The 512-bit registers of AVX-512 as sixteen lanes of 32 bits, and the instructions on them that work lane by lane. The
arithmetic of a lane wraps around and carries nothing into the next. In memory the lanes stand from the lowest up, each with
its lowest byte first.
-/

namespace Mm512

/-- A register, lane by lane. -/
abbrev Zmm := Fin 16 → UInt32

/-- A mask of lanes, bit by bit. -/
abbrev Mask := Fin 16 → Bool

/-- The mask with the bits of a number. -/
def maskOfBits (bits : Nat) : Mask := fun i => bits.testBit i

/-- Set the lanes, the highest first (`_mm512_set_epi32`). -/
def setEpi32 (e15 e14 e13 e12 e11 e10 e9 e8 e7 e6 e5 e4 e3 e2 e1 e0 : UInt32) : Zmm :=
  ![e0, e1, e2, e3, e4, e5, e6, e7, e8, e9, e10, e11, e12, e13, e14, e15]

/-- Set every byte to one value (`_mm512_set1_epi8`). -/
def set1Epi8 (b : UInt8) : Zmm := fun _ => b.toUInt32 * 0x01010101

/-- Add lane by lane (`_mm512_add_epi32`). -/
def addEpi32 (a b : Zmm) : Zmm := fun i => a i + b i

/-- Subtract lane by lane (`_mm512_sub_epi32`). -/
def subEpi32 (a b : Zmm) : Zmm := fun i => a i - b i

/-- Compare lane by lane (`_mm512_cmpeq_epi32_mask`). -/
def cmpeqEpi32Mask (a b : Zmm) : Mask := fun i => a i == b i

/-- Subtract in the lanes of a mask, and keep the others of `src` (`_mm512_mask_sub_epi32`). -/
def maskSubEpi32 (src : Zmm) (k : Mask) (a b : Zmm) : Zmm := fun i => if k i then a i - b i else src i

/-- Take the lanes of a mask from `b` and the others from `a` (`_mm512_mask_blend_epi32`). -/
def maskBlendEpi32 (k : Mask) (a b : Zmm) : Zmm := fun i => if k i then b i else a i

/-- A byte of a register as it stands in memory. -/
def byte (v : Zmm) (n : Fin 64) : UInt8 := UInt8.ofNat ((v ⟨n / 4, by omega⟩).toNat / 256 ^ (n.val % 4))

/-- The bytes of a register as they stand in memory. -/
def bytes (v : Zmm) : List UInt8 := List.ofFn (byte v)

@[simp] theorem length_bytes (v : Zmm) : (bytes v).length = 64 := List.length_ofFn

/-- A register is known by its bytes in memory. -/
theorem bytes_inj {v w : Zmm} : bytes v = bytes w ↔ v = w := by
  refine ⟨?_, congrArg bytes⟩
  intro h
  have hbyte : ∀ n, byte v n = byte w n := congrFun (List.ofFn_injective h)
  funext i
  -- the four bytes of the lane
  have hlane : ∀ j < 4, (v i).toNat / 256 ^ j % 2 ^ 8 = (w i).toNat / 256 ^ j % 2 ^ 8 := by
    intro j hj
    have hn := congrArg UInt8.toNat (hbyte ⟨4 * i + j, by omega⟩)
    have hi : (⟨(4 * i.val + j) / 4, by omega⟩ : Fin 16) = i := Fin.ext (by dsimp only; omega)
    have hm : (4 * i.val + j) % 4 = j := by omega
    simp only [byte, UInt8.toNat_ofNat', hi, hm] at hn
    exact hn
  have h0 := hlane 0 (by decide)
  have h1 := hlane 1 (by decide)
  have h2 := hlane 2 (by decide)
  have h3 := hlane 3 (by decide)
  have hv := (v i).toNat_lt
  have hw := (w i).toNat_lt
  rw [← UInt32.toNat_inj]
  omega

end Mm512
