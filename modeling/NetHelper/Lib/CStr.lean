import Mathlib.Data.List.Basic

/-!
# NUL-terminated strings

A string in memory that ends at its first NUL. Bytes without a NUL, padded with NULs to more than their length, are read
back (`read_pad`), and the UTF-8 bytes of a string have a NUL only where the string has the character NUL.
-/

namespace CStr

/-- The bytes up to the first NUL, if there is one. -/
def read (bytes : List UInt8) : Option (List UInt8) :=
  if 0 ∈ bytes then some (bytes.takeWhile (fun b => b != 0)) else none

/-- Bytes with as many NULs behind them as fit a width. -/
def pad (width : Nat) (bytes : List UInt8) : List UInt8 := bytes ++ List.replicate (width - bytes.length) 0

theorem length_pad {width : Nat} {bytes : List UInt8} (h : bytes.length ≤ width) : (pad width bytes).length = width := by
  rw [pad, List.length_append, List.length_replicate]
  omega

/-- Bytes without a NUL are read back when there is room for one behind them. -/
theorem read_pad {width : Nat} {bytes : List UInt8} (h0 : 0 ∉ bytes) (hlen : bytes.length < width) :
    read (pad width bytes) = some bytes := by
  obtain ⟨n, hn⟩ : ∃ n, width - bytes.length = n + 1 := ⟨width - bytes.length - 1, by omega⟩
  have hall : ∀ b ∈ bytes, (b != 0) = true := by
    intro b hb
    exact bne_iff_ne.mpr (fun he => h0 (he ▸ hb))
  rw [read, pad, hn, List.replicate_succ, if_pos (by simp), List.takeWhile_append_of_pos hall]
  simp

/-- Of the bytes of a character none is NUL, unless it is the character NUL. -/
theorem zero_mem_utf8EncodeChar (c : Char) : 0 ∈ String.utf8EncodeChar c ↔ c = '\x00' := by
  have hval : c = '\x00' ↔ c.val.toNat = 0 := by
    rw [← Char.val_inj, ← UInt32.toNat_inj]
    rfl
  have hzero : ∀ n, (0 : UInt8) = UInt8.ofNat n ↔ n % 256 = 0 := by
    intro n
    rw [← UInt8.toNat_inj, UInt8.toNat_ofNat']
    exact eq_comm
  rw [hval]
  unfold String.utf8EncodeChar
  dsimp only
  split
  · rw [List.mem_singleton, hzero]
    omega
  · split
    · simp only [List.mem_cons, List.not_mem_nil, or_false, hzero]
      omega
    · split
      · simp only [List.mem_cons, List.not_mem_nil, or_false, hzero]
        omega
      · simp only [List.mem_cons, List.not_mem_nil, or_false, hzero]
        omega

/-- Of the bytes of a string none is NUL, unless one of its characters is. -/
theorem zero_mem_utf8 (s : List Char) : 0 ∈ s.flatMap String.utf8EncodeChar ↔ '\x00' ∈ s := by
  rw [List.mem_flatMap]
  constructor
  · rintro ⟨c, hc, h0⟩
    rwa [(zero_mem_utf8EncodeChar c).mp h0] at hc
  · intro h
    exact ⟨_, h, (zero_mem_utf8EncodeChar _).mpr rfl⟩

end CStr
