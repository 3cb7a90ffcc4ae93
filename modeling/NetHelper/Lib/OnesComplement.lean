import Mathlib.Algebra.GroupWithZero.Nat
import Mathlib.Data.List.Basic

/-!
# The Internet checksum

The ones'-complement sum of sixteen-bit words, in which the carry out of the top is added at the bottom. Modulo `0xFFFF` it is
the plain sum (`sum_mod`), and words that are not all zero sum to `0xFFFF` exactly when that is a multiple of it
(`sum_eq_allOnes_iff`).
-/

namespace OnesComplement

/-- The sixteen-bit words of a list of bytes, the high byte of each first. -/
def words : List UInt8 → List Nat
  | hi :: lo :: rest => (hi.toNat * 256 + lo.toNat) :: words rest
  | _ => []

/-- Add two words with end-around carry. -/
def add (a b : Nat) : Nat := (a + b) % 65536 + (a + b) / 65536

/-- Add words with end-around carry. -/
def sum (ws : List Nat) : Nat := ws.foldl add 0

theorem add_mod (a b : Nat) : add a b % 65535 = (a + b) % 65535 := by
  unfold add
  omega

/-- Modulo `0xFFFF` the sum is the plain one. -/
theorem sum_mod (ws : List Nat) : sum ws % 65535 = ws.sum % 65535 := by
  have key : ∀ (ws : List Nat) (a : Nat), ws.foldl add a % 65535 = (a + ws.sum) % 65535 := by
    intro ws
    induction ws with
    | nil =>
      intro a
      rw [List.foldl_nil, List.sum_nil, Nat.add_zero]
    | cons w ws ih =>
      intro a
      have hstep := add_mod a w
      rw [List.foldl_cons, ih, List.sum_cons]
      omega
  rw [sum, key, Nat.zero_add]

/-- The words of bytes are words. -/
theorem le_of_mem_words {bs : List UInt8} {w : Nat} (h : w ∈ words bs) : w ≤ 65535 := by
  induction bs using words.induct with
  | case1 hi lo rest ih =>
    rcases List.mem_cons.mp h with rfl | h
    · have hhi := hi.toNat_lt
      have hlo := lo.toNat_lt
      omega
    · exact ih h
  | case2 bs hne =>
    rw [words] at h
    · cases h
    · exact hne

/-- Adding a word to a word gives a word, and no zero unless both are. -/
theorem add_bounds {a b : Nat} (ha : a ≤ 65535) (hb : b ≤ 65535) : add a b ≤ 65535 ∧ (0 < a ∨ 0 < b → 0 < add a b) := by
  unfold add
  omega

/-- A sum of words is a word, and not zero when one of them is not. -/
theorem sum_bounds {ws : List Nat} (h : ∀ w ∈ ws, w ≤ 65535) : sum ws ≤ 65535 ∧ ((∃ w ∈ ws, 0 < w) → 0 < sum ws) := by
  have key : ∀ (ws : List Nat) (a : Nat), (∀ w ∈ ws, w ≤ 65535) → a ≤ 65535 →
      ws.foldl add a ≤ 65535 ∧ (0 < a ∨ (∃ w ∈ ws, 0 < w) → 0 < ws.foldl add a) := by
    intro ws
    induction ws with
    | nil =>
      intro a _ ha
      refine ⟨ha, ?_⟩
      rintro (h | ⟨w, hw, _⟩)
      · exact h
      · cases hw
    | cons w ws ih =>
      intro a h ha
      obtain ⟨hw, hws⟩ := List.forall_mem_cons.mp h
      obtain ⟨hle, hpos⟩ := add_bounds ha hw
      obtain ⟨hle', hpos'⟩ := ih (add a w) hws hle
      refine ⟨hle', ?_⟩
      rintro (h0 | ⟨x, hx, h0⟩)
      · exact hpos' (Or.inl (hpos (Or.inl h0)))
      · rcases List.mem_cons.mp hx with rfl | hx
        · exact hpos' (Or.inl (hpos (Or.inr h0)))
        · exact hpos' (Or.inr ⟨x, hx, h0⟩)
  obtain ⟨hle, hpos⟩ := key ws 0 h (by decide)
  exact ⟨hle, fun h0 => hpos (Or.inr h0)⟩

/-- Words that are not all zero sum to `0xFFFF` when their plain sum is a multiple of it. -/
theorem sum_eq_allOnes_iff {ws : List Nat} (h : ∀ w ∈ ws, w ≤ 65535) (h0 : ∃ w ∈ ws, 0 < w) :
    sum ws = 65535 ↔ sum ws % 65535 = 0 := by
  obtain ⟨hle, hpos⟩ := sum_bounds h
  have := hpos h0
  omega

end OnesComplement
