import Mathlib.Logic.Function.Basic

/-!
# Memory addressed by number

A memory is a function from addresses to cells. `read` lists the cells from an address on, `write` stores a list there; the
lemmas say that a read sees the last write to the same place and no write elsewhere.
-/

namespace ByteMem

variable {β : Type}

/-- The `n` cells from address `a` on. -/
def read (m : Nat → β) (a n : Nat) : List β := (List.range n).map (fun i => m (a + i))

/-- The memory with the list `bs` stored from address `a` on. -/
def write (m : Nat → β) (a : Nat) (bs : List β) : Nat → β :=
  fun x => if a ≤ x then (bs[x - a]?).getD (m x) else m x

@[simp] theorem length_read (m : Nat → β) (a n : Nat) : (read m a n).length = n := by simp [read]

@[simp] theorem read_zero (m : Nat → β) (a : Nat) : read m a 0 = [] := rfl

/-- A cell outside the place written keeps its content. -/
theorem write_of_outside (m : Nat → β) {a x : Nat} {bs : List β} (h : x < a ∨ a + bs.length ≤ x) :
    write m a bs x = m x := by
  unfold write
  split
  · rw [List.getElem?_eq_none (by omega), Option.getD_none]
  · rfl

/-- A read after a write to the same place gives what was written. -/
theorem read_write_self (m : Nat → β) (a : Nat) (bs : List β) : read (write m a bs) a bs.length = bs := by
  apply List.ext_getElem (by simp)
  intro i h1 h2
  simp [read, write, h2]

/-- Memories that agree on a place are read alike there. -/
theorem read_congr {m m' : Nat → β} {a n : Nat} (h : ∀ i < n, m (a + i) = m' (a + i)) : read m a n = read m' a n := by
  apply List.map_congr_left
  intro i hi
  exact h i (List.mem_range.mp hi)

/-- A read does not see a write to a place that does not meet it. -/
theorem read_write_of_disjoint (m : Nat → β) {a b n : Nat} {bs : List β} (h : a + n ≤ b ∨ b + bs.length ≤ a) :
    read (write m b bs) a n = read m a n := by
  apply read_congr
  intro i hi
  exact write_of_outside m (by omega)

/-- A list stored right behind another is stored with it. -/
theorem write_write_append (m : Nat → β) (a : Nat) (bs cs : List β) :
    write (write m a bs) (a + bs.length) cs = write m a (bs ++ cs) := by
  funext x
  unfold write
  by_cases ha : a ≤ x
  · rw [if_pos ha, if_pos ha]
    by_cases hx : a + bs.length ≤ x
    · have hsub : x - a - bs.length = x - (a + bs.length) := by omega
      rw [if_pos hx, List.getElem?_append_right (by omega), hsub, List.getElem?_eq_none (l := bs) (by omega),
        Option.getD_none]
    · rw [if_neg hx, List.getElem?_append_left (by omega)]
  · rw [if_neg ha, if_neg (by omega), if_neg ha]

/-- A read of the first part of what was written. -/
theorem read_write_append (m : Nat → β) (a : Nat) (bs cs : List β) :
    read (write m a (bs ++ cs)) a bs.length = bs := by
  rw [← write_write_append, read_write_of_disjoint _ (Or.inl (Nat.le_refl _)), read_write_self]

/-- Two cells of a place read alike when the places are read alike. -/
theorem eq_of_read_eq {m m' : Nat → β} {a n : Nat} (h : read m a n = read m' a n) : ∀ i < n, m (a + i) = m' (a + i) := by
  intro i hi
  have := congrArg (fun l => l[i]?) h
  simpa [read, hi] using this

end ByteMem
