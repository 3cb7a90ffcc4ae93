import Mathlib.Algebra.Group.Nat.Defs

/-!
# Checked machine arithmetic

The arithmetic of a language whose integer operators stop the program when the result does not fit their type. A computation
is a value or the panic that ended it, so "the computation returns" says that none of its operators overflowed, and the
value is then the one the unchecked operators would have given as well. An unsigned integer of width `w` is a natural
number; the operators that can leave the type take the width.
-/

namespace Checked

/-- Why a checked operation stops the program. -/
inductive Panic where
  | overflow
  | divByZero
  deriving DecidableEq, Repr

/-- A computation with checked arithmetic: its value, or the panic that ended it. -/
abbrev Outcome (α : Type) := Except Panic α

/-- The checked sum of two unsigned integers of width `w`. -/
def add (w a b : Nat) : Outcome Nat :=
  if a + b < 2 ^ w then .ok (a + b) else .error .overflow

/-- The checked difference of two unsigned integers. -/
def sub (a b : Nat) : Outcome Nat :=
  if b ≤ a then .ok (a - b) else .error .overflow

/-- The checked remainder of two unsigned integers. -/
def rem (a b : Nat) : Outcome Nat :=
  if b = 0 then .error .divByZero else .ok (a % b)

/-- The sum of two unsigned integers of width `w` that wraps around. -/
def wrappingAdd (w a b : Nat) : Nat := (a + b) % 2 ^ w

/-- The difference of two unsigned integers of width `w` that wraps around. -/
def wrappingSub (w a b : Nat) : Nat := (a + (2 ^ w - b)) % 2 ^ w

/-- A cast to the unsigned integers of width `w`: it keeps the low `w` bits. -/
def cast (w a : Nat) : Nat := a % 2 ^ w

/-- A computation that returned hands its value on. -/
@[simp] theorem ok_bind {α β : Type} (a : α) (f : α → Outcome β) : (Except.ok a >>= f) = f a := rfl

/-- A computation that panicked ends the ones after it. -/
@[simp] theorem error_bind {α β : Type} (p : Panic) (f : α → Outcome β) : (Except.error p >>= f) = .error p := rfl

/-- A pure computation returns. -/
@[simp] theorem pure_eq_ok {α : Type} (a : α) : (pure a : Outcome α) = .ok a := rfl

/-- A sum that fits does not panic. -/
theorem add_of_lt {w a b : Nat} (h : a + b < 2 ^ w) : add w a b = .ok (a + b) := if_pos h

/-- A difference of a number and a smaller one does not panic. -/
theorem sub_of_le {a b : Nat} (h : b ≤ a) : sub a b = .ok (a - b) := if_pos h

/-- A remainder by a positive number does not panic. -/
theorem rem_of_pos {a b : Nat} (h : 0 < b) : rem a b = .ok (a % b) := if_neg (Nat.ne_of_gt h)

/-- A cast of a number that fits loses nothing. -/
theorem cast_of_lt {w a : Nat} (h : a < 2 ^ w) : cast w a = a := Nat.mod_eq_of_lt h

/-- A wrapping difference is undone by adding back a number that covers what was borrowed. -/
theorem wrappingAdd_wrappingSub {w a b c : Nat} (hb : b ≤ 2 ^ w) (hbc : b ≤ a + c) (hc : a + c - b < 2 ^ w) :
    wrappingAdd w (wrappingSub w a b) c = a + c - b := by
  have e : a + (2 ^ w - b) + c = (a + c - b) + 2 ^ w := by omega
  rw [wrappingAdd, wrappingSub, Nat.mod_add_mod, e, Nat.add_mod_right, Nat.mod_eq_of_lt hc]

end Checked
