import Mathlib.Algebra.Group.Nat.Defs

/-!
# Machine words

Atomic words are natural numbers below a power of two. `fetch_add` and `fetch_sub` wrap around, and
so do `+` and `-` in a release build. The lemmas say when a wrapping operation is the exact one.
-/

set_option autoImplicit false
set_option relaxedAutoImplicit false

namespace SyncPrimitives.Concurrency

/-- `u32::MAX`. -/
def u32Max : ℕ := 2 ^ 32 - 1

/-- `usize::MAX` on a 64-bit target. -/
def usizeMax : ℕ := 2 ^ 64 - 1

/-- Addition of 32-bit words. -/
def addU32 (a b : ℕ) : ℕ := (a + b) % 2 ^ 32

/-- Subtraction of 32-bit words. -/
def subU32 (a b : ℕ) : ℕ := (a + 2 ^ 32 - b) % 2 ^ 32

/-- Addition of 64-bit words. -/
def addUsize (a b : ℕ) : ℕ := (a + b) % 2 ^ 64

/-- Subtraction of 64-bit words. -/
def subUsize (a b : ℕ) : ℕ := (a + 2 ^ 64 - b) % 2 ^ 64

theorem u32Max_eq : u32Max = 4294967295 := rfl

theorem usizeMax_eq : usizeMax = 18446744073709551615 := rfl

/-- A 32-bit addition that does not wrap is exact. -/
theorem addU32_of_lt {a b : ℕ} (h : a + b < 2 ^ 32) : addU32 a b = a + b :=
  Nat.mod_eq_of_lt h

/-- A 32-bit subtraction that does not wrap is exact. -/
theorem subU32_of_le {a b : ℕ} (hle : b ≤ a) (ha : a < 2 ^ 32) : subU32 a b = a - b := by
  unfold subU32
  omega

/-- A 64-bit addition that does not wrap is exact. -/
theorem addUsize_of_lt {a b : ℕ} (h : a + b < 2 ^ 64) : addUsize a b = a + b :=
  Nat.mod_eq_of_lt h

/-- A 64-bit subtraction that does not wrap is exact. -/
theorem subUsize_of_le {a b : ℕ} (hle : b ≤ a) (ha : a < 2 ^ 64) : subUsize a b = a - b := by
  unfold subUsize
  omega

end SyncPrimitives.Concurrency
