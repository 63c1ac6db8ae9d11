import Mathlib.Data.Int.Basic

/-!
# Fixed-width integers and halting

`int`, `uint32_t` and `size_t` values are integers; where the source mixes them, the
conversion it performs is written out with `toInt32`, `toUInt32` and `toUInt64` (two's
complement). Each is the identity on the values its type can hold.

`Halt` is the reason a piece of code does not return to its caller: a failing `assert`, named
by the place it stands at, or a loop that never ends.
-/

namespace DecaFS

/-- `INT_MAX`. -/
def intMax : ℤ := 2147483647

/-- Conversion to a 32-bit `int`. -/
def toInt32 (x : ℤ) : ℤ := (x + 2147483648) % 4294967296 - 2147483648

/-- Conversion to `uint32_t`. -/
def toUInt32 (x : ℤ) : ℤ := x % 4294967296

/-- Conversion to a 64-bit `size_t`. -/
def toUInt64 (x : ℤ) : ℤ := x % 18446744073709551616

theorem toInt32_eq {x : ℤ} (h₀ : -2147483648 ≤ x) (h₁ : x ≤ intMax) : toInt32 x = x := by
  unfold toInt32 intMax at *
  omega

theorem toInt32_add (x y : ℤ) : toInt32 (toInt32 x + y) = toInt32 (x + y) := by
  unfold toInt32
  omega

theorem toInt32_mem (x : ℤ) : -2147483648 ≤ toInt32 x ∧ toInt32 x ≤ intMax := by
  unfold toInt32 intMax
  omega

theorem toUInt32_eq {x : ℤ} (h₀ : 0 ≤ x) (h₁ : x < 4294967296) : toUInt32 x = x := by
  unfold toUInt32
  omega

theorem toUInt64_eq {x : ℤ} (h₀ : 0 ≤ x) (h₁ : x < 18446744073709551616) : toUInt64 x = x := by
  unfold toUInt64
  omega

theorem toUInt32_toUInt32 (v : ℤ) : toUInt32 (toUInt32 v) = toUInt32 v :=
  Int.emod_emod_of_dvd v (Int.dvd_refl _)

theorem toUInt32_toInt32 (v : ℤ) : toUInt32 (toInt32 v) = toUInt32 v := by
  unfold toUInt32 toInt32
  omega

theorem toInt32_toUInt32 (v : ℤ) : toInt32 (toUInt32 v) = toInt32 v := by
  unfold toUInt32 toInt32
  omega

theorem toInt32_toInt32 (v : ℤ) : toInt32 (toInt32 v) = toInt32 v := by
  unfold toInt32
  omega

/-- Why code did not return: an `assert` failed, or it runs forever. -/
inductive Halt (Site : Type) : Type
  | assertion (site : Site)
  | noReturn
  deriving DecidableEq, Repr

end DecaFS
