import Mathlib.Data.UInt
import Mathlib.Algebra.Order.Group.Unbundled.Int

/-!
# Reads from memory

What a piece of code reads is a list of accesses: a word, a string up to its `'\0'`, or a number
of bytes. `Within` says that an access stays below a bound; for a string that depends on the
contents of the memory.
-/

namespace DecaFS

/-- A read. -/
inductive Access : Type
  /-- the four bytes at `pos` -/
  | word (pos : ℕ)
  /-- the bytes from `pos` up to and including the next `'\0'` -/
  | string (pos : ℕ)
  | bytes (pos n : ℕ)
  deriving DecidableEq, Repr

namespace Access

/-- The places that are read. -/
def Touches (mem : ℕ → UInt8) : Access → ℕ → Prop
  | word pos, i => pos ≤ i ∧ i < pos + 4
  | string pos, i => pos ≤ i ∧ ∀ j, pos ≤ j → j < i → mem j ≠ 0
  | bytes pos n, i => pos ≤ i ∧ i < pos + n

/-- All of them are below `size`. -/
def Within (mem : ℕ → UInt8) (size : ℤ) (a : Access) : Prop := ∀ i, a.Touches mem i → (i : ℤ) < size

variable {mem : ℕ → UInt8} {size : ℤ} {pos n : ℕ}

@[simp]
theorem within_word : (word pos).Within mem size ↔ (pos : ℤ) + 4 ≤ size := by
  constructor
  · intro h
    have := h (pos + 3) ⟨by omega, by omega⟩
    omega
  · intro h i hi
    have := hi.2
    omega

@[simp]
theorem within_bytes : (bytes pos n).Within mem size ↔ (0 < n → (pos : ℤ) + n ≤ size) := by
  constructor
  · intro h hn
    have := h (pos + (n - 1)) ⟨by omega, by omega⟩
    omega
  · intro h i hi
    obtain ⟨hpos, hlt⟩ := hi
    have := h (by omega)
    omega

/-- A string ends below the bound. -/
@[simp]
theorem within_string :
    (string pos).Within mem size ↔ ∃ i, pos ≤ i ∧ (i : ℤ) < size ∧ mem i = 0 := by
  constructor
  · intro h
    by_contra hnone
    have hne (j : ℕ) (hpos : pos ≤ j) (hlt : (j : ℤ) < size) : mem j ≠ 0 := by
      intro hzero
      exact hnone ⟨j, hpos, hlt, hzero⟩
    -- the first place that is too far is read
    have := h (max pos size.toNat) ⟨le_max_left _ _, fun j hpos hlt => hne j hpos (by omega)⟩
    omega
  · rintro ⟨k, hpos, hlt, hzero⟩ i hi
    rcases Nat.lt_or_ge k i with hki | hki
    · exact absurd hzero (hi.2 k hpos hki)
    · omega

end Access

end DecaFS
