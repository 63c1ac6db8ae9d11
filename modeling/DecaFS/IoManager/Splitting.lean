import DecaFS.ForMathlib.Tiling
import DecaFS.IoManager.Stripes

/-!
# The arithmetic of the splitting loops

For sizes and counts that an `int` holds, `get_first_stripe` and `get_first_chunk` compute
`firstBlock` and `firstOffset`, and the comparison of unsigned differences picks the smaller
of what is left to do and what is left of the block: the loops cut a request into `pieces`.

A position that is a multiple of the size, and not `0`, is left at the end of the block before
it, with nothing to read or write there first (`canonicalFirst_iff`).
-/

namespace DecaFS

theorem countOff_eq {size : ℕ} (hsize : 0 < size) (hmax : size ≤ intMax) :
    ∀ (fuel id p : ℕ), p ≤ fuel →
      countOff size fuel id p = (id + (p - 1) / size, (firstOffset size p : ℤ))
  | 0, id, p, hp => by
    obtain rfl : p = 0 := by omega
    simp [countOff, firstOffset]
  | fuel + 1, id, p, hp => by
    have hint : toInt32 size = size := toInt32_eq (by omega) hmax
    rcases Nat.lt_or_ge size p with hlt | hle
    · have hcast : (p : ℤ) - size = ((p - size : ℕ) : ℤ) := by omega
      have hdiv : (p - 1) / size = (p - size - 1) / size + 1 := by
        rw [Nat.div_eq_sub_div hsize (by omega), Nat.sub_right_comm]
      rw [countOff, if_pos (by omega), hcast, countOff_eq hsize hmax fuel (id + 1) _ (by omega)]
      have hoff : firstOffset size (p - size) = firstOffset size p := by
        unfold firstOffset
        rw [hdiv, Nat.add_mul, Nat.one_mul]
        omega
      rw [hoff, hdiv, Nat.add_assoc, Nat.add_comm 1]
    · have hdiv : (p - 1) / size = 0 := Nat.div_eq_of_lt (by omega)
      rw [countOff, if_neg (by omega)]
      simp [firstOffset, hdiv]

theorem getFirstStripe_eq (size : StripeSize) (p : ℕ) :
    getFirstStripe size.val p = (firstBlock size.val p, (firstOffset size.val p : ℤ)) := by
  have hmin := size.min_le
  have hmax := size.le_max
  rw [getFirstStripe, Int.toNat_natCast,
    countOff_eq (by omega) (by unfold intMax; omega) _ _ _ le_rfl, Nat.add_comm]
  rfl

theorem getFirstChunk_eq (size : ChunkSize) (p : ℕ) :
    getFirstChunk size.val p = (firstBlock size.val p, (firstOffset size.val p : ℤ)) := by
  have hmin := size.min_le
  have hmax := size.le_max
  rw [getFirstChunk, Int.toNat_natCast,
    countOff_eq (by omega) (by unfold intMax; omega) _ _ _ le_rfl, Nat.add_comm]
  rfl

/-- No unsigned difference wraps, and the smaller one is taken. -/
theorem splitSize_eq_min {count done size offset : ℕ} (hdone : done ≤ count)
    (hcount : count ≤ intMax) (hoffset : offset ≤ size) (hsize : size ≤ intMax) :
    splitSize count done size offset = (min (count - done) (size - offset) : ℕ) := by
  unfold intMax at hcount hsize
  have h₁ : toUInt64 (count - done) = ((count - done : ℕ) : ℤ) := by
    rw [toUInt64_eq] <;> omega
  have h₂ : toUInt32 (size - offset) = ((size - offset : ℕ) : ℤ) := by
    rw [toUInt32_eq] <;> omega
  unfold splitSize
  rw [h₁, h₂]
  split_ifs <;> omega

theorem splitSize_eq {count done size offset : ℕ} (hdone : done ≤ count) (hcount : count ≤ intMax)
    (hoffset : offset ≤ size) (hsize : size ≤ 65536) :
    splitSize count done size offset = (min (count - done) (size - offset) : ℕ) :=
  splitSize_eq_min hdone hcount hoffset (by unfold intMax; omega)

/-! ### The stripe and the chunk of a position -/

/-- The loop over `size` has ended with `first`, in the block and at the offset of position `p`, and
the first request from there is not empty. -/
structure CanonicalFirst (size p : ℕ) (first : ℕ × ℤ) : Prop where
  ends : ∀ fuel, p ≤ fuel → countOff size fuel idInit p = first
  stops : first.2 ≤ toInt32 size
  id_eq : first.1 = p / size + 1
  offset_eq : first.2 = (p % size : ℕ)
  offset_lt : first.2 < size
  splitSize_ne : ∀ count : ℕ, 0 < count → count ≤ intMax → splitSize count 0 size first.2 ≠ 0

section CanonicalFirst

variable {size p : ℕ}

theorem firstBlock_eq (hsize : 0 < size) (h : p = 0 ∨ p % size ≠ 0) :
    firstBlock size p = p / size + 1 ∧ firstOffset size p = p % size := by
  rcases h with rfl | h
  · simp [firstBlock, firstOffset]
  · have hdiv := Nat.div_add_mod' p size
    have hlt := Nat.mod_lt p hsize
    have hpred : (p - 1) / size = p / size := by
      calc (p - 1) / size = (p % size - 1 + p / size * size) / size := by congr 1; omega
        _ = (p % size - 1) / size + p / size := Nat.add_mul_div_right _ _ hsize
        _ = p / size := by rw [Nat.div_eq_of_lt (by omega), Nat.zero_add]
    constructor
    · rw [firstBlock, hpred]
    · rw [firstOffset, hpred]
      omega

/-- A multiple of the size is left at the end of a block. -/
theorem firstOffset_eq_size (hsize : 0 < size) (hp : 0 < p) (h : p % size = 0) :
    firstOffset size p = size := by
  have hdiv := Nat.div_add_mod' p size
  have hk : 0 < p / size := Nat.div_pos (Nat.le_of_dvd hp (Nat.dvd_of_mod_eq_zero h)) hsize
  have hmul : p / size * size = (p / size - 1) * size + size := by
    rw [← Nat.succ_mul, Nat.succ_eq_add_one, Nat.sub_add_cancel hk]
  have hpred : (p - 1) / size = p / size - 1 := by
    calc (p - 1) / size = (size - 1 + (p / size - 1) * size) / size := by congr 1; omega
      _ = (size - 1) / size + (p / size - 1) := Nat.add_mul_div_right _ _ hsize
      _ = p / size - 1 := by rw [Nat.div_eq_of_lt (by omega), Nat.zero_add]
  rw [firstOffset, hpred]
  omega

theorem canonicalFirst_countOff_iff (hsize : 0 < size) (hmax : size ≤ intMax) :
    CanonicalFirst size p (countOff size p idInit p) ↔ p = 0 ∨ p % size ≠ 0 := by
  have hend : ∀ fuel, p ≤ fuel →
      countOff size fuel idInit p = (firstBlock size p, (firstOffset size p : ℤ)) := by
    intro fuel hfuel
    rw [countOff_eq hsize hmax fuel idInit p hfuel, firstBlock, idInit, Nat.add_comm]
  rw [hend p le_rfl]
  constructor
  · intro h
    have hlt := h.offset_lt
    by_contra hp
    rw [firstOffset_eq_size hsize (by omega) (by omega)] at hlt
    omega
  · intro h
    obtain ⟨hid, hoff⟩ := firstBlock_eq hsize h
    have hlt := Nat.mod_lt p hsize
    refine ⟨hend, ?_, hid, by rw [hoff], by simp only [hoff]; omega, fun count hcount hle => ?_⟩
    · rw [toInt32_eq (by omega) hmax, hoff]
      omega
    · have hsplit := splitSize_eq_min (Nat.zero_le count) hle (firstOffset_le hsize (p := p)) hmax
      rw [Int.natCast_zero] at hsplit
      rw [hsplit]
      omega

/-- **A position other than `0` is located exactly if it is no multiple of the size.** -/
theorem canonicalFirst_iff (hsize : 0 < size) (hmax : size ≤ intMax) :
    CanonicalFirst size p (getFirstStripe size p) ∧ CanonicalFirst size p (getFirstChunk size p) ↔
      p = 0 ∨ p % size ≠ 0 := by
  rw [getFirstStripe, getFirstChunk, Int.toNat_natCast, canonicalFirst_countOff_iff hsize hmax,
    and_self_iff]

/-- The position behind the first stripe of a file with stripes of `256` bytes. -/
theorem multiple_not_canonicalFirst :
    ¬ (CanonicalFirst 256 256 (getFirstStripe 256 256) ∧
      CanonicalFirst 256 256 (getFirstChunk 256 256)) := by
  intro h
  have hlt := h.1.offset_lt
  revert hlt
  decide

theorem canonicalFirst_within_stripe :
    CanonicalFirst 256 300 (getFirstStripe 256 300) ∧
      CanonicalFirst 256 300 (getFirstChunk 256 300) :=
  (canonicalFirst_iff (by decide) (by decide)).mpr (Or.inr (by decide))

end CanonicalFirst

end DecaFS
