import Mathlib.Data.List.Basic
import Mathlib.Algebra.GroupWithZero.Nat
import Mathlib.Data.Nat.Basic

/-!
# Cutting a segment into blocks

The bytes of a file are numbered on from the first one of the block `id`, `size` to a block.
`pieces size id offset n` cuts the segment of `n` bytes that begins `offset` bytes into block
`id` at the block boundaries. An offset may equal the size; the first piece is then empty.

* `flatMap_bytes_pieces`: the pieces cover the segment once and in order, each byte under the
  block and the offset that division with remainder gives.
* `offset_add_length_le`: no piece reaches over the end of its block.
* `firstBlock`: the block and offset of a position when a block is only left once the position
  lies behind its end.
-/

namespace DecaFS

/-- A part of the block `id`. -/
structure Piece where
  id : ℕ
  offset : ℕ
  length : ℕ
  deriving DecidableEq, Repr

/-- The bytes of a piece, each as a block and an offset in it. -/
def Piece.bytes (p : Piece) : List (ℕ × ℕ) := (List.range p.length).map fun i => (p.id, p.offset + i)

/-- The segment of `n` bytes that begins `offset` bytes into block `id`, cut at the blocks. -/
def pieces (size id offset n : ℕ) : List Piece :=
  if n = 0 ∨ size = 0 then [] else
    ⟨id, offset, min n (size - offset)⟩ :: pieces size (id + 1) 0 (n - min n (size - offset))
termination_by (n, offset)
decreasing_by
  rcases Nat.lt_or_ge offset size with hlt | hge
  · exact Prod.Lex.left _ _ (by omega)
  · rw [Nat.sub_eq_zero_of_le hge, Nat.min_zero, Nat.sub_zero]
    exact Prod.Lex.right _ (by omega)

variable {size id offset n : ℕ}

@[simp]
theorem pieces_zero : pieces size id offset 0 = [] := by
  rw [pieces]
  simp

theorem pieces_of_pos (hsize : 0 < size) (hn : 0 < n) : pieces size id offset n =
    ⟨id, offset, min n (size - offset)⟩ ::
      pieces size (id + 1) 0 (n - min n (size - offset)) := by
  rw [pieces, if_neg (by omega)]

theorem pieces_eq_nil_iff (hsize : 0 < size) : pieces size id offset n = [] ↔ n = 0 := by
  rcases Nat.eq_zero_or_pos n with rfl | hn
  · simp
  · simp [pieces_of_pos hsize hn, Nat.ne_of_gt hn]

/-- Only the first piece may be empty. -/
theorem length_pieces_le (hsize : 0 < size) (hoffset : offset ≤ size) :
    (pieces size id offset n).length ≤ n + if offset < size then 0 else 1 := by
  induction id, offset, n using pieces.induct size with
  | case1 id offset n h => simp [pieces, h]
  | case2 id offset n h ih =>
    have ih := ih (Nat.zero_le _)
    rw [pieces_of_pos hsize (by omega), List.length_cons]
    rw [if_pos hsize] at ih
    split_ifs <;> omega

/-- The pieces lie in different blocks, one after the other. -/
theorem pairwise_id_pieces : (pieces size id offset n).Pairwise fun p p' => p.id < p'.id := by
  have hle : ∀ n id offset, ∀ p ∈ pieces size id offset n, id ≤ p.id := by
    intro n id offset
    induction id, offset, n using pieces.induct size with
    | case1 id offset n h => simp [pieces, h]
    | case2 id offset n h ih =>
      rw [pieces, if_neg h, List.forall_mem_cons]
      exact ⟨le_rfl, fun p hp => Nat.le_of_succ_le (ih p hp)⟩
  induction id, offset, n using pieces.induct size with
  | case1 id offset n h => simp [pieces, h]
  | case2 id offset n h ih =>
    rw [pieces, if_neg h, List.pairwise_cons]
    exact ⟨fun p hp => hle _ _ _ p hp, ih⟩

/-- **The pieces tile the segment.** -/
theorem flatMap_bytes_pieces (hsize : 0 < size) (hoffset : offset ≤ size) :
    (pieces size id offset n).flatMap Piece.bytes =
      (List.range n).map fun i => (id + (offset + i) / size, (offset + i) % size) := by
  induction id, offset, n using pieces.induct size with
  | case1 id offset n h =>
    obtain rfl : n = 0 := h.resolve_right (Nat.ne_of_gt hsize)
    simp
  | case2 id offset n h ih =>
    rw [pieces_of_pos hsize (by omega), List.flatMap_cons, ih (Nat.zero_le _)]
    generalize hlen : min n (size - offset) = len
    have hn : n = len + (n - len) := by omega
    conv_rhs => rw [hn, List.range_add, List.map_append, List.map_map]
    congr 1
    · -- the bytes of the piece itself lie in its block
      refine List.map_congr_left fun i hi => ?_
      have hlt : i < len := List.mem_range.mp hi
      have hi : offset + i < size := by omega
      rw [Nat.div_eq_of_lt hi, Nat.mod_eq_of_lt hi, Nat.add_zero]
    · -- the rest begins with the next block, unless there is no rest
      refine List.map_congr_left fun i hi => ?_
      have hi := List.mem_range.mp hi
      have heq : offset + (len + i) = i + size := by omega
      simp only [Function.comp_apply, heq, Nat.zero_add, Nat.add_div_right _ hsize,
        Nat.add_mod_right, Prod.mk.injEq, and_true]
      omega

/-- The lengths add up. -/
theorem sum_length_pieces (hsize : 0 < size) (hoffset : offset ≤ size) :
    ((pieces size id offset n).map Piece.length).sum = n := by
  have h := congrArg List.length (@flatMap_bytes_pieces size id offset n hsize hoffset)
  rw [List.length_flatMap] at h
  simpa [Piece.bytes] using h

theorem offset_add_length_le (hoffset : offset ≤ size) {p : Piece}
    (hp : p ∈ pieces size id offset n) : p.offset + p.length ≤ size ∧ p.offset ≤ size := by
  induction id, offset, n using pieces.induct size with
  | case1 id offset n h => simp [pieces, h] at hp
  | case2 id offset n h ih =>
    rw [pieces, if_neg h] at hp
    rcases List.mem_cons.mp hp with rfl | hp
    · simp only
      omega
    · exact ih (Nat.zero_le _) hp

/-! ### Where a segment begins -/

/-- The block of a position, when the end of a block still counts as a position in it. -/
def firstBlock (size p : ℕ) : ℕ := (p - 1) / size + 1

/-- The offset of a position in its `firstBlock`. -/
def firstOffset (size p : ℕ) : ℕ := p - (p - 1) / size * size

theorem firstOffset_le (hsize : 0 < size) {p : ℕ} : firstOffset size p ≤ size := by
  have h := Nat.div_add_mod (p - 1) size
  have hlt := Nat.mod_lt (p - 1) hsize
  rw [Nat.mul_comm] at h
  unfold firstOffset
  omega

theorem firstBlock_add (hsize : 0 < size) (p i : ℕ) :
    (firstBlock size p + (firstOffset size p + i) / size, (firstOffset size p + i) % size) =
      ((p + i) / size + 1, (p + i) % size) := by
  have hle : (p - 1) / size * size ≤ p := Nat.le_trans (Nat.div_mul_le_self _ _) (Nat.sub_le _ _)
  have hp : p + i = firstOffset size p + i + (p - 1) / size * size := by
    unfold firstOffset
    omega
  rw [hp, Nat.add_mul_div_right _ _ hsize, Nat.add_mul_mod_self_right, firstBlock]
  congr 1
  omega

end DecaFS
