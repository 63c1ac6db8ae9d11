import Mathlib.Data.List.Basic

/-!
# Reading and overwriting a segment of a list

`slice l pos n` is the segment of length `n` at `pos`, cut off at the end of the list;
`patch l pos bs` overwrites the segment at `pos` with `bs`. They are `read` and `write` on a
file at a position within it.
-/

namespace DecaFS

variable {α : Type*}

/-- The `n` elements from position `pos` on, as far as there are any. -/
def slice (l : List α) (pos n : ℕ) : List α := (l.drop pos).take n

/-- Overwrite `l` from position `pos` on with `bs`. -/
def patch (l : List α) (pos : ℕ) (bs : List α) : List α :=
  l.take pos ++ bs ++ l.drop (pos + bs.length)

variable {l bs : List α} {pos n i : ℕ}

@[simp]
theorem length_slice : (slice l pos n).length = min n (l.length - pos) := by
  simp [slice]

theorem getElem?_slice : (slice l pos n)[i]? = if i < n then l[pos + i]? else none := by
  rw [slice, List.getElem?_take, List.getElem?_drop]

theorem patch_nil : patch l pos [] = l := by
  rw [patch, List.append_nil, List.length_nil, Nat.add_zero, List.take_append_drop]

theorem length_patch (h : pos + bs.length ≤ l.length) : (patch l pos bs).length = l.length := by
  simp only [patch, List.length_append, List.length_take, List.length_drop]
  omega

theorem getElem?_patch (h : pos ≤ l.length) :
    (patch l pos bs)[i]? = if pos ≤ i ∧ i < pos + bs.length then bs[i - pos]? else l[i]? := by
  have hlen : (l.take pos).length = pos := List.length_take_of_le h
  unfold patch
  rcases Nat.lt_or_ge i pos with hi | hi
  · rw [List.append_assoc, List.getElem?_append_left (by omega), List.getElem?_take_of_lt hi,
      if_neg (by omega)]
  · rcases Nat.lt_or_ge i (pos + bs.length) with hi' | hi'
    · rw [List.append_assoc, List.getElem?_append_right (by omega),
        List.getElem?_append_left (by omega), hlen, if_pos ⟨hi, hi'⟩]
    · rw [List.getElem?_append_right (by simp; omega), List.getElem?_drop, if_neg (by omega)]
      congr 1
      simp only [List.length_append, hlen]
      omega

end DecaFS
