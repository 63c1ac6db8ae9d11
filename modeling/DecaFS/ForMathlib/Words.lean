import DecaFS.ForMathlib.Patch
import Mathlib.Data.UInt
import Mathlib.Algebra.Order.Group.Unbundled.Int

/-!
# 32-bit words in a byte buffer

A word is stored in four bytes, the low one first; storing an integer keeps it modulo `2 ^ 32`.
`getWord_words` reads a word back from a sequence of stored ones, and `patch_append` stores
behind what has been stored already, which is how a packet is laid out piece by piece.
-/

namespace DecaFS

/-- The bytes of the word that `v` is stored as. -/
def wordBytes (v : ℤ) : List UInt8 :=
  let n := (v % 4294967296).toNat
  [.ofNat n, .ofNat (n / 256), .ofNat (n / 65536), .ofNat (n / 16777216)]

/-- The words `vs`, one behind the other. -/
def words (vs : List ℤ) : List UInt8 := vs.flatMap wordBytes

/-- The byte at `pos`. -/
private def byteAt (buf : List UInt8) (pos : ℕ) : ℕ := (buf[pos]?.map UInt8.toNat).getD 0

/-- The word at `pos`, as a `uint32_t`. -/
def getWord (buf : List UInt8) (pos : ℕ) : ℤ :=
  byteAt buf pos + 256 * byteAt buf (pos + 1) + 65536 * byteAt buf (pos + 2) +
    16777216 * byteAt buf (pos + 3)

variable {vs : List ℤ} {v : ℤ} {buf a j tail : List UInt8} {pos i : ℕ}

@[simp]
theorem length_wordBytes : (wordBytes v).length = 4 := rfl

@[simp]
theorem length_words : (words vs).length = 4 * vs.length := by
  induction vs with
  | nil => rfl
  | cons v vs ih =>
    rw [words, List.flatMap_cons, List.length_append, ← words, ih, length_wordBytes,
      List.length_cons]
    omega

theorem words_append (vs' : List ℤ) : words (vs ++ vs') = words vs ++ words vs' :=
  List.flatMap_append

/-- Reading only looks at the bytes from the position on. -/
theorem getWord_append_left : getWord (a ++ buf) (a.length + pos) = getWord buf pos := by
  simp only [getWord, byteAt, Nat.add_assoc, List.getElem?_append_right (Nat.le_add_right _ _),
    Nat.add_sub_cancel_left]

/-- A stored word is read back. -/
theorem getWord_wordBytes : getWord (wordBytes v ++ tail) 0 = v % 4294967296 := by
  have h₀ := Int.emod_nonneg v (by decide : (4294967296 : ℤ) ≠ 0)
  have h₁ := Int.emod_lt_of_pos v (by decide : (0 : ℤ) < 4294967296)
  simp only [getWord, byteAt, wordBytes, List.cons_append, List.nil_append, Nat.zero_add,
    List.getElem?_cons_zero, List.getElem?_cons_succ, Option.map_some, Option.getD_some,
    UInt8.toNat_ofNat']
  omega

/-- **The words stored one behind the other are read back.** -/
theorem getWord_words (h : vs[i]? = some v) :
    getWord (words vs ++ tail) (4 * i) = v % 4294967296 := by
  obtain ⟨hi, rfl⟩ := List.getElem?_eq_some_iff.mp h
  have hvs : vs = vs.take i ++ vs[i] :: vs.drop (i + 1) := by
    rw [← List.drop_eq_getElem_cons hi, List.take_append_drop]
  have hsplit : words vs ++ tail =
      words (vs.take i) ++ (wordBytes vs[i] ++ (words (vs.drop (i + 1)) ++ tail)) :=
    calc words vs ++ tail
        = words (vs.take i ++ vs[i] :: vs.drop (i + 1)) ++ tail :=
          congrArg (fun l => words l ++ tail) hvs
      _ = words (vs.take i) ++ (wordBytes vs[i] ++ words (vs.drop (i + 1))) ++ tail :=
          congrArg (· ++ tail) (words_append _)
      _ = words (vs.take i) ++ (wordBytes vs[i] ++ (words (vs.drop (i + 1)) ++ tail)) := by
          rw [List.append_assoc, List.append_assoc]
  have hlen : (words (vs.take i)).length = 4 * i := by
    rw [length_words, List.length_take_of_le hi.le]
  rw [hsplit, ← hlen, ← Nat.add_zero (words (vs.take i)).length, getWord_append_left,
    getWord_wordBytes]

/-- A word is made of the four bytes at its position. -/
theorem getWord_congr (h : ∀ i < 4, a[pos + i]? = buf[pos + i]?) :
    getWord a pos = getWord buf pos := by
  have h₀ : a[pos]? = buf[pos]? := h 0 (by decide)
  simp only [getWord, byteAt, h₀, h 1 (by decide), h 2 (by decide), h 3 (by decide)]

/-- A word is a `uint32_t`. -/
theorem getWord_mem : 0 ≤ getWord buf pos ∧ getWord buf pos < 4294967296 := by
  have hlt (i : ℕ) : byteAt buf i < 256 := by
    unfold byteAt
    rcases buf[i]? with _ | b
    · decide
    · exact UInt8.toNat_lt b
  have h₀ := hlt pos
  have h₁ := hlt (pos + 1)
  have h₂ := hlt (pos + 2)
  have h₃ := hlt (pos + 3)
  unfold getWord
  omega

/-- Only the first four bytes are read. -/
theorem getWord_take : getWord (buf.take 4) 0 = getWord buf 0 := by
  simp [getWord, byteAt]

/-- Four bytes are determined by their word. -/
theorem eq_of_getWord_eq (ha : a.length = 4) (hbuf : buf.length = 4)
    (h : getWord a 0 = getWord buf 0) : a = buf := by
  obtain ⟨a₀, a₁, a₂, a₃, rfl⟩ := List.length_eq_four.mp ha
  obtain ⟨b₀, b₁, b₂, b₃, rfl⟩ := List.length_eq_four.mp hbuf
  simp only [getWord, byteAt, Nat.zero_add, List.getElem?_cons_zero, List.getElem?_cons_succ,
    Option.map_some, Option.getD_some] at h
  have hlt (b : UInt8) : b.toNat < 256 := UInt8.toNat_lt b
  have ha₀ := hlt a₀; have ha₁ := hlt a₁; have ha₂ := hlt a₂
  have hb₀ := hlt b₀; have hb₁ := hlt b₁; have hb₂ := hlt b₂
  -- the low byte first: each is the rest of the word modulo 256
  have h₀ : a₀ = b₀ := UInt8.toNat_inj.mp (by omega)
  have h₁ : a₁ = b₁ := UInt8.toNat_inj.mp (by omega)
  have h₂ : a₂ = b₂ := UInt8.toNat_inj.mp (by omega)
  have h₃ : a₃ = b₃ := UInt8.toNat_inj.mp (by omega)
  rw [h₀, h₁, h₂, h₃]

/-- Storing behind what is stored already. -/
theorem patch_append (h : a.length = pos) (bs : List UInt8) :
    patch (a ++ j) pos bs = a ++ bs ++ j.drop bs.length := by
  subst h
  rw [patch, List.take_left, List.drop_append]
  simp

end DecaFS
