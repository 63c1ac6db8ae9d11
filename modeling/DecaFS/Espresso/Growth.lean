import DecaFS.Espresso.FreeSpace

/-!
# A write that finds no room

A new chunk that finds no extent large enough leaves nothing behind. A growing chunk has given its
extent back by then: `reallocate_chunk` frees it, joins it with its neighbours, and after the failed
allocation works out from the free list which of them it joined. The guess is right in every state
that sized calls lead to, so such a write changes nothing, and no assertion fails.
-/

namespace DecaFS

open EspressoData Espresso Code

/-- A write has a non-negative offset and count, and ends at a positive `int`. -/
def StorageCall.Sized : StorageCall → Prop
  | writeChunk _ offset _ count _ => 0 ≤ offset ∧ 0 ≤ count ∧ 1 ≤ offset + count ∧
      offset + count ≤ intMax
  | deleteChunk _ => True

/-- `allocate_chunk` finds no extent of `size` bytes for the chunk `d`. A growing chunk gives its
own extent back first. -/
def EspressoData.NoExtent (s : EspressoData) (d : DataDescriptor) (size : ℤ) : Prop :=
  match s.metadata.lookup d with
  | none => ∀ it ∈ s.freeExtents, it.size < size
  | some a => a.size < size ∧
      ∃ t, deallocateChunk a s = .ok (⟨⟩, t) ∧ ∀ it ∈ t.freeExtents, it.size < size

section

variable {maxSize : ℕ} {s t : EspressoData} {d : DataDescriptor} {a : DataAddress} {size : ℤ}
  {E : EspressoSite → Prop}

/-- A sized call does not make an empty chunk. -/
theorem EspressoData.Extents.sized (h : Extents maxSize s) {l : StorageCall × ℤ} (hl : l.1.Sized)
    (hs : storageStep s l t) : Extents maxSize t := by
  refine (h.step hs).resolve_right ?_
  rintro ⟨d, offset, buf, count, overread, hcall, -, -, hsize, -⟩
  rw [hcall] at hl
  obtain ⟨h₀, h₁, hpos, hmax⟩ := hl
  rw [toInt32_eq (by omega) hmax] at hsize
  omega

theorem wp_allocateChunk_none (hsmall : ∀ it ∈ s.freeExtents, it.size < size) :
    wp (allocateChunk size) (fun r t => r = none ∧ t = s) E s := by
  have hfind : s.freeExtents.find? (fun it => size ≤ it.size) = none := by
    rw [List.find?_eq_none]
    intro it hit
    have := hsmall it hit
    simpa using this
  simp only [allocateChunk, wp_bind, wp_get, hfind]
  exact (wp_pure _).mpr ⟨rfl, rfl⟩

/-- **The failing `reallocate_chunk`** leaves the store as it was. -/
theorem wp_reallocateChunk_none (h : Extents maxSize s) (hd : s.metadata.lookup d = some a)
    (hfree : deallocateChunk a s = .ok (⟨⟩, t)) (hsmall : ∀ it ∈ t.freeExtents, it.size < size) :
    wp (reallocateChunk d a size) (fun r u => r = -1 ∧ u = s) (fun _ => False) s := by
  have hdealloc := wp_deallocateChunk (E := fun _ => True) h.canonical (h.bounds d a hd).1
    fun x h₀ h₁ hx => ((h.free_iff x).mp hx).2.2 d a hd ⟨h₀, h₁⟩
  obtain ⟨-, -, -, -, hundo⟩ := hdealloc.of_ok hfree
  rw [reallocateChunk, wp_bind, wp_ok hfree, wp_bind]
  refine wp_mono (wp_allocateChunk_none hsmall) (fun r u hu => ?_) fun _ he => he
  obtain ⟨rfl, rfl⟩ := hu
  rw [wp_bind]
  refine wp_mono hundo (fun _ v hv => ?_) fun _ he => he
  exact (wp_pure _).mpr ⟨rfl, hv⟩

/-- A write that finds no extent changes nothing. -/
theorem wp_writeChunk_none (h : Extents maxSize s) {offset count : ℤ} (hcount : 0 ≤ count)
    (hoffset : 0 ≤ offset) (hmax : offset + count ≤ intMax) (hnone : s.NoExtent d (offset + count))
    (buf : List UInt8) (overread : ℕ → UInt8) :
    wp (writeChunk d offset buf count overread) (fun r t => r = -1 ∧ t = s) (fun _ => False) s := by
  have hsize : toInt32 (offset + count) = offset + count := toInt32_eq (by omega) hmax
  unfold NoExtent at hnone
  unfold writeChunk
  simp only [if_neg (not_lt.mpr hcount), wp_bind, wp_get, hsize]
  cases hd : s.metadata.lookup d with
  | none =>
    rw [hd] at hnone
    simp only [wp_bind]
    refine wp_mono (wp_allocateChunk_none hnone) (fun r u hu => ?_) fun _ he => he
    obtain ⟨rfl, hu⟩ := hu
    exact (wp_pure _).mpr ⟨rfl, hu⟩
  | some a =>
    rw [hd] at hnone
    obtain ⟨hgrow, t, hfree, hsmall⟩ := hnone
    have hpos := (h.bounds d a hd).1
    simp only [if_pos hgrow, if_neg (not_lt.mpr hpos.le), wp_bind]
    refine wp_mono (wp_readData_state d 0 a.size) (fun r u hu => ?_) fun _ he => he
    obtain rfl := hu
    obtain ⟨r, oldChunk⟩ := r
    by_cases hr : r = -1
    · simp [hr]
    simp only [if_neg hr, wp_bind]
    refine wp_mono (wp_reallocateChunk_none h hd hfree hsmall) (fun r v hv => ?_) fun _ he => he
    obtain ⟨rfl, hv⟩ := hv
    simpa using hv

end

end DecaFS
