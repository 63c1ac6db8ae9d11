import Mathlib.Algebra.BigOperators.Group.Finset.Basic
import DecaFS.Espresso.Refinement

/-!
# The free space of the chunk store

The chunks and the free extents share out the data file: no position belongs to two of them
and none to nothing (`Extents.sharesOut`). The calls keep it so whatever their arguments are,
except that the allocation of an empty chunk erases the first free extent: the extent it
inserts back has the same offset, which the ordered set already has.

With that, the free extents are the maximal runs of unused positions, a new or growing chunk
gets the first room there is, and the one other way to lose the sharing is a restart with a full
data file, which `espresso_global_data_init` takes for an empty one.
-/

namespace DecaFS

open EspressoData Espresso Code Intervals

/-! ### Sharing out the file -/

/-- The extents have no position in common. -/
def DataAddress.Apart (a b : DataAddress) : Prop := ∀ x, a.Has x → ¬ b.Has x

namespace EspressoData

/-- The size of the chunk `d`. -/
def sizeOf (s : EspressoData) (d : DataDescriptor) : ℤ :=
  (s.metadata.lookup d).elim 0 DataAddress.size

/-- Neither chunks nor free extents overlap a chunk. -/
structure NoOverlap (s : EspressoData) : Prop where
  chunks : ∀ d d' a a', d ≠ d' → s.metadata.lookup d = some a → s.metadata.lookup d' = some a' →
    a.Apart a'
  free : ∀ a ∈ s.freeExtents, ∀ d b, s.metadata.lookup d = some b → a.Apart b

/-- Chunks and free extents share out a file of `maxSize` bytes. -/
structure SharesOut (maxSize : ℕ) (s : EspressoData) : Prop extends NoOverlap s where
  free_apart : s.freeExtents.Pairwise DataAddress.Apart
  free_within : ∀ a ∈ s.freeExtents, 0 ≤ a.offset ∧ a.offset + a.size ≤ maxSize
  chunks_within : ∀ d a, s.metadata.lookup d = some a → 0 ≤ a.offset ∧ a.offset + a.size ≤ maxSize
  sizes : (s.freeExtents.map DataAddress.size).sum + ∑ d ∈ s.metadata.keys, s.sizeOf d = maxSize

variable {maxSize : ℕ} {s t : EspressoData} {d : DataDescriptor} {a b : DataAddress}

namespace Extents

theorem congr (h : Extents maxSize s) (hmeta : t.metadata = s.metadata)
    (hfree : t.freeExtents = s.freeExtents) : Extents maxSize t where
  canonical := by
    unfold FreeCanonical
    rw [hfree]
    exact h.canonical
  bounds d a ha := h.bounds d a (hmeta ▸ ha)
  disjoint d d' a a' x hne ha ha' := h.disjoint d d' a a' x hne (hmeta ▸ ha) (hmeta ▸ ha')
  free_iff x := by
    unfold EspressoData.free
    rw [hfree, hmeta]
    exact h.free_iff x

theorem mem_free (ha : a ∈ s.freeExtents) {x : ℤ} (hx : a.Has x) : x ∈ s.free :=
  ⟨a.interval, List.mem_map_of_mem ha, hx.1, hx.2⟩

theorem noOverlap (h : Extents maxSize s) : NoOverlap s where
  chunks d d' a a' hne ha ha' x hx := h.disjoint d d' a a' x hne ha ha' hx
  free _ ha d b hb x hx := ((h.free_iff x).mp (mem_free ha hx)).2.2 d b hb

theorem free_apart (h : Extents maxSize s) : s.freeExtents.Pairwise DataAddress.Apart := by
  refine (List.pairwise_map.mp h.canonical.2).imp ?_
  intro a b hab x hx hx'
  have := hx.2
  have := hx'.1
  simp only [DataAddress.interval] at hab
  omega

theorem free_within (h : Extents maxSize s) (ha : a ∈ s.freeExtents) :
    0 < a.size ∧ 0 ≤ a.offset ∧ a.offset + a.size ≤ maxSize := by
  have hpos := h.canonical.1 _ (List.mem_map_of_mem ha)
  simp only [DataAddress.interval] at hpos
  have hfirst := (h.free_iff _).mp (mem_free ha (x := a.offset) ⟨le_rfl, by omega⟩)
  have hlast := (h.free_iff _).mp (mem_free ha (x := a.offset + a.size - 1) ⟨by omega, by omega⟩)
  exact ⟨by omega, hfirst.1, by omega⟩

/-- **Chunks and free extents share out the file.** -/
theorem sharesOut (h : Extents maxSize s) : SharesOut maxSize s := by
  refine ⟨h.noOverlap, h.free_apart, fun a ha => (h.free_within ha).2,
    fun d a ha => (h.bounds d a ha).2, ?_⟩
  -- the intervals of the free extents and of the chunks cover the file
  let chunk : DataDescriptor → DataAddress := fun d => (s.metadata.lookup d).getD ⟨0, 0⟩
  have hchunk : ∀ d ∈ s.metadata.keys.toList, s.metadata.lookup d = some (chunk d) := by
    intro d hd
    obtain ⟨a, ha⟩ := Finmap.mem_iff.mp (Finmap.mem_keys.mp (Finset.mem_toList.mp hd))
    simp [chunk, ha]
  have hsizeOf : ∀ d, s.sizeOf d = (chunk d).size := by
    intro d
    cases hd : s.metadata.lookup d <;> simp [sizeOf, chunk, hd]
  have hsum := sum_length_of_cover 0 maxSize
    (l := s.freeExtents.map DataAddress.interval ++
      s.metadata.keys.toList.map fun d => (chunk d).interval) ?_ (by omega) ?_ ?_
  · rw [List.map_append, List.sum_append, List.map_map, List.map_map, sub_zero] at hsum
    rw [← hsum, ← Finset.sum_map_toList]
    congr 2
    · exact List.map_congr_left fun a _ => by simp [DataAddress.interval]
    · exact List.map_congr_left fun d _ => by simp [hsizeOf, DataAddress.interval]
  · intro m hm
    rcases List.mem_append.mp hm with hm | hm
    · exact (h.canonical.1 m hm).le
    · obtain ⟨d, hd, rfl⟩ := List.mem_map.mp hm
      have := (h.bounds d _ (hchunk d hd)).1
      simp only [DataAddress.interval]
      omega
  · refine List.pairwise_append.mpr ⟨?_, ?_, ?_⟩
    · refine List.pairwise_map.mpr (h.free_apart.imp ?_)
      intro a b hab x hlo hhi hx
      exact hab x ⟨hlo, hhi⟩ hx
    · refine List.pairwise_map.mpr ((Finset.nodup_toList _).imp_of_mem ?_)
      intro d d' hd hd' hne x hlo hhi hx
      exact h.disjoint d d' _ _ x hne (hchunk d hd) (hchunk d' hd') ⟨hlo, hhi⟩ hx
    · intro m hm m' hm' x hlo hhi hx
      obtain ⟨a, ha, rfl⟩ := List.mem_map.mp hm
      obtain ⟨d, hd, rfl⟩ := List.mem_map.mp hm'
      exact h.noOverlap.free a ha d _ (hchunk d hd) x ⟨hlo, hhi⟩ hx
  · intro x
    rw [mem_cover_append]
    constructor
    · rintro (hx | ⟨m, hm, hlo, hhi⟩)
      · obtain ⟨h₀, h₁, -⟩ := (h.free_iff x).mp hx
        exact ⟨h₀, h₁⟩
      · obtain ⟨d, hd, rfl⟩ := List.mem_map.mp hm
        have := h.bounds d _ (hchunk d hd)
        simp only [DataAddress.interval] at hlo hhi
        omega
    · rintro ⟨h₀, h₁⟩
      by_cases hx : x ∈ s.free
      · exact .inl hx
      · rw [h.free_iff] at hx
        push Not at hx
        obtain ⟨d, a, ha, hax⟩ := hx h₀ h₁
        have hd : d ∈ s.metadata.keys.toList :=
          Finset.mem_toList.mpr (Finmap.mem_keys.mpr (Finmap.mem_of_lookup_eq_some ha))
        obtain rfl : a = chunk d := Option.some.inj (ha.symm.trans (hchunk d hd))
        exact .inr ⟨_, List.mem_map_of_mem hd, hax.1, hax.2⟩

end Extents

end EspressoData

/-! ### The calls keep it so -/

/-- A call that changes the extents, with any arguments. -/
inductive StorageCall : Type
  | writeChunk (d : DataDescriptor) (offset : ℤ) (buf : List UInt8) (count : ℤ)
      (overread : ℕ → UInt8)
  | deleteChunk (d : DataDescriptor)

namespace StorageCall

/-- The function called. -/
def code : StorageCall → Espresso ℤ
  | writeChunk d offset buf count overread => Espresso.writeChunk d offset buf count overread
  | deleteChunk d => Espresso.deleteChunk d

/-- A write has a non-negative offset and count, and ends within an `int`. -/
def InRange : StorageCall → Prop
  | writeChunk _ offset _ count _ => 0 ≤ offset ∧ 0 ≤ count ∧ offset + count ≤ intMax
  | deleteChunk _ => True

/-- The call does not make an empty chunk while there is a free extent. -/
def NotEmpty (s : EspressoData) : StorageCall → Prop
  | writeChunk d offset _ count _ =>
    s.metadata.lookup d = none → s.freeExtents ≠ [] → offset + count ≠ 0
  | deleteChunk _ => True

end StorageCall

/-- One call. -/
def storageStep (s : EspressoData) (l : StorageCall × ℤ) (t : EspressoData) : Prop :=
  l.1.code s = .ok (l.2, t)

section Calls

variable {maxSize : ℕ} {s t : EspressoData} {d : DataDescriptor} {E : EspressoSite → Prop}

/-- The chunk `d` was made empty, or less, out of a free extent. -/
def MadeEmpty (s : EspressoData) (d : DataDescriptor) (size : ℤ) (t : EspressoData) : Prop :=
  s.metadata.lookup d = none ∧ s.freeExtents ≠ [] ∧ size ≤ 0 ∧
    ∃ a, t.metadata.lookup d = some a ∧ a.size = size

/-- **`write_chunk`** keeps the file shared out unless it makes an empty chunk. -/
theorem wp_writeChunk_extents (h : Extents maxSize s) (offset : ℤ) (buf : List UInt8) (count : ℤ)
    (overread : ℕ → UInt8) :
    wp (writeChunk d offset buf count overread) (fun _ t => Extents maxSize t ∨
      MadeEmpty s d (toInt32 (offset + count)) t) E s := by
  have hwrite : ∀ {u : EspressoData}, Extents maxSize u → ∀ (offset count : ℤ) buf,
      wp (writeData d offset buf count) (fun _ t => Extents maxSize t) E u := by
    intro u hu offset count buf
    exact wp_mono (wp_writeData_extents d offset buf count)
      (fun _ t ht => hu.congr ht.1 ht.2) fun e he => he
  unfold writeChunk
  by_cases hcount : count < 0
  · simpa [hcount] using .inl h
  simp only [if_neg hcount, wp_bind, wp_get]
  cases hd : s.metadata.lookup d with
  | none =>
    simp only [wp_bind]
    by_cases hsize : 0 < toInt32 (offset + count)
    · refine wp_mono (wp_allocateChunk_new h hd hsize) (fun r u hu => ?_) fun e he => he
      cases r with
      | none => exact (wp_pure _).mpr <| .inl (hu.1 ▸ h)
      | some a =>
        simp only [wp_bind, wp_modify]
        exact wp_mono (hwrite hu.2.2.1 offset count buf) (fun _ t ht => .inl ht) fun e he => he
    · refine wp_mono (wp_allocateChunk_of_nonpos h.canonical (not_lt.mp hsize)) (fun r u hu => ?_)
        fun e he => he
      cases r with
      | none => exact (wp_pure _).mpr <| .inl (hu.1 ▸ h)
      | some a =>
        -- an empty chunk is entered, and what is written does not change that
        simp only [wp_bind, wp_modify]
        refine wp_mono (wp_writeData_extents d offset buf count) (fun _ t ht => ?_) fun e he => he
        exact .inr ⟨hd, hu.2, not_lt.mp hsize, a, by rw [ht.1, Finmap.lookup_insert], hu.1⟩
  | some a =>
    have hpos := (h.bounds d a hd).1
    by_cases hgrow : toInt32 (offset + count) > a.size
    · simp only [if_pos hgrow, if_neg (not_lt.mpr hpos.le), wp_bind]
      refine wp_mono (wp_readData_state d 0 a.size) (fun r u hu => ?_) fun e he => he
      obtain rfl := hu
      obtain ⟨r, oldChunk⟩ := r
      by_cases hr : r = -1
      · simpa [hr] using .inl h
      simp only [if_neg hr, wp_bind]
      refine wp_mono (wp_reallocateChunk h hd (by omega)) (fun r v hv => ?_) fun e he => he
      rcases hv with ⟨rfl, rfl, -⟩ | ⟨rfl, -, hext, -⟩
      · simpa using .inl h
      simp only [if_neg (by decide : ¬ (0 : ℤ) = -1), wp_bind, wp_get]
      refine wp_mono (hwrite hext _ _ _) (fun r' z hz => ?_) fun e he => he
      by_cases hr' : r' = -1
      · simpa [hr'] using .inl hz
      simp only [if_neg hr']
      exact wp_mono (hwrite hz offset count buf) (fun _ t ht => .inl ht) fun e he => he
    · simp only [if_neg hgrow]
      exact wp_mono (hwrite h offset count buf) (fun _ t ht => .inl ht) fun e he => he

/-- A call keeps the file shared out unless it makes an empty chunk. -/
theorem EspressoData.Extents.step (h : Extents maxSize s) {l : StorageCall × ℤ} (hs : storageStep s l t) :
    Extents maxSize t ∨ ∃ d offset buf count overread,
      l.1 = .writeChunk d offset buf count overread ∧ MadeEmpty s d (toInt32 (offset + count)) t := by
  obtain ⟨call, r⟩ := l
  cases call with
  | writeChunk d offset buf count overread =>
    have hwp := wp_writeChunk_extents (E := fun _ => True) (d := d) h offset buf count overread
    exact (hwp.of_ok hs).imp_right fun hempty => ⟨d, offset, buf, count, overread, rfl, hempty⟩
  | deleteChunk d =>
    have hwp := wp_deleteChunk_extents (E := fun _ => True) (d := d) h
    exact .inl (hwp.of_ok hs).2.1

theorem extents_init (hpos : 0 < maxSize) : Extents maxSize (espressoGlobalDataInit maxSize) :=
  (StoreInv.init hpos).extents

end Calls

/-- A chunk of a file of 16 bytes. -/
def sampleChunk : DataDescriptor := ⟨1, 1, 1⟩

/-- A write of two bytes to it. -/
def sampleWrite : StorageCall := .writeChunk sampleChunk 0 [1, 2] 2 fun _ => 0

namespace EspressoData

/-- Position `x` of a file of `maxSize` bytes belongs to no chunk. -/
def Unused (maxSize : ℕ) (s : EspressoData) (x : ℤ) : Prop :=
  0 ≤ x ∧ x < maxSize ∧ ∀ d a, s.metadata.lookup d = some a → ¬ a.Has x

/-- The extent `a` is a maximal run of unused positions. -/
def MaximalRun (maxSize : ℕ) (s : EspressoData) (a : DataAddress) : Prop :=
  0 < a.size ∧ (∀ x, a.Has x → s.Unused maxSize x) ∧ ¬ s.Unused maxSize (a.offset - 1) ∧
    ¬ s.Unused maxSize (a.offset + a.size)

variable {maxSize : ℕ} {s : EspressoData}

/-- The free extents are the maximal runs of unused positions. -/
theorem Extents.mem_freeExtents_iff (h : Extents maxSize s) (a : DataAddress) :
    a ∈ s.freeExtents ↔ s.MaximalRun maxSize a := by
  have hinj : a ∈ s.freeExtents ↔ a.interval ∈ s.freeExtents.map DataAddress.interval := by
    refine ⟨List.mem_map_of_mem, fun hmem => ?_⟩
    obtain ⟨b, hb, hab⟩ := List.mem_map.mp hmem
    obtain ⟨hoffset, hsize⟩ := Prod.mk.inj hab
    obtain rfl : b = a := by
      cases a
      cases b
      simp only at hoffset hsize
      simp only [DataAddress.mk.injEq]
      omega
    exact hb
  have hfree : ∀ x, x ∈ cover (s.freeExtents.map DataAddress.interval) ↔ s.Unused maxSize x :=
    h.free_iff
  rw [hinj, h.canonical.mem_iff]
  simp only [hfree, DataAddress.interval, MaximalRun, DataAddress.Has, and_imp]
  refine and_congr_left fun _ => ?_
  omega

/-- Without chunks the whole file is one free extent. -/
theorem Extents.freeExtents_of_empty (h : Extents maxSize s) (hpos : 0 < maxSize)
    (hempty : s.metadata = ∅) : s.freeExtents = [⟨0, maxSize⟩] := by
  have hmap := h.canonical.eq_singleton (s := 0) (e := maxSize) (by omega) fun x => by
    rw [← EspressoData.free, h.free_iff]
    simp [hempty]
  obtain ⟨a, ha, hinterval⟩ := List.map_eq_singleton_iff.mp hmap
  obtain ⟨hoffset, hsize⟩ := Prod.mk.inj hinterval
  rw [ha]
  cases a
  simp only [List.cons.injEq, DataAddress.mk.injEq, and_true]
  simp only at hoffset hsize
  omega

end EspressoData

/-- `espresso_global_data_init` on the files of an earlier session. -/
def restart (maxSize : ℕ) (s : EspressoData) : EspressoData :=
  { s with freeExtents := if s.freeExtents = [] then [⟨0, maxSize⟩] else s.freeExtents }

/-- One call, after which every chunk has at least one byte. -/
def sizedStep (s : EspressoData) (l : StorageCall × ℤ) (t : EspressoData) : Prop :=
  storageStep s l t ∧ ∀ d a, t.metadata.lookup d = some a → 1 ≤ a.size

theorem EspressoData.Extents.of_sizedSteps {maxSize : ℕ} {s t : EspressoData}
    {tr : List (StorageCall × ℤ)} (h : Extents maxSize s) (hrun : Steps sizedStep s tr t) :
    Extents maxSize t := by
  refine hrun.invariant (I := Extents maxSize) ?_ h
  rintro s l t h ⟨hs, hsized⟩
  refine (h.step hs).resolve_right ?_
  rintro ⟨d, offset, buf, count, overread, -, -, -, hsize, a, ha, hasize⟩
  have := hsized d a ha
  omega

/-- **A restart keeps the storage invariant exactly if the data file is not full.** -/
theorem restart_noOverlap_iff (maxSize : ℕ) (hpos : 0 < maxSize) {tr : List (StorageCall × ℤ)}
    {s : EspressoData} (hrun : Steps sizedStep (espressoGlobalDataInit maxSize) tr s) :
    (∀ tr' t, Steps sizedStep (restart maxSize s) tr' t → t.NoOverlap) ↔ s.freeExtents ≠ [] := by
  have hext := (extents_init hpos).of_sizedSteps hrun
  constructor
  · intro hall hfull
    have hfree := (hall [] _ (.refl _)).free ⟨0, maxSize⟩ (by simp [restart, hfull])
    -- position 0 is in a chunk, and the extent of the whole file has it too
    have hused : (0 : ℤ) ∉ s.free := by simp [EspressoData.free, hfull]
    rw [hext.free_iff] at hused
    push Not at hused
    obtain ⟨d, a, ha, hhas⟩ := hused le_rfl (by omega)
    exact hfree d a ha 0 ⟨le_rfl, by simpa using hpos⟩ hhas
  · intro hfree tr' t hrun'
    have hsame : restart maxSize s = s := by simp [restart, hfree]
    exact (hext.of_sizedSteps (hsame ▸ hrun')).noOverlap

private theorem sizedStep_sampleWrite {maxSize : ℕ} (hpos : 0 < maxSize) {s : EspressoData}
    (hs : storageStep (espressoGlobalDataInit maxSize) (sampleWrite, 2) s) :
    sizedStep (espressoGlobalDataInit maxSize) (sampleWrite, 2) s := by
  refine ⟨hs, fun d a ha => ?_⟩
  rcases (extents_init hpos).step hs with hext | ⟨d, offset, buf, count, overread, heq, hempty⟩
  · exact (hext.bounds d a ha).1
  · obtain ⟨-, rfl, -, rfl, -⟩ := StorageCall.writeChunk.inj heq
    exact absurd hempty.2.2.1 (by decide)

theorem restart_noOverlap_sampleWrite : ∃ s,
    storageStep (espressoGlobalDataInit 16) (sampleWrite, 2) s ∧
      ((∀ tr' t, Steps sizedStep (restart 16 s) tr' t → t.NoOverlap) ↔ s.freeExtents ≠ []) := by
  have hstep : ∃ s, storageStep (espressoGlobalDataInit 16) (sampleWrite, 2) s := ⟨_, rfl⟩
  obtain ⟨s, hs⟩ := hstep
  exact ⟨s, hs, restart_noOverlap_iff 16 (by decide) (.single (sizedStep_sampleWrite (by decide) hs))⟩

/-- A chunk of 2 bytes fills a file of 2 bytes, and after a restart it is free as well. -/
theorem fullFile_restarts_free : ∃ s, sizedStep (espressoGlobalDataInit 2) (sampleWrite, 2) s ∧
    ¬ (restart 2 s).NoOverlap := by
  have hstep : ∃ s, storageStep (espressoGlobalDataInit 2) (sampleWrite, 2) s ∧
      s.metadata.lookup sampleChunk = some ⟨0, 2⟩ ∧ s.freeExtents = [] :=
    ⟨_, rfl, Finmap.lookup_insert _, by decide⟩
  obtain ⟨s, hs, hchunk, hfull⟩ := hstep
  refine ⟨s, sizedStep_sampleWrite (by decide) hs, fun h => ?_⟩
  have hapart := h.free ⟨0, 2⟩ (by simp [restart, hfull]) sampleChunk ⟨0, 2⟩ hchunk
  exact hapart 0 (by simp [DataAddress.Has]) (by simp [DataAddress.Has])

end DecaFS
