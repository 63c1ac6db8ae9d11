import Mathlib.Order.Bounds.Defs
import DecaFS.PersistentStl.Slots

/-!
# The free slots as a set

`deallocate` and `allocate` of `persistent_map.h` and `persistent_set.h`, as operations on the set of
slots that the unallocated extents cover: the one adds the slot it computes, the other takes the
least slot away or, when there is none, the first of ten new ones. The extents stay canonical.

All of this holds as long as the ends of the extents are values of an `int`
(`persistentStl_extents_iff`).
-/

namespace DecaFS

open Intervals

namespace Layout

variable {E K : Type} [DecidableEq K] (L : Layout E K) (c : Container E K)

/-- `deallocate` adds the slot it computes. -/
structure GivesBack (p : ℕ) : Prop where
  canonical : Canonical (L.deallocate p c).unallocated
  cover_eq : cover (L.deallocate p c).unallocated = insert (L.slotIndex p) (cover c.unallocated)

/-- `allocate` takes the least free slot. -/
structure TakesLeast : Prop where
  isLeast : IsLeast (cover c.unallocated) (L.allocate c).1
  canonical : Canonical (L.allocate c).2.unallocated
  cover_eq : cover (L.allocate c).2.unallocated = cover c.unallocated \ {(L.allocate c).1}

/-- `allocate` takes the first of ten new slots. -/
structure Grows : Prop where
  length : (L.allocate c).2.slots.length = c.slots.length + 10
  first : (L.allocate c).1 = c.slots.length
  canonical : Canonical (L.allocate c).2.unallocated
  mem_cover_iff : ∀ x, x ∈ cover (L.allocate c).2.unallocated ↔
    (c.slots.length : ℤ) < x ∧ x < c.slots.length + 10

/-- What the unallocated extents of a container are to the slots. -/
structure ExtentAlgebra (p : ℕ) : Prop where
  givesBack : L.slotIndex p ∉ cover c.unallocated → L.GivesBack c p
  takesLeast : c.unallocated ≠ [] → L.TakesLeast c
  grows : c.unallocated = [] → L.Grows c

variable {L c} {p : ℕ}

omit [DecidableEq K] in
theorem givesBack_iff (h : Canonical c.unallocated) (hp : L.slotIndex p ∉ cover c.unallocated) :
    L.GivesBack c p ↔ L.slotIndex p ≠ intMax := by
  have hint : -2147483648 ≤ L.slotIndex p ∧ L.slotIndex p ≤ intMax := toInt32_mem _
  constructor
  · intro hback heq
    have hmem : L.slotIndex p ∈ cover (insertExtent (L.slotIndex p) c.unallocated) := by
      have hcover := hback.cover_eq
      rw [deallocate] at hcover
      rw [hcover]
      exact Set.mem_insert _ _
    rw [heq] at hmem hp
    exact intMax_notMem_insertExtent h hp hmem
  · intro hne
    have hlt : L.slotIndex p < intMax := by omega
    obtain ⟨hcan, hcover⟩ := insertExtent_spec h hint.1 hlt hp
    refine ⟨hcan, Set.ext fun x => ?_⟩
    rw [deallocate, hcover x, Set.mem_insert_iff, or_comm]

omit [DecidableEq K] in
theorem takesLeast (h : Canonical c.unallocated) (hne : c.unallocated ≠ []) : L.TakesLeast c := by
  obtain ⟨m, R, hun⟩ := List.exists_cons_of_ne_nil hne
  have hcan : Canonical (m :: R) := hun ▸ h
  obtain ⟨htaken, hcover⟩ := takeExtent_spec hcan
  have hfst : (L.allocate c).1 = m.1 := by simp only [allocate, hun]
  have hrest : (L.allocate c).2.unallocated = takeExtent m (m :: R) := by
    simp only [allocate, hun]
  refine ⟨⟨?_, ?_⟩, hrest ▸ htaken, Set.ext fun x => ?_⟩
  · rw [hfst, hun]
    exact ⟨m, List.mem_cons_self, le_rfl, hcan.1 m List.mem_cons_self⟩
  · rintro x hx
    rw [hun] at hx
    obtain ⟨-, -, -, -, hmR⟩ := canonical_append_cons (L := []).mp hcan
    have hlt := hcan.1 m List.mem_cons_self
    rcases mem_cover_cons.mp hx with ⟨hle, -⟩ | ⟨b, hb, hle, -⟩
    · exact hfst ▸ hle
    · have hmb := hmR b hb
      omega
  · rw [hrest, hcover x, hun, hfst, Set.mem_sdiff, Set.mem_singleton_iff]

omit [DecidableEq K] in
theorem grows_iff (hsize : c.mapSize / L.size = c.slots.length) (hun : c.unallocated = []) :
    L.Grows c ↔ (c.slots.length : ℤ) + 10 ≤ intMax := by
  constructor
  · intro h
    -- the last of the new slots lies below the end of the extent, which is an `int`
    have hlast : (c.slots.length : ℤ) + 9 ∈ cover (L.allocate c).2.unallocated :=
      (h.mem_cover_iff _).mpr ⟨by omega, by omega⟩
    simp only [allocate, hun, mem_cover_cons, cover_nil, Set.mem_empty_iff_false, or_false] at hlast
    have hend := (toInt32_mem (toInt32 (c.mapSize / L.size) + 10)).2
    omega
  · intro hmax
    have h₀ : toInt32 (c.slots.length : ℤ) = c.slots.length := toInt32_eq (by omega) (by omega)
    have h₁ : toInt32 ((c.slots.length : ℤ) + 1) = c.slots.length + 1 :=
      toInt32_eq (by omega) (by omega)
    have h₁₀ : toInt32 ((c.slots.length : ℤ) + 10) = c.slots.length + 10 :=
      toInt32_eq (by omega) hmax
    have hrest : (L.allocate c).2.unallocated =
        [((c.slots.length : ℤ) + 1, (c.slots.length : ℤ) + 10)] := by
      simp only [allocate, hun, hsize, h₀, h₁, h₁₀]
    refine ⟨?_, ?_, ?_, fun x => ?_⟩
    · simp only [allocate, hun, List.length_append, List.length_replicate]
    · simp only [allocate, hun, hsize, h₀]
    · rw [hrest]
      exact canonical_singleton.mpr (by dsimp only; omega)
    · rw [hrest, mem_cover_cons, cover_nil]
      simp only [Set.mem_empty_iff_false, or_false]
      omega

omit [DecidableEq K] in
theorem extentAlgebra_iff (h : Canonical c.unallocated)
    (hsize : c.mapSize / L.size = c.slots.length) (hp : L.slotIndex p ∉ cover c.unallocated) :
    L.ExtentAlgebra c p ↔
      L.slotIndex p ≠ intMax ∧ (c.unallocated = [] → (c.slots.length : ℤ) + 10 ≤ intMax) := by
  constructor
  · intro halg
    exact ⟨(givesBack_iff h hp).mp (halg.givesBack hp),
      fun hun => (grows_iff hsize hun).mp (halg.grows hun)⟩
  · rintro ⟨hmax, hgrow⟩
    exact ⟨fun _ => (givesBack_iff h hp).mpr hmax, takesLeast h,
      fun hun => (grows_iff hsize hun).mpr (hgrow hun)⟩

end Layout

open Layout

/-- **The extents are the free slots.** On canonical extents of a map or a set, `deallocate` and
`allocate` do to the set of the slots what they are for, exactly if no end of an extent leaves `int`:
the slot given back is not `INT_MAX`, and ten more slots have indices. -/
theorem persistentStl_extents_iff {Key T K Entry K' : Type} [DecidableEq Key] [DecidableEq K]
    [DecidableEq Entry] [DecidableEq K'] (M : MapTypes Key T K) (S : SetTypes Entry K') :
    (∀ (c : Container (Key × T) K) (p : ℕ), Canonical c.unallocated →
        c.mapSize / M.pairSize = c.slots.length →
        (PersistentMap.layout M).slotIndex p ∉ cover c.unallocated →
        ((PersistentMap.layout M).ExtentAlgebra c p ↔
          (PersistentMap.layout M).slotIndex p ≠ intMax ∧
            (c.unallocated = [] → (c.slots.length : ℤ) + 10 ≤ intMax))) ∧
    ∀ (c : Container Entry K') (p : ℕ), Canonical c.unallocated →
        c.mapSize / S.entrySize = c.slots.length →
        (PersistentSet.layout S).slotIndex p ∉ cover c.unallocated →
        ((PersistentSet.layout S).ExtentAlgebra c p ↔
          (PersistentSet.layout S).slotIndex p ≠ intMax ∧
            (c.unallocated = [] → (c.slots.length : ℤ) + 10 ≤ intMax)) :=
  ⟨fun _ _ h hsize hp => extentAlgebra_iff h hsize hp,
    fun _ _ h hsize hp => extentAlgebra_iff h hsize hp⟩

section Examples

/-- A map with slot `0` in use and nine free ones. -/
def grownIntMap : Container (ℤ × ℤ) ℤ :=
  { freshIntMap with
    slots := (1, 2) :: List.replicate 9 (0, 0)
    mapSize := 80
    unallocated := [(1, 10)] }

theorem grownIntMap_extents : (PersistentMap.layout intMap).ExtentAlgebra grownIntMap 0 :=
  ((persistentStl_extents_iff intMap intSet).1 grownIntMap 0
    (canonical_singleton.mpr (by decide)) (by decide)
    (by rintro ⟨m, hm, hle, -⟩; revert hle; rw [List.mem_singleton.mp hm]; decide)).mpr
    ⟨by decide, fun h => absurd h (List.cons_ne_nil _ _)⟩

/-- `PersistentSet<char>`. -/
def byteSet : SetTypes ℤ ℤ := ⟨id, 0, 1, Nat.one_pos⟩

/-- `open` of a file of `2^31` zero bytes, before its last slot. -/
def zeroByteSet : Container ℤ ℤ where
  slots := List.replicate 2147483648 0
  mapSize := 2147483648
  isOpen := true
  entries := ∅
  unallocated := [(0, 2147483647)]

/-- The last slot joins the free ones as an extent that ends at `INT_MIN`. -/
theorem zeroByteSet_not_extents :
    Canonical zeroByteSet.unallocated ∧
      zeroByteSet.mapSize / byteSet.entrySize = zeroByteSet.slots.length ∧
      (PersistentSet.layout byteSet).slotIndex 2147483647 ∉ cover zeroByteSet.unallocated ∧
      ((PersistentSet.layout byteSet).deallocate 2147483647 zeroByteSet).unallocated =
        [(0, -2147483648)] ∧
      ¬ (PersistentSet.layout byteSet).ExtentAlgebra zeroByteSet 2147483647 := by
  have hcan : Canonical zeroByteSet.unallocated := canonical_singleton.mpr (by decide)
  have hslot : (PersistentSet.layout byteSet).slotIndex 2147483647 = intMax := by decide
  have hp : (PersistentSet.layout byteSet).slotIndex 2147483647 ∉ cover zeroByteSet.unallocated := by
    rintro ⟨m, hm, -, hlt⟩
    rw [List.mem_singleton.mp hm, hslot] at hlt
    exact absurd hlt (by decide)
  refine ⟨hcan, ?_, hp, by decide, fun halg => ?_⟩
  · rw [zeroByteSet, List.length_replicate]
    decide
  · exact (givesBack_iff hcan hp).mp (halg.givesBack hp) hslot

end Examples

end DecaFS
