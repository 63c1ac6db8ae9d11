import DecaFS.ForMathlib.Transition
import DecaFS.Espresso.Allocator

/-!
# The chunk store is a map from descriptors to byte strings

A chunk is known by the successful writes to it since it was last deleted: its size is the
greatest end of one of them, and a position that was written holds the byte written there
last. The positions no write reached hold anything.

`StoreInv` is the invariant of the store: chunks are non-empty extents of the file, pairwise
disjoint, and the free positions are exactly those of no chunk. A call on one descriptor moves
and changes the bytes of that chunk only (`Frame`).
-/

namespace DecaFS

open Intervals Code

/-! ### The abstract chunk -/

/-- A write of `bytes` at `offset`. -/
structure ChunkWrite where
  offset : ℤ
  bytes : List UInt8
  deriving DecidableEq, Repr

/-- The size of a chunk after the writes `ws`, the last one first. -/
def chunkSize : List ChunkWrite → ℤ
  | [] => 0
  | w :: ws => max (w.offset + w.bytes.length) (chunkSize ws)

/-- The byte written last at position `i`. -/
def lastByte : List ChunkWrite → ℤ → Option UInt8
  | [], _ => none
  | w :: ws, i => if w.offset ≤ i ∧ i < w.offset + w.bytes.length
    then w.bytes[(i - w.offset).toNat]? else lastByte ws i

/-! ### Calls -/

/-- A call of the chunk store. The buffer of a write holds the bytes it counts. -/
inductive EspressoCall : Type
  | readChunk (d : DataDescriptor) (offset count : ℤ)
  | writeChunk (d : DataDescriptor) (w : ChunkWrite) (overread : ℕ → UInt8)
  | deleteChunk (d : DataDescriptor)

namespace EspressoCall

/-- The chunk the call is about. -/
def descriptor : EspressoCall → DataDescriptor
  | readChunk d _ _ => d
  | writeChunk d _ _ => d
  | deleteChunk d => d

/-- The function called: its result, and the bytes read. -/
def code : EspressoCall → Espresso (ℤ × List UInt8)
  | readChunk d offset count => Espresso.readChunk d offset count
  | writeChunk d w overread =>
    (·, []) <$> Espresso.writeChunk d w.offset w.bytes w.bytes.length overread
  | deleteChunk d => (·, []) <$> Espresso.deleteChunk d

/-- Writes have a non-negative offset and end within an `int`, after position 0. -/
def Valid : EspressoCall → Prop
  | writeChunk _ w _ => 0 ≤ w.offset ∧ 1 ≤ w.offset + w.bytes.length ∧
    w.offset + w.bytes.length ≤ intMax
  | _ => True

end EspressoCall

/-- A call with its result. -/
abbrev EspressoLabel : Type := EspressoCall × ℤ × List UInt8

/-- One call of the chunk store. -/
def espressoStep (s : EspressoData) (l : EspressoLabel) (t : EspressoData) : Prop :=
  l.1.code s = .ok (l.2, t)

/-- The successful writes to `d` since it was last deleted, the last one first, after one more
call. -/
def recordWrite (d : DataDescriptor) (ws : List ChunkWrite) : EspressoLabel → List ChunkWrite
  | (.writeChunk d' w _, r, _) => if d' = d ∧ r ≠ -1 then w :: ws else ws
  | (.deleteChunk d', _, _) => if d' = d then [] else ws
  | (.readChunk _ _ _, _, _) => ws

/-- The successful writes to `d` of a history since it was last deleted, the last one first. -/
def writesSince (d : DataDescriptor) (tr : List EspressoLabel) : List ChunkWrite :=
  tr.foldl (recordWrite d) []

/-! ### The invariant -/

variable {maxSize : ℕ} {s t u : EspressoData} {d : DataDescriptor} {a a' : DataAddress}
  {ws : List ChunkWrite} {w : ChunkWrite} {x : ℤ}

/-- The positions of an extent. -/
def DataAddress.Has (a : DataAddress) (x : ℤ) : Prop := a.offset ≤ x ∧ x < a.offset + a.size

namespace EspressoData

/-- Position `x` of a file of `maxSize` bytes belongs to no chunk but `d`. -/
def OnlyOf (maxSize : ℕ) (s : EspressoData) (d : DataDescriptor) (x : ℤ) : Prop :=
  0 ≤ x ∧ x < maxSize ∧ ∀ d' ≠ d, ∀ a, s.metadata.lookup d' = some a → ¬ a.Has x

/-- The invariant of the chunk store. -/
structure StoreInv (maxSize : ℕ) (s : EspressoData) : Prop where
  file_length : s.file.length = maxSize
  canonical : s.FreeCanonical
  bounds : ∀ d a, s.metadata.lookup d = some a →
    0 < a.size ∧ 0 ≤ a.offset ∧ a.offset + a.size ≤ maxSize
  disjoint : ∀ d d' a a' x, d ≠ d' → s.metadata.lookup d = some a →
    s.metadata.lookup d' = some a' → a.Has x → ¬ a'.Has x
  free_iff : ∀ x, x ∈ s.free ↔
    0 ≤ x ∧ x < maxSize ∧ ∀ d a, s.metadata.lookup d = some a → ¬ a.Has x

/-- The part of the invariant that is not about the file: chunks and free extents share the
positions of the file. -/
structure Extents (maxSize : ℕ) (s : EspressoData) : Prop where
  canonical : s.FreeCanonical
  bounds : ∀ d a, s.metadata.lookup d = some a →
    0 < a.size ∧ 0 ≤ a.offset ∧ a.offset + a.size ≤ maxSize
  disjoint : ∀ d d' a a' x, d ≠ d' → s.metadata.lookup d = some a →
    s.metadata.lookup d' = some a' → a.Has x → ¬ a'.Has x
  free_iff : ∀ x, x ∈ s.free ↔
    0 ≤ x ∧ x < maxSize ∧ ∀ d a, s.metadata.lookup d = some a → ¬ a.Has x

theorem StoreInv.extents (h : StoreInv maxSize s) : Extents maxSize s :=
  ⟨h.canonical, h.bounds, h.disjoint, h.free_iff⟩

theorem Extents.storeInv (h : Extents maxSize s) (hlen : s.file.length = maxSize) :
    StoreInv maxSize s :=
  ⟨hlen, h.canonical, h.bounds, h.disjoint, h.free_iff⟩

/-- Room for `size` bytes at `p`, counting what `d` occupies. -/
def RoomFor (maxSize : ℕ) (s : EspressoData) (d : DataDescriptor) (size p : ℤ) : Prop :=
  ∀ x, p ≤ x → x < p + size → s.OnlyOf maxSize d x

/-- In `t` the chunk `d` has `size` bytes, at the first place in `s` with room for them. -/
def Placed (maxSize : ℕ) (s : EspressoData) (d : DataDescriptor) (size : ℤ) (t : EspressoData) :
    Prop :=
  ∃ a, t.metadata.lookup d = some a ∧ a.size = size ∧ s.RoomFor maxSize d size a.offset ∧
    ∀ p, s.RoomFor maxSize d size p → a.offset ≤ p

theorem Placed.congr {size : ℤ} (h : Placed maxSize s d size t) (hmeta : u.metadata = t.metadata) :
    Placed maxSize s d size u := by
  obtain ⟨a, ha, hrest⟩ := h
  exact ⟨a, hmeta ▸ ha, hrest⟩

/-- The chunk `d` is the one the writes `ws` make. -/
def Holds (s : EspressoData) (d : DataDescriptor) (ws : List ChunkWrite) : Prop :=
  match s.metadata.lookup d with
  | none => ws = []
  | some a => ws ≠ [] ∧ a.size = chunkSize ws ∧ ∀ i b, lastByte ws i = some b →
    0 ≤ i ∧ i < a.size ∧ s.file[(a.offset + i).toNat]? = some b

/-- Chunks other than `d` have their extents and bytes in `t` as in `s`. -/
def Frame (d : DataDescriptor) (s t : EspressoData) : Prop :=
  ∀ d' ≠ d, t.metadata.lookup d' = s.metadata.lookup d' ∧
    ∀ a, s.metadata.lookup d' = some a → ∀ x, a.Has x → t.file[x.toNat]? = s.file[x.toNat]?

theorem Frame.refl (d : DataDescriptor) (s : EspressoData) : Frame d s s :=
  fun _ _ => ⟨rfl, fun _ _ _ _ => rfl⟩

theorem Frame.trans (h₁ : Frame d s t) (h₂ : Frame d t u) : Frame d s u := by
  intro d' hd
  obtain ⟨hl₁, hb₁⟩ := h₁ d' hd
  obtain ⟨hl₂, hb₂⟩ := h₂ d' hd
  exact ⟨hl₂.trans hl₁, fun a ha x hx => (hb₂ a (hl₁.trans ha) x hx).trans (hb₁ a ha x hx)⟩

/-- The file is untouched and only the address of `d` may differ. -/
theorem Frame.of_lookup (hfile : t.file = s.file)
    (hlook : ∀ d' ≠ d, t.metadata.lookup d' = s.metadata.lookup d') : Frame d s t :=
  fun d' hd => ⟨hlook d' hd, fun _ _ _ _ => by rw [hfile]⟩

theorem Holds.of_frame (h : s.Holds d ws) {d' : DataDescriptor} (hframe : Frame d' s t)
    (hd : d ≠ d') : t.Holds d ws := by
  obtain ⟨hlook, hbytes⟩ := hframe d hd
  unfold Holds at *
  rw [hlook]
  cases ha : s.metadata.lookup d with
  | none => rwa [ha] at h
  | some a =>
    rw [ha] at h
    obtain ⟨hne, hsize, hlast⟩ := h
    refine ⟨hne, hsize, fun i b hb => ?_⟩
    obtain ⟨h₀, h₁, hbyte⟩ := hlast i b hb
    exact ⟨h₀, h₁, (hbytes a ha _ ⟨by omega, by omega⟩).trans hbyte⟩

namespace Extents

/-- A chunk that is not there leaves every free position to `d`. -/
theorem free_iff_of_none (h : Extents maxSize s) (hd : s.metadata.lookup d = none) :
    x ∈ s.free ↔ s.OnlyOf maxSize d x := by
  rw [h.free_iff]
  refine and_congr_right fun _ => and_congr_right fun _ =>
    ⟨fun hx d' _ => hx d', fun hx d' a ha => ?_⟩
  refine hx d' ?_ a ha
  rintro rfl
  simp [hd] at ha

/-- The free positions and those of `d` are the positions of no other chunk. -/
theorem free_or_has_iff (h : Extents maxSize s) (hd : s.metadata.lookup d = some a) :
    x ∈ s.free ∨ a.Has x ↔ s.OnlyOf maxSize d x := by
  obtain ⟨hpos, hlo, hhi⟩ := h.bounds d a hd
  rw [h.free_iff]
  constructor
  · rintro (⟨h₀, h₁, hx⟩ | hx)
    · exact ⟨h₀, h₁, fun d' _ => hx d'⟩
    · refine ⟨by have := hx.1; omega, by have := hx.2; omega, fun d' hne a' ha' => ?_⟩
      exact h.disjoint d d' a a' x hne.symm hd ha' hx
  · rintro ⟨h₀, h₁, hx⟩
    by_cases hax : a.Has x
    · exact .inr hax
    · refine .inl ⟨h₀, h₁, fun d' a' ha' => ?_⟩
      by_cases hne : d' = d
      · subst hne
        rwa [← Option.some.inj (hd.symm.trans ha')]
      · exact hx d' hne a' ha'

/-- Giving `d` the extent `a'` out of what belongs to no other chunk. -/
theorem insert (h : Extents maxSize s)
    (hmeta : t.metadata = s.metadata.insert d a') (hcan : t.FreeCanonical) (hsize : 0 < a'.size)
    (hfrom : ∀ x, a'.Has x → s.OnlyOf maxSize d x)
    (hfree : ∀ x, x ∈ t.free ↔ s.OnlyOf maxSize d x ∧ ¬ a'.Has x) :
    Extents maxSize t := by
  have hself : t.metadata.lookup d = some a' := by rw [hmeta, Finmap.lookup_insert]
  have hother : ∀ d' ≠ d, t.metadata.lookup d' = s.metadata.lookup d' := fun d' hd => by
    rw [hmeta, Finmap.lookup_insert_of_ne _ hd]
  refine ⟨hcan, fun d' a ha => ?_, ?_, fun x => ?_⟩
  · by_cases hd : d' = d
    · subst hd
      obtain rfl := Option.some.inj (hself.symm.trans ha)
      have hfirst := hfrom a'.offset ⟨le_rfl, by omega⟩
      have hlast := hfrom (a'.offset + a'.size - 1) ⟨by omega, by omega⟩
      exact ⟨hsize, hfirst.1, by have := hlast.2.1; omega⟩
    · exact h.bounds d' a (hother d' hd ▸ ha)
  · intro d₁ d₂ a₁ a₂ x hne ha₁ ha₂ hx₁ hx₂
    by_cases h₁ : d₁ = d
    · subst h₁
      obtain rfl := Option.some.inj (hself.symm.trans ha₁)
      exact (hfrom x hx₁).2.2 d₂ hne.symm a₂ (hother d₂ hne.symm ▸ ha₂) hx₂
    · by_cases h₂ : d₂ = d
      · subst h₂
        obtain rfl := Option.some.inj (hself.symm.trans ha₂)
        exact (hfrom x hx₂).2.2 d₁ hne a₁ (hother d₁ hne ▸ ha₁) hx₁
      · exact h.disjoint d₁ d₂ a₁ a₂ x hne (hother d₁ h₁ ▸ ha₁) (hother d₂ h₂ ▸ ha₂) hx₁ hx₂
  · rw [hfree]
    constructor
    · rintro ⟨⟨h₀, h₁, hx⟩, hnot⟩
      refine ⟨h₀, h₁, fun d' a ha => ?_⟩
      by_cases hd : d' = d
      · subst hd
        rwa [← Option.some.inj (hself.symm.trans ha)]
      · exact hx d' hd a (hother d' hd ▸ ha)
    · rintro ⟨h₀, h₁, hx⟩
      exact ⟨⟨h₀, h₁, fun d' hd a ha => hx d' a (hother d' hd ▸ ha)⟩, hx d a' hself⟩

/-- Taking its extent from `d`. -/
theorem erase (h : Extents maxSize s)
    (hmeta : t.metadata = s.metadata.erase d) (hcan : t.FreeCanonical)
    (hfree : ∀ x, x ∈ t.free ↔ s.OnlyOf maxSize d x) : Extents maxSize t := by
  have hself : t.metadata.lookup d = none := by rw [hmeta, Finmap.lookup_erase]
  have hother : ∀ d' ≠ d, t.metadata.lookup d' = s.metadata.lookup d' := fun d' hd => by
    rw [hmeta, Finmap.lookup_erase_ne hd]
  have hold : ∀ d' a, t.metadata.lookup d' = some a →
      d' ≠ d ∧ s.metadata.lookup d' = some a := by
    intro d' a ha
    have hd : d' ≠ d := by
      rintro rfl
      simp [hself] at ha
    exact ⟨hd, hother d' hd ▸ ha⟩
  refine ⟨hcan, fun d' a ha => h.bounds d' a (hold d' a ha).2,
    fun d₁ d₂ a₁ a₂ x hne h₁ h₂ => h.disjoint d₁ d₂ a₁ a₂ x hne (hold _ _ h₁).2 (hold _ _ h₂).2,
    fun x => ?_⟩
  rw [hfree]
  refine and_congr_right fun _ => and_congr_right fun _ => ⟨fun hx d' a ha => ?_, ?_⟩
  · exact hx d' (hold d' a ha).1 a (hold d' a ha).2
  · exact fun hx d' hd a ha => hx d' a (hother d' hd ▸ ha)

end Extents

namespace StoreInv

theorem init (hpos : 0 < maxSize) : StoreInv maxSize (espressoGlobalDataInit maxSize) := by
  refine ⟨by simp [espressoGlobalDataInit], ?_, by simp [espressoGlobalDataInit],
    by simp [espressoGlobalDataInit], fun x => ?_⟩
  · exact canonical_singleton.mpr (by simpa [DataAddress.interval] using hpos)
  · simp [EspressoData.free, espressoGlobalDataInit, DataAddress.interval]

/-- Writing within the chunk `d`. -/
theorem patch (h : StoreInv maxSize s) (hd : s.metadata.lookup d = some a) {offset : ℤ}
    {bs : List UInt8} (h₀ : 0 ≤ offset) (h₁ : offset + bs.length ≤ a.size) :
    StoreInv maxSize { s with file := DecaFS.patch s.file (a.offset + offset).toNat bs } ∧
    Frame d s { s with file := DecaFS.patch s.file (a.offset + offset).toNat bs } ∧
    ∀ i, 0 ≤ i → (DecaFS.patch s.file (a.offset + offset).toNat bs)[(a.offset + i).toNat]? =
      if offset ≤ i ∧ i < offset + bs.length then bs[(i - offset).toNat]?
        else s.file[(a.offset + i).toNat]? := by
  obtain ⟨hpos, hlo, hhi⟩ := h.bounds d a hd
  have hlen := h.file_length
  have hin : (a.offset + offset).toNat ≤ s.file.length := by omega
  refine ⟨⟨?_, h.canonical, h.bounds, h.disjoint, h.free_iff⟩, fun d' hne => ⟨rfl, ?_⟩, ?_⟩
  · dsimp only
    rw [length_patch (by omega), hlen]
  · intro a' ha' x hx
    have hnot := h.disjoint d' d a' a x hne ha' hd hx
    have := (h.bounds d' a' ha').2.1
    have := hx.1
    rw [getElem?_patch hin, if_neg]
    rintro ⟨hge, hlt⟩
    exact hnot ⟨by omega, by omega⟩
  · intro i hi
    rw [getElem?_patch hin]
    by_cases hcase : offset ≤ i ∧ i < offset + bs.length
    · rw [if_pos hcase, if_pos (by omega)]
      congr 1
      omega
    · rw [if_neg hcase, if_neg (by omega)]

end StoreInv

end EspressoData

/-! ### The functions -/

namespace Espresso

open EspressoData

variable {E : EspressoSite → Prop} {offset count : ℤ} {bs : List UInt8}

/-- Reading leaves the store alone. -/
theorem wp_readData_state (d : DataDescriptor) (offset count : ℤ) :
    wp (readData d offset count) (fun _ t => t = s) E s := by
  simp only [readData, wp_bind, wp_get]
  cases s.metadata.lookup d <;> simp [wp_ite]

/-- Reading a chunk that is not there. -/
theorem wp_readData_none (offset count : ℤ) (hd : s.metadata.lookup d = none) :
    wp (readData d offset count) (fun r t => t = s ∧ r = (-1, [])) E s := by
  simp only [readData, wp_bind, wp_get, hd]
  split_ifs <;> simp

/-- Writing leaves the extents alone. -/
theorem wp_writeData_extents (d : DataDescriptor) (offset : ℤ) (buf : List UInt8) (count : ℤ) :
    wp (writeData d offset buf count)
      (fun _ t => t.metadata = s.metadata ∧ t.freeExtents = s.freeExtents) E s := by
  simp only [writeData, wp_bind, wp_get]
  cases s.metadata.lookup d <;> simp [wp_ite]

/-! ### The extents -/

section Extents

variable {size : ℤ} (h : Extents maxSize s)

include h

/-- An allocation for a chunk that is not there yet. -/
theorem wp_allocateChunk_new (hd : s.metadata.lookup d = none) (hsize : 0 < size) :
    wp (allocateChunk size) (fun r t => match r with
      | none => t = s ∧ ∀ p, ¬ s.RoomFor maxSize d size p
      | some a => t.file = s.file ∧ t.metadata = s.metadata ∧
        Extents maxSize { t with metadata := t.metadata.insert d a } ∧
        Placed maxSize s d size { t with metadata := t.metadata.insert d a }) E s := by
  have hroomy : ∀ p, Roomy s size p ↔ s.RoomFor maxSize d size p := fun p =>
    forall₃_congr fun x _ _ => h.free_iff_of_none hd
  refine wp_mono (wp_allocateChunk h.canonical hsize) (fun r t hr => ?_) fun e he => he
  cases r with
  | none => exact ⟨hr.1, fun p hp => hr.2 p ((hroomy p).mpr hp)⟩
  | some a =>
    obtain ⟨rfl, hfile, hmeta, hcan, hroom, hfirst, hfree⟩ := hr
    refine ⟨hfile, hmeta, ?_, a, Finmap.lookup_insert _, rfl, (hroomy _).mp hroom,
      fun p hp => hfirst p ((hroomy p).mpr hp)⟩
    refine h.insert (t := { t with metadata := t.metadata.insert d a })
      (congrArg (Finmap.insert d a) hmeta) hcan hsize (fun x hx => ?_) fun x => ?_
    · exact (h.free_iff_of_none hd).mp (hroom x hx.1 hx.2)
    · exact (hfree x).trans (by rw [h.free_iff_of_none hd]; rfl)

/-- `reallocate_chunk` either moves the chunk to an extent of the new size, counting its old one
as free, or changes nothing. -/
theorem wp_reallocateChunk (hd : s.metadata.lookup d = some a) (hsize : 0 < size) :
    wp (reallocateChunk d a size) (fun r t =>
      (r = -1 ∧ t = s ∧ ∀ p, ¬ s.RoomFor maxSize d size p) ∨
      (r = 0 ∧ t.file = s.file ∧ Extents maxSize t ∧
        (∀ d' ≠ d, t.metadata.lookup d' = s.metadata.lookup d') ∧ Placed maxSize s d size t))
      E s := by
  simp only [reallocateChunk, wp_bind]
  refine wp_mono (wp_deallocateChunk h.canonical (h.bounds d a hd).1 fun x h₀ h₁ hx => ?_) ?_
    fun e he => he
  · exact ((h.free_iff x).mp hx).2.2 d a hd ⟨h₀, h₁⟩
  · rintro - t ⟨hfile, hmeta, hcan, hfree, hundo⟩
    have hfree' : ∀ x, x ∈ t.free ↔ s.OnlyOf maxSize d x := fun x => by
      rw [hfree, ← h.free_or_has_iff hd]
      rfl
    have hroomy : ∀ p, Roomy t size p ↔ s.RoomFor maxSize d size p := fun p =>
      forall₃_congr fun x _ _ => hfree' x
    rw [wp_bind]
    refine wp_mono (wp_allocateChunk hcan hsize) ?_ fun e he => he
    intro r u hr
    cases r with
    | none =>
      obtain ⟨rfl, hnone⟩ := hr
      simp only [wp_bind]
      refine wp_mono hundo ?_ fun e he => he.elim
      rintro - v rfl
      rw [wp_pure]
      exact .inl ⟨rfl, rfl, fun p hp => hnone p ((hroomy p).mpr hp)⟩
    | some a' =>
      obtain ⟨rfl, hfile', hmeta', hcan', hroom, hfirst, hufree⟩ := hr
      have hins := h.insert (t := { u with metadata := u.metadata.insert d a' }) (d := d)
        (congrArg (Finmap.insert d a') (hmeta'.trans hmeta)) hcan' hsize
        (fun x hx => (hfree' x).mp (hroom x hx.1 hx.2))
        (fun x => (hufree x).trans (by rw [hfree']; rfl))
      simp only [wp_bind, wp_modify]
      rw [wp_pure]
      refine .inr ⟨rfl, hfile'.trans hfile, hins, fun d' hne => ?_, a', Finmap.lookup_insert _, rfl,
        (hroomy _).mp hroom, fun p hp => hfirst p ((hroomy p).mpr hp)⟩
      rw [Finmap.lookup_insert_of_ne _ hne, hmeta', hmeta]

/-- **`delete_chunk`** frees the extent of the chunk `d` alone. -/
theorem wp_deleteChunk_extents : wp (deleteChunk d) (fun _ t => t.file = s.file ∧
    Extents maxSize t ∧ t.metadata.lookup d = none ∧
    ∀ d' ≠ d, t.metadata.lookup d' = s.metadata.lookup d') E s := by
  simp only [deleteChunk, wp_bind, wp_get]
  cases hd : s.metadata.lookup d with
  | none =>
    rw [wp_pure]
    exact ⟨rfl, h, hd, fun _ _ => rfl⟩
  | some a =>
    simp only [wp_bind]
    refine wp_mono (wp_deallocateChunk h.canonical (h.bounds d a hd).1 fun x h₀ h₁ hx => ?_) ?_
      fun e he => he
    · exact ((h.free_iff x).mp hx).2.2 d a hd ⟨h₀, h₁⟩
    · rintro - t ⟨hfile, hmeta, hcan, hfree, -⟩
      simp only [wp_bind, wp_modify, wp_pure]
      refine ⟨hfile, h.erase (d := d) (congrArg (Finmap.erase d) hmeta) hcan fun x => ?_, by simp,
        fun d' hne => by rw [Finmap.lookup_erase_ne hne, hmeta]⟩
      rw [← h.free_or_has_iff hd]
      exact hfree x

end Extents

section InRange

variable (h : StoreInv maxSize s) (hmax : (maxSize : ℤ) ≤ intMax)

include h hmax

/-- Reading within a chunk. -/
theorem wp_readData (hd : s.metadata.lookup d = some a) (h₀ : 0 ≤ offset) (h₁ : offset ≤ a.size)
    (hcount : 0 ≤ count) : wp (readData d offset count) (fun r t => t = s ∧
      r = (min count (a.size - offset),
        slice s.file (a.offset + offset).toNat (min count (a.size - offset)).toNat)) E s := by
  obtain ⟨hpos, hlo, hhi⟩ := h.bounds d a hd
  have hlen := h.file_length
  have hleft : toInt32 (a.size - offset) = a.size - offset := toInt32_eq (by omega) (by omega)
  have hposn : toInt32 (a.offset + offset) = a.offset + offset := toInt32_eq (by omega) (by omega)
  have hmin : (if count > a.size - offset then a.size - offset else count) =
      min count (a.size - offset) := by
    split_ifs <;> omega
  simp only [readData, wp_bind, wp_get, hd, hleft, hposn, hmin]
  rw [if_neg (by omega), if_neg (by omega)]
  simp only [wp_pure, length_slice, Prod.mk.injEq, and_true, true_and]
  omega

/-- Writing within a chunk. -/
theorem wp_writeData (hd : s.metadata.lookup d = some a) (h₀ : 0 ≤ offset)
    (h₁ : offset + bs.length ≤ a.size) :
    wp (writeData d offset bs bs.length) (fun r t => r = bs.length ∧
      t = { s with file := patch s.file (a.offset + offset).toNat bs }) E s := by
  obtain ⟨hpos, hlo, hhi⟩ := h.bounds d a hd
  have hleft : toInt32 (a.size - offset) = a.size - offset := toInt32_eq (by omega) (by omega)
  have hposn : toInt32 (a.offset + offset) = a.offset + offset := toInt32_eq (by omega) (by omega)
  simp only [writeData, wp_bind, wp_get, hd, hleft, hposn]
  rw [if_neg (by omega), if_neg (by omega), if_neg (by omega)]
  simp

end InRange

/-- A write within the chunk `d`, once its extent is as large as the writes make it. -/
theorem holds_write (h : StoreInv maxSize s) (hd : s.metadata.lookup d = some a)
    (h₀ : 0 ≤ w.offset) (hsize : a.size = chunkSize (w :: ws))
    (hold : ∀ i b, lastByte ws i = some b →
      0 ≤ i ∧ i < a.size ∧ s.file[(a.offset + i).toNat]? = some b) :
    Holds { s with file := patch s.file (a.offset + w.offset).toNat w.bytes } d (w :: ws) := by
  have hle : w.offset + w.bytes.length ≤ a.size := hsize ▸ le_max_left _ _
  obtain ⟨-, -, hbytes⟩ := h.patch hd h₀ hle
  simp only [Holds, hd]
  refine ⟨List.cons_ne_nil _ _, hsize, fun i b hb => ?_⟩
  rw [lastByte] at hb
  by_cases hi : w.offset ≤ i ∧ i < w.offset + w.bytes.length
  · rw [if_pos hi] at hb
    rw [hbytes i (by omega), if_pos hi]
    exact ⟨by omega, by omega, hb⟩
  · rw [if_neg hi] at hb
    obtain ⟨hi₀, hi₁, hbyte⟩ := hold i b hb
    rw [hbytes i hi₀, if_neg hi]
    exact ⟨hi₀, hi₁, hbyte⟩

/-- What a call on `d` leaves behind when it succeeds in writing `w`, or fails. -/
def Written (maxSize : ℕ) (s : EspressoData) (d : DataDescriptor) (ws : List ChunkWrite)
    (w : ChunkWrite) (r : ℤ) (t : EspressoData) : Prop :=
  StoreInv maxSize t ∧ Frame d s t ∧ Holds t d (if r ≠ -1 then w :: ws else ws)

/-- What a call that returns `r` does to give `d` an extent of `size` bytes. -/
def Allocated (maxSize : ℕ) (s : EspressoData) (d : DataDescriptor) (size r : ℤ)
    (t : EspressoData) : Prop :=
  if r = -1 then t = s ∧ ∀ p, ¬ s.RoomFor maxSize d size p else Placed maxSize s d size t

section Write

variable (h : StoreInv maxSize s) (hmax : (maxSize : ℤ) ≤ intMax)

include h hmax

/-- Writing within the chunk `d`, large enough. -/
theorem wp_writeData_written (hd : s.metadata.lookup d = some a) (h₀ : 0 ≤ w.offset)
    (hsize : a.size = chunkSize (w :: ws))
    (hold : ∀ i b, lastByte ws i = some b →
      0 ≤ i ∧ i < a.size ∧ s.file[(a.offset + i).toNat]? = some b) :
    wp (writeData d w.offset w.bytes w.bytes.length) (fun r t => Written maxSize s d ws w r t ∧
      r ≠ -1 ∧ t.metadata = s.metadata) E s := by
  have hle : w.offset + w.bytes.length ≤ a.size := hsize ▸ le_max_left _ _
  refine wp_mono (wp_writeData h hmax hd h₀ hle) ?_ fun e he => he
  rintro r t ⟨rfl, rfl⟩
  obtain ⟨hinv, hframe, -⟩ := h.patch hd h₀ hle
  refine ⟨⟨hinv, hframe, ?_⟩, by omega, rfl⟩
  rw [if_pos (by omega)]
  exact holds_write h hd h₀ hsize hold

/-- `write_chunk` on a chunk that is not there. -/
theorem wp_writeChunk_new (hd : s.metadata.lookup d = none) (h₀ : 0 ≤ w.offset)
    (h₁ : 1 ≤ w.offset + w.bytes.length) (h₂ : w.offset + w.bytes.length ≤ intMax)
    {overread : ℕ → UInt8} :
    wp (writeChunk d w.offset w.bytes w.bytes.length overread) (fun r t =>
      Written maxSize s d [] w r t ∧
        Allocated maxSize s d (w.offset + w.bytes.length) r t) E s := by
  have hsize : toInt32 (w.offset + w.bytes.length) = w.offset + w.bytes.length :=
    toInt32_eq (by omega) h₂
  simp only [writeChunk, if_neg (show ¬ (w.bytes.length : ℤ) < 0 by omega), wp_bind, wp_get, hd,
    hsize]
  refine wp_mono (wp_allocateChunk_new h.extents hd (by omega)) ?_ fun e he => he
  intro r t hr
  cases r with
  | none =>
    obtain ⟨rfl, hnone⟩ := hr
    rw [wp_pure]
    exact ⟨⟨h, .refl d t, by simp [Holds, hd]⟩, rfl, hnone⟩
  | some a =>
    obtain ⟨hfile, hmeta, hext, hplaced⟩ := hr
    obtain ⟨a', ha', hasize, -⟩ := id hplaced
    obtain rfl : a = a' := by simpa using ha'
    have hframe : Frame d s { t with metadata := t.metadata.insert d a } :=
      .of_lookup hfile fun d' hne => by rw [Finmap.lookup_insert_of_ne _ hne, hmeta]
    simp only [wp_bind, wp_modify]
    refine wp_mono (wp_writeData_written (hext.storeInv (hfile ▸ h.file_length)) hmax
      (Finmap.lookup_insert _) h₀ (show a.size = chunkSize [w] from ?_) (by simp [lastByte])) ?_
      fun e he => he
    · simp only [chunkSize, hasize]
      omega
    · rintro r u ⟨⟨hinv, hframe', hholds⟩, hr, hmeta'⟩
      exact ⟨⟨hinv, hframe.trans hframe', hholds⟩, by
        rw [Allocated, if_neg hr]
        exact hplaced.congr hmeta'⟩

/-- `write_chunk` past the end of a chunk: it is copied out, moved, and copied back. -/
theorem wp_writeChunk_grow (hd : s.metadata.lookup d = some a) (hholds : Holds s d ws)
    (h₀ : 0 ≤ w.offset) (hgrow : a.size < w.offset + w.bytes.length)
    (h₂ : w.offset + w.bytes.length ≤ intMax) {overread : ℕ → UInt8} :
    wp (writeChunk d w.offset w.bytes w.bytes.length overread) (fun r t =>
      Written maxSize s d ws w r t ∧
        Allocated maxSize s d (w.offset + w.bytes.length) r t) E s := by
  obtain ⟨hpos, hlo, hhi⟩ := h.bounds d a hd
  have hlen := h.file_length
  have hsize : toInt32 (w.offset + w.bytes.length) = w.offset + w.bytes.length :=
    toInt32_eq (by omega) h₂
  have hmin : min a.size (a.size - 0) = a.size := by omega
  have hholds' := hholds
  simp only [Holds, hd] at hholds'
  obtain ⟨-, hasize, hlast⟩ := hholds'
  simp only [writeChunk, if_neg (show ¬ (w.bytes.length : ℤ) < 0 by omega), wp_bind, wp_get, hd,
    hsize]
  rw [if_pos hgrow, if_neg (not_lt.mpr (hpos.le)), wp_bind]
  refine wp_mono (wp_readData h hmax hd le_rfl hpos.le hpos.le) ?_ fun e he => he
  rintro ⟨r, old⟩ t ⟨rfl, hr⟩
  obtain ⟨rfl, rfl⟩ := Prod.mk.inj hr
  simp only [hmin]
  rw [if_neg (by omega)]
  simp only [wp_bind]
  refine wp_mono (wp_reallocateChunk h.extents hd (by omega)) ?_ fun e he => he
  rintro r u (⟨rfl, rfl, hnone⟩ | ⟨rfl, hfile, hext, hother, hplaced⟩)
  · simp only [if_true, wp_pure]
    exact ⟨⟨h, .refl d u, by simpa using hholds⟩, rfl, hnone⟩
  · obtain ⟨a', hd', ha', -⟩ := id hplaced
    have hinv := hext.storeInv (hfile ▸ h.file_length)
    have hframe : Frame d t u := .of_lookup hfile hother
    rw [if_neg (by decide)]
    simp only [wp_bind, wp_get, hd', Option.elim_some]
    -- the bytes written back: the old chunk, and what lies behind its copy
    set back := slice t.file (a.offset + 0).toNat a.size.toNat ++
      (List.range (a'.size - a.size).toNat).map overread with hback
    have hbacklen : (back.length : ℤ) = a'.size := by
      simp only [hback, List.length_append, length_slice, List.length_map, List.length_range]
      omega
    rw [← hbacklen]
    refine wp_mono (wp_writeData hinv hmax hd' le_rfl (by omega)) ?_ fun e he => he
    rintro r v ⟨rfl, rfl⟩
    rw [if_neg (by omega)]
    obtain ⟨hinv', hframe', hbytes⟩ := hinv.patch hd' le_rfl
      (show 0 + (back.length : ℤ) ≤ a'.size by omega)
    refine wp_mono (wp_writeData_written hinv' hmax hd' h₀
      (show a'.size = chunkSize (w :: ws) from ?_) fun i b hb => ?_) ?_
      fun e he => he
    · rw [chunkSize, ← hasize, ha']
      omega
    · obtain ⟨hi₀, hi₁, hbyte⟩ := hlast i b hb
      refine ⟨hi₀, by omega, ?_⟩
      dsimp only
      rw [hbytes i hi₀, if_pos (by omega), hback, List.getElem?_append_left, getElem?_slice,
        if_pos (by omega), ← hbyte]
      · congr 1
        omega
      · rw [length_slice]
        omega
    · rintro r z ⟨⟨hinv'', hframe'', hholds''⟩, hr, hmeta⟩
      exact ⟨⟨hinv'', hframe.trans (hframe'.trans hframe''), hholds''⟩, by
        rw [Allocated, if_neg hr]
        exact hplaced.congr hmeta⟩

/-- **`write_chunk`** writes or fails, on the chunk `d` alone. A chunk that is new or too small
gets the first extent with room for it. -/
theorem wp_writeChunk (hholds : Holds s d ws) (h₀ : 0 ≤ w.offset)
    (h₁ : 1 ≤ w.offset + w.bytes.length) (h₂ : w.offset + w.bytes.length ≤ intMax)
    {overread : ℕ → UInt8} :
    wp (writeChunk d w.offset w.bytes w.bytes.length overread) (fun r t =>
      Written maxSize s d ws w r t ∧
        if ∃ a, s.metadata.lookup d = some a ∧ w.offset + w.bytes.length ≤ a.size then
          r ≠ -1 ∧ t.metadata = s.metadata
        else Allocated maxSize s d (w.offset + w.bytes.length) r t) E s := by
  cases hd : s.metadata.lookup d with
  | none =>
    obtain rfl : ws = [] := by simpa [Holds, hd] using hholds
    simpa using wp_writeChunk_new h hmax hd h₀ h₁ h₂
  | some a =>
    have hsize : toInt32 (w.offset + w.bytes.length) = w.offset + w.bytes.length :=
      toInt32_eq (by omega) h₂
    by_cases hgrow : a.size < w.offset + w.bytes.length
    · have hnot : ¬ ∃ a', some a = some a' ∧ w.offset + w.bytes.length ≤ a'.size := by
        simpa using hgrow
      simpa only [if_neg hnot] using wp_writeChunk_grow h hmax hd hholds h₀ hgrow h₂
    · simp only [Holds, hd] at hholds
      obtain ⟨-, hasize, hlast⟩ := hholds
      have hfits : ∃ a', some a = some a' ∧ w.offset + w.bytes.length ≤ a'.size :=
        ⟨a, rfl, not_lt.mp hgrow⟩
      simp only [writeChunk, if_neg (show ¬ (w.bytes.length : ℤ) < 0 by omega), wp_bind, wp_get,
        hd, hsize, if_pos hfits]
      rw [if_neg hgrow]
      refine wp_writeData_written h hmax hd h₀ ?_ hlast
      rw [chunkSize, ← hasize]
      omega

omit hmax in
/-- **`delete_chunk`** removes the chunk `d` alone. -/
theorem wp_deleteChunk : wp (deleteChunk d) (fun _ t => StoreInv maxSize t ∧ Frame d s t ∧
    Holds t d []) E s := by
  refine wp_mono (wp_deleteChunk_extents h.extents) ?_ fun e he => he
  rintro - t ⟨hfile, hext, hnone, hother⟩
  exact ⟨hext.storeInv (hfile ▸ h.file_length), .of_lookup hfile hother, by simp [Holds, hnone]⟩

end Write

end Espresso

/-! ### Histories -/

open EspressoData Espresso

/-- Reading the chunk `d` gives what the writes `ws` make it. -/
def ReadsAs (s : EspressoData) (d : DataDescriptor) (ws : List ChunkWrite) : Prop :=
  ∀ offset count, 0 ≤ offset → offset ≤ chunkSize ws → 0 ≤ count →
    if ws = [] then readChunk d offset count s = .ok ((-1, []), s) else
    ∃ bytes, readChunk d offset count s = .ok ((bytes.length, bytes), s) ∧
      (bytes.length : ℤ) = min count (chunkSize ws - offset) ∧
      ∀ (i : ℕ) b, i < bytes.length → lastByte ws (offset + i) = some b → bytes[i]? = some b

/-- A chunk of the given size reads the same in `t` as in `s`. -/
def ReadsSame (s t : EspressoData) (d : DataDescriptor) (size : ℤ) : Prop :=
  ∀ offset count, 0 ≤ offset → offset ≤ size → 0 ≤ count →
    ∃ r, readChunk d offset count s = .ok (r, s) ∧ readChunk d offset count t = .ok (r, t)

/-- The store holds every chunk as its writes make it. -/
def StoresChunks (maxSize : ℕ) (s : EspressoData) (chunks : DataDescriptor → List ChunkWrite) :
    Prop :=
  StoreInv maxSize s ∧ ∀ d, Holds s d (chunks d)

namespace StoresChunks

variable {chunks : DataDescriptor → List ChunkWrite} {call : EspressoCall}
  (h : StoresChunks maxSize s chunks) (hmax : (maxSize : ℤ) ≤ intMax)

include h hmax

theorem readsAs (d : DataDescriptor) : ReadsAs s d (chunks d) := by
  intro offset count h₀ h₁ hcount
  have hd := h.2 d
  cases hlook : s.metadata.lookup d with
  | none =>
    rw [if_pos (by simpa [Holds, hlook] using hd)]
    obtain ⟨r, t, hrun, rfl, rfl⟩ := (wp_readData_none offset count
      (E := fun _ => False) hlook).exists_ok
    exact hrun
  | some a =>
    simp only [Holds, hlook] at hd
    obtain ⟨hne, hsize, hlast⟩ := hd
    obtain ⟨hpos, hlo, hhi⟩ := h.1.bounds d a hlook
    have hlen := h.1.file_length
    rw [if_neg hne, ← hsize]
    obtain ⟨r, t, hrun, rfl, rfl⟩ := (wp_readData (E := fun _ => False) h.1 hmax hlook h₀
      (by omega) hcount).exists_ok
    refine ⟨slice t.file (a.offset + offset).toNat (min count (a.size - offset)).toNat, ?_, ?_,
      fun i b hi hb => ?_⟩
    · rw [readChunk, hrun, length_slice]
      congr 3
      omega
    · rw [length_slice]
      omega
    · obtain ⟨hi₀, hi₁, hbyte⟩ := hlast _ b hb
      rw [length_slice] at hi
      rw [getElem?_slice, if_pos (by omega), ← hbyte]
      congr 1
      omega

theorem readsSame {t : EspressoData} (ht : StoreInv maxSize t) {d' : DataDescriptor}
    (hframe : Frame d' s t) (hd : d ≠ d') : ReadsSame s t d (chunkSize (chunks d)) := by
  intro offset count h₀ h₁ hcount
  obtain ⟨hlookup, hbytes⟩ := hframe d hd
  have hholds := h.2 d
  cases hlook : s.metadata.lookup d with
  | none =>
    obtain ⟨r, u, hrun, rfl, rfl⟩ := (wp_readData_none offset count
      (E := fun _ => False) hlook).exists_ok
    obtain ⟨r', u', hrun', rfl, rfl⟩ := (wp_readData_none offset count
      (E := fun _ => False) (hlookup.trans hlook)).exists_ok
    exact ⟨_, hrun, hrun'⟩
  | some a =>
    simp only [Holds, hlook] at hholds
    obtain ⟨-, hsize, -⟩ := hholds
    obtain ⟨hpos, hlo, hhi⟩ := h.1.bounds d a hlook
    obtain ⟨r, u, hrun, rfl, rfl⟩ := (wp_readData (E := fun _ => False) h.1 hmax hlook h₀
      (by omega) hcount).exists_ok
    obtain ⟨r', u', hrun', rfl, rfl⟩ := (wp_readData (E := fun _ => False) ht hmax
      (hlookup.trans hlook) h₀ (by omega) hcount).exists_ok
    refine ⟨_, hrun, hrun'.trans ?_⟩
    congr 3
    refine List.ext_getElem? fun i => ?_
    rw [getElem?_slice, getElem?_slice]
    split_ifs with hi
    · have hx := hbytes a hlook (a.offset + offset + i) ⟨by omega, by omega⟩
      rwa [show (a.offset + offset + i).toNat = (a.offset + offset).toNat + i by omega] at hx
    · rfl

/-- **Every call does to the chunks what its result says**, and to its own chunk only. -/
theorem step (hvalid : call.Valid) : ∃ r t, espressoStep s (call, r) t ∧
    StoresChunks maxSize t (fun d => recordWrite d (chunks d) (call, r)) ∧
    Frame call.descriptor s t := by
  suffices hwp : wp call.code (fun r t =>
      StoresChunks maxSize t (fun d => recordWrite d (chunks d) (call, r)) ∧
      Frame call.descriptor s t) (fun _ => False) s from by
    obtain ⟨r, t, hrun, hpost⟩ := hwp.exists_ok
    exact ⟨r, t, hrun, hpost⟩
  cases call with
  | readChunk d offset count =>
    refine wp_mono (wp_readData_state d offset count) ?_ fun _ he => he
    rintro r t rfl
    exact ⟨h, .refl d t⟩
  | writeChunk d w overread =>
    simp only [EspressoCall.code, wp_map]
    refine wp_mono (wp_writeChunk h.1 hmax (h.2 d) hvalid.1 hvalid.2.1 hvalid.2.2) ?_ fun _ he => he
    rintro r t ⟨⟨hinv, hframe, hholds⟩, -⟩
    refine ⟨⟨hinv, fun d' => ?_⟩, hframe⟩
    by_cases hd : d = d'
    · subst hd
      simpa [recordWrite] using hholds
    · simpa [recordWrite, hd] using (h.2 d').of_frame hframe (Ne.symm hd)
  | deleteChunk d =>
    simp only [EspressoCall.code, wp_map]
    refine wp_mono (wp_deleteChunk h.1) ?_ fun _ he => he
    rintro r t ⟨hinv, hframe, hholds⟩
    refine ⟨⟨hinv, fun d' => ?_⟩, hframe⟩
    by_cases hd : d = d'
    · subst hd
      simpa [recordWrite] using hholds
    · simpa [recordWrite, hd] using (h.2 d').of_frame hframe (Ne.symm hd)

/-- Every history of calls has a run. -/
theorem run {calls : List EspressoCall} (hvalid : ∀ c ∈ calls, c.Valid) :
    ∃ tr t, tr.map Prod.fst = calls ∧ Steps espressoStep s tr t ∧
      StoresChunks maxSize t (fun d => tr.foldl (recordWrite d) (chunks d)) := by
  induction calls generalizing s chunks with
  | nil => exact ⟨[], s, rfl, .refl s, h⟩
  | cons call calls ih =>
    obtain ⟨r, t, hstep, ht, -⟩ := h.step hmax (hvalid call List.mem_cons_self)
    obtain ⟨tr, u, htr, hrun, hu⟩ := ih ht fun c hc => hvalid c (List.mem_cons_of_mem _ hc)
    exact ⟨(call, r) :: tr, u, by simp [htr], .cons hstep hrun, hu⟩

end StoresChunks

theorem storesChunks_init (hpos : 0 < maxSize) :
    StoresChunks maxSize (espressoGlobalDataInit maxSize) fun _ => [] :=
  ⟨.init hpos, fun d => by simp [Holds, espressoGlobalDataInit]⟩

/-- Two chunks share a file of 16 bytes; the first outgrows its extent and is moved. -/
def movedCalls : List EspressoCall :=
  [.writeChunk ⟨1, 1, 1⟩ ⟨0, [1, 2, 3]⟩ fun _ => 0, .writeChunk ⟨1, 1, 2⟩ ⟨0, [4, 5]⟩ fun _ => 0,
    .writeChunk ⟨1, 1, 1⟩ ⟨2, [6, 7]⟩ fun _ => 0, .deleteChunk ⟨1, 1, 2⟩]

end DecaFS
