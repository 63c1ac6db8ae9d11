import DecaFS.Espresso.FreeSpace
import DecaFS.ForMathlib.Keeps

/-!
# Invariants of the chunk store

The calls change the store in five ways only, whatever their arguments are: the set of the free extents
gains or loses one, a chunk gets an extent whose size is an `int`, or is removed, and bytes are written.
An invariant of these is one of every run (`Storing.run`).
-/

namespace DecaFS

open OrderedList Code

namespace Espresso

/-- What the calls do to the store keeps `I`. -/
structure Storing (I : EspressoData → Prop) : Prop where
  insert (s : EspressoData) (a : DataAddress) :
    I s → I { s with freeExtents := insertKey DataAddress.offset a s.freeExtents }
  erase (s : EspressoData) (k : ℤ) :
    I s → I { s with freeExtents := eraseKey DataAddress.offset k s.freeExtents }
  place (s : EspressoData) (d : DataDescriptor) (offset size : ℤ) :
    I s → I { s with metadata := s.metadata.insert d ⟨offset, toInt32 size⟩ }
  remove (s : EspressoData) (d : DataDescriptor) : I s → I { s with metadata := s.metadata.erase d }
  write (s : EspressoData) (file : List UInt8) : I s → I { s with file := file }

namespace Storing

variable {I : EspressoData → Prop} {s t : EspressoData} {tr : List (StorageCall × ℤ)}
  {c : StorageCall × ℤ} (h : Storing I)

include h

theorem insertExtent (a : DataAddress) : (insertExtent a).Keeps I := keeps_modify fun s => h.insert s a

theorem eraseExtent (a : DataAddress) : (eraseExtent a).Keeps I := keeps_modify fun s => h.erase s a.offset

theorem wp_allocateChunk (size : ℤ) (hs : I s) : wp (allocateChunk size)
    (fun r t => (∀ a ∈ r, a.size = size) ∧ I t) (fun _ => True) s := by
  simp only [allocateChunk, wp_bind, wp_get]
  cases s.freeExtents.find? fun it => size ≤ it.size with
  | none => exact (wp_pure _).mpr ⟨by simp, hs⟩
  | some it =>
    have herase : ∀ u, I u → wp (Espresso.eraseExtent it >>= fun _ =>
        (pure (some ⟨it.offset, size⟩) : Espresso (Option DataAddress)))
        (fun r t => (∀ a ∈ r, a.size = size) ∧ I t) (fun _ => True) u := by
      intro u hu
      rw [wp_bind]
      refine wp_mono (h.eraseExtent it u hu) (fun _ t ht => ?_) fun _ he => he
      exact (wp_pure _).mpr ⟨by simp, ht⟩
    rw [wp_ite]
    split_ifs
    · rw [wp_bind]
      exact wp_mono (h.insertExtent _ s hs) (fun _ u hu => herase u hu) fun _ he => he
    · exact herase s hs

theorem deallocateChunk (a : DataAddress) : (deallocateChunk a).Keeps I := by
  have hafter : ∀ after a, (joinAfter after a).Keeps I := by
    intro after a
    cases after with
    | none => exact keeps_pure _
    | some it => exact .ite (.bind (h.eraseExtent _) fun _ => keeps_pure _) (keeps_pure _)
  have hbefore : ∀ before a, (joinBefore before a).Keeps I := by
    intro before a
    cases before with
    | none => exact keeps_pure _
    | some it => exact .ite (.bind (h.eraseExtent _) fun _ => keeps_pure _) (keeps_pure _)
  exact .bind (.bind keeps_get fun _ => keeps_pure _) fun _ => .bind (.bind keeps_get fun _ => keeps_pure _)
    fun _ => .bind (hafter _ _) fun _ => .bind (hbefore _ _) fun _ => h.insertExtent _

theorem undoDeallocate (a : DataAddress) : (undoDeallocate a).Keeps I := by
  have hassert : ∀ site c, (assert site c).Keeps I := fun _ _ => .ite (keeps_pure _) (keeps_throw _)
  refine .bind (.bind keeps_get fun _ => keeps_pure _) fun it => ?_
  cases it.filter fun it => it.offset ≤ a.offset with
  | none =>
    refine .bind (.bind keeps_get fun _ => keeps_pure _) fun it => ?_
    cases it with
    | none => exact keeps_throw _
    | some it =>
      exact .bind (hassert _ _) fun _ => .ite (.bind (h.insertExtent _) fun _ =>
        .bind (h.eraseExtent _) fun _ => h.insertExtent _)
        (.bind (h.eraseExtent _) fun _ => h.insertExtent _)
  | some it =>
    exact .ite (.bind (hassert _ _) fun _ => .bind (h.insertExtent _) fun _ => h.eraseExtent _)
      (.bind (hassert _ _) fun _ => .bind (hassert _ _) fun _ => h.eraseExtent _)

theorem reallocateChunk (d : DataDescriptor) (a : DataAddress) (size : ℤ) :
    (reallocateChunk d a (toInt32 size)).Keeps I := by
  refine .bind (h.deallocateChunk a) fun _ s hs => wp_bind_keeps (h.wp_allocateChunk _ hs) fun r hr => ?_
  cases r with
  | none => exact .bind (h.undoDeallocate a) fun _ => keeps_pure _
  | some a' =>
    obtain ⟨offset, size'⟩ := a'
    obtain rfl : size' = toInt32 size := hr _ rfl
    exact .bind (keeps_modify fun s => h.place s d offset size) fun _ => keeps_pure _

theorem writeData (d : DataDescriptor) (offset : ℤ) (buf : List UInt8) (count : ℤ) :
    (writeData d offset buf count).Keeps I := by
  refine keeps_get_bind fun s hs => ?_
  rw [wp_ite]
  split_ifs
  · exact (wp_pure _).mpr hs
  · cases s.metadata.lookup d with
    | none => exact (wp_pure _).mpr hs
    | some a =>
      simp only [wp_ite]
      split_ifs
      · exact (wp_pure _).mpr hs
      · exact (wp_pure _).mpr hs
      · rw [wp_bind, wp_set, wp_pure]
        exact h.write s _ hs

theorem writeChunk (d : DataDescriptor) (offset : ℤ) (buf : List UInt8) (count : ℤ)
    (overread : ℕ → UInt8) : (writeChunk d offset buf count overread).Keeps I := by
  refine .ite (keeps_pure _) (keeps_get_bind fun s hs => ?_)
  cases s.metadata.lookup d with
  | none =>
    refine wp_bind_keeps (h.wp_allocateChunk _ hs) fun r hr => ?_
    cases r with
    | none => exact keeps_pure _
    | some a =>
      obtain ⟨offset', size'⟩ := a
      obtain rfl : size' = toInt32 (offset + count) := hr _ rfl
      exact .bind (keeps_modify fun s => h.place s d offset' _) fun _ => h.writeData _ _ _ _
  | some a =>
    have hread : (readData d 0 a.size).Keeps I := fun s h =>
      wp_mono (wp_readData_state d 0 a.size) (fun _ _ ht => ht ▸ h) fun _ he => he
    refine Keeps.ite (.ite (keeps_throw _) (.bind hread fun r => .ite (keeps_pure _) ?_))
      (h.writeData _ _ _ _) s hs
    exact .bind (h.reallocateChunk _ _ _) fun _ => .ite (keeps_pure _) (.bind keeps_get fun _ =>
      .bind (h.writeData _ _ _ _) fun _ => .ite (keeps_pure _) (h.writeData _ _ _ _))

theorem deleteChunk (d : DataDescriptor) : (deleteChunk d).Keeps I := by
  refine .bind keeps_get fun s => ?_
  cases s.metadata.lookup d with
  | none => exact keeps_pure _
  | some a =>
    exact .bind (h.deallocateChunk a) fun _ => .bind (keeps_modify fun s => h.remove s d) fun _ =>
      keeps_pure _

/-- **The step lemma.** -/
theorem step (hs : I s) (hstep : storageStep s c t) : I t := by
  obtain ⟨call, r⟩ := c
  cases call with
  | writeChunk d offset buf count overread =>
    exact (h.writeChunk d offset buf count overread).of_ok hstep hs
  | deleteChunk d => exact (h.deleteChunk d).of_ok hstep hs

/-- **The run lemma.** -/
theorem run (hs : I s) (hrun : Steps storageStep s tr t) : I t :=
  hrun.invariant (fun _ _ _ hs hstep => h.step hs hstep) hs

end Storing

end Espresso

end DecaFS
