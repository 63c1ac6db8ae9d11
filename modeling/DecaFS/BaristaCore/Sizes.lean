import DecaFS.BaristaCore.Files
import DecaFS.BaristaCore.Routing
import DecaFS.BaristaCore.Runs

/-!
# Sizes and cursors after a write

`write_file` adds the bytes of each stripe to the size of the file, wherever they are written, and moves
the cursor by them; `set_file_cursor` clips it at the size that was just updated. So the cursor ends
where it should, and the size does exactly if the write began at the end of the file (`sizeLaw_iff`).
The files and the cursor half way through the loop are those of `HalfWritten`.
-/

namespace DecaFS

open Code Barista FileLocks

/-- A write of `count` bytes at the cursor `c` of a descriptor, within the `s` bytes of its file `f`. The
client holds the exclusive lock, and the total stays in an `int`. -/
structure WritesAt (fd count : ℤ) (client : Client) (f s c : ℕ) (w : World) : Prop where
  cursor : w.volatile.fileCursors.lookup (fdKey fd) = some ⟨client, f, c⟩
  size : (w.persistent.metadata.lookup f).map PersistentMetadataInfo.size = some s
  le : c ≤ s
  locked : HoldsExclusive (w.fileLocks.record f) client
  pos : 0 < count
  total : s + count ≤ intMax

/-- The size of a file and the cursor of a descriptor. -/
structure Measures (fd : ℤ) (f size cursor : ℕ) (w : World) : Prop where
  size : (w.persistent.metadata.lookup f).map PersistentMetadataInfo.size = some size
  cursor : w.volatile.getFileCursor (fdKey fd) = cursor

/-- The law of `write_file`: the size is the larger one of the old size and the end of the write, which
is where the cursor is. -/
def SizeLaw (w : World) : Input → World → Prop
  | .writeFile fd _ count client _, w' => ∀ f s c, WritesAt fd count client f s c w →
    Measures fd f (max s (c + count.toNat)) (c + count.toNat) w'
  | _, _ => True

/-- A write starts at the end of the file. -/
def AtEnd (w : World) : Input → Prop
  | .writeFile fd _ count client _ => ∀ f s c, WritesAt fd count client f s c w → c = s
  | _ => True

/-- The file that is written does not go away. -/
def FileStays (w : World) : Input → World → Prop
  | .writeFile fd _ _ _ _, w' => w.fileAt fd ∈ w.persistent.metadata → w.fileAt fd ∈ w'.persistent.metadata
  | _, _ => True

/-- A message is handled, and no file goes away while it is written. -/
def stepKept (R : Runtime) (w : World) (i : Input) (w' : World) : Prop :=
  step R w i w' ∧ FileStays w i w'

/-- The state once `done` bytes are written, unless the file is gone. -/
structure HalfWritten (fd : ℤ) (client : Client) (f s c done : ℕ) (w : World) : Prop where
  unlocked : w.metaLock = none
  written : ∀ info, w.persistent.metadata.lookup f = some info → info.size = s + done ∧
    w.volatile.fileCursors.lookup (fdKey fd) = some ⟨client, f, c + done⟩

section

variable {R : Runtime} {w w' : World} {fd count : ℤ} {client : Client} {f s c done len : ℕ}
  {buf : List UInt8} {script : List SendOutcome}

theorem getFileCursor_eq {v : VolatileMetadata} {n offset : ℕ}
    (h : v.fileCursors.lookup n = some ⟨client, f, offset⟩) (hle : (offset : ℤ) ≤ intMax) :
    v.getFileCursor n = offset := by
  rw [VolatileMetadata.getFileCursor, h]
  exact toInt32_eq (by omega) hle

theorem filed_halfWritten : Filed (HalfWritten fd client f s c done) where
  unlocked _ h := h.unlocked
  view w w' hlock hpersistent hcursors h := by
    refine ⟨hlock.trans h.unlocked, ?_⟩
    rw [hpersistent, hcursors]
    exact h.written
  deleted w f' h := by
    refine ⟨h.unlocked, fun info hinfo => h.written info ?_⟩
    have hne : f ≠ f' := by
      rintro rfl
      simp at hinfo
    rwa [PersistentMetadata.lookup_without_of_ne hne] at hinfo

/-- **One stripe.** -/
theorem HalfWritten.grown (h : HalfWritten fd client f s c done w) (hle : c ≤ s)
    (htotal : (s + (done + len : ℕ) : ℤ) ≤ intMax) : HalfWritten fd client f s c (done + len)
      (moved R fd (w.volatile.getFileCursor (fdKey fd) + len) client (sized f len w)) := by
  unfold intMax at htotal
  refine ⟨h.unlocked, fun info hinfo => ?_⟩
  change (w.persistent.resized f len).metadata.lookup f = some info at hinfo
  change _ ∧ (moveCursor R (w.persistent.resized f len) fd _ client
    w.volatile.fileCursors).lookup (fdKey fd) = _
  cases hold : w.persistent.metadata.lookup f with
  | none => simp [PersistentMetadata.resized, hold] at hinfo
  | some old =>
    obtain ⟨hsize, hcursor⟩ := h.written old hold
    have hnew : info.size = s + (done + len) := by
      simp only [PersistentMetadata.resized, hold, Finmap.lookup_insert] at hinfo
      obtain rfl := Option.some.inj hinfo
      have hadd : PersistentMetadata.newSize old.size len = old.size + len :=
        PersistentMetadata.newSize_add (by unfold intMax; omega)
      rw [hadd, hsize, Nat.add_assoc]
    refine ⟨hnew, ?_⟩
    have hget : w.volatile.getFileCursor (fdKey fd) = (c + done : ℕ) :=
      getFileCursor_eq hcursor (by unfold intMax; omega)
    rw [moveCursor, hcursor, hget]
    have hoffset : (toUInt32 ((c + done : ℕ) + len : ℤ)).toNat = c + (done + len) := by
      rw [toUInt32_eq] <;> omega
    simp only [if_true, Finmap.lookup_insert, PersistentMetadata.sizeOf, hinfo, hoffset,
      Option.map_some, Option.getD_some, hnew]
    rw [min_eq_left (by omega)]

/-- The file of the descriptor. -/
theorem WritesAt.fileAt_eq (h : WritesAt fd count client f s c w) : w.fileAt fd = f := by
  rw [World.fileAt, VolatileMetadata.getFileInfo, h.cursor]
  rfl

theorem WritesAt.getFileCursor_eq (h : WritesAt fd count client f s c w) :
    w.volatile.getFileCursor (fdKey fd) = c := by
  have hpos := h.pos
  have htotal := h.total
  have hle := h.le
  exact DecaFS.getFileCursor_eq h.cursor (by omega)

theorem WritesAt.toInt32_eq (h : WritesAt fd count client f s c w) : toInt32 count = count := by
  have hpos := h.pos
  have htotal := h.total
  exact DecaFS.toInt32_eq (by omega) (by omega)

/-- The write is not refused. -/
theorem WritesAt.passes (h : WritesAt fd count client f s c w) :
    writeRefusal fd (sizeArgument count) client w = none := by
  obtain ⟨info, hinfo, -⟩ := Option.map_eq_some_iff.mp h.size
  have hpos := h.pos
  have hcount := h.toInt32_eq
  have hgoes : ¬ sizeArgument count = 0 := by
    rw [(sizeArgument_eq (by omega)).1]
    omega
  have hid : (w.volatile.getFileInfo (fdKey fd)).fileId = f := h.fileAt_eq
  have hheld : HoldsExclusive (w.fileLocks.record (w.volatile.getFileInfo (fdKey fd)).fileId) client := by
    rw [hid]
    exact h.locked
  have hstat : w.persistent.metadata.lookup (w.volatile.getFileInfo (fdKey fd)).fileId = some info := by
    rw [hid]
    exact hinfo
  have hcursor := h.getFileCursor_eq
  have hneg : ¬ w.volatile.getFileCursor (fdKey fd) < 0 := by omega
  simp only [writeRefusal, hheld, not_true_eq_false, if_false, hstat, hneg, hgoes]

/-- **`write_file`**, wherever in the file, while that is there. -/
theorem WritesAt.halfWritten (hlock : w.metaLock = none) (h : WritesAt fd count client f s c w)
    (hstep : step R w (.writeFile fd buf count client script) w') :
    HalfWritten fd client f s c count.toNat w' := by
  obtain ⟨info, hinfo, hsize⟩ := Option.map_eq_some_iff.mp h.size
  have hle := h.le
  have htotal := h.total
  have hcount := h.toInt32_eq
  have hpass := h.passes
  have hwrite : wp (writeFile R fd buf (sizeArgument count) client)
      (fun _ w' => HalfWritten fd client f s c count.toNat w') (fun _ => True) (withScript script w) := by
    refine Enduring.wp_writeFile_unmoved (w := withScript script w) hlock fd buf (sizeArgument count)
      (fun reply hreply => absurd (hpass.symm.trans hreply) (by simp)) ?_
    intro q info' w₁ hunmoved _ _ offset _
    have hstart : HalfWritten fd client f s c 0 w₁ := by
      refine ⟨hunmoved.metaLock.trans hlock, ?_⟩
      rw [hunmoved.persistent, hunmoved.fileCursors]
      intro old hold
      exact ⟨(congrArg PersistentMetadataInfo.size (Option.some.inj (hold.symm.trans hinfo))).trans hsize,
        h.cursor⟩
    have hfile' : (withScript script w).fileAt fd = f := h.fileAt_eq
    have hrun : wp (dispatchWrite R q fd f (PersistentMetadata.toStat info') offset buf
        (sizeArgument count) client) (fun _ w' => HalfWritten fd client f s c (toInt32 count).toNat w')
        (fun _ => True) w₁ := by
      refine Filed.dispatchWrite (J := HalfWritten fd client f s c) (fun _ => filed_halfWritten) ?_ buf
        hstart
      intro done len w _ hdone hw
      exact hw.grown hle (by omega)
    rw [hcount] at hrun
    rw [hfile']
    exact hrun
  exact (wp_scripted.mpr hwrite).of_ok hstep

/-- The size and the cursor, if the file is there. -/
theorem HalfWritten.measures (h : HalfWritten fd client f s c done w)
    (hle : ((c + done : ℕ) : ℤ) ≤ intMax) (hmem : f ∈ w.persistent.metadata) :
    Measures fd f (s + done) (c + done) w := by
  obtain ⟨info, hinfo⟩ := Finmap.mem_iff.mp hmem
  obtain ⟨hsize, hcursor⟩ := h.written info hinfo
  exact ⟨by rw [hinfo, Option.map_some, hsize], getFileCursor_eq hcursor hle⟩

/-- **`write_file`**: the file grows by what is written. -/
theorem step_writeFile_measures (hlock : w.metaLock = none) (h : WritesAt fd count client f s c w)
    (hstep : stepKept R w (.writeFile fd buf count client script) w') :
    Measures fd f (s + count.toNat) (c + count.toNat) w' := by
  obtain ⟨info, hinfo, -⟩ := Option.map_eq_some_iff.mp h.size
  have hpos := h.pos
  have hle := h.le
  have htotal := h.total
  have hstays := hstep.2 (h.fileAt_eq.symm ▸ Finmap.mem_of_lookup_eq_some hinfo)
  rw [h.fileAt_eq] at hstays
  exact (h.halfWritten hlock hstep.1).measures (by omega) hstays

/-- **One message.** -/
theorem sizeLaw_iff_atEnd {i : Input} (hlock : w.metaLock = none) (hstep : stepKept R w i w') :
    SizeLaw w i w' ↔ AtEnd w i := by
  cases i with
  | writeFile fd buf count client script =>
    refine forall_congr' fun f => forall_congr' fun s => forall_congr' fun c => forall_congr' fun h => ?_
    have hmeasures := step_writeFile_measures hlock h hstep
    have hpos := h.pos
    have hle := h.le
    constructor
    · intro hlaw
      have hsize := Option.some.inj (hlaw.size.symm.trans hmeasures.size)
      omega
    · rintro rfl
      rwa [max_eq_right (by omega)]
  | openFile | readFile | closeFile | deleteFile | fileSeek | response | nodeUp | nodeDown =>
    exact Iff.rfl

end

/-! ### Runs, computed -/

instance (w : World) (i : Input) (w' : World) : Decidable (FileStays w i w') := by
  cases i <;> unfold FileStays <;> infer_instance

/-- The state after the message, if the file that it writes is still there. -/
def nextKept (R : Runtime) (w : World) (i : Input) : Option World :=
  (handle R i w).toOption.bind fun p => if FileStays w i p.2 then some p.2 else none

theorem stepKept_of_next {R : Runtime} (w : World) (i : Input) (w' : World)
    (h : nextKept R w i = some w') : stepKept R w i w' := by
  obtain ⟨p, hp, hstays⟩ := Option.bind_eq_some_iff.mp h
  cases hrun : handle R i w with
  | error x =>
    rw [hrun] at hp
    exact absurd hp (by simp [Except.toOption])
  | ok q =>
    rw [hrun] at hp
    obtain rfl := Option.some.inj hp
    by_cases hfile : FileStays w i q.2
    · rw [if_pos hfile] at hstays
      obtain rfl := Option.some.inj hstays
      exact ⟨hrun, hfile⟩
    · rw [if_neg hfile] at hstays
      exact absurd hstays (by simp)

/-- A client creates a file, -/
def sampleNew : Input := .openFile "a" oRdwr (sampleClient 1)

/-- writes three bytes to it, -/
def sampleAppend : Input :=
  .writeFile 1 [1, 2, 3] 3 (sampleClient 1) [⟨true, []⟩, ⟨true, []⟩]

/-- and then one byte at the start. -/
def sampleOverwrite : Input :=
  .writeFile 1 [7] 1 (sampleClient 1) [⟨true, []⟩, ⟨true, []⟩]

end DecaFS
