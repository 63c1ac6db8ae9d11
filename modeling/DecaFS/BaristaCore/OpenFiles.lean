import DecaFS.BaristaCore.Files
import DecaFS.BaristaCore.Pairing

/-!
# The files of the descriptors

A file is not deleted while somebody has it open: deleting takes its exclusive lock, and the owners
of its descriptors hold it (`Custody.Owned`). So every descriptor keeps its file, where the moves are
`Anchoring`: a descriptor is opened on a file that is there, and no shared lock is given out next to an
exclusive one.

`Input.Sound` are the messages whose moves do that; their writes also keep the size of a file in the
range of an `int`.
-/

namespace DecaFS

open Code Barista FileLocks Custody

namespace Custody

/-- The moves that leave every descriptor its file. -/
def Anchoring (s : Custody) : Move → Prop
  | .openFd exclusive _ client f => client.ctc ≠ none ∧ f ∈ s.files ∧
      (Grants (s.lock f) client exclusive → exclusive = true ∨ (s.lock f).exProc = none)
  | .create f => f < 4294967296
  | .acceptDelete _ client _ => client.ctc ≠ none
  | .finish op => ∀ id, op ≠ .delete id
  | .finishDelete _ | .accept .. | .closeFd _ => True

/-- The file of every descriptor is there. -/
structure Anchored (s : Custody) : Prop extends Owned s where
  present : ∀ fd c f, s.opened fd = some (c, f) → f ∈ s.files
  bounded : ∀ f ∈ s.files, f < 4294967296

variable {s s' : Custody} {m : Move} {ms : List Move}

theorem Anchored.sharing (h : Anchored s) (hm : Anchoring s m) : Sharing s m := by
  cases m with
  | openFd => exact ⟨hm.1, hm.2.2⟩
  | closeFd fd =>
    intro client f hfd
    exact h.bounded f (h.present fd client f hfd)
  | create => trivial
  | finish | finishDelete | accept | acceptDelete => exact hm

/-- **The step lemma.** -/
theorem Anchored.step (h : Anchored s) (hs : Guarded Anchoring Step s m s') : Anchored s' := by
  obtain ⟨hanchoring, hstep⟩ := hs
  have howned := h.toOwned.step (m := m) ⟨h.sharing hanchoring, hstep⟩
  refine ⟨howned, ?_, ?_⟩
  · intro fd c f hfd
    cases hstep with
    | finish => exact h.present fd c f hfd
    | @finishDelete id client f' hid =>
      -- nobody has the file open that goes
      refine ⟨h.present fd c f hfd, ?_⟩
      rintro rfl
      exact (h.deleting id client f hid).2.2 fd c hfd
    | accept => exact h.present fd c f hfd
    | acceptDelete => exact h.present fd c f hfd
    | create => exact Set.mem_insert_of_mem _ (h.present fd c f hfd)
    | openFd =>
      rcases update_opened_iff.mp hfd with ⟨-, -, rfl⟩ | ⟨-, hold⟩
      · exact hanchoring.2.1
      · exact h.present fd c f hold
    | closeFd => exact h.present fd c f (update_closed_iff.mp hfd).2
  · intro f hf
    cases hstep with
    | finish => exact h.bounded f hf
    | finishDelete => exact h.bounded f hf.1
    | accept => exact h.bounded f hf
    | acceptDelete => exact h.bounded f hf
    | create =>
      rcases hf with rfl | hf
      · exact hanchoring
      · exact h.bounded f hf
    | openFd => exact h.bounded f hf
    | closeFd => exact h.bounded f hf

/-- Only `create` adds a file. -/
theorem Step.files_subset (h : Step s m s') (hm : ∀ f, m ≠ .create f) : s'.files ⊆ s.files := by
  cases h with
  | create => exact absurd rfl (hm _)
  | finishDelete => exact Set.sdiff_subset
  | finish | accept | acceptDelete | openFd | closeFd => exact subset_rfl

theorem files_subset_of_steps (h : Steps Step s ms s') (hms : ∀ m ∈ ms, ∀ f, m ≠ .create f) :
    s'.files ⊆ s.files := by
  induction h with
  | refl s => exact subset_rfl
  | cons head _ ih =>
    exact (ih fun m hm => hms m (List.mem_cons_of_mem _ hm)).trans
      (head.files_subset (hms _ List.mem_cons_self))

theorem anchoring_of_ends (h : m.Ends) (s : Custody) : Anchoring s m := by
  cases m <;> first | exact h | trivial

end Custody

/-! ### Runs of sound messages -/

/-- A message that leaves every descriptor its file, with the cursor inside: its client is connected; a
file that it opens is not locked with a shared lock next to an exclusive one; a file that it creates has
a name that `add_file` takes; and what it writes leaves the size of the file an `int`. -/
def Barista.Input.Sound (w : World) : Input → Prop
  | .openFile path flags client => client.ctc ≠ none ∧ match w.persistent.fileOf path with
    | some info => flags &&& oRdwr ≠ 0 ∨ (w.fileLocks.record info.fileId).exProc = none ∨
        ¬ Custody.Grants (w.fileLocks.record info.fileId) client false
    | none => flags &&& oRdwr ≠ 0 → path.utf8ByteSize ≤ maxFilenameLength
  | .writeFile fd _ count client _ => HoldsExclusive (w.fileLocks.record (w.fileAt fd)) client →
      0 < toInt32 count → ∀ info, w.persistent.metadata.lookup (w.fileAt fd) = some info →
        (info.size : ℤ) + toInt32 count ≤ intMax
  | .deleteFile _ client _ => client.ctc ≠ none
  | .readFile .. | .closeFile .. | .fileSeek .. | .response _ | .nodeUp _ | .nodeDown _ => True

section

variable {R : Runtime} {w w' : World} {i : Input}

/-- Without a file of that name the name is not taken. -/
theorem PersistentMetadata.Consistent.notMem_of_fileOf {p : PersistentMetadata} (h : p.Consistent)
    {path : String} (hnone : p.fileOf path = none) : path ∉ p.pathnameToFileId := by
  intro hmem
  obtain ⟨f, hf⟩ := Finmap.mem_iff.mp hmem
  obtain ⟨info, hinfo, -⟩ := h.named path f hf
  have hfile : p.fileOf path = some info := Option.bind_eq_some_iff.mpr ⟨f, hf, hinfo⟩
  exact Option.some_ne_none _ (hfile.symm.trans hnone)

/-- A sound message begins with anchoring moves. -/
theorem Begins.anchoring {ms ends : List Move} (h : Begins w i ms) (hi : i.Sound w)
    (hc : w.persistent.Consistent) (hlast : w.persistent.lastFileId + i.files < 4294967296)
    (hlock : w.metaLock = none) (hstep : step R w i w') (hends : ∀ m ∈ ends, m.Ends)
    (hsteps : Steps Custody.Step (custody w) (ms ++ ends) (custody w')) :
    Steps (Guarded Anchoring Custody.Step) (custody w) (ms ++ ends) (custody w') := by
  have hrest : ∀ {s}, Steps Custody.Step s ends (custody w') →
      Steps (Guarded Anchoring Custody.Step) s ends (custody w') := by
    intro s hs
    have hguarded := hs.guarded_of_forall hends
    exact hguarded.mono fun s m t hst => ⟨anchoring_of_ends hst.1 s, hst.2⟩
  -- a single move and the ends after it
  have hone : ∀ {m s}, Anchoring s m → Steps Custody.Step s (m :: ends) (custody w') →
      Steps (Guarded Anchoring Custody.Step) s (m :: ends) (custody w') := by
    intro m s hm hs
    obtain ⟨t, hhead, htail⟩ := Steps.cons_iff.mp hs
    exact .cons ⟨hm, hhead⟩ (hrest htail)
  have hnew : Anchoring (custody w) (.create w.persistent.newFileId) := w.persistent.newFileId_lt
  cases h with
  | nothing => exact hrest hsteps
  | @openFile path flags client ms opens =>
    obtain ⟨hctc, hfile⟩ := hi
    cases opens with
    | refused => exact hrest hsteps
    | existing hinfo =>
      rw [hinfo] at hfile
      obtain ⟨f, -, hf⟩ := Option.bind_eq_some_iff.mp hinfo
      have hid := hc.fileId_eq f _ hf
      refine hone ⟨hctc, hid ▸ Finmap.mem_of_lookup_eq_some hf, fun hgrants => ?_⟩ hsteps
      by_cases hrw : flags &&& oRdwr ≠ 0
      · exact .inl (decide_eq_true hrw)
      · rw [decide_eq_false hrw] at hgrants
        exact .inr ((hfile.resolve_left hrw).resolve_right fun hnot => hnot hgrants)
    | created hnone hwrites => exact hone hnew hsteps
    | createdOpened hnone hwrites =>
      obtain ⟨t, hhead, htail⟩ := Steps.cons_iff.mp hsteps
      obtain rfl : t = _ := by cases hhead; rfl
      exact .cons ⟨hnew, hhead⟩
        (hone ⟨hctc, Set.mem_insert _ _, fun _ => .inl rfl⟩ htail)
    | bogus hnone hwrites herror =>
      -- the name is taken, so that the file is created
      rw [hnone] at hfile
      have hcreates : Creates w (.openFile path flags client) :=
        ⟨hwrites, hc.notMem_of_fileOf hnone, hfile hwrites⟩
      obtain ⟨time, hadded⟩ := (step_openFile_filing hlock hstep).2.1 hcreates
      have hmem : w.persistent.newFileId ∈ (custody w').files := by
        simp [custody, hadded, filesWith, PersistentMetadata.added]
      have hsub := files_subset_of_steps hsteps fun m hm f hcreate => ?_
      · exact absurd (hsub hmem) (hc.newFileId_notMem hlast)
      · rcases List.mem_append.mp hm with hm | hm
        · obtain rfl := List.mem_singleton.mp hm
          exact Move.noConfusion hcreate
        · have hm := hends m hm
          rw [hcreate] at hm
          exact hm
  | readFile => exact hone trivial hsteps
  | writeFile => exact hone trivial hsteps
  | closeFile => exact hone trivial hsteps
  | deleteFile => exact hone hi hsteps

end

end DecaFS
