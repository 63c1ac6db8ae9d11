import DecaFS.BaristaCore.Files
import DecaFS.BaristaCore.Routing
import DecaFS.BaristaCore.Runs
import DecaFS.IoManager.Placement

/-!
# File ids over several lifetimes

A `Chronicle` is the Barista over several lifetimes of its process. What is on disk (the tables of
`Persistent_Metadata_Impl` and the chunk maps) outlives a restart, the counter `next_file_id` does
not: `get_new_file_id` starts again from the largest id in use. The ids that were given to files and
the packets that were tried are kept on record, over all lifetimes.

`filesFresh_iff` says exactly when a new file is new: the counter is set, or no file with a larger id
than those in use was deleted. The invariant is `Recorded`, in which the ids given so far are the
numbers up to a largest one.
-/

namespace DecaFS

open Code Barista

/-! ### Chunks of files -/

namespace Routing

variable {R : Runtime} {K : Set FileChunk} {flag : Flag} {s s' : Routing} {F : Set ℕ}

/-- Every chunk in the chunk maps is about a file of `F`. -/
structure Keyed (F : Set ℕ) (m : ChunkMaps) : Prop where
  primary : ∀ e ∈ m.chunkToNode, e.1.fileId ∈ F
  replica : ∀ e ∈ m.chunkToReplicaNode, e.1.fileId ∈ F

/-- Keys that `operator<` does not tell apart are about one file. -/
theorem fileId_mem_of_set {map : List (FileChunk × ℤ)} {k : FileChunk} {node : ℤ}
    (hmap : ∀ e ∈ map, e.1.fileId ∈ F) (hk : k.fileId ∈ F) :
    ∀ e ∈ R.search.set k node map, e.1.fileId ∈ F := by
  intro e he
  rcases Search.key_of_mem_set he with hold | ⟨-, heq | ⟨hlt, hgt⟩⟩
  · exact hmap e hold
  · exact heq ▸ hk
  · exact (FileChunk.fileId_eq_of_not_less hlt hgt) ▸ hk

theorem Keyed.placed {m : ChunkMaps} (h : Keyed F m) (v : VolatileMetadata) {k : FileChunk}
    (hk : k.fileId ∈ F) : Keyed F (placed R v k m) where
  primary := by
    rw [chunkToNode_placed]
    split_ifs
    · exact h.primary
    · exact fileId_mem_of_set h.primary hk
  replica := by
    rw [chunkToReplicaNode_placed]
    split_ifs
    · exact h.replica
    · exact fileId_mem_of_set h.replica hk

/-- A round puts no chunk of another file into the maps. -/
theorem Round.keyed (h : Round R K flag s s') (hK : ∀ k ∈ K, k.fileId ∈ F)
    (hs : Keyed F s.chunks) : Keyed F s'.chunks := by
  cases h with
  | read | readFailed => exact hs
  | writeFailed mem _ hm | written mem _ _ hm =>
    subst hm
    exact hs.placed _ (hK _ mem)
  | rewritten mem _ _ hm _ _ hs' =>
    subst hm
    subst hs'
    exact hs.placed _ (hK _ mem)
  | deleted => exact ⟨fun e he => hs.primary e (Search.mem_of_mem_erase he), hs.replica⟩
  | deletedReplica => exact ⟨hs.primary, fun e he => hs.replica e (Search.mem_of_mem_erase he)⟩

theorem Rounds.keyed (h : Rounds R K flag s s') (hK : ∀ k ∈ K, k.fileId ∈ F)
    (hs : Keyed F s.chunks) : Keyed F s'.chunks := by
  induction h with
  | refl => exact hs
  | tail _ hround ih => exact hround.keyed hK ih

end Routing

/-! ### Lifetimes -/

/-- The Barista, the ids given to files so far and the packets tried in earlier lifetimes. -/
structure Chronicle where
  world : World
  given : List ℕ := []
  past : List Attempt := []

/-- What happens to the Barista. -/
inductive Life : Type
  | message (i : Input)
  | restart (stripeSize : StripeSize) (chunkSize : ChunkSize) (chunks : ChunkMaps)

/-- The id that `add_file` gives while the message is handled. -/
def newFiles (w : World) (i : Input) (w' : World) : List ℕ :=
  match i with
  | .openFile path _ _ =>
    if path ∈ w.persistent.pathnameToFileId then []
    else (w'.persistent.pathnameToFileId.lookup path).toList
  | _ => []

/-- A new process over the files of the one before. -/
def restarted (stripeSize : StripeSize) (chunkSize : ChunkSize) (chunks : ChunkMaps) (w : World) :
    World where
  persistent := { w.persistent with nextFileId := idNotSet }
  volatile := { stripeSize := stripeSize, chunkSize := chunkSize }
  chunks := chunks

/-- The chunk maps have the same entries. -/
structure Reloads (m m' : ChunkMaps) : Prop where
  primary : m'.chunkToNode.Perm m.chunkToNode
  replica : m'.chunkToReplicaNode.Perm m.chunkToReplicaNode

namespace Chronicle

/-- Every packet that was ever tried. -/
def tried (s : Chronicle) : List Attempt := (routing s.world).tried ++ s.past

/-- A message is handled, or the process ends and is started again. -/
inductive Step (R : Runtime) : Chronicle → Life → Chronicle → Prop
  | message {s : Chronicle} {i : Input} {w' : World} (served : step R s.world i w') :
    Step R s (.message i) { s with world := w', given := newFiles s.world i w' ++ s.given }
  | restart {s : Chronicle} {chunks : ChunkMaps} (stripeSize : StripeSize) (chunkSize : ChunkSize)
    (reloads : Reloads s.world.chunks chunks) : Step R s (.restart stripeSize chunkSize chunks)
      { s with world := restarted stripeSize chunkSize chunks s.world, past := s.tried }

/-- Nothing was ever stored. -/
structure Blank (s : Chronicle) : Prop where
  started : Started s.world
  persistent : s.world.persistent = {}
  chunks : s.world.chunks = {}
  given : s.given = []
  past : s.past = []

/-- Nothing is known of the file `f`: no chunk of it has a node, and no packet was about one. -/
structure Unknown (s : Chronicle) (f : ℕ) : Prop where
  primary : ∀ e ∈ s.world.chunks.chunkToNode, e.1.fileId ≠ f
  replica : ∀ e ∈ s.world.chunks.chunkToReplicaNode, e.1.fileId ≠ f
  tried : ∀ a ∈ s.tried, a.request.chunk.fileId ≠ f

/-- A new file has an id that was never given before and of which nothing is known. -/
def FilesFresh (s s' : Chronicle) : Prop :=
  ∀ f, s'.given = f :: s.given → f ∉ s.given ∧ s.Unknown f

/-- A file that is created finds the number after the last one: not all numbers are given, and the
counter knows the last one or it is still in use. -/
def Counts (s : Chronicle) : Life → Prop
  | .message i => Creates s.world i → 0 ∉ s.given ∧
    (s.world.persistent.nextFileId = idNotSet → ∀ g ∈ s.given, ∃ f ∈ s.world.persistent.metadata, g ≤ f)
  | .restart .. => True

/-! ### The record -/

/-- The ids given are the numbers up to `m`, and 0 once there are no others. What is stored and what was
sent is about them. -/
structure Recorded (m : ℕ) (s : Chronicle) : Prop where
  unlocked : s.world.metaLock = none
  fileId_eq : ∀ f info, s.world.persistent.metadata.lookup f = some info → info.fileId = f
  lt : m < 4294967296
  le : ∀ g ∈ s.given, g ≤ m
  given : ∀ g, 0 < g → g ≤ m → g ∈ s.given
  zero : 0 ∈ s.given → m = 4294967295
  counter : s.world.persistent.nextFileId ≠ idNotSet → s.world.persistent.nextFileId = m
  files : ∀ f ∈ s.world.persistent.metadata, f ∈ s.given
  chunks : Routing.Keyed {f | f ∈ s.given} s.world.chunks
  tried : ∀ a ∈ s.tried, a.request.chunk.fileId ∈ s.given

section

variable {R : Runtime} {s s' : Chronicle} {l : Life} {i : Input} {w' : World} {m : ℕ}

theorem Blank.recorded (h : s.Blank) : s.Recorded 0 where
  unlocked := h.started.metaLock
  fileId_eq := by simp [h.persistent]
  lt := by decide
  le := by simp [h.given]
  given g hpos hle := absurd hle (by omega)
  zero := by simp [h.given]
  counter hset := absurd (congrArg PersistentMetadata.nextFileId h.persistent) hset
  files := by simp [h.persistent, Finmap.notMem_empty]
  chunks := ⟨by simp [h.chunks], by simp [h.chunks]⟩
  tried := by simp [Chronicle.tried, routing, h.started.log, h.past]

/-- What is not given is not known. -/
theorem Recorded.unknown (h : s.Recorded m) {f : ℕ} (hf : f ∉ s.given) : s.Unknown f where
  primary e he heq := hf (heq ▸ h.chunks.primary e he)
  replica e he heq := hf (heq ▸ h.chunks.replica e he)
  tried a ha heq := hf (heq ▸ h.tried a ha)

theorem Recorded.lastFileId_le (h : s.Recorded m) : s.world.persistent.lastFileId ≤ m := by
  unfold PersistentMetadata.lastFileId
  split_ifs with hset
  · exact Finset.sup_le fun f hf => h.le f (h.files f (Finmap.mem_keys.mp hf))
  · exact (h.counter hset).le

/-- **When the next id is new.** -/
theorem Recorded.newFileId_notMem_iff (h : s.Recorded m) :
    s.world.persistent.newFileId ∉ s.given ↔ 0 ∉ s.given ∧ s.world.persistent.lastFileId = m := by
  have hlt := h.lt
  have hle := h.lastFileId_le
  have hid : s.world.persistent.newFileId = (s.world.persistent.lastFileId + 1) % 4294967296 := by
    unfold PersistentMetadata.newFileId toUInt32
    omega
  constructor
  · intro hnew
    have hzero : 0 ∉ s.given := by
      intro hmem
      obtain rfl := h.zero hmem
      rcases Nat.eq_zero_or_pos s.world.persistent.newFileId with heq | hpos
      · exact hnew (heq ▸ hmem)
      · exact hnew (h.given _ hpos (by omega))
    refine ⟨hzero, ?_⟩
    by_contra hne
    exact hnew (h.given _ (by omega) (by omega))
  · rintro ⟨hzero, heq⟩ hmem
    have hmax := h.le _ hmem
    have hwrapped : s.world.persistent.newFileId = 0 := by omega
    exact hzero (hwrapped ▸ hmem)

/-- The last number, in terms of the counter and the files in use. -/
theorem Recorded.lastFileId_eq_iff (h : s.Recorded m) (hzero : 0 ∉ s.given) :
    s.world.persistent.lastFileId = m ↔ (s.world.persistent.nextFileId = idNotSet →
      ∀ g ∈ s.given, ∃ f ∈ s.world.persistent.metadata, g ≤ f) := by
  by_cases hset : s.world.persistent.nextFileId = idNotSet
  · have hlast : s.world.persistent.lastFileId = s.world.persistent.metadata.keys.sup id := if_pos hset
    have hle := h.lastFileId_le
    rw [hlast] at hle ⊢
    constructor
    · intro heq _ g hg
      have hpos : 0 < g := Nat.pos_of_ne_zero fun heq => hzero (heq ▸ hg)
      by_contra hnot
      push Not at hnot
      have hlt : s.world.persistent.metadata.keys.sup id < g :=
        (Finset.sup_lt_iff hpos).mpr fun f hf => hnot f (Finmap.mem_keys.mp hf)
      have hgm := h.le g hg
      omega
    · intro hall
      rcases Nat.eq_zero_or_pos m with rfl | hpos
      · omega
      · obtain ⟨f, hf, hmf⟩ := hall hset m (h.given m hpos le_rfl)
        have hsup : f ≤ s.world.persistent.metadata.keys.sup id :=
          Finset.le_sup (f := id) (Finmap.mem_keys.mpr hf)
        omega
  · have hlast : s.world.persistent.lastFileId = s.world.persistent.nextFileId := if_neg hset
    rw [hlast]
    exact iff_of_true (h.counter hset) fun hunset => absurd hunset hset

/-! ### One step -/

/-- The files once a message is handled that creates none. -/
theorem Recorded.message (h : s.Recorded m) (hserved : step R s.world i w')
    (hnew : newFiles s.world i w' = [])
    (hfiles : (∀ f info, w'.persistent.metadata.lookup f = some info → info.fileId = f) ∧
      w'.persistent.nextFileId = s.world.persistent.nextFileId ∧
      ∀ f ∈ w'.persistent.metadata, f ∈ s.given) :
    Recorded m { s with world := w', given := newFiles s.world i w' ++ s.given } := by
  rw [hnew, List.nil_append]
  obtain ⟨hlock, hrouted⟩ := step_routed h.unlocked hserved
  have htold : ((routing s.world).told i).chunks = s.world.chunks ∧
      ((routing s.world).told i).tried = (routing s.world).tried := by
    cases i <;> exact ⟨rfl, rfl⟩
  have hboth : Routing.Keyed {f | f ∈ s.given} w'.chunks ∧
      ∀ a ∈ (routing w').tried, a ∈ (routing s.world).tried ∨ a.request.chunk.fileId ∈ s.given := by
    rcases hrouted with heq | ⟨flag, f, K, hK, hrounds⟩
    · have hchunks : w'.chunks = s.world.chunks := (congrArg Routing.chunks heq).trans htold.1
      have htried : (routing w').tried = (routing s.world).tried :=
        (congrArg Routing.tried heq).trans htold.2
      exact ⟨hchunks ▸ h.chunks, fun a ha => .inl (htried ▸ ha)⟩
    · -- the chunks of the call are those of a file in use
      have hf : f ∈ s.given := by
        cases hK with
        | readFile file | writeFile file => exact h.files _ (Finmap.mem_of_lookup_eq_some file)
        | deleteFile file =>
          obtain ⟨f, -, hlookup⟩ := Option.bind_eq_some_iff.mp file
          rw [h.fileId_eq f _ hlookup]
          exact h.files f (Finmap.mem_of_lookup_eq_some hlookup)
      have hKf : ∀ k ∈ K, k.fileId ∈ {f | f ∈ s.given} := fun k hk => hK.fileId_eq k hk ▸ hf
      obtain ⟨new, hnew, hmem⟩ := hrounds.exists_tried
      refine ⟨hrounds.keyed hKf (htold.1 ▸ h.chunks), fun a ha => ?_⟩
      rw [hnew.tried, htold.2, List.mem_append] at ha
      exact ha.symm.imp_right fun hnew => hKf _ (hmem a hnew)
  refine ⟨hlock, hfiles.1, h.lt, h.le, h.given, h.zero, ?_, hfiles.2.2, hboth.1, fun a ha => ?_⟩
  · rw [hfiles.2.1]
    exact h.counter
  · rcases List.mem_append.mp ha with ha | ha
    · exact (hboth.2 a ha).elim (fun hold => h.tried a (List.mem_append_left _ hold)) id
    · exact h.tried a (List.mem_append_right _ ha)

/-- The id that a file gets that is created. -/
theorem newFiles_of_creates {w : World} (hlock : w.metaLock = none) (hserved : step R w i w')
    (hcreates : Creates w i) : newFiles w i w' = [w.persistent.newFileId] := by
  cases i with
  | openFile path flags client =>
    obtain ⟨-, hcreated, -⟩ := step_openFile_filing hlock hserved
    obtain ⟨time, hfiles⟩ := hcreated hcreates
    simp only [newFiles]
    rw [if_neg hcreates.2.1, hfiles, filesWith, PersistentMetadata.added, Finmap.lookup_insert]
    rfl
  | readFile | writeFile | closeFile | deleteFile | fileSeek | response | nodeUp | nodeDown =>
    exact absurd hcreates id

theorem newFiles_of_not_creates {w : World} (hlock : w.metaLock = none) (hserved : step R w i w')
    (hcreates : ¬ Creates w i) : newFiles w i w' = [] := by
  cases i with
  | openFile path flags client =>
    obtain ⟨-, -, hsame⟩ := step_openFile_filing hlock hserved
    simp only [newFiles]
    split_ifs with hpath
    · rfl
    · rw [hsame hcreates, Finmap.lookup_eq_none.mpr hpath]
      rfl
  | readFile | writeFile | closeFile | deleteFile | fileSeek | response | nodeUp | nodeDown => rfl

/-- A message that creates no file. -/
theorem Recorded.served (h : s.Recorded m) (hserved : step R s.world i w')
    (hcreates : ¬ Creates s.world i) :
    Recorded m { s with world := w', given := newFiles s.world i w' ++ s.given } := by
  refine h.message hserved (newFiles_of_not_creates h.unlocked hserved hcreates) ?_
  let P (p : PersistentMetadata) : Prop :=
    (∀ f info, p.metadata.lookup f = some info → info.fileId = f) ∧
      p.nextFileId = s.world.persistent.nextFileId ∧ ∀ f ∈ p.metadata, f ∈ s.given
  have hP : P s.world.persistent := ⟨h.fileId_eq, rfl, h.files⟩
  by_cases hopen : ∃ path flags client, i = .openFile path flags client
  · obtain ⟨path, flags, client, rfl⟩ := hopen
    obtain ⟨-, -, hsame⟩ := step_openFile_filing h.unlocked hserved
    exact (hsame hcreates).symm ▸ hP
  · push Not at hopen
    refine (step_filing (P := P) (fun p f hp => ⟨fun f' info hl => ?_, ?_, fun f' hf' => ?_⟩)
      (fun p f delta hp => ⟨fun f' info hl => ?_, ?_, fun f' hf' => ?_⟩) ⟨h.unlocked, hP⟩ hopen
      hserved).2
    · have hne : f' ≠ f := by
        rintro rfl
        simp at hl
      exact hp.1 f' info (PersistentMetadata.lookup_without_of_ne hne ▸ hl)
    · exact PersistentMetadata.nextFileId_without.trans hp.2.1
    · exact hp.2.2 f' (PersistentMetadata.mem_of_mem_without hf')
    · obtain ⟨g, hg⟩ := PersistentMetadata.lookup_resized p f delta f'
      obtain ⟨info', hinfo', rfl⟩ := Option.map_eq_some_iff.mp (hg.symm.trans hl)
      exact hp.1 f' info' hinfo'
    · exact PersistentMetadata.nextFileId_resized.trans hp.2.1
    · exact hp.2.2 f' (PersistentMetadata.mem_resized.mp hf')

/-- A message that creates a file with a new id. -/
theorem Recorded.created (h : s.Recorded m) (hserved : step R s.world i w')
    (hcreates : Creates s.world i) (hnew : s.world.persistent.newFileId ∉ s.given) :
    ∃ m', Recorded m' { s with world := w', given := newFiles s.world i w' ++ s.given } := by
  obtain ⟨hzero, hlast⟩ := h.newFileId_notMem_iff.mp hnew
  rw [newFiles_of_creates h.unlocked hserved hcreates, List.singleton_append]
  cases i with
  | openFile path flags client =>
    obtain ⟨hlock, hcreated, -⟩ := step_openFile_filing h.unlocked hserved
    obtain ⟨time, hfiles⟩ := hcreated hcreates
    have hrouting : routing w' = routing s.world := by
      obtain ⟨-, heq | ⟨_, _, _, hK, -⟩⟩ := step_routed h.unlocked hserved
      · exact heq
      · cases hK
    have hchunks : w'.chunks = s.world.chunks := congrArg Routing.chunks hrouting
    have hlt := h.lt
    generalize hid : s.world.persistent.newFileId = id at hnew ⊢
    have hwrap : id = m + 1 ∧ m + 1 < 4294967296 ∨ id = 0 ∧ m = 4294967295 := by
      unfold PersistentMetadata.newFileId toUInt32 at hid
      omega
    have hcounter : w'.persistent.nextFileId = id := by
      rw [hfiles]
      exact hid
    have hlookup : ∀ f, w'.persistent.metadata.lookup f = if f = id then some ⟨id, 0,
        s.world.volatile.stripeSize, s.world.volatile.chunkSize, s.world.volatile.chunkSize.val, path,
        time⟩ else s.world.persistent.metadata.lookup f := by
      intro f
      rw [hfiles, filesWith, PersistentMetadata.added, hid]
      split_ifs with hf
      · rw [hf, Finmap.lookup_insert]
      · exact Finmap.lookup_insert_of_ne _ hf
    refine ⟨if id = 0 then m else m + 1, hlock, fun f info hl => ?_, ?_, fun g hg => ?_,
      fun g hpos hle => ?_, fun hmem => ?_, fun hset => ?_, fun f hf => ?_, ⟨fun e he => ?_,
        fun e he => ?_⟩, fun a ha => ?_⟩
    · rw [hlookup] at hl
      split_ifs at hl with hf
      · rw [← Option.some.inj hl, hf]
      · exact h.fileId_eq f info hl
    · split_ifs <;> omega
    · rcases List.mem_cons.mp hg with rfl | hg
      · split_ifs <;> omega
      · have hle := h.le g hg
        split_ifs <;> omega
    · by_cases hgm : g ≤ m
      · exact List.mem_cons_of_mem _ (h.given g hpos hgm)
      · have hg : g = id := by
          split_ifs at hle <;> omega
        exact hg ▸ List.mem_cons_self
    · rcases List.mem_cons.mp hmem with heq | hmem
      · rw [if_pos heq.symm]
        omega
      · exact absurd hmem hzero
    · rw [hcounter] at hset ⊢
      have hne : id ≠ 0 := hset
      rw [if_neg hne]
      omega
    · by_cases hf' : f = id
      · exact hf' ▸ List.mem_cons_self
      · refine List.mem_cons_of_mem _ (h.files f ?_)
        rw [← Finmap.lookup_isSome] at hf ⊢
        rwa [hlookup, if_neg hf'] at hf
    · exact List.mem_cons_of_mem _ (h.chunks.primary e (hchunks ▸ he))
    · exact List.mem_cons_of_mem _ (h.chunks.replica e (hchunks ▸ he))
    · refine List.mem_cons_of_mem _ (h.tried a ?_)
      unfold Chronicle.tried at ha ⊢
      rwa [hrouting] at ha
  | readFile | writeFile | closeFile | deleteFile | fileSeek | response | nodeUp | nodeDown =>
    exact absurd hcreates id

/-- A restart forgets the counter and nothing else. -/
theorem Recorded.restart (h : s.Recorded m) (stripeSize : StripeSize) (chunkSize : ChunkSize)
    {chunks : ChunkMaps} (hreloads : Reloads s.world.chunks chunks) : Recorded m
      { s with world := restarted stripeSize chunkSize chunks s.world, past := s.tried } where
  unlocked := rfl
  fileId_eq := h.fileId_eq
  lt := h.lt
  le := h.le
  given := h.given
  zero := h.zero
  counter hset := absurd rfl hset
  files := h.files
  chunks := ⟨fun e he => h.chunks.primary e (hreloads.primary.mem_iff.mp he),
    fun e he => h.chunks.replica e (hreloads.replica.mem_iff.mp he)⟩
  tried := h.tried

/-- **One step.** A new file is new exactly if the step meets the condition. -/
theorem Recorded.fresh_iff_counts (h : s.Recorded m) (hstep : Step R s l s') :
    s.FilesFresh s' ↔ s.Counts l := by
  cases hstep with
  | @message i w' hserved =>
    by_cases hcreates : Creates s.world i
    · have hgiven := newFiles_of_creates h.unlocked hserved hcreates
      have hiff : s.world.persistent.newFileId ∉ s.given ↔ s.Counts (.message i) := by
        rw [h.newFileId_notMem_iff]
        constructor
        · rintro ⟨hzero, hlast⟩ -
          exact ⟨hzero, (h.lastFileId_eq_iff hzero).mp hlast⟩
        · intro hcounts
          obtain ⟨hzero, hall⟩ := hcounts hcreates
          exact ⟨hzero, (h.lastFileId_eq_iff hzero).mpr hall⟩
      rw [← hiff]
      constructor
      · intro hfresh
        exact (hfresh _ (by rw [hgiven]; rfl)).1
      · intro hnew f hf
        rw [hgiven] at hf
        obtain rfl := (List.cons.inj hf).1
        exact ⟨hnew, h.unknown hnew⟩
    · refine iff_of_true (fun f hf => ?_) fun hcreates' => absurd hcreates' hcreates
      rw [newFiles_of_not_creates h.unlocked hserved hcreates] at hf
      exact absurd hf (List.cons_ne_self f s.given).symm
  | restart => exact iff_of_true (fun f hf => absurd hf (List.cons_ne_self f s.given).symm) trivial

theorem Recorded.step (h : s.Recorded m) (hstep : Step R s l s') (hcounts : s.Counts l) :
    ∃ m', Recorded m' s' := by
  have hfresh := (h.fresh_iff_counts hstep).mpr hcounts
  cases hstep with
  | @message i w' hserved =>
    by_cases hcreates : Creates s.world i
    · refine h.created hserved hcreates (hfresh _ ?_).1
      rw [newFiles_of_creates h.unlocked hserved hcreates]
      rfl
    · exact ⟨m, h.served hserved hcreates⟩
  | restart stripeSize chunkSize hreloads => exact ⟨m, h.restart stripeSize chunkSize hreloads⟩

/-- **When file ids are never recycled.** Along every run of messages and restarts, every new file has
an id that no file had before, and nothing is stored or was sent under it, exactly if each file that
is created finds the counter set or the last id still in use. -/
theorem filesFresh_iff {s₀ : Chronicle} {ls : List Life} (hblank : s₀.Blank) :
    Steps (fun s l s' => Step R s l s' ∧ s.FilesFresh s') s₀ ls s ↔
      Steps (Guarded Counts (Step R)) s₀ ls s := by
  have hstart : ∃ m, s₀.Recorded m := ⟨0, hblank.recorded⟩
  constructor
  · intro hrun
    refine (hrun.along (I := fun s => ∃ m, s.Recorded m) (fun s l s' h hs => ?_) hstart).mono
      fun s l s' h => ?_
    · obtain ⟨m, h⟩ := h
      exact h.step hs.1 ((h.fresh_iff_counts hs.1).mp hs.2)
    · obtain ⟨⟨hstep, hfresh⟩, ⟨m, h⟩, -⟩ := h
      exact ⟨(h.fresh_iff_counts hstep).mp hfresh, hstep⟩
  · intro hrun
    refine (hrun.along (I := fun s => ∃ m, s.Recorded m) (fun s l s' h hs => ?_) hstart).mono
      fun s l s' h => ?_
    · obtain ⟨m, h⟩ := h
      exact h.step hs.2 hs.1
    · obtain ⟨⟨hcounts, hstep⟩, ⟨m, h⟩, -⟩ := h
      exact ⟨hstep, (h.fresh_iff_counts hstep).mpr hcounts⟩

end

/-! ### Runs, computed -/

instance (m m' : ChunkMaps) : Decidable (Reloads m m') :=
  decidable_of_iff (m'.chunkToNode.Perm m.chunkToNode ∧
      m'.chunkToReplicaNode.Perm m.chunkToReplicaNode)
    ⟨fun h => ⟨h.1, h.2⟩, fun h => ⟨h.primary, h.replica⟩⟩

/-- The state after the step, if it can be taken. -/
def next (R : Runtime) (s : Chronicle) : Life → Option Chronicle
  | .message i => (handle R i s.world).toOption.map fun p =>
    { s with world := p.2, given := newFiles s.world i p.2 ++ s.given }
  | .restart stripeSize chunkSize chunks => if Reloads s.world.chunks chunks then
      some { s with world := restarted stripeSize chunkSize chunks s.world, past := s.tried }
    else none

theorem step_of_next {R : Runtime} (s : Chronicle) (l : Life) (s' : Chronicle)
    (h : next R s l = some s') : Step R s l s' := by
  cases l with
  | message i =>
    simp only [next] at h
    cases hrun : handle R i s.world with
    | error x =>
      rw [hrun] at h
      exact absurd h (by simp [Except.toOption])
    | ok p =>
      rw [hrun] at h
      obtain rfl := Option.some.inj h
      exact .message hrun
  | restart stripeSize chunkSize chunks =>
    simp only [next] at h
    by_cases hreloads : Reloads s.world.chunks chunks
    · rw [if_pos hreloads] at h
      obtain rfl := Option.some.inj h
      exact .restart stripeSize chunkSize hreloads
    · rw [if_neg hreloads] at h
      exact absurd h (by simp)

/-- The state before anything is stored. -/
def sampleChronicle : Chronicle where
  world := sampleServer

theorem blank_sampleChronicle : sampleChronicle.Blank :=
  ⟨started_sampleServer, rfl, rfl, rfl, rfl⟩

/-- The process ends and is started again; no chunk is on record. -/
def sampleRestart : Life :=
  .restart sampleServer.volatile.stripeSize sampleServer.volatile.chunkSize {}

/-- A client writes one byte to the new file "a", closes it and deletes it. -/
def sampleDelete : List Life :=
  [.message (.openFile "a" oRdwr (sampleClient 1)),
    .message (.writeFile 1 [7] 1 (sampleClient 1) [⟨true, []⟩, ⟨true, []⟩]),
    .message (.response ⟨0, 1, []⟩), .message (.response ⟨0, 1, []⟩),
    .message (.closeFile 1 (sampleClient 1)),
    .message (.deleteFile "a" (sampleClient 1) [⟨true, []⟩, ⟨true, []⟩]),
    .message (.response ⟨0, 0, []⟩), .message (.response ⟨0, 0, []⟩)]

/-- The file with the largest id is deleted and the process restarted: the next file gets its id. -/
theorem deletedLast_recycled : ∃ s s', Steps (Step sampleRuntime) sampleChronicle
    (sampleDelete ++ [sampleRestart]) s ∧
    Step sampleRuntime s (.message (.openFile "b" oRdwr (sampleClient 1))) s' ∧
    ¬ s.FilesFresh s' := by
  obtain ⟨s, hrun, hend⟩ := Steps.exists_of_foldlM (step_of_next (R := sampleRuntime)) sampleChronicle
    (sampleDelete ++ [sampleRestart]) (p := fun s => s.given = [1] ∧ (next sampleRuntime s
      (.message (.openFile "b" oRdwr (sampleClient 1)))).any fun s' => s'.given = [1, 1])
    (by decide +kernel)
  obtain ⟨hgiven, hcreate⟩ := of_decide_eq_true hend
  obtain ⟨s', hs', hgiven'⟩ := (Option.any_eq_true _ _).mp hcreate
  refine ⟨s, s', hrun, step_of_next s _ s' hs', fun hfresh => ?_⟩
  have hnew := (hfresh 1 (by rw [hgiven, of_decide_eq_true hgiven'])).1
  rw [hgiven] at hnew
  exact hnew List.mem_cons_self

/-- Two files, with a restart in between. -/
def sampleFiles : List Life :=
  [.message (.openFile "a" oRdwr (sampleClient 1)), sampleRestart,
    .message (.openFile "b" oRdwr (sampleClient 1))]

theorem filesFresh_sampleFiles : ∃ s, Steps (fun s l s' => Step sampleRuntime s l s' ∧ s.FilesFresh s')
    sampleChronicle sampleFiles s ∧ s.given = [2, 1] := by
  obtain ⟨s₁, hopen, hend⟩ := Steps.exists_of_foldlM (step_of_next (R := sampleRuntime)) sampleChronicle
    [.message (.openFile "a" oRdwr (sampleClient 1)), sampleRestart] (p := fun s => s.given = [1] ∧
      1 ∈ s.world.persistent.metadata ∧ (next sampleRuntime s
        (.message (.openFile "b" oRdwr (sampleClient 1)))).any fun s' => s'.given = [2, 1])
    (by decide +kernel)
  obtain ⟨hgiven, hfile, hcreate⟩ := of_decide_eq_true hend
  obtain ⟨s, hs, hend⟩ := (Option.any_eq_true _ _).mp hcreate
  have hcounts : s₁.Counts (.message (.openFile "b" oRdwr (sampleClient 1))) := by
    intro _
    rw [hgiven]
    exact ⟨by decide, fun _ g hg => ⟨1, hfile, (List.mem_singleton.mp hg).le⟩⟩
  have hfirst : Steps (Guarded Counts (Step sampleRuntime)) sampleChronicle
      [.message (.openFile "a" oRdwr (sampleClient 1)), sampleRestart] s₁ := by
    obtain ⟨s₂, hmessage, hrest⟩ := Steps.cons_iff.mp hopen
    obtain ⟨s₃, hrestart, hnil⟩ := Steps.cons_iff.mp hrest
    obtain rfl := Steps.nil_iff.mp hnil
    refine .cons ⟨fun _ => ⟨List.not_mem_nil, fun _ g hg => ?_⟩, hmessage⟩
      (.single ⟨trivial, hrestart⟩)
    exact absurd hg List.not_mem_nil
  exact ⟨s, (filesFresh_iff blank_sampleChronicle).mpr
    (hfirst.trans (.single ⟨hcounts, step_of_next s₁ _ s hs⟩)), of_decide_eq_true hend⟩

end Chronicle

end DecaFS
