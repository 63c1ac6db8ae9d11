import DecaFS.ForMathlib.Transition
import DecaFS.Metadata.Tables

/-!
# Names and files are inverse

The calls of `Persistent_Metadata` on tables that start empty. A name leads to the file that has
it, and every file is reached by its name (`Inverse`); the files are numbered from 1 on in the
order of their creation, and no number is used twice (`Numbered`). A step of the system is a
call together with its result.
-/

namespace DecaFS

open Code

namespace PersistentMetadata

variable {S C : Type}

/-! ### The two tables -/

/-- The two tables are inverse to each other, and a file is stored under its own id. -/
structure Inverse (p : PersistentMetadata S C) : Prop where
  fileId_eq : ∀ f info, p.metadata.lookup f = some info → info.fileId = f
  lookup_iff : ∀ path f, p.pathnameToFileId.lookup path = some f ↔
    ∃ info, p.metadata.lookup f = some info ∧ info.pathname = path

section Inverse

variable {p : PersistentMetadata S C} {f : ℕ}

theorem inverse_empty : ({} : PersistentMetadata S C).Inverse where
  fileId_eq f info hl := by simp at hl
  lookup_iff path f := by simp

theorem Inverse.lookup_pathname (h : p.Inverse) {info : PersistentMetadataInfo S C}
    (hl : p.metadata.lookup f = some info) : p.pathnameToFileId.lookup info.pathname = some f :=
  (h.lookup_iff _ _).mpr ⟨info, hl, rfl⟩

/-- There are as many names as files. -/
theorem Inverse.card_keys (h : p.Inverse) : p.pathnameToFileId.keys.card = p.getNumFiles := by
  refine Finset.card_bij' (fun path _ => (p.pathnameToFileId.lookup path).getD 0)
    (fun f _ => ((p.metadata.lookup f).map PersistentMetadataInfo.pathname).getD "")
    (fun path hpath => ?_) (fun f hf => ?_) (fun path hpath => ?_) fun f hf => ?_
  · obtain ⟨f, hf⟩ := Finmap.mem_iff.mp (Finmap.mem_keys.mp hpath)
    obtain ⟨info, hinfo, -⟩ := (h.lookup_iff path f).mp hf
    rw [hf]
    exact Finmap.mem_keys.mpr (Finmap.mem_of_lookup_eq_some hinfo)
  · obtain ⟨info, hinfo⟩ := Finmap.mem_iff.mp (Finmap.mem_keys.mp hf)
    rw [hinfo]
    exact Finmap.mem_keys.mpr (Finmap.mem_of_lookup_eq_some (h.lookup_pathname hinfo))
  · obtain ⟨f, hf⟩ := Finmap.mem_iff.mp (Finmap.mem_keys.mp hpath)
    obtain ⟨info, hinfo, rfl⟩ := (h.lookup_iff path f).mp hf
    rw [hf, Option.getD_some, hinfo]
    rfl
  · obtain ⟨info, hinfo⟩ := Finmap.mem_iff.mp (Finmap.mem_keys.mp hf)
    rw [hinfo, Option.map_some, Option.getD_some, h.lookup_pathname hinfo]
    rfl

/-- Rewriting the entry of a file, but not its name and id, keeps the tables inverse. -/
theorem Inverse.revised (h : p.Inverse) {info info' : PersistentMetadataInfo S C}
    (hl : p.metadata.lookup f = some info) (hid : info'.fileId = info.fileId)
    (hname : info'.pathname = info.pathname) :
    Inverse { p with metadata := p.metadata.insert f info' } where
  fileId_eq f' old hold := by
    rcases eq_or_ne f' f with rfl | hne
    · obtain rfl : info' = old := by simpa using hold
      exact hid.trans (h.fileId_eq f' info hl)
    · exact h.fileId_eq f' old (by simpa [Finmap.lookup_insert_of_ne _ hne] using hold)
  lookup_iff path f' := by
    rw [h.lookup_iff]
    rcases eq_or_ne f' f with rfl | hne
    · simp [hl, hname]
    · simp [Finmap.lookup_insert_of_ne _ hne]

theorem Inverse.without (h : p.Inverse) : (p.without f).Inverse where
  fileId_eq f' info hl := by
    have hne : f' ≠ f := by
      rintro rfl
      simp at hl
    exact h.fileId_eq f' info (lookup_without_of_ne hne ▸ hl)
  lookup_iff path f' := by
    rcases eq_or_ne f' f with rfl | hne
    · refine iff_of_false (fun hpath => ?_) (by simp)
      obtain ⟨info, hinfo, rfl⟩ := (h.lookup_iff path f').mp (pathname_of_without hpath)
      simp [PersistentMetadata.without, hinfo] at hpath
    · rw [lookup_without_of_ne hne, ← h.lookup_iff]
      refine ⟨pathname_of_without, fun hpath => ?_⟩
      unfold PersistentMetadata.without
      cases hl : p.metadata.lookup f with
      | none => exact hpath
      | some info =>
        have hother : path ≠ info.pathname := by
          rintro rfl
          exact hne (Option.some.inj (hpath.symm.trans (h.lookup_pathname hl)))
        simpa only [Finmap.lookup_erase_ne hother] using hpath

theorem Inverse.added (h : p.Inverse) {path : String} (hpath : path ∉ p.pathnameToFileId)
    (hfresh : p.newFileId ∉ p.metadata) (stripeSize : S) (chunkSize : C) (replicaSize : ℕ)
    (time : Timeval) : (p.added path stripeSize chunkSize replicaSize time).Inverse where
  fileId_eq f info hl := by
    unfold PersistentMetadata.added at hl
    rcases eq_or_ne f p.newFileId with rfl | hne
    · obtain rfl : _ = info := by simpa using hl
      rfl
    · exact h.fileId_eq f info (by simpa [Finmap.lookup_insert_of_ne _ hne] using hl)
  lookup_iff path' f := by
    unfold PersistentMetadata.added
    rcases eq_or_ne path' path with rfl | hname <;> rcases eq_or_ne f p.newFileId with rfl | hid
    · simp
    · -- an older file does not have the new name
      simp only [Finmap.lookup_insert, Finmap.lookup_insert_of_ne _ hid, Option.some.injEq]
      refine iff_of_false (Ne.symm hid) ?_
      rintro ⟨info, hinfo, rfl⟩
      exact hpath (Finmap.mem_of_lookup_eq_some (h.lookup_pathname hinfo))
    · -- an older name does not lead to the new file
      simp only [Finmap.lookup_insert, Finmap.lookup_insert_of_ne _ hname]
      refine iff_of_false (fun hold => ?_) (by simpa using Ne.symm hname)
      obtain ⟨info, hinfo, -⟩ := (h.lookup_iff _ _).mp hold
      exact hfresh (Finmap.mem_of_lookup_eq_some hinfo)
    · simp only [Finmap.lookup_insert_of_ne _ hname, Finmap.lookup_insert_of_ne _ hid]
      exact h.lookup_iff path' f

end Inverse

/-! ### Listing the files -/

theorem copyNames_eq_take (size : ℤ) (names : List String) (current : ℕ) :
    copyNames size current names = names.take (size - current).toNat := by
  induction names generalizing current with
  | nil => simp [copyNames]
  | cons name it ih =>
    unfold copyNames
    split_ifs with hlt
    · have hsucc : (size - current).toNat = (size - (current + 1 : ℕ)).toNat + 1 := by omega
      rw [hsucc, List.take_succ_cons, ih]
    · have hzero : (size - current).toNat = 0 := by omega
      rw [hzero, List.take_zero]

/-- The names come in increasing order, each once, as many as there is room for. -/
theorem Inverse.getFilenames_eq {p : PersistentMetadata S C} (h : p.Inverse) (size : ℤ) :
    ∃ names : List String, names.SortedLT ∧ (∀ path, path ∈ names ↔ path ∈ p.pathnameToFileId) ∧
      names.length = p.getNumFiles ∧ getFilenames size p =
        .ok (((min size.toNat p.getNumFiles : ℕ), names.take (min size.toNat p.getNumFiles)), p) := by
  let names := p.pathnameToFileId.keys.sort
  have hlength : names.length = p.getNumFiles := by
    rw [← h.card_keys]
    exact Finset.length_sort _
  refine ⟨names, Finset.sortedLT_sort _, fun path => ?_, hlength, ?_⟩
  · rw [Finset.mem_sort, Finmap.mem_keys]
  · have hcopy : copyNames size 0 names = names.take (min size.toNat p.getNumFiles) := by
      rw [copyNames_eq_take, ← hlength, List.take_eq_take_min]
      simp
    have hget : getFilenames size p =
        .ok (((copyNames size 0 names).length, copyNames size 0 names), p) := rfl
    have hcount : min (min size.toNat p.getNumFiles) p.getNumFiles = min size.toNat p.getNumFiles := by
      omega
    rw [hget, hcopy, List.length_take, hlength, hcount]

/-! ### Calls -/

/-- A call that changes the tables. A `size_delta` arrives as an `int`. -/
inductive Call (S C : Type) : Type
  | addFile (pathname : String) (stripeSize : S) (chunkSize : C) (replicaSize : ℕ) (time : Timeval)
  | deleteFileContents (fileId : ℕ)
  | updateFileSize (fileId : ℕ) (sizeDelta : ℤ)
  | setAccessTime (inst : FileInstance) (time : Timeval)

namespace Call

/-- Run the call. -/
def perform : Call S C → Code (Halt Site) (PersistentMetadata S C) ℤ
  | addFile pathname stripeSize chunkSize replicaSize time =>
    PersistentMetadata.addFile pathname stripeSize chunkSize replicaSize time
  | deleteFileContents fileId => PersistentMetadata.deleteFileContents fileId
  | updateFileSize fileId sizeDelta => PersistentMetadata.updateFileSize fileId (toInt32 sizeDelta)
  | setAccessTime inst time => PersistentMetadata.setAccessTime inst time

/-- The result tells that the call failed. -/
def Refused : Call S C → ℤ → Prop
  | addFile .., res => res = fileExists ∨ res = filenameInvalid
  | _, res => res = fileNotFound

/-- The id given to a new file. -/
def created : Call S C → ℤ → Option ℤ
  | addFile .., res => if res = fileExists ∨ res = filenameInvalid then none else some res
  | _, _ => none

end Call

/-- The calls return these results, one after the other from `p`. -/
def replays : List (Call S C × ℤ) → PersistentMetadata S C → Bool
  | [], _ => true
  | call :: calls, p =>
    (call.1.perform p).toOption.any fun out => out.1 = call.2 && replays calls out.2

/-- A call and its result take the tables from `p` to `q`. -/
def Performs (p : PersistentMetadata S C) (call : Call S C × ℤ) (q : PersistentMetadata S C) :
    Prop :=
  call.1.perform p = .ok (call.2, q)

/-- The ids given to new files along a run. -/
def createdIds (calls : List (Call S C × ℤ)) : List ℤ :=
  calls.filterMap fun call => call.1.created call.2

theorem exists_steps_of_replays : ∀ {calls : List (Call S C × ℤ)} {p : PersistentMetadata S C},
    replays calls p = true → ∃ q, Steps Performs p calls q
  | [], p, _ => ⟨p, .refl p⟩
  | call :: calls, p, h => by
    unfold replays at h
    cases hperform : call.1.perform p with
    | error e =>
      rw [hperform] at h
      exact absurd h (by simp [Except.toOption])
    | ok out =>
      rw [hperform] at h
      obtain ⟨hres, htail⟩ : out.1 = call.2 ∧ replays calls out.2 = true := by
        simpa [Except.toOption] using h
      obtain ⟨q, hq⟩ := exists_steps_of_replays htail
      have hhead : Performs p call out.2 := by
        rw [Performs, hperform, ← hres]
      exact ⟨q, .cons hhead hq⟩

/-! ### Numbering -/

/-- The tables once `n` files have been created. -/
structure Numbered (n : ℕ) (p : PersistentMetadata S C) : Prop where
  inverse : p.Inverse
  nextFileId_eq : p.nextFileId = n
  ids : ∀ f ∈ p.metadata, 0 < f ∧ f ≤ n
  sizes : ∀ f info, p.metadata.lookup f = some info → info.size < 4294967296

namespace Numbered

variable {p : PersistentMetadata S C} {n f : ℕ}

theorem empty : Numbered 0 ({} : PersistentMetadata S C) where
  inverse := inverse_empty
  nextFileId_eq := rfl
  ids f hf := (Finmap.notMem_empty hf).elim
  sizes f info hl := by simp at hl

theorem lastFileId_eq (h : Numbered n p) : p.lastFileId = n := by
  unfold lastFileId
  split_ifs with hnext
  · have hn : n = 0 := h.nextFileId_eq.symm.trans hnext
    refine le_antisymm (Finset.sup_le fun f hf => (h.ids f (Finmap.mem_keys.mp hf)).2) ?_
    exact hn.le.trans (Nat.zero_le _)
  · exact h.nextFileId_eq

theorem newFileId_eq (h : Numbered n p) (hn : n < 2147483647) : p.newFileId = n + 1 := by
  unfold newFileId
  rw [h.lastFileId_eq, toUInt32_eq] <;> omega

theorem newFileId_notMem (h : Numbered n p) (hn : n < 2147483647) :
    p.newFileId ∉ p.metadata := by
  intro hmem
  have hle := (h.ids _ hmem).2
  rw [h.newFileId_eq hn] at hle
  omega

theorem without (h : Numbered n p) : Numbered n (p.without f) := by
  have hlookup : ∀ f' info, (p.without f).metadata.lookup f' = some info →
      p.metadata.lookup f' = some info := by
    intro f' info hl
    have hne : f' ≠ f := by
      rintro rfl
      simp at hl
    exact lookup_without_of_ne hne ▸ hl
  refine ⟨h.inverse.without, ?_, fun f' hf' => ?_, fun f' info hl => h.sizes f' info (hlookup f' info hl)⟩
  · rw [← h.nextFileId_eq]
    unfold PersistentMetadata.without
    cases p.metadata.lookup f <;> rfl
  · obtain ⟨info, hinfo⟩ := Finmap.mem_iff.mp hf'
    exact h.ids f' (Finmap.mem_of_lookup_eq_some (hlookup f' info hinfo))

theorem revised (h : Numbered n p) {info info' : PersistentMetadataInfo S C}
    (hl : p.metadata.lookup f = some info) (hid : info'.fileId = info.fileId)
    (hname : info'.pathname = info.pathname) (hsize : info'.size < 4294967296) :
    Numbered n { p with metadata := p.metadata.insert f info' } where
  inverse := h.inverse.revised hl hid hname
  nextFileId_eq := h.nextFileId_eq
  ids f' hf' := by
    rcases Finmap.mem_insert.mp hf' with rfl | hf'
    · exact h.ids f' (Finmap.mem_of_lookup_eq_some hl)
    · exact h.ids f' hf'
  sizes f' old hold := by
    rcases eq_or_ne f' f with rfl | hne
    · obtain rfl : info' = old := by simpa using hold
      exact hsize
    · exact h.sizes f' old (by simpa [Finmap.lookup_insert_of_ne _ hne] using hold)

theorem added (h : Numbered n p) (hn : n < 2147483647) {path : String}
    (hpath : path ∉ p.pathnameToFileId) (stripeSize : S) (chunkSize : C) (replicaSize : ℕ)
    (time : Timeval) : Numbered (n + 1) (p.added path stripeSize chunkSize replicaSize time) where
  inverse := h.inverse.added hpath (h.newFileId_notMem hn) stripeSize chunkSize replicaSize time
  nextFileId_eq := h.newFileId_eq hn
  ids f hf := by
    rcases Finmap.mem_insert.mp hf with rfl | hf
    · exact ⟨by rw [h.newFileId_eq hn]; omega, (h.newFileId_eq hn).le⟩
    · exact ⟨(h.ids f hf).1, (h.ids f hf).2.trans (Nat.le_succ n)⟩
  sizes f info hl := by
    unfold PersistentMetadata.added at hl
    rcases eq_or_ne f p.newFileId with rfl | hne
    · obtain rfl : _ = info := by simpa using hl
      simp
    · exact h.sizes f info (by simpa [Finmap.lookup_insert_of_ne _ hne] using hl)

end Numbered

/-- What a call does to tables in which `n` files have been created. -/
inductive Call.Outcome (n : ℕ) (p : PersistentMetadata S C) (call : Call S C) :
    ℤ → PersistentMetadata S C → Prop
  | refused {res : ℤ} (failed : call.Refused res) (none : call.created res = none) :
    Outcome n p call res p
  | kept {res : ℤ} {q : PersistentMetadata S C} (done : ¬ call.Refused res)
    (none : call.created res = none) (numbered : Numbered n q) : Outcome n p call res q
  | created {res : ℤ} {q : PersistentMetadata S C} (done : ¬ call.Refused res)
    (some : call.created res = some ((n + 1 : ℕ) : ℤ)) (numbered : Numbered (n + 1) q) :
    Outcome n p call res q

section Runs

variable {p q : PersistentMetadata S C} {n : ℕ} {calls : List (Call S C × ℤ)}

/-- No size makes `update_file_size` return `FILE_NOT_FOUND`. -/
theorem toInt32_newSize_ne (size : ℕ) (delta : ℤ) : toInt32 (newSize size delta) ≠ fileNotFound := by
  unfold newSize toInt32 toUInt32 fileNotFound
  split_ifs <;> omega

/-- **One call.** -/
theorem wp_perform (h : Numbered n p) (hn : n < 2147483647) (call : Call S C) :
    wp call.perform (call.Outcome n p) (fun _ => False) p := by
  cases call with
  | addFile path stripeSize chunkSize replicaSize time =>
    refine wp_addFile path _ _ _ _ (fun e he => ?_) fun hpath _ => ?_
    · have herror : e = fileExists ∨ e = filenameInvalid := he.imp And.left And.left
      exact .refused herror (if_pos herror)
    · have hid : toInt32 p.newFileId = (n + 1 : ℕ) := by
        rw [h.newFileId_eq hn]
        unfold toInt32
        omega
      have hdone : ¬ (((n + 1 : ℕ) : ℤ) = fileExists ∨ ((n + 1 : ℕ) : ℤ) = filenameInvalid) := by
        unfold fileExists filenameInvalid
        omega
      have hcreated : (Call.addFile path stripeSize chunkSize replicaSize time).created
          ((n + 1 : ℕ) : ℤ) = some ((n + 1 : ℕ) : ℤ) := by
        rw [Call.created, if_neg hdone]
      rw [hid]
      exact .created hdone hcreated (h.added hn hpath _ _ _ _)
  | deleteFileContents f =>
    simp only [Call.perform, deleteFileContents, wp_bind, wp_get]
    cases hl : p.metadata.lookup f with
    | some info =>
      simp only [wp_bind, wp_modify, wp_pure]
      have hwithout := h.without (f := f)
      unfold PersistentMetadata.without at hwithout
      rw [hl] at hwithout
      exact .kept (by simp [Call.Refused, pMetaSuccess, fileNotFound]) rfl hwithout
    | none =>
      simp only [wp_pure]
      exact .refused rfl rfl
  | updateFileSize f delta =>
    simp only [Call.perform, updateFileSize, wp_bind, wp_get]
    cases hl : p.metadata.lookup f with
    | some info =>
      simp only [wp_bind, wp_modify, wp_pure]
      refine .kept (toInt32_newSize_ne _ _) rfl (h.revised hl rfl rfl ?_)
      dsimp only
      exact newSize_lt _ _
    | none =>
      simp only [wp_pure]
      exact .refused rfl rfl
  | setAccessTime inst time =>
    simp only [Call.perform, setAccessTime, wp_bind, wp_get]
    cases hl : p.metadata.lookup inst.fileId with
    | some info =>
      simp only [wp_bind, wp_modify, wp_pure]
      exact .kept (by simp [Call.Refused, pMetaSuccess, fileNotFound]) rfl
        (h.revised hl rfl rfl (h.sizes inst.fileId info hl))
    | none =>
      simp only [wp_pure]
      exact .refused rfl rfl

/-- **A run of calls** numbers the new files one after the other. -/
theorem Numbered.run (hrun : Steps Performs p calls q) (h : Numbered n p)
    (hroom : n + (createdIds calls).length < 2147483647) :
    createdIds calls = (List.range' (n + 1) (createdIds calls).length).map Nat.cast ∧
      Numbered (n + (createdIds calls).length) q := by
  induction hrun generalizing n with
  | refl p => exact ⟨rfl, h⟩
  | @cons p p₁ q call calls head _ ih =>
    obtain ⟨call, res⟩ := call
    cases (wp_perform h (by omega) call).of_ok head with
    | refused failed none =>
      have hids : createdIds ((call, res) :: calls) = createdIds calls :=
        List.filterMap_cons_none none
      rw [hids] at hroom ⊢
      exact ih h hroom
    | kept done none numbered =>
      have hids : createdIds ((call, res) :: calls) = createdIds calls :=
        List.filterMap_cons_none none
      rw [hids] at hroom ⊢
      exact ih numbered hroom
    | created done some numbered =>
      have hids : createdIds ((call, res) :: calls) = ((n + 1 : ℕ) : ℤ) :: createdIds calls :=
        List.filterMap_cons_some some
      rw [hids, List.length_cons] at hroom ⊢
      obtain ⟨htail, hq⟩ := ih numbered (by omega)
      refine ⟨?_, by rwa [Nat.add_right_comm, Nat.add_assoc] at hq⟩
      rw [List.range'_succ, List.map_cons, ← htail]

/-- **The two tables are inverse to each other**: on any run of calls from empty tables that creates
fewer than `2^31 - 1` files, names and files belong together, the ids are positive and no two
files share one, every further call returns and changes nothing if it fails, and the names are
listed in order. -/
theorem tables_inverse (hrun : Steps Performs {} calls p)
    (hroom : (createdIds calls).length < 2147483647) :
    (∀ path f, p.pathnameToFileId.lookup path = some f ↔
      ∃ info, p.metadata.lookup f = some info ∧ info.pathname = path ∧ info.fileId = f) ∧
    (∀ f ∈ createdIds calls, 0 < f) ∧ (createdIds calls).Nodup ∧
    (∀ call : Call S C, ∃ res q, Performs p (call, res) q ∧ (call.Refused res → q = p)) ∧
    ∀ size : ℤ, ∃ names : List String, names.SortedLT ∧
      (∀ path, path ∈ names ↔ path ∈ p.pathnameToFileId) ∧ names.length = p.getNumFiles ∧
      getFilenames size p =
        .ok (((min size.toNat p.getNumFiles : ℕ), names.take (min size.toNat p.getNumFiles)), p) := by
  obtain ⟨hids, hp⟩ := Numbered.empty.run hrun (by omega)
  refine ⟨fun path f => ?_, fun f hf => ?_, ?_, fun call => ?_, hp.inverse.getFilenames_eq⟩
  · rw [hp.inverse.lookup_iff]
    constructor
    · rintro ⟨info, hinfo, hname⟩
      exact ⟨info, hinfo, hname, hp.inverse.fileId_eq f info hinfo⟩
    · rintro ⟨info, hinfo, hname, -⟩
      exact ⟨info, hinfo, hname⟩
  · rw [hids] at hf
    obtain ⟨k, hk, rfl⟩ := List.mem_map.mp hf
    have hpos := (List.mem_range'_1.mp hk).1
    exact Int.natCast_pos.mpr (by omega)
  · rw [hids]
    exact List.Nodup.map (fun _ _ => Int.ofNat.inj) List.nodup_range'
  · obtain ⟨res, q, hq, hout⟩ := (wp_perform hp (by omega) call).exists_ok
    refine ⟨res, q, hq, fun hrefused => ?_⟩
    cases hout with
    | refused => rfl
    | kept done => exact absurd hrefused done
    | created done => exact absurd hrefused done

/-- A file is created, not created again, deleted and created anew. -/
def sampleCalls : List (Call ℕ ℕ × ℤ) :=
  [(.addFile "file 1" 1024 512 512 {}, 1), (.addFile "file 1" 1024 512 512 {}, fileExists),
    (.deleteFileContents 1, 0), (.addFile "file 1" 1024 512 512 {}, 2)]

theorem tables_inverse_sampleCalls : ∃ p : PersistentMetadata ℕ ℕ,
    Steps Performs {} sampleCalls p ∧ (createdIds sampleCalls).Nodup := by
  obtain ⟨p, hp⟩ := exists_steps_of_replays (by decide +kernel : replays sampleCalls {} = true)
  exact ⟨p, hp, (tables_inverse hp (by decide)).2.2.1⟩

end Runs

end PersistentMetadata

end DecaFS
