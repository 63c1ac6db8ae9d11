import DecaFS.ForMathlib.Transition
import DecaFS.Metadata.Tables

/-!
# The arithmetic of file sizes

A size is unsigned, but `update_file_size` decides in `int` whether a new size is cut off at 0. The size
that a call stores is the sum of the size and the delta, cut off at 0, exactly if that sum is at
most `INT_MAX` (`newSize_eq_iff`); from there on a file that grows is cut to 0.
-/

namespace DecaFS

open Code

namespace PersistentMetadata

variable {S C : Type}

/-- The stored size of a file. -/
def storedSize (p : PersistentMetadata S C) (fileId : ℕ) : Option ℕ :=
  (p.metadata.lookup fileId).map PersistentMetadataInfo.size

/-- The size that calls with the `deltas` store one after the other. -/
def sizeAfter (size : ℕ) (deltas : List ℤ) : ℕ := deltas.foldl newSize size

theorem sizeAfter_singleton (size : ℕ) (delta : ℤ) :
    sizeAfter size [delta] = newSize size delta := by
  rw [sizeAfter, List.foldl_cons, List.foldl_nil]

theorem sizeAfter_append (size : ℕ) (deltas : List ℤ) (delta : ℤ) :
    sizeAfter size (deltas ++ [delta]) = newSize (sizeAfter size deltas) delta := by
  rw [sizeAfter, List.foldl_append, List.foldl_cons, List.foldl_nil, sizeAfter]

/-- The total that the `deltas` make of `size`. -/
def runningTotal (size : ℕ) (deltas : List ℤ) : ℤ := deltas.foldl (· + ·) (size : ℤ)

theorem runningTotal_append (size : ℕ) (deltas : List ℤ) (delta : ℤ) :
    runningTotal size (deltas ++ [delta]) = runningTotal size deltas + delta := by
  rw [runningTotal, List.foldl_append, List.foldl_cons, List.foldl_nil, runningTotal]

theorem runningTotal_replicate (size n : ℕ) (delta : ℤ) :
    runningTotal size (List.replicate n delta) = size + n * delta := by
  induction n with
  | zero => simp [runningTotal]
  | succ n ih =>
    rw [List.replicate_succ', runningTotal_append, ih, Int.natCast_succ, Int.add_mul, Int.one_mul,
      Int.add_assoc]

/-- A call of `update_file_size` returns and leaves the tables `q`. -/
def Updates (fileId : ℕ) (p : PersistentMetadata S C) (sizeDelta : ℤ)
    (q : PersistentMetadata S C) : Prop :=
  ∃ res, updateFileSize fileId sizeDelta p = .ok (res, q)

variable {p q : PersistentMetadata S C} {f size : ℕ} {delta : ℤ} {deltas : List ℤ}

theorem updates_iff : Updates f p delta q ↔ q = p.resized f delta := by
  have hwp : wp (updateFileSize f delta) (fun _ q' => q' = p.resized f delta) (fun _ => False) p :=
    wp_updateFileSize fun _ => rfl
  obtain ⟨res, q', hq', rfl⟩ := hwp.exists_ok
  constructor
  · rintro ⟨res', hq⟩
    exact (Prod.mk.inj (Except.ok.inj (hq'.symm.trans hq))).2.symm
  · rintro rfl
    exact ⟨res, hq'⟩

theorem storedSize_resized (h : p.storedSize f = some size) :
    (p.resized f delta).storedSize f = some (newSize size delta) := by
  obtain ⟨info, hinfo, rfl⟩ := Option.map_eq_some_iff.mp h
  simp only [storedSize, resized, hinfo, Finmap.lookup_insert, Option.map_some]

/-- The sizes that calls store follow from each other. -/
theorem storedSize_of_steps (h : p.storedSize f = some size) (hrun : Steps (Updates f) p deltas q) :
    q.storedSize f = some (sizeAfter size deltas) := by
  induction hrun generalizing size with
  | refl p => exact h
  | cons head _ ih =>
    obtain rfl := updates_iff.mp head
    rw [sizeAfter, List.foldl_cons]
    exact ih (storedSize_resized h)

/-- The calls return, and leave the file with `total` bytes. -/
def SizedAfter (f : ℕ) (p : PersistentMetadata S C) (deltas : List ℤ) (total : ℤ) : Prop :=
  ∃ q : PersistentMetadata S C, Steps (Updates f) p deltas q ∧
    ∃ size : ℕ, q.storedSize f = some size ∧ (size : ℤ) = total

theorem exists_steps_updates (f : ℕ) (deltas : List ℤ) :
    ∀ p : PersistentMetadata S C, ∃ q, Steps (Updates f) p deltas q := by
  induction deltas with
  | nil => exact fun p => ⟨p, .refl p⟩
  | cons delta deltas ih =>
    intro p
    obtain ⟨q, hq⟩ := ih (p.resized f delta)
    exact ⟨q, .cons (updates_iff.mpr rfl) hq⟩

theorem sizedAfter_iff {total : ℤ} (h : p.storedSize f = some size) :
    SizedAfter f p deltas total ↔ (sizeAfter size deltas : ℤ) = total := by
  constructor
  · rintro ⟨q, hq, size', hsize', rfl⟩
    rw [Option.some.inj ((storedSize_of_steps h hq).symm.trans hsize')]
  · intro htotal
    obtain ⟨q, hq⟩ := exists_steps_updates f deltas p
    exact ⟨q, hq, _, storedSize_of_steps h hq, htotal⟩

/-- **One call.** -/
theorem newSize_eq_iff (hsize : size < 4294967296) (hmin : -2147483648 ≤ delta)
    (hmax : delta ≤ intMax) (hfits : size + delta < 4294967296) :
    (newSize size delta : ℤ) = max 0 (size + delta) ↔ size + delta ≤ intMax := by
  unfold newSize toInt32 toUInt32 intMax at *
  split_ifs <;> omega

/-- A file that grows has the size it should have as long as an `int` holds it. -/
theorem newSize_eq_add_iff {total : ℤ} (htotal : size = total) (hsize : total < 4294967296)
    (hdelta : 0 ≤ delta ∧ delta ≤ 65536) (hfits : total + delta < 4294967296) :
    (newSize size delta : ℤ) = total + delta ↔ total + delta ≤ intMax := by
  subst htotal
  have hiff := @newSize_eq_iff size delta (by omega) (by omega) (by unfold intMax; omega) hfits
  rwa [max_eq_right (by omega)] at hiff

/-- **A file that grows.** The size after each call is the total so far exactly if an `int` holds the
total after each call. -/
theorem sizeAfter_eq_iff : ∀ deltas : List ℤ, (∀ d ∈ deltas, 0 ≤ d ∧ d ≤ 65536) →
    runningTotal size deltas < 4294967296 →
    ((∀ ds, ds <+: deltas → (sizeAfter size ds : ℤ) = runningTotal size ds) ↔
      ∀ ds, ds <+: deltas → ds ≠ [] → runningTotal size ds ≤ intMax) := by
  intro deltas
  induction deltas using List.reverseRecOn with
  | nil => simp [sizeAfter, runningTotal]
  | append_singleton deltas delta ih =>
    intro hdeltas hfits
    have hdelta := hdeltas delta (by simp)
    rw [runningTotal_append] at hfits
    have ih := ih (fun d hd => hdeltas d (List.mem_append_left _ hd)) (by omega)
    -- the last call, once the ones before it have kept the total
    have hlast : (sizeAfter size deltas : ℤ) = runningTotal size deltas →
        ((sizeAfter size (deltas ++ [delta]) : ℤ) = runningTotal size (deltas ++ [delta]) ↔
          runningTotal size (deltas ++ [delta]) ≤ intMax) := by
      intro hsize
      rw [sizeAfter_append, runningTotal_append]
      have htotal : runningTotal size deltas < 4294967296 := by omega
      exact newSize_eq_add_iff hsize htotal hdelta hfits
    simp only [List.prefix_concat_iff, or_imp, forall_and, forall_eq]
    constructor
    · rintro ⟨htotal, hbefore⟩
      exact ⟨fun _ => (hlast (hbefore _ (List.prefix_refl _))).mp htotal, ih.mp hbefore⟩
    · rintro ⟨htotal, hbefore⟩
      have hsizes := ih.mpr hbefore
      exact ⟨(hlast (hsizes _ (List.prefix_refl _))).mpr (htotal (by simp)), hsizes⟩

/-- **Sizes are exact up to `INT_MAX`.** One call stores the size plus the delta, cut off at 0,
exactly if that sum is at most `INT_MAX`. Calls that make a file grow store the running total each
time exactly if each of the totals is. -/
theorem sizedAfter_totals_iff (h : p.storedSize f = some size) (hsize : size < 4294967296) :
    (∀ delta : ℤ, -2147483648 ≤ delta → delta ≤ intMax → size + delta < 4294967296 →
      (SizedAfter f p [delta] (max 0 (size + delta)) ↔ size + delta ≤ intMax)) ∧
    ∀ deltas : List ℤ, (∀ d ∈ deltas, 0 ≤ d ∧ d ≤ 65536) → runningTotal size deltas < 4294967296 →
      ((∀ ds, ds <+: deltas → SizedAfter f p ds (runningTotal size ds)) ↔
        ∀ ds, ds <+: deltas → ds ≠ [] → runningTotal size ds ≤ intMax) := by
  constructor
  · intro delta hmin hmax hfits
    rw [sizedAfter_iff h, sizeAfter_singleton]
    exact newSize_eq_iff hsize hmin hmax hfits
  · intro deltas hdeltas hfits
    simp only [sizedAfter_iff h]
    exact sizeAfter_eq_iff deltas hdeltas hfits

section NewFile

/-- The tables with one new file. -/
def newFileTables : PersistentMetadata ℕ ℕ where
  pathnameToFileId := Finmap.singleton "file 1" 1
  metadata := Finmap.singleton 1 ⟨1, 0, 1024, 512, 512, "file 1", {}⟩
  nextFileId := 1

theorem storedSize_newFileTables : newFileTables.storedSize 1 = some 0 := by
  rw [storedSize, newFileTables, Finmap.lookup_singleton_eq]
  rfl

theorem newFileTables_sizedAfter : SizedAfter 1 newFileTables [100] 100 :=
  ((sizedAfter_totals_iff storedSize_newFileTables (by decide)).1 100 (by decide) (by decide)
    (by decide)).mpr (by decide)

/-- The last of 32768 full stripes takes the file to `2^31` bytes, and cuts it to 0. -/
theorem newFileTables_not_sizedAfter :
    ¬ ∀ ds, ds <+: List.replicate 32768 (65536 : ℤ) →
      SizedAfter 1 newFileTables ds (runningTotal 0 ds) := by
  intro hsizes
  have htotal : runningTotal 0 (List.replicate 32768 65536) = 2147483648 := by
    rw [runningTotal_replicate]
    decide
  have htotals := (@sizeAfter_eq_iff 0 (List.replicate 32768 65536) ?_ ?_).mp ?_
  · have hlast := htotals _ (List.prefix_refl _) (by rw [Ne, List.replicate_eq_nil_iff]; decide)
    rw [htotal] at hlast
    exact absurd hlast (by decide)
  · intro d hd
    rw [List.eq_of_mem_replicate hd]
    decide
  · rw [htotal]
    decide
  · exact fun ds hds => (sizedAfter_iff storedSize_newFileTables).mp (hsizes ds hds)

end NewFile

end PersistentMetadata

end DecaFS
