import DecaFS.BaristaCore.Runs

/-!
# Locks and descriptors

A file is locked when a descriptor is opened and released when one is closed. The two stay paired
where the moves are `Tidy`: no shared lock is given out next to an exclusive one, a new descriptor
is not in use, and a file that is closed has an id that `close_file` takes for one.
-/

namespace DecaFS

open Code Barista FileLocks

namespace Custody

/-- The moves that keep locks and descriptors paired. -/
def Tidy (s : Custody) : Move → Prop
  | .openFd exclusive fd client f => client.ctc ≠ none ∧ (Grants (s.lock f) client exclusive →
      s.opened fd = none ∧ (exclusive = true ∨ (s.lock f).exProc = none))
  | .closeFd fd => ∀ client f, s.opened fd = some (client, f) → 0 < f ∧ (f : ℤ) ≤ intMax
  | .acceptDelete _ client _ => client.ctc ≠ none
  | .finish op => ∀ id, op ≠ .delete id
  | .finishDelete _ | .accept .. | .create _ => True

/-- Who has a descriptor of a file holds its lock, and who holds the lock of a file has exactly one
descriptor of it or is deleting it. -/
structure Paired (s : Custody) : Prop where
  sorted : ∀ f, Sorted (s.lock f)
  held : ∀ fd c f, s.opened fd = some (c, f) → Holds (s.lock f) c
  connected : ∀ fd c f, s.opened fd = some (c, f) → c.ctc ≠ none
  unique : ∀ fd fd' p, s.opened fd = some p → s.opened fd' = some p → fd = fd'
  exists_fd : ∀ c f, c.ctc ≠ none → Holds (s.lock f) c →
    (∃ fd, s.opened fd = some (c, f)) ∨ ∃ id, s.active (.delete id) = some (c, f)
  deleting : ∀ id c f, s.active (.delete id) = some (c, f) →
    HoldsExclusive (s.lock f) c ∧ c.ctc ≠ none ∧ ∀ fd c', s.opened fd ≠ some (c', f)
  delete_unique : ∀ id id' c c' f, s.active (.delete id) = some (c, f) →
    s.active (.delete id') = some (c', f) → id = id'

/-- The part of it that says whose the open files are: who has a descriptor of a file holds its lock
and has no other one, and nobody has one of a file that is being deleted. -/
structure Owned (s : Custody) : Prop where
  sorted : ∀ f, Sorted (s.lock f)
  held : ∀ fd c f, s.opened fd = some (c, f) → Holds (s.lock f) c
  connected : ∀ fd c f, s.opened fd = some (c, f) → c.ctc ≠ none
  unique : ∀ fd fd' p, s.opened fd = some p → s.opened fd' = some p → fd = fd'
  deleting : ∀ id c f, s.active (.delete id) = some (c, f) →
    HoldsExclusive (s.lock f) c ∧ c.ctc ≠ none ∧ ∀ fd c', s.opened fd ≠ some (c', f)
  delete_unique : ∀ id id' c c' f, s.active (.delete id) = some (c, f) →
    s.active (.delete id') = some (c', f) → id = id'

/-- The moves that it survives. -/
def Sharing (s : Custody) : Move → Prop
  | .openFd exclusive _ client f => client.ctc ≠ none ∧ (Grants (s.lock f) client exclusive →
      exclusive = true ∨ (s.lock f).exProc = none)
  | .closeFd fd => ∀ client f, s.opened fd = some (client, f) → f < 4294967296
  | .acceptDelete _ client _ => client.ctc ≠ none
  | .finish op => ∀ id, op ≠ .delete id
  | .finishDelete _ | .accept .. | .create _ => True

variable {s s' : Custody} {m : Move}

/-- What a lock that is given out does to its holders. -/
theorem holds_granted {lock : FileLock} {client : Client} {exclusive : Bool}
    (hgrants : Grants lock client exclusive) (hs : Sorted lock) (hctc : client.ctc ≠ none)
    (hor : exclusive = true ∨ lock.exProc = none) :
    Sorted (granted lock client exclusive) ∧ Holds (granted lock client exclusive) client ∧
      ¬ Holds lock client ∧
      (∀ c, c.ctc ≠ none → Holds lock c → Holds (granted lock client exclusive) c) ∧
      ∀ c, c.ctc ≠ none → Holds (granted lock client exclusive) c → c = client ∨ Holds lock c := by
  cases exclusive with
  | true =>
    have hfree : lock.ownerUid = 0 := by simpa [Grants] using hgrants.2
    refine ⟨?_, ?_, fun hc => hc.ownerUid_ne hfree, fun c _ hc => absurd hfree hc.ownerUid_ne,
      fun c _ hc => .inl ?_⟩
    · simpa [granted] using sorted_withExclusive hgrants.1 hs hfree
    · have hclient : Holds (lock.withExclusive client) client :=
        .inl (holdsExclusive_withExclusive hgrants.1)
      simpa [granted] using hclient
    · exact Holds.of_withExclusive (by simpa [granted] using hc) hs hfree
  | false =>
    have hex : lock.exProc = none := by simpa using hor
    obtain ⟨hgrant, hnew⟩ : (lock.ownerUid = 0 ∨ ownedBy lock client) ∧
        client.ctc ∉ lock.shProcs := by simpa [Grants] using hgrants.2
    refine ⟨?_, ?_, fun hholds => ?_, fun c hc hholds => ?_, fun c hc hholds => ?_⟩
    · simpa [granted] using sorted_withShared hgrants.1 hex
    · have hclient : Holds (lock.withShared client) client :=
        .inr (holdsShared_withShared hgrants.1)
      simpa [granted] using hclient
    · exact hholds.elim (fun hh => hctc (hh.2.2.symm.trans hex)) fun hh => hnew hh.2.2
    · simpa [granted] using hholds.withShared hc hex hgrant
    · exact Holds.of_withShared (by simpa [granted] using hholds) hc hs hex hgrant

/-! ### Whose the open files are -/

/-- Nobody has a descriptor of a file whose lock is free, and nobody deletes it. -/
theorem Owned.of_free (h : Owned s) {f : ℕ} (hfree : (s.lock f).ownerUid = 0) :
    (∀ fd c, s.opened fd ≠ some (c, f)) ∧ ∀ id c, s.active (.delete id) ≠ some (c, f) :=
  ⟨fun fd c hfd => (h.held fd c f hfd).ownerUid_ne hfree,
    fun id c hid => (h.deleting id c f hid).1.1 hfree⟩

/-- The lock of one file changes hands, and the descriptors with it. -/
theorem Owned.of_lock (h : Owned s) {f : ℕ} {l : FileLock} {opened : ℕ → Option (Client × ℕ)}
    (hsorted : Sorted l)
    (hother : ∀ fd c f', f' ≠ f → opened fd = some (c, f') → s.opened fd = some (c, f'))
    (hheld : ∀ fd c, opened fd = some (c, f) → Holds l c ∧ c.ctc ≠ none)
    (hunique : ∀ fd fd' c, opened fd = some (c, f) → opened fd' = some (c, f) → fd = fd')
    (hidle : ∀ id c, s.active (.delete id) ≠ some (c, f)) :
    Owned { s with lock := Function.update s.lock f l, opened := opened } where
  sorted f' := by
    rcases eq_or_ne f' f with rfl | hne
    · simpa using hsorted
    · simpa [hne] using h.sorted f'
  held fd c f' hfd := by
    rcases eq_or_ne f' f with rfl | hne
    · simpa using (hheld fd c hfd).1
    · simpa [hne] using h.held fd c f' (hother fd c f' hne hfd)
  connected fd c f' hfd := by
    rcases eq_or_ne f' f with rfl | hne
    · exact (hheld fd c hfd).2
    · exact h.connected fd c f' (hother fd c f' hne hfd)
  unique fd fd' p hfd hfd' := by
    obtain ⟨c, f'⟩ := p
    rcases eq_or_ne f' f with rfl | hne
    · exact hunique fd fd' c hfd hfd'
    · exact h.unique fd fd' _ (hother fd c f' hne hfd) (hother fd' c f' hne hfd')
  deleting id c f' hid := by
    have hne : f' ≠ f := by
      rintro rfl
      exact hidle id c hid
    obtain ⟨hex, hc, hnone⟩ := h.deleting id c f' hid
    exact ⟨by simpa [hne] using hex, hc, fun fd c' hfd => hnone fd c' (hother fd c' f' hne hfd)⟩
  delete_unique := h.delete_unique

/-- Requests that are no deletes come and go, and files do. -/
theorem Owned.of_active (h : Owned s) {active : Operation → Option (Client × ℕ)} {files : Set ℕ}
    (hactive : ∀ id, active (.delete id) = s.active (.delete id)) :
    Owned { s with active := active, files := files } where
  sorted := h.sorted
  held := h.held
  connected := h.connected
  unique := h.unique
  deleting id c f hid := h.deleting id c f (hactive id ▸ hid)
  delete_unique id id' c c' f hid hid' :=
    h.delete_unique id id' c c' f (hactive id ▸ hid) (hactive id' ▸ hid')

theorem update_opened_iff {opened : ℕ → Option (Client × ℕ)} {fd fd' : ℕ} {c client : Client}
    {f f' : ℕ} : Function.update opened fd (some (client, f)) fd' = some (c, f') ↔
      (fd' = fd ∧ c = client ∧ f' = f) ∨ fd' ≠ fd ∧ opened fd' = some (c, f') := by
  rcases eq_or_ne fd' fd with rfl | hne
  · simp [eq_comm]
  · simp [hne]

theorem update_closed_iff {opened : ℕ → Option (Client × ℕ)} {fd fd' : ℕ} {c : Client} {f' : ℕ} :
    Function.update opened fd none fd' = some (c, f') ↔ fd' ≠ fd ∧ opened fd' = some (c, f') := by
  rcases eq_or_ne fd' fd with rfl | hne
  · simp
  · simp [hne]

/-- A client opens a file that nobody else has open, or shares it. -/
theorem Owned.openFd (h : Owned s) {exclusive : Bool} {fd : ℕ} {client : Client} {f : ℕ}
    (hgrants : Grants (s.lock f) client exclusive) (hctc : client.ctc ≠ none)
    (hor : exclusive = true ∨ (s.lock f).exProc = none) :
    Owned { s with
      lock := Function.update s.lock f (granted (s.lock f) client exclusive)
      opened := Function.update s.opened fd (some (client, f)) } := by
  obtain ⟨hsorted, hclient, hnot, hkeep, -⟩ := holds_granted hgrants (h.sorted f) hctc hor
  -- a file that is being deleted has an exclusive holder
  have hidle : ∀ id c, s.active (.delete id) ≠ some (c, f) := by
    rcases hor with rfl | hex
    · have hfree : (s.lock f).ownerUid = 0 := by simpa [Grants] using hgrants.2
      exact (h.of_free hfree).2
    · intro id c hid
      obtain ⟨hheld, hc, -⟩ := h.deleting id c f hid
      exact hc (hheld.2.2.symm.trans hex)
  refine h.of_lock hsorted (fun fd' c f' hne hfd' => ?_) (fun fd' c hfd' => ?_)
    (fun fd₁ fd₂ c h₁ h₂ => ?_) hidle
  · exact ((update_opened_iff.mp hfd').resolve_left fun hh => hne hh.2.2).2
  · rcases update_opened_iff.mp hfd' with ⟨-, rfl, -⟩ | ⟨-, hold⟩
    · exact ⟨hclient, hctc⟩
    · exact ⟨hkeep c (h.connected fd' c f hold) (h.held fd' c f hold), h.connected fd' c f hold⟩
  · rcases update_opened_iff.mp h₁ with ⟨rfl, rfl, -⟩ | ⟨-, hold₁⟩ <;>
      rcases update_opened_iff.mp h₂ with ⟨rfl, hc, -⟩ | ⟨-, hold₂⟩
    · rfl
    · exact absurd (h.held fd₂ c f hold₂) hnot
    · exact absurd (hc ▸ h.held fd₁ c f hold₁) hnot
    · exact h.unique fd₁ fd₂ _ hold₁ hold₂

/-- A client closes its only descriptor of a file and gives up its lock. -/
theorem Owned.closeFd (h : Owned s) {fd : ℕ} {client : Client} {f : ℕ}
    (howner : s.opened fd = some (client, f)) :
    Owned { s with
      lock := Function.update s.lock f ((s.lock f).released client)
      opened := Function.update s.opened fd none } := by
  have hctc := h.connected fd client f howner
  refine h.of_lock (sorted_released (h.sorted f))
    (fun fd' c f' _ hfd' => (update_closed_iff.mp hfd').2) (fun fd' c hfd' => ?_)
    (fun fd₁ fd₂ c h₁ h₂ => ?_) fun id c hid => (h.deleting id c f hid).2.2 fd client howner
  · obtain ⟨hne, hold⟩ := update_closed_iff.mp hfd'
    have hc := h.connected fd' c f hold
    have hne' : c ≠ client := by
      rintro rfl
      exact hne (h.unique fd' fd _ hold howner)
    exact ⟨(h.held fd' c f hold).released hne' hc hctc (h.sorted f), hc⟩
  · exact h.unique fd₁ fd₂ _ (update_closed_iff.mp h₁).2 (update_closed_iff.mp h₂).2

/-- A descriptor goes without its lock. -/
theorem Owned.forgetFd (h : Owned s) (fd : ℕ) :
    Owned { s with opened := Function.update s.opened fd none } where
  sorted := h.sorted
  held fd' c f hfd' := h.held fd' c f (update_closed_iff.mp hfd').2
  connected fd' c f hfd' := h.connected fd' c f (update_closed_iff.mp hfd').2
  unique fd₁ fd₂ p h₁ h₂ := by
    obtain ⟨c, f⟩ := p
    exact h.unique fd₁ fd₂ _ (update_closed_iff.mp h₁).2 (update_closed_iff.mp h₂).2
  deleting id c f hid := by
    obtain ⟨hex, hc, hnone⟩ := h.deleting id c f hid
    exact ⟨hex, hc, fun fd' c' hfd' => hnone fd' c' (update_closed_iff.mp hfd').2⟩
  delete_unique := h.delete_unique

theorem update_delete_iff {active : Operation → Option (Client × ℕ)} {id id' : ℕ} {client c : Client}
    {f f' : ℕ} (hnew : active (.delete id) = none) :
    Function.update active (.delete id) (some (client, f)) (.delete id') = some (c, f') ↔
      (id' = id ∧ c = client ∧ f' = f) ∨ active (.delete id') = some (c, f') := by
  rcases eq_or_ne id' id with rfl | hne
  · simp [hnew, eq_comm]
  · simp [hne]

theorem update_deleted_iff {active : Operation → Option (Client × ℕ)} {id id' : ℕ} {c : Client}
    {f' : ℕ} : Function.update active (.delete id) none (.delete id') = some (c, f') ↔
      id' ≠ id ∧ active (.delete id') = some (c, f') := by
  rcases eq_or_ne id' id with rfl | hne
  · simp
  · simp [hne]

/-- A client locks a file to delete it. -/
theorem Owned.acceptDelete (h : Owned s) {id : ℕ} {client : Client} {f : ℕ}
    (huser : client.userId ≠ 0) (hctc : client.ctc ≠ none) (hfree : (s.lock f).ownerUid = 0)
    (hnew : s.active (.delete id) = none) :
    Owned { s with
      active := Function.update s.active (.delete id) (some (client, f))
      lock := Function.update s.lock f ((s.lock f).withExclusive client) } := by
  obtain ⟨hnofd, hnodelete⟩ := h.of_free hfree
  refine ⟨fun f' => ?_, fun fd c f' hfd => ?_, h.connected, h.unique, fun id' c f' hid => ?_,
    fun id₁ id₂ c c' f' h₁ h₂ => ?_⟩
  · rcases eq_or_ne f' f with rfl | hne
    · simpa using sorted_withExclusive huser (h.sorted f') hfree
    · simpa [hne] using h.sorted f'
  · have hne : f' ≠ f := by
      rintro rfl
      exact hnofd fd c hfd
    simpa [hne] using h.held fd c f' hfd
  · rcases (update_delete_iff hnew).mp hid with ⟨-, rfl, rfl⟩ | hold
    · exact ⟨by simpa using holdsExclusive_withExclusive huser, hctc, hnofd⟩
    · have hne : f' ≠ f := by
        rintro rfl
        exact hnodelete id' c hold
      simpa [hne] using h.deleting id' c f' hold
  · rcases (update_delete_iff hnew).mp h₁ with ⟨rfl, -, rfl⟩ | hold₁ <;>
      rcases (update_delete_iff hnew).mp h₂ with ⟨rfl, -, hf⟩ | hold₂
    · rfl
    · exact absurd hold₂ (hnodelete id₂ c')
    · exact absurd (hf ▸ hold₁) (hnodelete id₁ c)
    · exact h.delete_unique id₁ id₂ c c' f' hold₁ hold₂

/-- A delete is done. -/
theorem Owned.finishDelete (h : Owned s) {id : ℕ} {client : Client} {f : ℕ} {files : Set ℕ}
    (hid : s.active (.delete id) = some (client, f)) :
    Owned { s with
      active := Function.update s.active (.delete id) none
      lock := Function.update s.lock f ((s.lock f).released client)
      files := files } := by
  obtain ⟨-, -, hnofd⟩ := h.deleting id client f hid
  refine ⟨fun f' => ?_, fun fd c f' hfd => ?_, h.connected, h.unique, fun id' c f' hid' => ?_,
    fun id₁ id₂ c c' f' h₁ h₂ => ?_⟩
  · rcases eq_or_ne f' f with rfl | hne
    · simpa using sorted_released (h.sorted f')
    · simpa [hne] using h.sorted f'
  · have hne : f' ≠ f := by
      rintro rfl
      exact hnofd fd c hfd
    simpa [hne] using h.held fd c f' hfd
  · obtain ⟨hne, hold⟩ := update_deleted_iff.mp hid'
    -- another delete is about another file
    have hfile : f' ≠ f := by
      rintro rfl
      exact hne (h.delete_unique id' id c client f' hold hid)
    simpa [hfile] using h.deleting id' c f' hold
  · exact h.delete_unique id₁ id₂ c c' f' (update_deleted_iff.mp h₁).2 (update_deleted_iff.mp h₂).2

/-- **The step lemma** for the owners. -/
theorem Owned.step (h : Owned s) (hs : Guarded Sharing Step s m s') : Owned s' := by
  obtain ⟨hsharing, hstep⟩ := hs
  cases hstep with
  | @finish op =>
    cases op with
    | read id => exact h.of_active fun id' => by simp
    | write q => exact h.of_active fun id' => by simp
    | delete id => exact absurd rfl (hsharing id)
  | finishDelete hid => exact h.finishDelete hid
  | @accept op client f _ hlock _ =>
    cases op with
    | read id => exact h.of_active fun id' => by simp
    | write q => exact h.of_active fun id' => by simp
    | delete id => exact hlock.elim
  | acceptDelete huser hfree hnew => exact h.acceptDelete huser hsharing hfree hnew
  | create => exact h.of_active fun _ => rfl
  | openFd hgrants => exact h.openFd hgrants hsharing.1 (hsharing.2 hgrants)
  | @closeFd fd client f howner _ =>
    have hmax := hsharing client f howner
    by_cases hpos : 0 < toInt32 f
    · have hnat : (toInt32 f).toNat = f := by
        unfold toInt32 at hpos ⊢
        omega
      simp only [hpos, if_true, hnat]
      exact h.closeFd howner
    · simp only [hpos, if_false]
      exact h.forgetFd fd

/-! ### A descriptor for every lock -/

/-- Who holds a lock after a release held it before, and is not the one who released it. -/
theorem holds_of_update_released {lock : ℕ → FileLock} {f f' : ℕ} {c client : Client}
    (h : Holds (Function.update lock f ((lock f).released client) f') c) :
    Holds (lock f') c ∧ (f' = f → c ≠ client) := by
  rcases eq_or_ne f' f with rfl | hne
  · have hleft : Holds ((lock f').released client) c := by simpa using h
    exact ⟨hleft.of_released.1, fun _ => hleft.of_released.2⟩
  · exact ⟨by simpa [hne] using h, fun heq => absurd heq hne⟩

theorem Paired.owned (h : Paired s) : Owned s :=
  ⟨h.sorted, h.held, h.connected, h.unique, h.deleting, h.delete_unique⟩

theorem Owned.paired (h : Owned s) (hexists : ∀ c f, c.ctc ≠ none → Holds (s.lock f) c →
    (∃ fd, s.opened fd = some (c, f)) ∨ ∃ id, s.active (.delete id) = some (c, f)) : Paired s :=
  ⟨h.sorted, h.held, h.connected, h.unique, hexists, h.deleting, h.delete_unique⟩

theorem Tidy.sharing (h : Tidy s m) : Sharing s m := by
  cases m with
  | openFd => exact ⟨h.1, fun hgrants => (h.2 hgrants).2⟩
  | closeFd fd =>
    intro client f hfd
    have hmax := (h client f hfd).2
    unfold intMax at hmax
    omega
  | finish | finishDelete | accept | acceptDelete | create => exact h

/-- **The step lemma.** -/
theorem Paired.step (h : Paired s) (hs : Guarded Tidy Step s m s') : Paired s' := by
  have howned := h.owned.step (m := m) ⟨hs.1.sharing, hs.2⟩
  refine howned.paired fun c f' hc hholds => ?_
  obtain ⟨htidy, hstep⟩ := hs
  cases hstep with
  | @finish op =>
    refine (h.exists_fd c f' hc hholds).imp_right fun ⟨id, hid⟩ => ⟨id, ?_⟩
    exact (Function.update_of_ne (htidy id).symm _ _).trans hid
  | @finishDelete id client f hid =>
    obtain ⟨hheld, hctc, -⟩ := h.deleting id client f hid
    have hold := holds_of_update_released hholds
    refine (h.exists_fd c f' hc hold.1).imp_right fun ⟨id', hid'⟩ => ?_
    refine ⟨id', update_deleted_iff.mpr ⟨?_, hid'⟩⟩
    rintro rfl
    obtain ⟨rfl, rfl⟩ := Prod.mk.inj (Option.some.inj (hid.symm.trans hid'))
    exact hold.2 rfl rfl
  | @accept op client f _ hlock _ =>
    cases op with
    | read id => exact (h.exists_fd c f' hc hholds).imp_right fun ⟨id', hid'⟩ => ⟨id', by simpa⟩
    | write q => exact (h.exists_fd c f' hc hholds).imp_right fun ⟨id', hid'⟩ => ⟨id', by simpa⟩
    | delete id => exact hlock.elim
  | @acceptDelete id client f huser hfree hnew =>
    rcases eq_or_ne f' f with rfl | hne
    · have hsame : c = client := Holds.of_withExclusive (by simpa using hholds) (h.sorted f') hfree
      exact .inr ⟨id, (update_delete_iff hnew).mpr (.inl ⟨rfl, hsame, rfl⟩)⟩
    · refine (h.exists_fd c f' hc (by simpa [hne] using hholds)).imp_right fun ⟨id', hid'⟩ => ?_
      exact ⟨id', (update_delete_iff hnew).mpr (.inr hid')⟩
  | create => exact h.exists_fd c f' hc hholds
  | @openFd exclusive fd client f hgrants =>
    obtain ⟨hctc, hor⟩ := htidy
    obtain ⟨hfd, hor⟩ := hor hgrants
    have hkept : ∀ fd', s.opened fd' = some (c, f') →
        Function.update s.opened fd (some (client, f)) fd' = some (c, f') := by
      intro fd' hfd'
      refine update_opened_iff.mpr (.inr ⟨?_, hfd'⟩)
      rintro rfl
      exact Option.some_ne_none _ (hfd'.symm.trans hfd)
    rcases eq_or_ne f' f with rfl | hne
    · obtain ⟨-, -, -, -, hfrom⟩ := holds_granted hgrants (h.sorted f') hctc hor
      rcases hfrom c hc (by simpa using hholds) with rfl | hold
      · exact .inl ⟨fd, update_opened_iff.mpr (.inl ⟨rfl, rfl, rfl⟩)⟩
      · exact (h.exists_fd c f' hc hold).imp_left fun ⟨fd', hfd'⟩ => ⟨fd', hkept fd' hfd'⟩
    · refine (h.exists_fd c f' hc (by simpa [hne] using hholds)).imp_left fun ⟨fd', hfd'⟩ => ?_
      exact ⟨fd', hkept fd' hfd'⟩
  | @closeFd fd client f howner _ =>
    obtain ⟨hpos, hmax⟩ := htidy client f howner
    have hcast : toInt32 f = f := toInt32_eq (by omega) hmax
    have hpos' : 0 < toInt32 f := by omega
    have hnat : (toInt32 f).toNat = f := by omega
    simp only [hpos', if_true, hnat] at hholds
    have hold := holds_of_update_released hholds
    refine (h.exists_fd c f' hc hold.1).imp_left fun ⟨fd', hfd'⟩ => ?_
    refine ⟨fd', update_closed_iff.mpr ⟨?_, hfd'⟩⟩
    rintro rfl
    obtain ⟨rfl, rfl⟩ := Prod.mk.inj (Option.some.inj (howner.symm.trans hfd'))
    exact hold.2 rfl rfl

end Custody

/-! ### Runs of tidy messages -/

/-- The ids under which `open_file` may open the name: that of the file, or else the one that
`add_file` returns. -/
def Barista.OpensAs (w : World) (path : String) (flags f : ℕ) : Prop :=
  match w.persistent.fileOf path with
  | some info => f = info.fileId
  | none => flags &&& oRdwr ≠ 0 ∧ (f = w.persistent.newFileId ∨ f = (toUInt32 fileExists).toNat ∨
      f = (toUInt32 filenameInvalid).toNat)

/-- A message that keeps locks and descriptors paired: its client is connected; a descriptor that
it opens is not in use and its lock is not a shared one next to an exclusive one; and the file of a
descriptor that its owner closes has an id that is positive as an `int`. -/
def Barista.Input.Tidy (w : World) : Input → Prop
  | .openFile path flags client => client.ctc ≠ none ∧ ∀ f, OpensAs w path flags f →
      Custody.Grants (w.fileLocks.record f) client (flags &&& oRdwr ≠ 0) →
        w.volatile.nextFd ∉ w.volatile.fileCursors ∧
          (flags &&& oRdwr ≠ 0 ∨ (w.fileLocks.record f).exProc = none)
  | .closeFile fd client => ∀ file, w.volatile.fileCursors.lookup (fdKey fd) = some file →
      file.clientId = client → 0 < file.fileId ∧ (file.fileId : ℤ) ≤ intMax
  | .deleteFile _ client _ => client.ctc ≠ none
  | .readFile .. | .writeFile .. | .fileSeek .. | .response _ | .nodeUp _ | .nodeDown _ => True

/-- The client has the descriptor open on the file. -/
def Barista.HasFd (w : World) (client : Client) (f fd : ℕ) : Prop :=
  ∃ file, w.volatile.fileCursors.lookup fd = some file ∧ file.clientId = client ∧ file.fileId = f

section

variable {R : Runtime} {w₀ w w' : World} {is : List Input} {i : Input}

open Custody

theorem Custody.tidy_of_ends {m : Move} (h : m.Ends) (s : Custody) : Tidy s m := by
  cases m <;> first | exact h | trivial

theorem opened_custody {fd f : ℕ} {c : Client} :
    (custody w).opened fd = some (c, f) ↔ HasFd w c f fd := by
  simp [custody, HasFd]

/-- A tidy message opens its descriptor tidily. -/
theorem Barista.Input.Tidy.openFd {path : String} {flags f : ℕ} {client : Client} {s : Custody}
    (h : Input.Tidy w (.openFile path flags client)) (hlock : s.lock = w.fileLocks.record)
    (hopened : s.opened = (custody w).opened) (hf : OpensAs w path flags f) :
    Custody.Tidy s (.openFd (flags &&& oRdwr ≠ 0) w.volatile.nextFd client f) := by
  refine ⟨h.1, fun hgrants => ?_⟩
  rw [hlock] at hgrants ⊢
  obtain ⟨hfd, hor⟩ := h.2 f hf hgrants
  rw [hopened]
  exact ⟨by simp [custody, Finmap.lookup_eq_none.mpr hfd], by simpa using hor⟩

/-- A tidy message begins with tidy moves. -/
theorem Begins.tidy {s' : Custody} {ms ends : List Move} (h : Begins w i ms) (hi : i.Tidy w)
    (hends : ∀ m ∈ ends, m.Ends) (hsteps : Steps Custody.Step (custody w) (ms ++ ends) s') :
    Steps (Guarded Tidy Custody.Step) (custody w) (ms ++ ends) s' := by
  have hrest : ∀ {s}, Steps Custody.Step s ends s' → Steps (Guarded Tidy Custody.Step) s ends s' := by
    intro s hs
    have hguarded := hs.guarded_of_forall hends
    exact hguarded.mono fun s m t hst => ⟨tidy_of_ends hst.1 s, hst.2⟩
  -- a single move and the ends after it
  have hone : ∀ {m s}, Tidy s m → Steps Custody.Step s (m :: ends) s' →
      Steps (Guarded Tidy Custody.Step) s (m :: ends) s' := by
    intro m s hm hs
    obtain ⟨t, hhead, htail⟩ := Steps.cons_iff.mp hs
    exact .cons ⟨hm, hhead⟩ (hrest htail)
  cases h with
  | nothing => exact hrest hsteps
  | @openFile path flags client ms opens =>
    cases opens with
    | refused => exact hrest hsteps
    | existing hinfo => exact hone (hi.openFd rfl rfl (by simp [OpensAs, hinfo])) hsteps
    | created hnone hwrites => exact hone trivial hsteps
    | createdOpened hnone hwrites =>
      obtain ⟨t, hhead, htail⟩ := Steps.cons_iff.mp hsteps
      refine .cons ⟨trivial, hhead⟩ (hone ?_ htail)
      obtain rfl : t = _ := by cases hhead; rfl
      have hopen := hi.openFd (s := { custody w with
        files := insert w.persistent.newFileId (custody w).files }) rfl rfl
        (f := w.persistent.newFileId) (by simp [OpensAs, hnone, hwrites])
      rwa [decide_eq_true hwrites] at hopen
    | @bogus e hnone hwrites herror =>
      have hopen := hi.openFd (s := custody w) rfl rfl (f := (toUInt32 e).toNat) (by
        simp only [OpensAs, hnone]
        rcases herror with rfl | rfl
        · exact ⟨hwrites, .inr (.inl rfl)⟩
        · exact ⟨hwrites, .inr (.inr rfl)⟩)
      rw [decide_eq_true hwrites] at hopen
      exact hone hopen hsteps
  | readFile => exact hone trivial hsteps
  | writeFile => exact hone trivial hsteps
  | @closeFile fd client inst hfile howner =>
    refine hone (fun c f hopened => ?_) hsteps
    obtain ⟨rfl, rfl⟩ : inst.clientId = c ∧ inst.fileId = f := by
      simpa [custody, hfile] using hopened
    exact hi inst hfile howner
  | deleteFile hinfo => exact hone hi hsteps

theorem Started.paired (h : Started w) : (custody w).Paired where
  sorted f := by
    simpa [custody, h.fileLocks, record] using sorted_empty
  held fd c f hfd := by
    simp [custody, h.fileCursors] at hfd
  connected fd c f hfd := by
    simp [custody, h.fileCursors] at hfd
  unique fd fd' p hfd := by
    simp [custody, h.fileCursors] at hfd
  exists_fd c f _ hholds := by
    refine absurd hholds ?_
    simpa [custody, h.fileLocks, record] using not_holds_empty
  deleting id c f hid := by
    simp [custody, Requests.holder, h.requests] at hid
  delete_unique id _ c _ f hid := by
    simp [custody, Requests.holder, h.requests] at hid

/-- Locks and descriptors are paired in every state of a run of tidy messages. -/
theorem Running.paired (hrun : Steps (Guarded (fun w i => i.Tidy w) (step R)) w is w')
    (hw : Running w) (hids : w.volatile.requestId + idsOf is < 4294967296)
    (h : (custody w).Paired) : (custody w').Paired := by
  induction hrun with
  | refl w => exact h
  | @cons w w₁ w' i is head _ ih =>
    rw [idsOf_cons, ← Nat.add_assoc] at hids
    have hhandled := hw.handled (by omega) head.2
    obtain ⟨begins, ends, hbegins, hsteps, hends⟩ := hhandled.moves
    have htidy := hbegins.tidy head.1 hends hsteps
    exact ih (hhandled.running hw) (by rwa [hhandled.requestId])
      (htidy.invariant (fun _ _ _ hs hstep => hs.step hstep) h)

/-- Closing is no more than the move of its owner. -/
theorem closeFile_moves {fd : ℤ} {client : Client} (hstep : step R w (.closeFile fd client) w') :
    w'.requests = w.requests ∧ ∃ ms, Begins w (.closeFile fd client) ms ∧
      Steps Custody.Step (custody w) ms (custody w') := by
  have hwp : wp (handle R (.closeFile fd client)) (fun _ w' => w'.requests = w.requests ∧
      ∃ ms, Begins w (.closeFile fd client) ms ∧
        Steps Custody.Step (custody w) ms (custody w')) (fun _ => True) w := by
    refine wp_closeFile (fun _ _ _ _ => trivial) (fun result _ _ _ => ?_)
      fun file hfile howner huser locks hlocks => ?_
    · exact ⟨rfl, [], .nothing, .refl _⟩
    · subst howner
      exact ⟨rfl, _, .closeFile hfile rfl, .single (custody_withoutFd hfile huser hlocks)⟩
  exact hwp.of_ok hstep

/-- Where locks and descriptors are paired before and after, and the deletes are the same, a client
loses its lock exactly when it loses its descriptors. -/
theorem Custody.Paired.loses_iff {s s' : Custody} (h : Paired s) (h' : Paired s')
    (hactive : s'.active = s.active) {c : Client} {f : ℕ} (hc : c.ctc ≠ none) :
    (Holds (s.lock f) c ∧ ¬ Holds (s'.lock f) c) ↔
      (∃ fd, s.opened fd = some (c, f)) ∧ ¬ ∃ fd, s'.opened fd = some (c, f) := by
  constructor
  · rintro ⟨hholds, hnot⟩
    refine ⟨(h.exists_fd c f hc hholds).resolve_right ?_, ?_⟩
    · rintro ⟨id, hid⟩
      exact hnot (.inl (h'.deleting id c f (hactive ▸ hid)).1)
    · rintro ⟨fd, hfd⟩
      exact hnot (h'.held fd c f hfd)
  · rintro ⟨⟨fd, hfd⟩, hnone⟩
    refine ⟨h.held fd c f hfd, fun hholds => ?_⟩
    rcases h'.exists_fd c f hc hholds with hfd' | ⟨id, hid⟩
    · exact hnone hfd'
    · exact (h.deleting id c f (hactive ▸ hid)).2.2 fd c hfd

/-- **Locks and descriptors stay paired.** In a run of tidy messages the owner of every open
descriptor holds a lock on its file; a client that holds the lock of a file it is not deleting has
exactly one descriptor of it; and closing takes the lock from a client exactly when it takes its
last descriptor of the file. -/
theorem locks_paired (hstart : Started w₀)
    (hrun : Steps (Guarded (fun w i => i.Tidy w) (step R)) w₀ is w) (hids : idsOf is < 4294967296) :
    (∀ fd c f, HasFd w c f fd → Holds (w.fileLocks.record f) c) ∧
    (∀ c f, c.ctc ≠ none → Holds (w.fileLocks.record f) c →
      (∀ id, w.requests.holder (.delete id) ≠ some (c, f)) → ∃! fd, HasFd w c f fd) ∧
    ∀ fd client w', Input.Tidy w (.closeFile fd client) → step R w (.closeFile fd client) w' →
      ∀ c f, c.ctc ≠ none →
        ((Holds (w.fileLocks.record f) c ∧ ¬ Holds (w'.fileLocks.record f) c) ↔
          (∃ fd, HasFd w c f fd) ∧ ¬ ∃ fd, HasFd w' c f fd) := by
  have hpaired := hstart.running.paired hrun (by rw [hstart.requestId]; omega) hstart.paired
  refine ⟨fun fd c f hfd => hpaired.held fd c f (opened_custody.mpr hfd),
    fun c f hc hholds hidle => ?_, fun fd client w' htidy hclose c f hc => ?_⟩
  · obtain ⟨fd, hfd⟩ := (hpaired.exists_fd c f hc hholds).resolve_right fun ⟨id, hid⟩ => hidle id hid
    refine ⟨fd, opened_custody.mp hfd, fun fd' hfd' => ?_⟩
    exact hpaired.unique fd' fd _ (opened_custody.mpr hfd') hfd
  · obtain ⟨hrequests, ms, hbegins, hsteps⟩ := closeFile_moves hclose
    have hmoves := hbegins.tidy htidy (List.forall_mem_nil _) (by simpa using hsteps)
    have hafter := hmoves.invariant (fun _ _ _ hs hstep => hs.step hstep) hpaired
    have hactive : (custody w').active = (custody w).active := by
      simp only [custody, hrequests]
    have hiff := hpaired.loses_iff hafter hactive (f := f) hc
    simp only [opened_custody] at hiff
    exact hiff

theorem locks_paired_sampleOpen : ∃ w,
    Steps (step sampleRuntime) sampleServer [.openFile "a" oRdwr (sampleClient 1)] w ∧
      HasFd w (sampleClient 1) 1 1 ∧ Holds (w.fileLocks.record 1) (sampleClient 1) := by
  obtain ⟨w, hrun, hend⟩ := exists_steps (R := sampleRuntime) (w := sampleServer)
    [.openFile "a" oRdwr (sampleClient 1)]
    (p := fun w => (custody w).opened 1 = some (sampleClient 1, 1)) (by decide +kernel)
  have hfd := opened_custody.mp (of_decide_eq_true hend)
  obtain ⟨w₁, hopen, hnil⟩ := Steps.cons_iff.mp hrun
  obtain rfl : w₁ = w := Steps.nil_iff.mp hnil
  have htidy : Input.Tidy sampleServer (.openFile "a" oRdwr (sampleClient 1)) :=
    ⟨by decide, fun f _ _ => ⟨Finmap.notMem_empty, .inl (by decide)⟩⟩
  exact ⟨w₁, hrun, hfd,
    (locks_paired started_sampleServer (.single ⟨htidy, hopen⟩) (by decide)).1 1 _ _ hfd⟩

/-- A process that has a file open for writing opens it once more for reading, and is given a
shared lock all the same. Once it closes the first descriptor it has the second without a lock. -/
theorem secondOpen_notPaired : ∃ w, Steps (step sampleRuntime) sampleServer
    [.openFile "a" oRdwr (sampleClient 1), .openFile "a" 0 (sampleClient 1),
      .closeFile 1 (sampleClient 1)] w ∧
    HasFd w (sampleClient 1) 1 2 ∧ ¬ Holds (w.fileLocks.record 1) (sampleClient 1) := by
  obtain ⟨w, hrun, hend⟩ := exists_steps (R := sampleRuntime) (w := sampleServer)
    [.openFile "a" oRdwr (sampleClient 1), .openFile "a" 0 (sampleClient 1),
      .closeFile 1 (sampleClient 1)]
    (p := fun w => (custody w).opened 2 = some (sampleClient 1, 1) ∧
      (w.fileLocks.record 1).ownerUid = 0) (by decide +kernel)
  obtain ⟨hfd, hfree⟩ := of_decide_eq_true hend
  exact ⟨w, hrun, opened_custody.mp hfd, fun hholds => hholds.ownerUid_ne hfree⟩

end

end DecaFS
