import DecaFS.BaristaCore.Runs

/-!
# Readers and writers among the requests in flight

A request is admitted under a lock on its file and stays active until its last response. The lock
lasts as long as that where the moves are `Careful`: no client closes a descriptor of a file it has
a request active on, no shared lock is given out next to an exclusive one, and no file gets the id
of one that requests are still about. Then the active requests on a file are all reads or all of
one client (`Isolated`).
-/

namespace DecaFS

open Code Barista FileLocks

/-- The request changes its file. -/
def Operation.Changes : Operation → Prop
  | .read _ => False
  | .write _ | .delete _ => True

/-- The lock a request is safe under. -/
def Guards (lock : FileLock) (client : Client) : Operation → Prop
  | .read _ => Holds lock client
  | .write _ | .delete _ => HoldsExclusive lock client

theorem Guards.holds {lock : FileLock} {client : Client} {op : Operation}
    (h : Guards lock client op) : Holds lock client := by
  cases op with
  | read id => exact h
  | write q => exact .inl h
  | delete id => exact .inl h

theorem Guards.exclusive {lock : FileLock} {client : Client} {op : Operation}
    (h : Guards lock client op) (hop : op.Changes) : HoldsExclusive lock client := by
  cases op with
  | read id => exact hop.elim
  | write q => exact h
  | delete id => exact h

namespace Custody

/-- Where a request that changes a file is active, all requests on it are of one client. -/
def Isolated (s : Custody) : Prop :=
  ∀ op op' c c' f, s.active op = some (c, f) → s.active op' = some (c', f) → op.Changes → c = c'

/-- The moves that take no lock from under an active request. -/
def Careful (s : Custody) : Move → Prop
  | .accept _ client _ => client.ctc ≠ none
  | .acceptDelete _ client f => client.ctc ≠ none ∧ f ∈ s.files
  | .create f => ∀ op client, s.active op ≠ some (client, f)
  | .openFd exclusive _ client f => client.ctc ≠ none ∧
      (exclusive = true ∨ (s.lock f).exProc = none ∨ ¬ Grants (s.lock f) client exclusive)
  | .closeFd fd => ∀ client f, s.opened fd = some (client, f) → 0 < toInt32 f →
      ∀ op, s.active op ≠ some (client, (toInt32 f).toNat)
  | .finish _ | .finishDelete _ => True

/-- The active requests hold the locks of their files, as long as the files are there. -/
structure Locked (s : Custody) : Prop where
  sorted : ∀ f, Sorted (s.lock f)
  guarded : ∀ op c f, s.active op = some (c, f) → f ∈ s.files → Guards (s.lock f) c op
  isolated : ∀ op op' c c' f, f ∉ s.files → s.active op = some (c, f) →
    s.active op' = some (c', f) → op.Changes → c = c'
  connected : ∀ op c f, s.active op = some (c, f) → c.ctc ≠ none
  opened : ∀ fd c f, s.opened fd = some (c, f) → c.ctc ≠ none

variable {s s' : Custody} {m : Move} {ms : List Move}

theorem Locked.isolated_all (h : Locked s) : Isolated s := by
  intro op op' c c' f hop hop' hchanges
  by_cases hf : f ∈ s.files
  · have hex := (h.guarded op c f hop hf).exclusive hchanges
    exact hex.eq_of_holds (h.sorted f) (h.connected op c f hop) (h.guarded op' c' f hop' hf).holds
  · exact h.isolated op op' c c' f hf hop hop' hchanges

/-- What a lock does when another client is given it or gives it up, for all requests at once. -/
theorem Locked.of_lock (h : Locked s) {f : ℕ} {l : FileLock} {opened : ℕ → Option (Client × ℕ)}
    (hsorted : Sorted l)
    (hguards : ∀ op c, s.active op = some (c, f) → f ∈ s.files → Guards (s.lock f) c op → Guards l c op)
    (hopened : ∀ fd c f, opened fd = some (c, f) → c.ctc ≠ none) :
    Locked { s with lock := Function.update s.lock f l, opened := opened } where
  sorted f' := by
    rcases eq_or_ne f' f with rfl | hne
    · simpa using hsorted
    · simpa [hne] using h.sorted f'
  guarded op c f' hop hf' := by
    have hguard := h.guarded op c f' hop hf'
    rcases eq_or_ne f' f with rfl | hne
    · simpa using hguards op c hop hf' hguard
    · simpa [hne] using hguard
  isolated := h.isolated
  connected := h.connected
  opened := hopened

/-- Some requests are not active any more. -/
theorem Locked.of_active (h : Locked s) (active : Operation → Option (Client × ℕ))
    (hactive : ∀ op c f, active op = some (c, f) → s.active op = some (c, f)) :
    Locked { s with active := active } where
  sorted := h.sorted
  guarded op c f hop := h.guarded op c f (hactive op c f hop)
  isolated op op' c c' f hf hop hop' :=
    h.isolated op op' c c' f hf (hactive op c f hop) (hactive op' c' f hop')
  connected op c f hop := h.connected op c f (hactive op c f hop)
  opened := h.opened

theorem of_update_none {active : Operation → Option (Client × ℕ)} {op op' : Operation} {c : Client}
    {f : ℕ} (h : Function.update active op none op' = some (c, f)) :
    op' ≠ op ∧ active op' = some (c, f) := by
  rcases eq_or_ne op' op with rfl | hne
  · simp at h
  · exact ⟨hne, by simpa [hne] using h⟩

theorem of_update_some {active : Operation → Option (Client × ℕ)} {op op' : Operation}
    {c client : Client} {f f' : ℕ}
    (h : Function.update active op (some (client, f)) op' = some (c, f')) :
    (op' = op ∧ c = client ∧ f' = f) ∨ active op' = some (c, f') := by
  rcases eq_or_ne op' op with rfl | hne
  · simp only [Function.update_self, Option.some.injEq, Prod.mk.injEq] at h
    exact .inl ⟨rfl, h.1.symm, h.2.symm⟩
  · exact .inr (by simpa [hne] using h)

/-- A lock that is given out to one process alone guards nobody else's request. -/
theorem Locked.not_active_of_free (h : Locked s) {f : ℕ} (hfree : (s.lock f).ownerUid = 0)
    (hf : f ∈ s.files) (op : Operation) (c : Client) : s.active op ≠ some (c, f) :=
  fun hop => (h.guarded op c f hop hf).holds.ownerUid_ne hfree

/-- **The step lemma.** -/
theorem Locked.step (h : Locked s) (hs : Guarded Careful Step s m s') : Locked s' := by
  obtain ⟨hcareful, hstep⟩ := hs
  cases hstep with
  | finish => exact h.of_active _ fun op c f hop => (of_update_none hop).2
  | @finishDelete id client f hactive =>
    -- the requests that are left on the file are all of the client that deleted it
    have hleft := h.of_active (Function.update s.active (.delete id) none)
      fun op c f hop => (of_update_none hop).2
    refine ⟨fun f' => ?_, fun op c f' hop hf' => ?_, fun op op' c c' f' hf' hop hop' hch => ?_,
      hleft.connected, h.opened⟩
    · rcases eq_or_ne f' f with rfl | hne
      · simpa using sorted_released (h.sorted f')
      · simpa [hne] using h.sorted f'
    · have hne : f' ≠ f := hf'.2
      simpa [hne] using hleft.guarded op c f' hop hf'.1
    · exact h.isolated_all op op' c c' f' (of_update_none hop).2 (of_update_none hop').2 hch
  | @accept op client f hfile hlock _ =>
    have hguards : Guards (s.lock f) client op := by
      cases op with
      | read id => exact hlock
      | write q => exact hlock
      | delete id => exact hlock.elim
    refine ⟨h.sorted, fun op' c f' hop' hf' => ?_, fun op₁ op₂ c c' f' hf' h₁ h₂ hch => ?_,
      fun op' c f' hop' => ?_, h.opened⟩
    · rcases of_update_some hop' with ⟨rfl, rfl, rfl⟩ | hold
      · exact hguards
      · exact h.guarded op' c f' hold hf'
    · have hne : f' ≠ f := fun heq => hf' (heq ▸ hfile)
      have hold₁ := (of_update_some h₁).resolve_left fun hh => hne hh.2.2
      have hold₂ := (of_update_some h₂).resolve_left fun hh => hne hh.2.2
      exact h.isolated op₁ op₂ c c' f' hf' hold₁ hold₂ hch
    · rcases of_update_some hop' with ⟨rfl, rfl, rfl⟩ | hold
      · exact hcareful
      · exact h.connected op' c f' hold
  | @acceptDelete id client f huser hfree _ =>
    obtain ⟨hctc, hfile⟩ := hcareful
    have hnone := h.not_active_of_free hfree hfile
    refine ⟨fun f' => ?_, fun op' c f' hop' hf' => ?_, fun op₁ op₂ c c' f' hf' h₁ h₂ hch => ?_,
      fun op' c f' hop' => ?_, h.opened⟩
    · rcases eq_or_ne f' f with rfl | hne
      · simpa using sorted_withExclusive huser (h.sorted f') hfree
      · simpa [hne] using h.sorted f'
    · rcases of_update_some hop' with ⟨rfl, rfl, rfl⟩ | hold
      · simpa [Guards] using holdsExclusive_withExclusive huser
      · have hne : f' ≠ f := by
          rintro rfl
          exact hnone op' c hold
        simpa [hne] using h.guarded op' c f' hold hf'
    · have hne : f' ≠ f := fun heq => hf' (heq ▸ hfile)
      have hold₁ := (of_update_some h₁).resolve_left fun hh => hne hh.2.2
      have hold₂ := (of_update_some h₂).resolve_left fun hh => hne hh.2.2
      exact h.isolated op₁ op₂ c c' f' hf' hold₁ hold₂ hch
    · rcases of_update_some hop' with ⟨rfl, rfl, rfl⟩ | hold
      · exact hctc
      · exact h.connected op' c f' hold
  | @create f =>
    refine ⟨h.sorted, fun op c f' hop hf' => ?_, fun op op' c c' f' hf' => ?_, h.connected, h.opened⟩
    · rcases hf' with rfl | hf'
      · exact absurd hop (hcareful op c)
      · exact h.guarded op c f' hop hf'
    · exact h.isolated op op' c c' f' fun hmem => hf' (Set.mem_insert_of_mem _ hmem)
  | @openFd exclusive fd client f hgrants =>
    obtain ⟨hctc, hor⟩ := hcareful
    have hopened : ∀ fd' c f', Function.update s.opened fd (some (client, f)) fd' = some (c, f') →
        c.ctc ≠ none := by
      intro fd' c f' hfd'
      rcases eq_or_ne fd' fd with rfl | hne
      · simp only [Function.update_self, Option.some.injEq, Prod.mk.injEq] at hfd'
        exact hfd'.1 ▸ hctc
      · exact h.opened fd' c f' (by simpa [hne] using hfd')
    cases exclusive with
    | true =>
      have hfree : (s.lock f).ownerUid = 0 := by simpa [Grants] using hgrants.2
      refine h.of_lock ?_ (fun op c hop hf _ => absurd hop (h.not_active_of_free hfree hf op c)) hopened
      simpa [granted] using sorted_withExclusive hgrants.1 (h.sorted f) hfree
    | false =>
      have hex : (s.lock f).exProc = none := by
        rcases hor with hex | hex | hnot
        · simp at hex
        · exact hex
        · exact absurd hgrants hnot
      have hgrant : (s.lock f).ownerUid = 0 ∨ ownedBy (s.lock f) client := by
        simpa [Grants] using hgrants.2.1
      refine h.of_lock ?_ (fun op c hop _ hguards => ?_) hopened
      · simpa [granted] using sorted_withShared hgrants.1 hex
      · have hc := h.connected op c f hop
        have hholds := hguards.holds.withShared hc hex hgrant
        cases op with
        | read id => simpa [Guards, granted] using hholds
        | write q => exact absurd (hguards.2.2.symm.trans hex) hc
        | delete id => exact absurd (hguards.2.2.symm.trans hex) hc
  | @closeFd fd client f howner huser =>
    have hopened : ∀ fd' c f', Function.update s.opened fd none fd' = some (c, f') → c.ctc ≠ none := by
      intro fd' c f' hfd'
      rcases eq_or_ne fd' fd with rfl | hne
      · simp at hfd'
      · exact h.opened fd' c f' (by simpa [hne] using hfd')
    by_cases hpos : 0 < toInt32 f
    · have hidle := hcareful client f howner hpos
      have hclosed := h.of_lock (f := (toInt32 f).toNat)
        (l := (s.lock (toInt32 f).toNat).released client) (sorted_released (h.sorted _))
        (fun op c hop _ hguards => ?_) hopened
      · simpa only [hpos, if_true] using hclosed
      · -- the others keep their locks
        have hne : c ≠ client := by
          rintro rfl
          exact hidle op hop
        have hc := h.connected op c _ hop
        have hholds := hguards.holds.released hne hc (h.opened fd client f howner) (h.sorted _)
        cases op with
        | read id => exact hholds
        | write q => exact hguards.released hne hc (h.opened fd client f howner) (h.sorted _)
        | delete id => exact hguards.released hne hc (h.opened fd client f howner) (h.sorted _)
    · simp only [hpos, if_false]
      exact ⟨h.sorted, h.guarded, h.isolated, h.connected, hopened⟩

end Custody

/-! ### Runs of careful messages -/

/-- A message that takes no lock from under an active request: its client is connected, it does not
close a descriptor of a file its client has a request active on, it is not given a shared lock next
to an exclusive one, and the file it creates gets an id that no active request is about. -/
def Barista.Input.Careful (w : World) : Input → Prop
  | .openFile path flags client => client.ctc ≠ none ∧ match w.persistent.fileOf path with
    | some info => flags &&& oRdwr ≠ 0 ∨ (w.fileLocks.record info.fileId).exProc = none ∨
        ¬ Custody.Grants (w.fileLocks.record info.fileId) client false
    | none => ∀ op c, w.requests.holder op ≠ some (c, w.persistent.newFileId)
  | .readFile _ _ client _ | .writeFile _ _ _ client _ | .deleteFile _ client _ => client.ctc ≠ none
  | .closeFile fd client => ∀ file, w.volatile.fileCursors.lookup (fdKey fd) = some file →
      file.clientId = client → 0 < toInt32 file.fileId →
      ∀ op, w.requests.holder op ≠ some (client, (toInt32 file.fileId).toNat)
  | .fileSeek .. | .response _ | .nodeUp _ | .nodeDown _ => True

section

variable {R : Runtime} {w₀ w w' : World} {is : List Input} {i : Input}

open Custody

theorem Custody.careful_of_ends {m : Move} (h : m.Ends) (s : Custody) : Careful s m := by
  cases m <;> trivial

/-- A careful message begins with careful moves. -/
theorem Begins.careful {s' : Custody} {ms ends : List Move} (h : Begins w i ms)
    (hi : i.Careful w) (hc : w.persistent.Consistent) (hends : ∀ m ∈ ends, m.Ends)
    (hsteps : Steps Custody.Step (custody w) (ms ++ ends) s') :
    Steps (Guarded Careful Custody.Step) (custody w) (ms ++ ends) s' := by
  have hrest : ∀ {s}, Steps Custody.Step s ends s' → Steps (Guarded Careful Custody.Step) s ends s' := by
    intro s hs
    have hguarded := hs.guarded_of_forall hends
    exact hguarded.mono fun s m t hst => ⟨careful_of_ends hst.1 s, hst.2⟩
  -- a single move and the ends after it
  have hone : ∀ {m s}, Careful s m → Steps Custody.Step s (m :: ends) s' →
      Steps (Guarded Careful Custody.Step) s (m :: ends) s' := by
    intro m s hm hs
    obtain ⟨t, hhead, htail⟩ := Steps.cons_iff.mp hs
    exact .cons ⟨hm, hhead⟩ (hrest htail)
  cases h with
  | nothing => exact hrest hsteps
  | @openFile path flags client ms opens =>
    obtain ⟨hctc, hfile⟩ := hi
    cases opens with
    | refused => exact hrest hsteps
    | existing hinfo =>
      rw [hinfo] at hfile
      refine hone ⟨hctc, ?_⟩ hsteps
      by_cases hrw : flags &&& oRdwr ≠ 0
      · exact .inl (decide_eq_true hrw)
      · rw [decide_eq_false hrw]
        exact .inr (hfile.resolve_left hrw)
    | created hnone hwrites =>
      rw [hnone] at hfile
      exact hone hfile hsteps
    | createdOpened hnone hwrites =>
      rw [hnone] at hfile
      obtain ⟨t, hhead, htail⟩ := Steps.cons_iff.mp hsteps
      exact .cons ⟨hfile, hhead⟩ (hone ⟨hctc, .inl rfl⟩ htail)
    | bogus hnone hwrites herror => exact hone ⟨hctc, .inl rfl⟩ hsteps
  | readFile => exact hone hi hsteps
  | writeFile => exact hone hi hsteps
  | @closeFile fd client inst hfile howner =>
    refine hone (fun c f hopened hpos => ?_) hsteps
    obtain ⟨rfl, rfl⟩ : inst.clientId = c ∧ inst.fileId = f := by
      simpa [custody, hfile] using hopened
    rw [howner]
    exact hi inst hfile howner hpos
  | deleteFile hinfo =>
    refine hone ⟨hi, ?_⟩ hsteps
    obtain ⟨f, -, hf⟩ := Option.bind_eq_some_iff.mp hinfo
    have hid := hc.fileId_eq f _ hf
    exact hid ▸ Finmap.mem_of_lookup_eq_some hf

theorem Started.locked (h : Started w) : (custody w).Locked where
  sorted f := by
    simpa [custody, h.fileLocks, record] using sorted_empty
  guarded op c f hop := by
    cases op <;> simp [custody, Requests.holder, h.requests] at hop
  isolated op _ c _ f _ hop := by
    cases op <;> simp [custody, Requests.holder, h.requests] at hop
  connected op c f hop := by
    cases op <;> simp [custody, Requests.holder, h.requests] at hop
  opened fd c f hfd := by
    simp [custody, h.fileCursors] at hfd

/-- A run of careful messages is a run of careful moves. -/
theorem Running.exists_careful (hw : Running w) (hids : w.volatile.requestId + idsOf is < 4294967296)
    (hc : w.persistent.Consistent) (hfiles : w.persistent.lastFileId + filesOf is < 4294967296)
    (hrun : Steps (Guarded (fun w i => i.Careful w) (step R)) w is w') :
    ∃ ms, Steps (Guarded Careful Custody.Step) (custody w) ms (custody w') := by
  induction hrun with
  | refl w => exact ⟨[], .refl _⟩
  | @cons w w₁ w' i is head _ ih =>
    rw [idsOf_cons, ← Nat.add_assoc] at hids
    rw [filesOf_cons, ← Nat.add_assoc] at hfiles
    have hhandled := hw.handled (by omega) head.2
    obtain ⟨hc₁, hle₁, -⟩ := hhandled.deletes hc (by omega)
    obtain ⟨ms, hms⟩ := ih (hhandled.running hw) (by rwa [hhandled.requestId]) hc₁ (by omega)
    obtain ⟨begins, ends, hbegins, hsteps, hends⟩ := hhandled.moves
    exact ⟨_, (hbegins.careful head.1 hc hends hsteps).trans hms⟩

end

end DecaFS
