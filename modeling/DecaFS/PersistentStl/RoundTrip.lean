import DecaFS.PersistentStl.Slots

/-!
# Closing and reopening a persistent container

`open` rebuilds the index from the file: a key comes back with the entry in the lowest slot
that holds it. `erase` takes the key out of the index and leaves its slot alone, so a file
may hold stale entries that no index names. A close and an open give back what the container
held if and only if each stale entry the scan would meet first is equal to what the container
holds for its key (`StaleShadowed`); a run that erases no key it holds never leaves one.
-/

namespace DecaFS

namespace Layout

variable {E K : Type} [DecidableEq K] (L : Layout E K)

/-- Slot `p` is the lowest that holds the key `k`. -/
structure Lowest (slots : List E) (k : K) (p : ℕ) : Prop where
  holds : ∃ e, slots[p]? = some e ∧ L.key e = k ∧ L.isZero e = false
  least : ∀ q < p, ∀ e, slots[q]? = some e → L.isZero e = false → L.key e ≠ k

/-- An entry the index does not name, but the scan of `open` would, is what the container
holds for its key. -/
def StaleShadowed (c : Container E K) : Prop :=
  ∀ k p e, L.Lowest c.slots k p → c.slots[p]? = some e → c.entries.lookup k ≠ some p →
    c.find? k = some e

/-- An `erase` that finds its key. -/
def ErasesKey (c : Container E K) : Call E K → Prop
  | .erase k => k ∈ c.entries
  | _ => False

/-- The index names what the scan of `open` would. -/
structure Mirrored (c : Container E K) : Prop extends L.EntryInv c where
  mirrors : c.isOpen = true → ∀ k p, c.entries.lookup k = some p ↔ L.Lowest c.slots k p
  closed : c.isOpen = false → c.entries = ∅

variable {L} {c c' : Container E K} {slots : List E} {e : E} {k : K} {p q : ℕ} {b : Bool}

omit [DecidableEq K] in
theorem exists_lowest (he : slots[p]? = some e) (hz : L.isZero e = false) (hk : L.key e = k) :
    ∃ q ≤ p, L.Lowest slots k q := by
  induction p using Nat.strong_induction_on generalizing e with
  | _ p ih =>
    by_cases h : ∃ q < p, ∃ e', slots[q]? = some e' ∧ L.isZero e' = false ∧ L.key e' = k
    · obtain ⟨q, hq, e', he', hz', hk'⟩ := h
      obtain ⟨r, hr, hlow⟩ := ih q hq he' hz' hk'
      exact ⟨r, hr.trans hq.le, hlow⟩
    · push Not at h
      exact ⟨p, le_rfl, ⟨e, he, hk, hz⟩, h⟩

omit [DecidableEq K] in
theorem Lowest.unique (hp : L.Lowest slots k p) (hq : L.Lowest slots k q) : p = q := by
  obtain ⟨e, he, hke, hze⟩ := hp.holds
  obtain ⟨e', he', hke', hze'⟩ := hq.holds
  rcases lt_trichotomy p q with hlt | heq | hlt
  · exact absurd hke (hq.least p hlt e he hze)
  · exact heq
  · exact absurd hke' (hp.least q hlt e' he' hze')

/-- What `open` finds. -/
theorem openFile_lookup : (L.openFile c).2.entries.lookup k = some q ↔
    c.entries.lookup k = some q ∨ (c.entries.lookup k = none ∧ L.Lowest c.slots k q) := by
  have hscan := scan_rule (L := L) (c := { c with isOpen := true })
    (I := fun p c' => ∀ k q, c'.entries.lookup k = some q ↔
      c.entries.lookup k = some q ∨
        (c.entries.lookup k = none ∧ q < p ∧ L.Lowest c.slots k q))
    (fun p e c' _ he hI k q => ?_) rfl (by simp)
  · rw [Layout.openFile, hscan.2 k q]
    refine or_congr_right (and_congr_right fun _ => and_iff_right_of_imp fun hlow => ?_)
    obtain ⟨e, he, -⟩ := hlow.holds
    exact (List.getElem?_eq_some_iff.mp he).1
  · -- a key the index lacks at slot `p` is in no slot before it
    have hfirst : c'.entries.lookup k = none ↔
        c.entries.lookup k = none ∧ ∀ q < p, ¬ L.Lowest c.slots k q := by
      constructor
      · intro hnone
        refine ⟨Option.eq_none_iff_forall_ne_some.mpr fun q hq => ?_, fun q hq hlow => ?_⟩
        · simpa [hnone] using (hI k q).mpr (.inl hq)
        · by_cases hc : c.entries.lookup k = none
          · simpa [hnone] using (hI k q).mpr (.inr ⟨hc, hq, hlow⟩)
          · obtain ⟨r, hr⟩ := Option.ne_none_iff_exists'.mp hc
            simpa [hnone] using (hI k r).mpr (.inl hr)
      · rintro ⟨hnone, hlow⟩
        refine Option.eq_none_iff_forall_ne_some.mpr fun q hq => ?_
        rcases (hI k q).mp hq with hq | ⟨-, hqp, hq⟩
        · simp [hnone] at hq
        · exact hlow q hqp hq
    rw [scanEntry_lookup, hI, hfirst]
    constructor
    · rintro ((hq | ⟨hnone, hqp, hlow⟩) | ⟨hz, ⟨hnone, hnolow⟩, hkey, rfl⟩)
      · exact .inl hq
      · exact .inr ⟨hnone, by omega, hlow⟩
      · refine .inr ⟨hnone, by omega, ⟨e, he, hkey, hz⟩, fun r hr e' he' hz' hkey' => ?_⟩
        obtain ⟨s, hs, hlow⟩ := exists_lowest he' hz' hkey'
        exact hnolow s (by omega) hlow
    · rintro (hq | ⟨hnone, hqp, hlow⟩)
      · exact .inl (.inl hq)
      · rcases Nat.lt_succ_iff_lt_or_eq.mp hqp with hqp | rfl
        · exact .inl (.inr ⟨hnone, hqp, hlow⟩)
        · obtain ⟨e', he', hkey, hz⟩ := hlow.holds
          obtain rfl := Option.some.inj (he.symm.trans he')
          exact .inr ⟨hz, ⟨hnone, fun r hr hr' => hr.ne (hr'.unique hlow)⟩, hkey, rfl⟩

theorem openFile_slots : (L.openFile c).2.slots = c.slots :=
  (scan_rule (L := L) (c := { c with isOpen := true }) (I := fun _ _ => True)
    (fun _ _ _ _ _ _ => trivial) rfl trivial).1

theorem openFile_isOpen : (L.openFile c).2.isOpen = true :=
  (scan_rule (L := L) (c := { c with isOpen := true }) (I := fun _ c' => c'.isOpen = true)
    (fun _ _ _ _ _ h => by rw [scanEntry_isOpen, h]) rfl rfl).2

/-- What a container holds once closed and opened. -/
theorem find?_reopen : (L.openFile c.close).2.find? k = some e ↔
    ∃ p, L.Lowest c.slots k p ∧ c.slots[p]? = some e := by
  simp only [Container.find?, openFile_slots, Option.bind_eq_some_iff, openFile_lookup]
  simp [Container.close]

theorem EntryInv.find?_reopen_eq (h : L.EntryInv c) (hstale : L.StaleShadowed c) (k : K) :
    (L.openFile c.close).2.find? k = c.find? k := by
  refine Option.ext fun e => ⟨fun he => ?_, fun he => ?_⟩
  · obtain ⟨p, hlow, he⟩ := find?_reopen.mp he
    by_cases hp : c.entries.lookup k = some p
    · simp [Container.find?, hp, he]
    · exact hstale k p e hlow he hp
  · obtain ⟨p, hp, hpe⟩ := Option.bind_eq_some_iff.mp he
    obtain ⟨e', he', hkey, hz⟩ := h.live k p hp
    obtain ⟨q, -, hlow⟩ := exists_lowest he' hz hkey
    obtain ⟨e₁, he₁, -⟩ := hlow.holds
    refine find?_reopen.mpr ⟨q, hlow, ?_⟩
    by_cases hq : c.entries.lookup k = some q
    · obtain rfl : p = q := Option.some.inj (hp.symm.trans hq)
      exact hpe
    · rw [he₁, ← hstale k q e₁ hlow he₁ hq, he]

theorem StaleShadowed.of_find?_reopen
    (h : ∀ e, (L.openFile c.close).2.find? (L.key e) = c.find? (L.key e)) :
    L.StaleShadowed c := by
  intro k p e hlow he _
  obtain ⟨e', he', rfl, -⟩ := hlow.holds
  rw [← h e', find?_reopen]
  exact ⟨p, hlow, he⟩

namespace Mirrored

theorem staleShadowed (h : L.Mirrored c) (hopen : c.isOpen = true) : L.StaleShadowed c :=
  fun k p _ hlow _ hne => absurd ((h.mirrors hopen k p).mpr hlow) hne

theorem openFile (h : L.Mirrored c) : L.Mirrored (L.openFile c).2 := by
  refine ⟨h.toEntryInv.openFile, fun _ k p => ?_, by simp [openFile_isOpen]⟩
  rw [openFile_lookup, openFile_slots]
  cases hopen : c.isOpen with
  | false => simp [h.closed hopen]
  | true =>
    rw [h.mirrors hopen k p, or_iff_left_iff_imp]
    exact fun hlow => hlow.2

/-- The slots after a new entry: its own, those there were, and blank ones. -/
theorem emplace (h : L.Mirrored c)
    (hfree : c.entries.lookup (L.key e) = none → AllocationFree c) (hz : L.isZero e = false)
    (hrun : L.emplace e c = some (p, b, c')) : L.Mirrored c' := by
  have hopen : c.isOpen = true := by
    unfold Layout.emplace at hrun
    split_ifs at hrun with hopen
    exact hopen
  have hentry := h.toEntryInv.emplace hfree hz hrun
  rcases emplace_cases hrun with ⟨-, rfl⟩ | ⟨hnone, hp, hlt, rfl⟩
  · exact h
  · have hopen' : (L.allocate c).2.isOpen = true := by
      unfold Layout.allocate
      split <;> exact hopen
    -- a nonzero key in a slot other than `p` was there before
    have hold : ∀ (q : ℕ) (x : E), q ≠ p → ((L.allocate c).2.slots.set p e)[q]? = some x →
        L.isZero x = false → c.slots[q]? = some x := by
      intro q x hq hx hxz
      rw [List.getElem?_set_ne hq.symm] at hx
      rcases allocate_slots_of_some hx with hx | ⟨-, rfl⟩
      · exact hx
      · simp [L.isZero_blank] at hxz
    have hfresh : ∀ (q : ℕ) (x : E), c.slots[q]? = some x → L.isZero x = false →
        L.key x ≠ L.key e := by
      intro q x hx hxz hxk
      obtain ⟨r, -, hlow⟩ := exists_lowest hx hxz hxk
      rw [← h.mirrors hopen, hnone] at hlow
      simp at hlow
    refine ⟨hentry.1, fun _ k q => ?_, by simp [hopen']⟩
    dsimp only at *
    by_cases hk : k = L.key e
    · subst hk
      rw [hentry.2.2, Option.some.injEq]
      constructor
      · rintro rfl
        refine ⟨⟨e, by simp [hlt], rfl, hz⟩, fun r hr x hx hxz => ?_⟩
        exact hfresh r x (hold r x hr.ne hx hxz) hxz
      · intro hlow
        by_contra hne
        obtain ⟨x, hx, hxk, hxz⟩ := hlow.holds
        exact hfresh q x (hold q x (Ne.symm hne) hx hxz) hxz hxk
    · rw [Finmap.lookup_insert_of_ne _ hk]
      constructor
      · intro hq
        obtain ⟨x, hx, hxk, hxz⟩ := hentry.1.live k q (by rwa [Finmap.lookup_insert_of_ne _ hk])
        refine ⟨⟨x, hx, hxk, hxz⟩, fun r hr y hy hyz hyk => ?_⟩
        by_cases hrp : r = p
        · subst hrp
          obtain rfl : e = y := by simpa [hlt] using hy
          exact hk hyk.symm
        · exact ((h.mirrors hopen k q).mp hq).least r hr y (hold r y hrp hy hyz) hyz hyk
      · intro hlow
        obtain ⟨x, hx, hxk, hxz⟩ := hlow.holds
        have hqp : q ≠ p := by
          rintro rfl
          obtain rfl : e = x := by simpa [hlt] using hx
          exact hk hxk.symm
        -- the slot indexed for `k` keeps its entry, so it is not above the lowest one
        obtain ⟨r, hr, hrlow⟩ := exists_lowest (hold q x hqp hx hxz) hxz hxk
        have hlook := (h.mirrors hopen k r).mpr hrlow
        obtain ⟨y, hy, hyk, hyz⟩ := h.live k r hlook
        have hy' := (hentry.2.1 k r hlook).2.trans hy
        rcases hr.lt_or_eq with hr | rfl
        · exact absurd hyk (hlow.least r hr y hy' hyz)
        · exact hlook

theorem modify {f : E → E} (h : L.Mirrored c)
    (hf : ∀ x, L.key (f x) = L.key x ∧ L.isZero (f x) = L.isZero x) (p : ℕ) :
    L.Mirrored { c with slots := c.slots.modify p f } := by
  have hmod : ∀ (q : ℕ) (P : K → Bool → Prop), (∃ x, (c.slots.modify p f)[q]? = some x ∧
      P (L.key x) (L.isZero x)) ↔ ∃ x, c.slots[q]? = some x ∧ P (L.key x) (L.isZero x) := by
    intro q P
    rw [List.getElem?_modify]
    rcases eq_or_ne p q with rfl | hne
    · cases hq : c.slots[p]? with
      | none => simp
      | some x => simp [hf x]
    · simp [hne]
  refine ⟨h.toEntryInv.modify hf p, fun hopen k q => ?_, h.closed⟩
  rw [h.mirrors hopen k q]
  constructor
  · intro hlow
    refine ⟨(hmod q fun k' z => k' = k ∧ z = false).mpr hlow.holds, fun r hr x hx hxz hxk => ?_⟩
    obtain ⟨y, hy, hyk, hyz⟩ := (hmod r fun k' z => k' = k ∧ z = false).mp ⟨x, hx, hxk, hxz⟩
    exact hlow.least r hr y hy hyz hyk
  · intro hlow
    refine ⟨(hmod q fun k' z => k' = k ∧ z = false).mp hlow.holds, fun r hr x hx hxz hxk => ?_⟩
    obtain ⟨y, hy, hyk, hyz⟩ := (hmod r fun k' z => k' = k ∧ z = false).mpr ⟨x, hx, hxk, hxz⟩
    exact hlow.least r hr y hy hyz hyk

/-- Every call but an erase of a key that is there keeps the index a mirror of the file. -/
theorem apply {call : Call E K} (h : L.Mirrored c) (hfree : L.AddsKey c call → AllocationFree c)
    (herase : ¬ ErasesKey c call) (hkey : L.KeyNonzero call) (hrun : L.apply call c = some c') :
    L.Mirrored c' := by
  cases call with
  | openFile =>
    obtain rfl := Option.some.inj hrun
    exact h.openFile
  | emplace e f =>
    simp only [Layout.apply, Option.map_eq_some_iff] at hrun
    obtain ⟨⟨p, b, c₁⟩, hrun, rfl⟩ := hrun
    exact (h.emplace hfree hkey.1 hrun).modify hkey.2 p
  | erase k =>
    obtain rfl := Option.some.inj hrun
    have hnot : k ∉ c.entries := herase
    rwa [Container.erase, if_neg hnot]
  | close =>
    obtain rfl := Option.some.inj hrun
    exact ⟨h.toEntryInv.close, by simp [Container.close], fun _ => rfl⟩

end Mirrored

/-- The runs of an interface whose calls are calls of the common text. -/
private theorem roundTrip_of_steps {ι : Type} {toLayout : ι → Call E K} {valid : ι → Prop}
    {step : Container E K → ι → Container E K → Prop}
    (hvalid : ∀ i, valid i → L.KeyNonzero (toLayout i))
    (hstep : ∀ c i c', step c i c' → L.apply (toLayout i) c = some c')
    (slots : List E) (rest : Fin L.size) {calls : List ι} (hkeys : ∀ i ∈ calls, valid i) :
    (Steps (Guarded (fun c i => L.AddsKey c (toLayout i) → AllocationFree c) step)
      (.onFile L slots rest) calls c → L.EntryInv c) ∧
    (Steps (Guarded (fun c i => (L.AddsKey c (toLayout i) → AllocationFree c) ∧
      ¬ ErasesKey c (toLayout i)) step) (.onFile L slots rest) calls c → L.Mirrored c) := by
  refine ⟨fun hrun => ?_, fun hrun => ?_⟩
  · exact (hrun.guarded_of_forall hkeys).invariant
      (fun _ i _ hI hst => hI.apply hst.2.1 (hvalid i hst.1) (hstep _ _ _ hst.2.2))
      (entryInv_onFile slots rest)
  · exact (hrun.guarded_of_forall hkeys).invariant
      (fun _ i _ hI hst => hI.apply hst.2.1.1 hst.2.1.2 (hvalid i hst.1) (hstep _ _ _ hst.2.2))
      ⟨entryInv_onFile slots rest, by simp [Container.onFile], fun _ => rfl⟩

end Layout

open Layout

/-- The condition on a call of a map: a new entry takes the slot of no live entry. -/
def PersistentMap.AllocCondition {Key T K : Type} [DecidableEq Key] [DecidableEq K]
    (M : MapTypes Key T K) (c : Container (Key × T) K) (call : PersistentMap.Call Key T) : Prop :=
  (PersistentMap.layout M).AddsKey c (call.toLayout M) → AllocationFree c

/-- The condition on a call of a set: a new entry takes the slot of no live entry. -/
def PersistentSet.AllocCondition {Entry K : Type} [DecidableEq Entry] [DecidableEq K]
    (S : SetTypes Entry K) (c : Container Entry K) (call : PersistentSet.Call Entry) : Prop :=
  (PersistentSet.layout S).AddsKey c (call.toLayout S) → AllocationFree c

/-- **The persistence round trip.** After any run of a map or a set in which no new entry took
the slot of a live one, a close and an open give back what the container held, key by key, if
and only if the stale entries of the file are shadowed. In an open container they are when no
`erase` of the run found its key. -/
theorem persistentStl_roundTrip_iff {Key T K Entry K' : Type} [DecidableEq Key] [DecidableEq K]
    [DecidableEq Entry] [DecidableEq K'] (M : MapTypes Key T K) (S : SetTypes Entry K') :
    (∀ (slots : List (Key × T)) (rest : Fin M.pairSize) (calls : List (PersistentMap.Call Key T))
        (c : Container (Key × T) K), (∀ call ∈ calls, call.KeyNonzero M) →
      (Steps (Guarded (PersistentMap.AllocCondition M) (PersistentMap.step M))
          (.onFile (PersistentMap.layout M) slots rest) calls c →
        ((∀ key, PersistentMap.find? M key (PersistentMap.openFile M (PersistentMap.close c)).2 =
            PersistentMap.find? M key c) ↔ (PersistentMap.layout M).StaleShadowed c)) ∧
      (Steps (Guarded (fun c call => PersistentMap.AllocCondition M c call ∧
          ¬ ErasesKey c (call.toLayout M)) (PersistentMap.step M))
          (.onFile (PersistentMap.layout M) slots rest) calls c → c.isOpen = true →
        (PersistentMap.layout M).StaleShadowed c)) ∧
    (∀ (slots : List Entry) (rest : Fin S.entrySize) (calls : List (PersistentSet.Call Entry))
        (c : Container Entry K'), (∀ call ∈ calls, call.KeyNonzero S) →
      (Steps (Guarded (PersistentSet.AllocCondition S) (PersistentSet.step S))
          (.onFile (PersistentSet.layout S) slots rest) calls c →
        ((∀ key, PersistentSet.find? S key (PersistentSet.openFile S (PersistentSet.close c)).2 =
            PersistentSet.find? S key c) ↔ (PersistentSet.layout S).StaleShadowed c)) ∧
      (Steps (Guarded (fun c call => PersistentSet.AllocCondition S c call ∧
          ¬ ErasesKey c (call.toLayout S)) (PersistentSet.step S))
          (.onFile (PersistentSet.layout S) slots rest) calls c → c.isOpen = true →
        (PersistentSet.layout S).StaleShadowed c)) := by
  refine ⟨fun slots rest calls c hkeys => ?_, fun slots rest calls c hkeys => ?_⟩
  · obtain ⟨hentry, hmirror⟩ := roundTrip_of_steps (L := PersistentMap.layout M) (c := c)
      (fun _ => PersistentMap.keyNonzero_toLayout M)
      (fun c i c' h => (PersistentMap.apply_eq M i c).symm.trans h) slots rest hkeys
    refine ⟨fun hrun => ⟨fun h => ?_, fun h key => ?_⟩, fun hrun hopen => ?_⟩
    · exact .of_find?_reopen fun e => h e.1
    · exact (hentry hrun).find?_reopen_eq h (M.order key)
    · exact (hmirror hrun).staleShadowed hopen
  · obtain ⟨hentry, hmirror⟩ := roundTrip_of_steps (L := PersistentSet.layout S) (c := c)
      (fun _ => PersistentSet.keyNonzero_toLayout S)
      (fun c i c' h => (PersistentSet.apply_eq S i c).symm.trans h) slots rest hkeys
    refine ⟨fun hrun => ⟨fun h => ?_, fun h key => ?_⟩, fun hrun hopen => ?_⟩
    · exact .of_find?_reopen h
    · exact (hentry hrun).find?_reopen_eq h (S.order key)
    · exact (hmirror hrun).staleShadowed hopen

section IntMap

/-- An entry that was inserted and edited comes back. -/
theorem freshIntMap_roundTrip :
    ∃ c, Steps (PersistentMap.step intMap) freshIntMap
        [.openFile, .insert (1, 2), .assign 1 5] c ∧
      ∀ key, PersistentMap.find? intMap key
          (PersistentMap.openFile intMap (PersistentMap.close c)).2 =
        PersistentMap.find? intMap key c := by
  obtain ⟨c, hrun, hopen⟩ : ∃ c : Container (ℤ × ℤ) ℤ,
      Steps (Guarded (fun c call => PersistentMap.AllocCondition intMap c call ∧
        ¬ ErasesKey c (call.toLayout intMap)) (PersistentMap.step intMap)) freshIntMap
        [.openFile, .insert (1, 2), .assign 1 5] c ∧ c.isOpen = true := by
    refine ⟨_, .cons ⟨⟨False.elim, id⟩, rfl⟩ (.cons ⟨⟨fun _ => ?_, id⟩, rfl⟩
      (.cons ⟨⟨fun h => ?_, id⟩, rfl⟩ (.refl _))), rfl⟩
    · exact show (0 : ℤ) + 10 ≤ intMax by decide
    · exact absurd (show (some 0 : Option ℕ) = none from h) (by simp)
  have hrun' := hrun.mono fun _ _ _ h => (⟨h.1.1, h.2⟩ : Guarded _ _ _ _ _)
  obtain ⟨hiff, hshadowed⟩ := (persistentStl_roundTrip_iff intMap intSet).1 [] ⟨0, by decide⟩
    [.openFile, .insert (1, 2), .assign 1 5] c (by simp [PersistentMap.Call.KeyNonzero, intMap])
  exact ⟨c, hrun.of_guarded, (hiff hrun').mpr (hshadowed hrun hopen)⟩

/-- A key inserted and erased is back after a close and an open. -/
theorem intMap_erased_returns :
    ∃ c, Steps (PersistentMap.step intMap) freshIntMap [.openFile, .insert (1, 2), .erase 1] c ∧
      PersistentMap.find? intMap 1 c = none ∧
      PersistentMap.find? intMap 1
        (PersistentMap.openFile intMap (PersistentMap.close c)).2 = some (1, 2) :=
  ⟨_, .cons rfl (.cons rfl (.cons rfl (.refl _))), rfl, rfl⟩

end IntMap

end DecaFS
