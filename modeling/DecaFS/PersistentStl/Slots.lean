import DecaFS.ForMathlib.Transition
import DecaFS.PersistentStl.Entries

/-!
# Slots of persistent containers

No call on a persistent container writes over the slot of a live entry, as long as the index
`open` computes for each free slot is the index of that slot. `deallocate` divides a
difference of entry pointers by the size of an entry once more, so this is a condition:
`FreeIndexExact`.

`SlotInv` is the invariant. The free extents are canonical and cover slots of zero keys only,
while every indexed slot holds a nonzero key; hence no free slot is live.
-/

namespace DecaFS

open OrderedList Intervals

namespace Layout

variable {E K : Type} [DecidableEq K] (L : Layout E K)

/-- The invariant of a container whose free slots are recorded where they are. -/
structure SlotInv (c : Container E K) : Prop extends L.EntryInv c where
  canonical : Canonical c.unallocated
  free : ∀ x ∈ cover c.unallocated, x < intMax ∧
    ∃ p : ℕ, x = p ∧ ∃ e, c.slots[p]? = some e ∧ L.isZero e = true

/-- Every all-zero slot has the index `deallocate` computes for it, below `INT_MAX`, and is
not recorded as free already. -/
def FreeIndexExact (c : Container E K) : Prop :=
  ∀ (p : ℕ) (e : E), c.slots[p]? = some e → L.isZero e = true →
    L.slotIndex p = p ∧ (p : ℤ) < intMax ∧ (p : ℤ) ∉ cover c.unallocated

/-- When no slot is free, ten more slots have indices in an `int`. -/
def CanGrow (c : Container E K) : Prop :=
  c.unallocated = [] → (c.slots.length : ℤ) + 10 ≤ intMax

/-- The condition on a call. -/
def SlotCondition (c : Container E K) (call : Call E K) : Prop :=
  match call with
  | .openFile => L.FreeIndexExact c
  | .emplace _ _ => L.AddsKey c call → CanGrow c
  | _ => True

/-- Live entries have slots of their own within the file, and the free extents are disjoint,
within the file and hold no live slot. -/
structure SlotsSound (c : Container E K) : Prop where
  distinct : ∀ k k' p, c.entries.lookup k = some p → c.entries.lookup k' = some p → k = k'
  inside : ∀ k p, c.entries.lookup k = some p → (p : ℤ) < c.mapSize / L.size
  extents_disjoint : c.unallocated.Pairwise fun a b => a.2 ≤ b.1 ∨ b.2 ≤ a.1
  extents_inside : ∀ m ∈ c.unallocated, 0 ≤ m.1 ∧ m.2 ≤ c.mapSize / L.size
  extents_free : ∀ m ∈ c.unallocated, ∀ k p, c.entries.lookup k = some p →
    ¬ (m.1 ≤ p ∧ (p : ℤ) < m.2)

variable {L} {c c' : Container E K} {e : E} {k : K} {p q : ℕ} {b : Bool}

theorem slotInv_onFile (slots : List E) (rest : Fin L.size) :
    L.SlotInv (.onFile L slots rest : Container E K) :=
  ⟨entryInv_onFile slots rest, canonical_nil, by simp [Container.onFile]⟩

namespace SlotInv

theorem live_notMem_cover (h : L.SlotInv c) (hk : c.entries.lookup k = some p) :
    (p : ℤ) ∉ cover c.unallocated := by
  intro hp
  obtain ⟨-, q, hpq, e, he, hz⟩ := h.free p hp
  obtain ⟨e', he', -, hz'⟩ := h.live k p hk
  obtain rfl : p = q := by exact_mod_cast hpq
  obtain rfl : e = e' := Option.some.inj (he.symm.trans he')
  simp [hz] at hz'

theorem slotsSound (h : L.SlotInv c) : L.SlotsSound c where
  distinct _ _ _ hk hk' := h.key_injective hk hk'
  inside k p hk := by
    rw [h.length]
    exact_mod_cast h.lt_length hk
  extents_disjoint := h.canonical.2.imp fun hab => .inl hab.le
  extents_inside m hm := by
    have hlt := h.canonical.1 m hm
    obtain ⟨-, p, hp, -⟩ := h.free m.1 ⟨m, hm, le_rfl, hlt⟩
    obtain ⟨-, q, hq, e, he, -⟩ := h.free (m.2 - 1) ⟨m, hm, by omega, by omega⟩
    have := (List.getElem?_eq_some_iff.mp he).1
    rw [h.length]
    omega
  extents_free m hm k p hk hp := h.live_notMem_cover hk ⟨m, hm, hp⟩

theorem allocationFree (h : L.SlotInv c) (hgrow : CanGrow c) : AllocationFree c := by
  unfold AllocationFree
  split
  case h_1 first R hun =>
    intro k p hk hp
    refine h.live_notMem_cover hk (hun ▸ mem_cover_cons.mpr (.inl ⟨hp.ge, hp ▸ ?_⟩))
    exact h.canonical.1 first (hun ▸ List.mem_cons_self)
  case h_2 hun => exact hgrow hun

/-- Each entry the scan of `open` meets is recorded soundly. -/
theorem scanEntry (h : L.SlotInv c) (he : c.slots[p]? = some e)
    (hfree : L.isZero e = true →
      L.slotIndex p = p ∧ (p : ℤ) < intMax ∧ (p : ℤ) ∉ cover c.unallocated) :
    L.SlotInv (L.scanEntry p e c) ∧
      ∀ x ∈ cover (L.scanEntry p e c).unallocated, x ∈ cover c.unallocated ∨ x = p := by
  have hentry := h.toEntryInv.scanEntry he
  have hslots := scanEntry_slots (L := L) he
  by_cases hz : L.isZero e = true
  · obtain ⟨hidx, hmax, hnot⟩ := hfree hz
    obtain ⟨hcan, hcov⟩ := insertExtent_spec h.canonical (by omega) hmax hnot
    have hun : (L.scanEntry p e c).unallocated = insertExtent p c.unallocated := by
      simp [Layout.scanEntry, hz, deallocate, hidx]
    rw [hun]
    refine ⟨⟨hentry, hun ▸ hcan, fun x hx => ?_⟩, fun x hx => (hcov x).mp hx⟩
    rw [hslots]
    rcases (hcov x).mp (hun ▸ hx) with hx | rfl
    · exact h.free x hx
    · exact ⟨hmax, p, rfl, e, he, hz⟩
  · have hun : (L.scanEntry p e c).unallocated = c.unallocated := by
      simp [Layout.scanEntry, hz]
    rw [hun]
    exact ⟨⟨hentry, hun ▸ h.canonical, by rw [hun, hslots]; exact h.free⟩, fun x hx => .inl hx⟩

theorem openFile (h : L.SlotInv c) (hfree : L.FreeIndexExact c) :
    L.SlotInv (L.openFile c).2 := by
  have hscan := scan_rule (L := L) (c := { c with isOpen := true })
    (I := fun p c' => L.SlotInv c' ∧
      ∀ x ∈ cover c'.unallocated, x ∈ cover c.unallocated ∨ x < p)
    (fun p e c' hc he hI => ?_) rfl ⟨⟨⟨h.length, h.live⟩, h.canonical, h.free⟩, fun x hx => .inl hx⟩
  · exact hscan.2.1
  · obtain ⟨hinv, hcov⟩ := hI
    refine (hinv.scanEntry (hc ▸ he) fun hz => ?_).imp_right fun hcov' x hx => ?_
    · obtain ⟨hidx, hmax, hnot⟩ := hfree p e he hz
      refine ⟨hidx, hmax, fun hp => ?_⟩
      rcases hcov p hp with hp | hp
      · exact hnot hp
      · exact lt_irrefl _ hp
    · rcases hcov' x hx with hx | rfl
      · exact (hcov x hx).imp_right fun hlt => by push_cast; omega
      · exact .inr (by push_cast; omega)

/-- What is free after `allocate` is a zero slot, and not the slot handed out. -/
theorem allocate_free (h : L.SlotInv c) (hgrow : CanGrow c) :
    Canonical (L.allocate c).2.unallocated ∧
      ∀ x ∈ cover (L.allocate c).2.unallocated, x < intMax ∧ x ≠ (L.allocate c).1 ∧
        ∃ p : ℕ, x = p ∧ ∃ e, (L.allocate c).2.slots[p]? = some e ∧ L.isZero e = true := by
  cases hun : c.unallocated with
  | cons first R =>
    obtain ⟨hcan, hcov⟩ := takeExtent_spec (hun ▸ h.canonical)
    simp only [Layout.allocate, hun]
    refine ⟨hcan, fun x hx => ?_⟩
    obtain ⟨hx, hne⟩ := (hcov x).mp hx
    obtain ⟨hmax, hp⟩ := h.free x (hun ▸ hx)
    exact ⟨hmax, hne, hp⟩
  | nil =>
    have hmax := hgrow hun
    have h₀ : toInt32 (c.mapSize / L.size) = c.slots.length := by
      rw [h.length]
      exact toInt32_eq (by omega) (by omega)
    have h₁ : toInt32 ((c.slots.length : ℤ) + 1) = c.slots.length + 1 :=
      toInt32_eq (by omega) (by omega)
    have h₁₀ : toInt32 ((c.slots.length : ℤ) + 10) = c.slots.length + 10 :=
      toInt32_eq (by omega) hmax
    simp only [Layout.allocate, hun, h₀, h₁, h₁₀]
    refine ⟨canonical_singleton.mpr (by dsimp only; omega), fun x hx => ?_⟩
    simp only [mem_cover_cons, cover_nil, Set.mem_empty_iff_false, or_false] at hx
    refine ⟨by omega, by omega, x.toNat, by omega, L.blank, ?_, L.isZero_blank⟩
    rw [List.getElem?_append_right (by omega), List.getElem?_replicate, if_pos (by omega)]

theorem emplace (h : L.SlotInv c) (hgrow : c.entries.lookup (L.key e) = none → CanGrow c)
    (hz : L.isZero e = false) (hrun : L.emplace e c = some (p, b, c')) : L.SlotInv c' := by
  have hentry := h.toEntryInv.emplace (fun hnone => h.allocationFree (hgrow hnone)) hz hrun
  rcases emplace_cases hrun with ⟨-, rfl⟩ | ⟨hnone, hp, -, rfl⟩
  · exact h
  · obtain ⟨hcan, hfree⟩ := h.allocate_free (hgrow hnone)
    refine ⟨hentry.1, hcan, fun x hx => ?_⟩
    obtain ⟨hmax, hne, q, rfl, e₁, he₁, hz₁⟩ := hfree x hx
    rw [hp] at hne
    exact ⟨hmax, q, rfl, e₁, by rw [List.getElem?_set_ne (by rintro rfl; exact hne rfl), he₁], hz₁⟩

theorem modify {f : E → E} (h : L.SlotInv c)
    (hf : ∀ x, L.key (f x) = L.key x ∧ L.isZero (f x) = L.isZero x) (p : ℕ) :
    L.SlotInv { c with slots := c.slots.modify p f } := by
  refine ⟨h.toEntryInv.modify hf p, h.canonical, fun x hx => ?_⟩
  obtain ⟨hmax, q, hxq, e, he, hz⟩ := h.free x hx
  rcases eq_or_ne p q with rfl | hne
  · exact ⟨hmax, p, hxq, f e, by simp [he], (hf e).2.trans hz⟩
  · exact ⟨hmax, q, hxq, e, by simp [hne, he], hz⟩

/-- **Every call keeps the slot invariant.** -/
theorem apply {call : Call E K} (h : L.SlotInv c) (hcond : L.SlotCondition c call)
    (hkey : L.KeyNonzero call) (hrun : L.apply call c = some c') : L.SlotInv c' := by
  cases call with
  | openFile =>
    obtain rfl := Option.some.inj hrun
    exact h.openFile hcond
  | emplace e f =>
    simp only [Layout.apply, Option.map_eq_some_iff] at hrun
    obtain ⟨⟨p, b, c₁⟩, hrun, rfl⟩ := hrun
    exact (h.emplace hcond hkey.1 hrun).modify hkey.2 p
  | erase k =>
    obtain rfl := Option.some.inj hrun
    refine ⟨h.toEntryInv.erase k, ?_, ?_⟩ <;> unfold Container.erase <;> split_ifs
    exacts [h.canonical, h.canonical, h.free, h.free]
  | close =>
    obtain rfl := Option.some.inj hrun
    exact ⟨h.toEntryInv.close, canonical_nil, by simp [Container.close]⟩

end SlotInv

/-- Calls of some interface on containers, each one a call of the common text. -/
private theorem slotInv_of_steps {ι : Type} {toLayout : ι → Call E K} {valid : ι → Prop}
    {step : Container E K → ι → Container E K → Prop}
    (hvalid : ∀ i, valid i → L.KeyNonzero (toLayout i))
    (hstep : ∀ c i c', step c i c' → L.apply (toLayout i) c = some c') {slots : List E}
    {rest : Fin L.size} {calls : List ι}
    (hrun : Steps (Guarded (fun c i => L.SlotCondition c (toLayout i)) step)
      (.onFile L slots rest) calls c)
    (hkeys : ∀ i ∈ calls, valid i) : L.SlotInv c :=
  (hrun.guarded_of_forall hkeys).invariant
    (fun _ i _ hI hst => hI.apply hst.2.1 (hvalid i hst.1) (hstep _ _ _ hst.2.2))
    (slotInv_onFile slots rest)

private theorem keepsEntries_of_apply {call : Call E K} (h : L.SlotInv c)
    (hadds : L.AddsKey c call) (hcond : L.SlotCondition c call) (hkey : L.KeyNonzero call)
    (hrun : L.apply call c = some c') : KeepsEntries c c' := by
  cases call with
  | emplace e f =>
    exact h.toEntryInv.keepsEntries hadds (h.allocationFree (hcond hadds)) hkey hrun
  | _ => exact hadds.elim

end Layout

open Layout

/-- The slot condition on a call of a map. -/
def PersistentMap.SlotCondition {Key T K : Type} [DecidableEq Key] [DecidableEq K]
    (M : MapTypes Key T K) (c : Container (Key × T) K) (call : PersistentMap.Call Key T) : Prop :=
  (PersistentMap.layout M).SlotCondition c (call.toLayout M)

/-- The slot condition on a call of a set. -/
def PersistentSet.SlotCondition {Entry K : Type} [DecidableEq Entry] [DecidableEq K]
    (S : SetTypes Entry K) (c : Container Entry K) (call : PersistentSet.Call Entry) : Prop :=
  (PersistentSet.layout S).SlotCondition c (call.toLayout S)

/-- **Slots of live entries are never handed out.** In every run of a map or a set, on any
file, whose calls meet the slot condition, the live entries have slots of their own that no
free extent holds, and a call that adds a key leaves every entry as it is. -/
theorem persistentStl_slots_sound {Key T K Entry K' : Type} [DecidableEq Key] [DecidableEq K]
    [DecidableEq Entry] [DecidableEq K'] (M : MapTypes Key T K) (S : SetTypes Entry K') :
    (∀ (slots : List (Key × T)) (rest : Fin M.pairSize) (calls : List (PersistentMap.Call Key T))
        (c : Container (Key × T) K),
      Steps (Guarded (PersistentMap.SlotCondition M) (PersistentMap.step M))
        (.onFile (PersistentMap.layout M) slots rest) calls c →
      (∀ call ∈ calls, call.KeyNonzero M) →
      (PersistentMap.layout M).SlotsSound c ∧
        ∀ call c', (PersistentMap.layout M).AddsKey c (call.toLayout M) →
          PersistentMap.SlotCondition M c call → call.KeyNonzero M →
          PersistentMap.step M c call c' → KeepsEntries c c') ∧
    (∀ (slots : List Entry) (rest : Fin S.entrySize) (calls : List (PersistentSet.Call Entry))
        (c : Container Entry K'),
      Steps (Guarded (PersistentSet.SlotCondition S) (PersistentSet.step S))
        (.onFile (PersistentSet.layout S) slots rest) calls c →
      (∀ call ∈ calls, call.KeyNonzero S) →
      (PersistentSet.layout S).SlotsSound c ∧
        ∀ call c', (PersistentSet.layout S).AddsKey c (call.toLayout S) →
          PersistentSet.SlotCondition S c call → call.KeyNonzero S →
          PersistentSet.step S c call c' → KeepsEntries c c') := by
  refine ⟨fun slots rest calls c hrun hkeys => ?_, fun slots rest calls c hrun hkeys => ?_⟩
  · have hstep : ∀ c i c', PersistentMap.step M c i c' →
        (PersistentMap.layout M).apply (i.toLayout M) c = some c' :=
      fun c i c' h => (PersistentMap.apply_eq M i c).symm.trans h
    have hinv := slotInv_of_steps (fun _ => PersistentMap.keyNonzero_toLayout M) hstep hrun hkeys
    exact ⟨hinv.slotsSound, fun call c' hadds hcond hkey hst => keepsEntries_of_apply hinv hadds
      hcond (PersistentMap.keyNonzero_toLayout M hkey) (hstep _ _ _ hst)⟩
  · have hstep : ∀ c i c', PersistentSet.step S c i c' →
        (PersistentSet.layout S).apply (i.toLayout S) c = some c' :=
      fun c i c' h => (PersistentSet.apply_eq S i c).symm.trans h
    have hinv := slotInv_of_steps (fun _ => PersistentSet.keyNonzero_toLayout S) hstep hrun hkeys
    exact ⟨hinv.slotsSound, fun call c' hadds hcond hkey hst => keepsEntries_of_apply hinv hadds
      hcond (PersistentSet.keyNonzero_toLayout S hkey) (hstep _ _ _ hst)⟩

section IntMap

/-- `PersistentMap<int, int>`. -/
def intMap : MapTypes ℤ ℤ ℤ := ⟨id, 0, 0, 0, 8, by decide⟩

/-- `PersistentSet<int>`. -/
def intSet : SetTypes ℤ ℤ := ⟨id, 0, 4, by decide⟩

/-- A fresh file. -/
def freshIntMap : Container (ℤ × ℤ) ℤ := .onFile (PersistentMap.layout intMap) [] ⟨0, by decide⟩

/-- A file with one free slot, at index 0, and some bytes at its end. -/
def holedIntMap : Container (ℤ × ℤ) ℤ :=
  .onFile (PersistentMap.layout intMap) [(0, 0), (5, 6)] ⟨3, by decide⟩

/-- The file is opened, its free slot filled and the file grown. -/
theorem holedIntMap_slots_sound :
    ∃ c, Steps (PersistentMap.step intMap) holedIntMap
        [.openFile, .insert (1, 2), .assign 3 4] c ∧
      (PersistentMap.layout intMap).SlotsSound c := by
  have hexact : (PersistentMap.layout intMap).FreeIndexExact holedIntMap := by
    intro p e he hz
    match p with
    | 0 => exact ⟨by decide, by decide, by simp [holedIntMap, Container.onFile]⟩
    | 1 =>
      obtain rfl : (5, 6) = e := by simpa [holedIntMap, Container.onFile] using he
      simp [PersistentMap.layout, intMap] at hz
    | p + 2 => simp [holedIntMap, Container.onFile] at he
  obtain ⟨c, hrun⟩ : ∃ c, Steps (Guarded (PersistentMap.SlotCondition intMap)
      (PersistentMap.step intMap)) holedIntMap [.openFile, .insert (1, 2), .assign 3 4] c :=
    ⟨_, .cons ⟨hexact, rfl⟩ (.cons ⟨fun _ _ => by decide, rfl⟩
      (.cons ⟨fun _ _ => by decide, rfl⟩ (.refl _)))⟩
  exact ⟨c, hrun.of_guarded, ((persistentStl_slots_sound intMap intSet).1 _ _ _ c hrun
    (by simp [PersistentMap.Call.KeyNonzero, intMap])).1⟩

/-- Insert, close, open and insert again: the free slot 1 is recorded as slot 0, and the second
insert writes over the first entry. -/
theorem intMap_reopen_overwrites :
    ∃ c, Steps (PersistentMap.step intMap) freshIntMap
        [.openFile, .insert (1, 2), .close, .openFile] c ∧
      ¬ (PersistentMap.layout intMap).SlotsSound c ∧
      ∃ c', PersistentMap.step intMap c (.insert (3, 4)) c' ∧ ¬ KeepsEntries c c' ∧
        PersistentMap.find? intMap 1 c' = some (3, 4) := by
  refine ⟨_, .cons rfl (.cons rfl (.cons rfl (.cons rfl (.refl _)))), fun h => ?_, _, rfl,
    fun h => ?_, rfl⟩
  · exact h.extents_free (0, 2) (by decide) 1 0 (by decide) (by decide)
  · exact absurd (h 1 0 (by decide)).2 (by decide)

end IntMap

end DecaFS
