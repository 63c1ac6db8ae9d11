import DecaFS.PersistentStl.PersistentMap

/-!
# The indexed entries of a persistent container

`EntryInv`: each key of the index points to a slot that holds that key, nonzero. A call that
adds a key keeps this as long as `allocate` does not hand out the slot of a live entry
(`AllocationFree`); every other call keeps it as it is.
-/

namespace DecaFS

namespace Layout

variable {E K : Type} [DecidableEq K] (L : Layout E K)

/-- The index points to the entries it names. -/
structure EntryInv (c : Container E K) : Prop where
  length : c.mapSize / L.size = c.slots.length
  live : ∀ k p, c.entries.lookup k = some p →
    ∃ e, c.slots[p]? = some e ∧ L.key e = k ∧ L.isZero e = false

/-- The slot `allocate` takes next is not the slot of a live entry; when it has to grow the
file, the new indices fit in an `int`. -/
def AllocationFree (c : Container E K) : Prop :=
  match c.unallocated with
  | first :: _ => ∀ k p, c.entries.lookup k = some p → (p : ℤ) ≠ first.1
  | [] => (c.slots.length : ℤ) + 10 ≤ intMax

/-- The entries of `c` keep their slots, keys and values in `c'`. -/
def KeepsEntries (c c' : Container E K) : Prop :=
  ∀ k p, c.entries.lookup k = some p →
    c'.entries.lookup k = some p ∧ c'.slots[p]? = c.slots[p]?

/-- A call that adds a key the container lacks. -/
def AddsKey (c : Container E K) : Call E K → Prop
  | .emplace e _ => c.entries.lookup (L.key e) = none
  | _ => False

variable {L} {c c' : Container E K} {e : E} {k : K} {p q : ℕ} {b : Bool}

theorem entryInv_onFile (slots : List E) (rest : Fin L.size) :
    L.EntryInv (.onFile L slots rest : Container E K) where
  length := by
    have hpos : (0 : ℤ) < L.size := by exact_mod_cast L.size_pos
    have hlt : (rest : ℤ) < L.size := by exact_mod_cast rest.isLt
    simp only [Container.onFile]
    rw [Int.add_comm, Int.add_mul_ediv_right _ _ hpos.ne',
      Int.ediv_eq_zero_of_lt (Int.natCast_nonneg _) hlt, zero_add]
  live := by simp [Container.onFile]

theorem scanEntry_lookup : (L.scanEntry p e c).entries.lookup k = some q ↔
    c.entries.lookup k = some q ∨
      (L.isZero e = false ∧ c.entries.lookup k = none ∧ L.key e = k ∧ q = p) := by
  unfold scanEntry
  by_cases hz : L.isZero e = true
  · simp [hz, deallocate]
  · by_cases hmem : L.key e ∈ c.entries
    · have hsome : c.entries.lookup (L.key e) ≠ none := by
        rwa [Ne, Finmap.lookup_eq_none, not_not]
      simp only [hz, hmem, if_true]
      refine ⟨.inl, ?_⟩
      rintro (h | ⟨-, hnone, rfl, -⟩)
      · exact h
      · exact absurd hnone hsome
    · have hnone := Finmap.lookup_eq_none.mpr hmem
      by_cases hk : k = L.key e
      · subst hk
        simp [hz, hmem, hnone, eq_comm]
      · simp [hz, hmem, Finmap.lookup_insert_of_ne _ hk, Ne.symm hk]

@[simp]
theorem scanEntry_mapSize : (L.scanEntry p e c).mapSize = c.mapSize := by
  unfold scanEntry
  split_ifs <;> rfl

@[simp]
theorem scanEntry_isOpen : (L.scanEntry p e c).isOpen = c.isOpen := by
  unfold scanEntry
  split_ifs <;> rfl

namespace EntryInv

theorem lt_length (h : L.EntryInv c) (hk : c.entries.lookup k = some p) : p < c.slots.length := by
  obtain ⟨e, he, -, -⟩ := h.live k p hk
  exact (List.getElem?_eq_some_iff.mp he).1

theorem key_injective {k' : K} (h : L.EntryInv c) (hk : c.entries.lookup k = some p)
    (hk' : c.entries.lookup k' = some p) : k = k' := by
  obtain ⟨e, he, rfl, -⟩ := h.live k p hk
  obtain ⟨e', he', rfl, -⟩ := h.live k' p hk'
  rw [Option.some.inj (he.symm.trans he')]

/-- Each entry the scan of `open` meets is indexed where it is. -/
theorem scanEntry (h : L.EntryInv c) (he : c.slots[p]? = some e) :
    L.EntryInv (L.scanEntry p e c) := by
  refine ⟨by rw [scanEntry_mapSize, scanEntry_slots he, h.length], fun k q hk => ?_⟩
  rw [scanEntry_slots he]
  rcases scanEntry_lookup.mp hk with hk | ⟨hz, -, rfl, rfl⟩
  · exact h.live k q hk
  · exact ⟨e, he, rfl, hz⟩

theorem openFile (h : L.EntryInv c) : L.EntryInv (L.openFile c).2 :=
  (scan_rule (L := L) (c := { c with isOpen := true }) (I := fun _ c' => L.EntryInv c')
    (fun _ _ _ hc he hI => hI.scanEntry (hc ▸ he)) rfl ⟨h.length, h.live⟩).2

theorem allocate_ne (h : L.EntryInv c) (hfree : AllocationFree c)
    (hk : c.entries.lookup k = some q) : (L.allocate c).1 ≠ q := by
  unfold AllocationFree at hfree
  unfold Layout.allocate
  cases hun : c.unallocated with
  | cons first R =>
    rw [hun] at hfree
    exact (hfree k q hk).symm
  | nil =>
    rw [hun] at hfree
    have hlt := h.lt_length hk
    simp only [h.length]
    rw [toInt32_eq (by omega) (by omega)]
    omega

theorem allocate_length (h : L.EntryInv c) :
    (L.allocate c).2.mapSize / L.size = (L.allocate c).2.slots.length := by
  have hpos : (L.size : ℤ) ≠ 0 := by exact_mod_cast L.size_pos.ne'
  unfold Layout.allocate
  split
  · exact h.length
  · dsimp only
    rw [Int.add_mul_ediv_left _ _ hpos, h.length]
    simp

/-- A new entry takes a slot nobody lives in. -/
theorem emplace (h : L.EntryInv c)
    (hfree : c.entries.lookup (L.key e) = none → AllocationFree c) (hz : L.isZero e = false)
    (hrun : L.emplace e c = some (p, b, c')) :
    L.EntryInv c' ∧ KeepsEntries c c' ∧ c'.entries.lookup (L.key e) = some p := by
  rcases emplace_cases hrun with ⟨hlook, rfl⟩ | ⟨hnone, hp, hlt, rfl⟩
  · exact ⟨h, fun k q hk => ⟨hk, rfl⟩, hlook⟩
  · have hslot : ∀ k q, c.entries.lookup k = some q →
        ((L.allocate c).2.slots.set p e)[q]? = c.slots[q]? := by
      intro k q hk
      have hne : p ≠ q := fun hpq => h.allocate_ne (hfree hnone) hk (by rw [hp, hpq])
      rw [List.getElem?_set_ne hne, allocate_slots_getElem? (h.lt_length hk)]
    have hkey : ∀ k q, c.entries.lookup k = some q → k ≠ L.key e := by
      rintro k q hk rfl
      simp [hnone] at hk
    refine ⟨⟨by simpa using h.allocate_length, fun k q hk => ?_⟩, fun k q hk => ⟨?_, hslot k q hk⟩,
      Finmap.lookup_insert _⟩
    · by_cases hke : k = L.key e
      · subst hke
        rw [Finmap.lookup_insert, Option.some.injEq] at hk
        subst hk
        exact ⟨e, by simp [hlt], rfl, hz⟩
      · rw [Finmap.lookup_insert_of_ne _ hke] at hk
        obtain ⟨e₁, he₁, hk₁, hz₁⟩ := h.live k q hk
        exact ⟨e₁, by rw [hslot k q hk, he₁], hk₁, hz₁⟩
    · rw [Finmap.lookup_insert_of_ne _ (hkey k q hk), hk]

/-- Editing an entry without its key. -/
theorem modify {f : E → E} (h : L.EntryInv c)
    (hf : ∀ x, L.key (f x) = L.key x ∧ L.isZero (f x) = L.isZero x) (p : ℕ) :
    L.EntryInv { c with slots := c.slots.modify p f } := by
  refine ⟨by simpa using h.length, fun k q hk => ?_⟩
  obtain ⟨e, he, hk', hz⟩ := h.live k q hk
  rcases eq_or_ne p q with rfl | hne
  · exact ⟨f e, by simp [he], (hf e).1.trans hk', (hf e).2.trans hz⟩
  · exact ⟨e, by simp [hne, he], hk', hz⟩

theorem erase (h : L.EntryInv c) (k : K) : L.EntryInv (c.erase k).2 := by
  unfold Container.erase
  split_ifs
  · refine ⟨h.length, fun k' p hk => h.live k' p ?_⟩
    by_cases hkk : k' = k
    · subst hkk
      simp at hk
    · rwa [Finmap.lookup_erase_ne hkk] at hk
  · exact h

theorem close (h : L.EntryInv c) : L.EntryInv c.close :=
  ⟨h.length, by simp [Container.close]⟩

/-- **Every call keeps the entries the index names.** -/
theorem apply {call : Call E K} (h : L.EntryInv c) (hfree : L.AddsKey c call → AllocationFree c)
    (hkey : L.KeyNonzero call) (hrun : L.apply call c = some c') : L.EntryInv c' := by
  cases call with
  | openFile =>
    obtain rfl := Option.some.inj hrun
    exact h.openFile
  | emplace e f =>
    simp only [Layout.apply, Option.map_eq_some_iff] at hrun
    obtain ⟨⟨p, b, c₁⟩, hrun, rfl⟩ := hrun
    exact (h.emplace hfree hkey.1 hrun).1.modify hkey.2 p
  | erase k =>
    obtain rfl := Option.some.inj hrun
    exact h.erase k
  | close =>
    obtain rfl := Option.some.inj hrun
    exact h.close

/-- A call that adds a key keeps the entries there are. -/
theorem keepsEntries {call : Call E K} (h : L.EntryInv c) (hadds : L.AddsKey c call)
    (hfree : AllocationFree c) (hkey : L.KeyNonzero call) (hrun : L.apply call c = some c') :
    KeepsEntries c c' := by
  cases call with
  | emplace e f =>
    simp only [Layout.apply, Option.map_eq_some_iff] at hrun
    obtain ⟨⟨p, b, c₁⟩, hrun, rfl⟩ := hrun
    obtain ⟨hinv, hkeeps, hself⟩ := h.emplace (fun _ => hfree) hkey.1 hrun
    intro k q hk
    obtain ⟨hk', hslot⟩ := hkeeps k q hk
    have hne : p ≠ q := by
      rintro rfl
      obtain rfl := hinv.key_injective hk' hself
      rw [AddsKey, hk] at hadds
      simp at hadds
    exact ⟨hk', by simp [hne, hslot]⟩
  | _ => exact hadds.elim

end EntryInv

end Layout

end DecaFS
