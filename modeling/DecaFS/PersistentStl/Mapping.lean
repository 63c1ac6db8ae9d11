import DecaFS.PersistentStl.Slots

/-!
# Persistent containers in memory

`Container` knows the entries of its index by the numbers of their slots. The index of the headers holds
their addresses, and `allocate`, when it has to grow the file, unmaps it and maps it again at an address
of the system's choice. `Mapped` is a container with addresses; it is the `Container` of its slots as long
as that choice is the old address (`At.emplace`).

The addresses in the index are not moved with the mapping. So a new key leaves every entry where it can
be reached exactly if it finds an unallocated slot that nobody lives in, or the index is empty
(`staysReachable_iff`).
-/

namespace DecaFS

/-- A container whose file is mapped at the address `map`. -/
structure Mapped (E K : Type) where
  /-- the whole entries of the file -/
  slots : List E
  mapSize : ℤ
  /-- `fd >= 0` -/
  isOpen : Bool
  map : ℤ
  entries : Finmap fun _ : K => ℤ
  unallocated : List (ℤ × ℤ)

namespace Mapped

variable {E K : Type} (L : Layout E K)

/-- `map + i`, for pointers to entries. -/
def pointer (m : Mapped E K) (i : ℤ) : ℤ := m.map + i * L.size

/-- The entry at an address: there is none outside the mapping, nor where two entries meet. -/
def deref (m : Mapped E K) (p : ℤ) : Option E :=
  if m.map ≤ p ∧ (L.size : ℤ) ∣ p - m.map then m.slots[((p - m.map) / L.size).toNat]? else none

/-- An entry at the address `p` lies inside the mapping. -/
def Inside (m : Mapped E K) (p : ℤ) : Prop := m.map ≤ p ∧ p + L.size ≤ m.map + m.mapSize

/-- `allocate`: the index of the slot. `addr` is what `mmap` returns. -/
def allocate (addr : ℤ) (m : Mapped E K) : ℤ × Mapped E K :=
  match m.unallocated with
  | first :: _ => (first.1, { m with unallocated := takeExtent first m.unallocated })
  | [] =>
    let startOfNew := toInt32 (m.mapSize / L.size)
    (startOfNew,
      { m with
        slots := m.slots ++ List.replicate 10 L.blank
        mapSize := m.mapSize + L.size * 10
        map := addr
        unallocated := [(toInt32 (startOfNew + 1), toInt32 (startOfNew + 10))] })

variable [DecidableEq K]

/-- The common part of `insert` and `operator[]`: the address of the entry with the key of `e`, with `e`
in a slot of its own when the key is new. `none` is a write outside the mapping. -/
def emplace (addr : ℤ) (e : E) (m : Mapped E K) : Option (ℤ × Bool × Mapped E K) :=
  if m.isOpen then
    match m.entries.lookup (L.key e) with
    | some p => some (p, false, m)
    | none =>
      let (i, m) := allocate L addr m
      if 0 ≤ i ∧ i < m.slots.length then
        some (m.pointer L i, true,
          { m with
            slots := m.slots.set i.toNat e
            entries := m.entries.insert (L.key e) (m.pointer L i) })
      else none
  else none

/-! ### Containers at an address -/

/-- `m` is the container `c`, mapped. -/
structure At (m : Mapped E K) (c : Container E K) : Prop where
  slots : m.slots = c.slots
  mapSize : m.mapSize = c.mapSize
  isOpen : m.isOpen = c.isOpen
  unallocated : m.unallocated = c.unallocated
  entries : ∀ k, m.entries.lookup k = (c.entries.lookup k).map fun p : ℕ => m.pointer L p

/-- Every entry of the index can be reached. -/
structure Reachable (m : Mapped E K) : Prop where
  length : m.mapSize / L.size = m.slots.length
  live : ∀ k p, m.entries.lookup k = some p →
    ∃ (i : ℕ) (e : E), p = m.pointer L i ∧ m.slots[i]? = some e ∧ L.key e = k

/-- The addresses `mmap` may return for `size` bytes, next to the mappings `others`. -/
def Free (others : List (ℤ × ℤ)) (addr size : ℤ) : Prop :=
  0 ≤ addr ∧ ∀ o ∈ others, addr + size ≤ o.1 ∨ o.2 ≤ addr

/-- Wherever the file is mapped, the entries are inside the mapping after the `call` that makes the entry
`e`: those that were there as they were, and the new one. -/
def StaysReachable (others : List (ℤ × ℤ)) (e : E) (call : ℤ → Mapped E K → Option (ℤ × Bool × Mapped E K))
    (m : Mapped E K) : Prop :=
  ∀ addr, Free others addr (m.mapSize + L.size * 10) → ∃ p m', call addr m = some (p, true, m') ∧
    ∀ k q, m'.entries.lookup k = some q → m'.Inside L q ∧
      m'.deref L q = if k = L.key e then some e else (m.entries.lookup k).bind (m.deref L)

omit [DecidableEq K] in
/-- The next slot is in the file and nobody lives in it; or nothing is unallocated, and the index is
empty. -/
def KeepsPlaces (m : Mapped E K) : Prop :=
  match m.unallocated with
  | first :: _ => 0 ≤ first.1 ∧ first.1 < m.slots.length ∧
    ∀ k p, m.entries.lookup k = some p → p ≠ m.pointer L first.1
  | [] => 0 ≤ toInt32 m.slots.length ∧ m.entries = ∅

section

variable {L} {m m' : Mapped E K} {c : Container E K} {e : E} {others : List (ℤ × ℤ)} {addr : ℤ}

omit [DecidableEq K] in
theorem size_pos : (0 : ℤ) < L.size := by exact_mod_cast L.size_pos

omit [DecidableEq K] in
theorem pointer_inj {i j : ℤ} : m.pointer L i = m.pointer L j ↔ i = j := by
  unfold pointer
  rw [add_right_inj, Int.mul_eq_mul_right_iff size_pos.ne']

omit [DecidableEq K] in
/-- The entry of a slot. -/
@[simp]
theorem deref_pointer (i : ℕ) : m.deref L (m.pointer L i) = m.slots[i]? := by
  have hsub : m.pointer L i - m.map = i * L.size := by
    unfold pointer
    omega
  have hle : m.map ≤ m.pointer L i := by
    have := Int.mul_nonneg (Int.natCast_nonneg i) (size_pos (L := L)).le
    omega
  unfold deref
  rw [hsub, if_pos ⟨hle, Dvd.intro_left _ rfl⟩, Int.mul_ediv_cancel _ size_pos.ne', Int.toNat_natCast]

omit [DecidableEq K] in
/-- The slots of the file lie inside the mapping. -/
theorem inside_pointer (h : m.mapSize / L.size = m.slots.length) {i : ℕ} (hi : i < m.slots.length) :
    m.Inside L (m.pointer L i) := by
  have hpos := size_pos (L := L)
  have hsize : (m.slots.length : ℤ) * L.size ≤ m.mapSize := by
    rw [← h]
    exact Int.ediv_mul_le _ hpos.ne'
  have hnext : ((i : ℤ) + 1) * L.size ≤ m.slots.length * L.size :=
    Int.mul_le_mul_of_nonneg_right (by omega) hpos.le
  have hnonneg : 0 ≤ (i : ℤ) * L.size := Int.mul_nonneg (Int.natCast_nonneg i) hpos.le
  rw [add_mul, one_mul] at hnext
  unfold Inside pointer
  omega

/-- Some address behind `bound` and all other mappings is free. -/
theorem exists_free (others : List (ℤ × ℤ)) (bound size : ℤ) :
    ∃ addr, bound ≤ addr ∧ Free others addr size := by
  obtain ⟨addr, hbound, hpos, hbehind⟩ : ∃ addr, bound ≤ addr ∧ 0 ≤ addr ∧ ∀ o ∈ others, o.2 ≤ addr := by
    induction others with
    | nil => exact ⟨max bound 0, le_max_left _ _, le_max_right _ _, by simp⟩
    | cons o others ih =>
      obtain ⟨addr, hbound, hpos, hbehind⟩ := ih
      refine ⟨max addr o.2, le_max_of_le_left hbound, le_max_of_le_left hpos, fun o' ho' => ?_⟩
      rcases List.mem_cons.mp ho' with rfl | ho'
      · exact le_max_right _ _
      · exact le_max_of_le_left (hbehind o' ho')
  exact ⟨addr, hbound, hpos, fun o ho => .inr (hbehind o ho)⟩

/-- The index of the slot, and what the container is then, when the key is new. -/
theorem emplace_new (hopen : m.isOpen = true) (hnew : m.entries.lookup (L.key e) = none) {p : ℤ} {b : Bool} :
    emplace L addr e m = some (p, b, m') ↔ ∃ i : ℕ, (allocate L addr m).1 = i ∧
      i < (allocate L addr m).2.slots.length ∧ p = (allocate L addr m).2.pointer L i ∧ b = true ∧
      m' = { (allocate L addr m).2 with
        slots := (allocate L addr m).2.slots.set i e
        entries := (allocate L addr m).2.entries.insert (L.key e) p } := by
  simp only [emplace, hopen, if_true, hnew, Option.ite_none_right_eq_some, Option.some.injEq, Prod.mk.injEq]
  constructor
  · rintro ⟨⟨hpos, hlt⟩, rfl, rfl, rfl⟩
    refine ⟨(allocate L addr m).1.toNat, by omega, by omega, ?_, rfl, rfl⟩
    rw [Int.toNat_of_nonneg hpos]
  · rintro ⟨i, hi, hlt, rfl, rfl, rfl⟩
    rw [hi]
    exact ⟨⟨by omega, by omega⟩, rfl, rfl, by simp⟩

/-- The entries after a new one has been written to the slot `i`, when the index points to others. -/
theorem inside_and_deref_of_slot {i : ℕ} (hlength : m.mapSize / L.size = m.slots.length)
    (hi : i < m.slots.length) (f : K → Option E)
    (hold : ∀ k q, m.entries.lookup k = some q → ∃ i' : ℕ, q = m.pointer L i' ∧ i' ≠ i ∧
      i' < m.slots.length ∧ m.slots[i']? = f k)
    (hm' : m' = { m with
      slots := m.slots.set i e
      entries := m.entries.insert (L.key e) (m.pointer L i) }) {k : K} {q : ℤ}
    (hk : m'.entries.lookup k = some q) :
    m'.Inside L q ∧ m'.deref L q = if k = L.key e then some e else f k := by
  have hslots : m'.slots = m.slots.set i e := by rw [hm']
  have hpointer : ∀ i : ℤ, m.pointer L i = m'.pointer L i := fun _ => by rw [hm']; rfl
  have hlength' : m'.mapSize / L.size = m'.slots.length := by
    rw [hm', List.length_set]
    exact hlength
  have hentries : m'.entries = m.entries.insert (L.key e) (m.pointer L i) := by rw [hm']
  rw [hentries] at hk
  split_ifs with hkey
  · obtain rfl : m.pointer L i = q := by
      rw [hkey, Finmap.lookup_insert] at hk
      exact Option.some.inj hk
    rw [hpointer, deref_pointer, hslots, List.getElem?_set_self hi]
    exact ⟨inside_pointer hlength' (by rw [hslots, List.length_set]; exact hi), rfl⟩
  · rw [Finmap.lookup_insert_of_ne _ hkey] at hk
    obtain ⟨i', rfl, hne, hi', hslot⟩ := hold k q hk
    rw [hpointer, deref_pointer, hslots, List.getElem?_set_ne hne.symm, hslot]
    exact ⟨inside_pointer hlength' (by rw [hslots, List.length_set]; exact hi'), rfl⟩

/-- A new key in an unallocated slot: the mapping stays where it is. -/
theorem staysReachable_cons_iff {first : ℤ × ℤ} {R : List (ℤ × ℤ)} (hreach : m.Reachable L)
    (hopen : m.isOpen = true) (hnew : m.entries.lookup (L.key e) = none)
    (hun : m.unallocated = first :: R) : m.StaysReachable L others e (emplace L · e) ↔
      0 ≤ first.1 ∧ first.1 < m.slots.length ∧
        ∀ k p, m.entries.lookup k = some p → p ≠ m.pointer L first.1 := by
  have halloc : ∀ addr, allocate L addr m = (first.1, { m with
      unallocated := takeExtent first m.unallocated }) := fun addr => by rw [allocate, hun]
  constructor
  · intro h
    obtain ⟨addr, -, hfree⟩ := exists_free others 0 (m.mapSize + L.size * 10)
    obtain ⟨p, m', hemplace, hall⟩ := h addr hfree
    obtain ⟨i, hi, hlt, rfl, -, rfl⟩ := (emplace_new hopen hnew).mp hemplace
    rw [halloc] at hi hlt hall
    refine ⟨by omega, by rw [hi]; exact_mod_cast hlt, fun k p hk hp => ?_⟩
    have hne : k ≠ L.key e := by
      rintro rfl
      simp [hnew] at hk
    -- the entry of `k` would have been written over
    have hderef := (hall k p (by rw [Finmap.lookup_insert_of_ne _ hne, hk])).2
    obtain ⟨i', e', hp', hslot, hkey⟩ := hreach.live k p hk
    obtain rfl : i = i' := by
      have := pointer_inj.mp (hp.symm.trans hp')
      omega
    rw [if_neg hne, hk, Option.bind_some, hp', deref_pointer, hslot] at hderef
    have hslot' : (m.slots.set i e)[i]? = some e := List.getElem?_set_self hlt
    have hsame : some e = some e' := hslot'.symm.trans ((deref_pointer i).symm.trans hderef)
    exact hne (hkey.symm.trans (congrArg L.key (Option.some.inj hsame).symm))
  · rintro ⟨hpos, hlt, hplace⟩ addr -
    obtain ⟨i, hi⟩ := Int.eq_ofNat_of_zero_le hpos
    have hlt' : i < m.slots.length := by omega
    refine ⟨_, _, (emplace_new hopen hnew).mpr ⟨i, by rw [halloc, hi], by rw [halloc]; exact hlt', rfl, rfl,
      rfl⟩, fun k q hk => ?_⟩
    refine inside_and_deref_of_slot (by rw [halloc]; exact hreach.length) (by rw [halloc]; exact hlt')
      (fun k => (m.entries.lookup k).bind (m.deref L)) ?_ rfl hk
    rw [halloc]
    intro k' q' hk'
    obtain ⟨i', e', rfl, hslot, -⟩ := hreach.live k' q' hk'
    refine ⟨i', rfl, ?_, (List.getElem?_eq_some_iff.mp hslot).1, ?_⟩
    · rintro rfl
      exact hplace k' _ hk' (by rw [hi])
    · change m.slots[i']? = (m.entries.lookup k').bind _
      rw [show m.entries.lookup k' = some (m.pointer L i') from hk', Option.bind_some, deref_pointer]

/-- A new key that makes the file grow: it may be mapped behind every entry of the index. -/
theorem staysReachable_nil_iff (hreach : m.Reachable L) (hopen : m.isOpen = true)
    (hnew : m.entries.lookup (L.key e) = none) (hun : m.unallocated = []) :
    m.StaysReachable L others e (emplace L · e) ↔ 0 ≤ toInt32 m.slots.length ∧ m.entries = ∅ := by
  have halloc : ∀ addr, allocate L addr m = (toInt32 m.slots.length, { m with
      slots := m.slots ++ List.replicate 10 L.blank
      mapSize := m.mapSize + L.size * 10
      map := addr
      unallocated := [(toInt32 (toInt32 m.slots.length + 1), toInt32 (toInt32 m.slots.length + 10))] }) := by
    intro addr
    rw [allocate, hun, hreach.length]
  constructor
  · intro h
    have hstart : 0 ≤ toInt32 m.slots.length := by
      obtain ⟨addr, -, hfree⟩ := exists_free others 0 (m.mapSize + L.size * 10)
      obtain ⟨p, m', hemplace, -⟩ := h addr hfree
      obtain ⟨i, hi, -⟩ := (emplace_new hopen hnew).mp hemplace
      rw [halloc] at hi
      have hi' : toInt32 m.slots.length = i := hi
      omega
    refine ⟨hstart, Finmap.ext_lookup fun k => ?_⟩
    rw [Finmap.lookup_empty]
    by_contra hsome
    obtain ⟨q, hk⟩ := Option.ne_none_iff_exists'.mp hsome
    obtain ⟨addr, hbound, hfree⟩ := exists_free others (q + 1) (m.mapSize + L.size * 10)
    obtain ⟨p, m', hemplace, hall⟩ := h addr hfree
    obtain ⟨i, -, -, -, -, rfl⟩ := (emplace_new hopen hnew).mp hemplace
    have hne : k ≠ L.key e := by
      rintro rfl
      simp [hnew] at hk
    have hinside := (hall k q (by rw [halloc, Finmap.lookup_insert_of_ne _ hne, hk])).1.1
    rw [halloc] at hinside
    have hle : addr ≤ q := hinside
    omega
  · rintro ⟨hstart, hempty⟩ addr -
    obtain ⟨i, hi⟩ := Int.eq_ofNat_of_zero_le hstart
    have hlt : i < m.slots.length + 10 := by
      have hle : toInt32 m.slots.length ≤ m.slots.length := by
        unfold toInt32
        omega
      omega
    have hlength : (m.mapSize + L.size * 10) / L.size = (m.slots ++ List.replicate 10 L.blank).length := by
      rw [Int.add_mul_ediv_left _ _ (size_pos (L := L)).ne', hreach.length]
      simp
    refine ⟨_, _, (emplace_new hopen hnew).mpr ⟨i, by rw [halloc, hi], by rw [halloc]; simpa using hlt, rfl,
      rfl, rfl⟩, fun k q hk => ?_⟩
    refine inside_and_deref_of_slot (by rw [halloc]; exact hlength) (by rw [halloc]; simpa using hlt)
      (fun k => (m.entries.lookup k).bind (m.deref L)) ?_ rfl hk
    rw [halloc]
    intro k' q' hk'
    rw [hempty, Finmap.lookup_empty] at hk'
    exact absurd hk' (by simp)

/-- **When a new key leaves every entry where it can be reached.** -/
theorem staysReachable_iff (hreach : m.Reachable L) (hopen : m.isOpen = true)
    (hnew : m.entries.lookup (L.key e) = none) : m.StaysReachable L others e (emplace L · e) ↔ m.KeepsPlaces L := by
  unfold KeepsPlaces
  cases hun : m.unallocated with
  | nil => exact staysReachable_nil_iff hreach hopen hnew hun
  | cons first R => exact staysReachable_cons_iff hreach hopen hnew hun

/-! ### Mapped where it was -/

theorem At.reachable (h : m.At L c) (hinv : L.EntryInv c) : m.Reachable L := by
  refine ⟨by rw [h.mapSize, h.slots, hinv.length], fun k p hk => ?_⟩
  rw [h.entries] at hk
  obtain ⟨i, hi, rfl⟩ := Option.map_eq_some_iff.mp hk
  obtain ⟨e, he, hkey, -⟩ := hinv.live k i hi
  exact ⟨i, e, rfl, by rw [h.slots, he], hkey⟩

theorem At.allocate (h : m.At L c) : (allocate L m.map m).1 = (L.allocate c).1 ∧
    (allocate L m.map m).2.map = m.map ∧ (allocate L m.map m).2.At L (L.allocate c).2 := by
  unfold Mapped.allocate Layout.allocate
  rw [h.unallocated, h.mapSize]
  cases c.unallocated with
  | cons first R => exact ⟨rfl, rfl, h.slots, rfl, h.isOpen, rfl, h.entries⟩
  | nil => exact ⟨rfl, rfl, by rw [h.slots], rfl, h.isOpen, rfl, h.entries⟩

/-- **As long as the file is mapped where it was**, a new entry is made as it is in the container of
slots. -/
theorem At.emplace (h : m.At L c) (e : E) : match L.emplace e c with
    | none => emplace L m.map e m = none
    | some (p, b, c') => ∃ m', emplace L m.map e m = some (m'.pointer L p, b, m') ∧ m'.map = m.map ∧
      m'.At L c' := by
  unfold Mapped.emplace Layout.emplace
  rw [h.isOpen]
  by_cases hopen : c.isOpen = true
  · simp only [hopen, if_true, h.entries]
    cases hlook : c.entries.lookup (L.key e) with
    | some p => exact ⟨m, rfl, rfl, h⟩
    | none =>
      obtain ⟨hindex, hmap, hat⟩ := h.allocate
      simp only [Option.map_none, hindex, hat.slots]
      by_cases hin : 0 ≤ (L.allocate c).1 ∧ (L.allocate c).1 < (L.allocate c).2.slots.length
      · obtain ⟨i, hi⟩ := Int.eq_ofNat_of_zero_le hin.1
        rw [if_pos hin, if_pos hin]
        refine ⟨{ (Mapped.allocate L m.map m).2 with
          slots := (L.allocate c).2.slots.set (L.allocate c).1.toNat e
          entries := (Mapped.allocate L m.map m).2.entries.insert (L.key e)
            ((Mapped.allocate L m.map m).2.pointer L (L.allocate c).1) },
          by rw [hi]; rfl, hmap, rfl, hat.mapSize, hat.isOpen, hat.unallocated, fun k => ?_⟩
        simp only [hi, Int.toNat_natCast]
        rcases eq_or_ne k (L.key e) with rfl | hne
        · rw [Finmap.lookup_insert, Finmap.lookup_insert]
          rfl
        · rw [Finmap.lookup_insert_of_ne _ hne, Finmap.lookup_insert_of_ne _ hne]
          exact hat.entries k
      · rw [if_neg hin, if_neg hin]
  · simp only [hopen]
    rfl

end

end Mapped

/-! ### Maps and sets -/

open Mapped

/-- `insert` of a map -/
def PersistentMap.insertAt {Key T K : Type} [DecidableEq Key] [DecidableEq K] (M : MapTypes Key T K)
    (value : Key × T) (addr : ℤ) (m : Mapped (Key × T) K) : Option (ℤ × Bool × Mapped (Key × T) K) :=
  emplace (PersistentMap.layout M) addr value m

/-- `operator[]` of a map -/
def PersistentMap.subscriptAt {Key T K : Type} [DecidableEq Key] [DecidableEq K] (M : MapTypes Key T K)
    (key : Key) (addr : ℤ) (m : Mapped (Key × T) K) : Option (ℤ × Bool × Mapped (Key × T) K) :=
  emplace (PersistentMap.layout M) addr (key, M.defaultValue) m

/-- `insert` of a set -/
def PersistentSet.insertAt {Entry K : Type} [DecidableEq Entry] [DecidableEq K] (S : SetTypes Entry K)
    (value : Entry) (addr : ℤ) (m : Mapped Entry K) : Option (ℤ × Bool × Mapped Entry K) :=
  emplace (PersistentSet.layout S) addr value m

/-- **When growing the mapping keeps existing entries reachable.** In every open map or set whose entries
can all be reached, however many there are, `insert` and `operator[]` of a new key leave all of them inside
the mapping and as they were, wherever the system maps the file, exactly if there is an unallocated slot
to take, with nobody in it, or the index is empty. -/
theorem mapping_staysReachable_iff {Key T K Entry K' : Type} [DecidableEq Key] [DecidableEq K]
    [DecidableEq Entry] [DecidableEq K'] (M : MapTypes Key T K) (S : SetTypes Entry K')
    (others : List (ℤ × ℤ)) :
    (∀ m : Mapped (Key × T) K, m.Reachable (PersistentMap.layout M) → m.isOpen = true →
      (∀ value : Key × T, m.entries.lookup (M.order value.1) = none →
        (m.StaysReachable (PersistentMap.layout M) others value (PersistentMap.insertAt M value) ↔
          m.KeepsPlaces (PersistentMap.layout M))) ∧
      (∀ key, m.entries.lookup (M.order key) = none →
        (m.StaysReachable (PersistentMap.layout M) others (key, M.defaultValue)
          (PersistentMap.subscriptAt M key) ↔ m.KeepsPlaces (PersistentMap.layout M)))) ∧
    (∀ m : Mapped Entry K', m.Reachable (PersistentSet.layout S) → m.isOpen = true →
      ∀ value, m.entries.lookup (S.order value) = none →
        (m.StaysReachable (PersistentSet.layout S) others value (PersistentSet.insertAt S value) ↔
          m.KeepsPlaces (PersistentSet.layout S))) := by
  refine ⟨fun m hreach hopen => ⟨fun value hnew => ?_, fun key hnew => ?_⟩, fun m hreach hopen value hnew => ?_⟩
  · exact staysReachable_iff hreach hopen hnew
  · exact staysReachable_iff (e := (key, M.defaultValue)) hreach hopen hnew
  · exact staysReachable_iff hreach hopen hnew

section IntMap

/-- A file with one entry and no other slot. -/
def fullIntFile : Container (ℤ × ℤ) ℤ := { freshIntMap with slots := [(1, 2)], mapSize := 8 }

/-- A map on it, mapped at 4096. -/
def fullIntMap : Mapped (ℤ × ℤ) ℤ where
  slots := [(1, 2)]
  mapSize := 8
  isOpen := true
  map := 4096
  entries := (∅ : Finmap fun _ : ℤ => ℤ).insert 1 4096
  unallocated := []

/-- The map is what opening the file gives. -/
theorem fullIntMap_at : ∃ c, Steps (PersistentMap.step intMap) fullIntFile [.openFile] c ∧
    fullIntMap.At (PersistentMap.layout intMap) c := by
  refine ⟨_, .single rfl, rfl, rfl, rfl, rfl, fun k => ?_⟩
  change ((∅ : Finmap fun _ : ℤ => ℤ).insert 1 4096).lookup k =
    (((∅ : Finmap fun _ : ℤ => ℕ).insert 1 0).lookup k).map _
  rcases eq_or_ne k 1 with rfl | hne
  · rw [Finmap.lookup_insert, Finmap.lookup_insert]
    rfl
  · rw [Finmap.lookup_insert_of_ne _ hne, Finmap.lookup_insert_of_ne _ hne]
    rfl

/-- The map with an unallocated slot as well. -/
def roomyIntMap : Mapped (ℤ × ℤ) ℤ :=
  { fullIntMap with slots := [(1, 2), (0, 0)], mapSize := 16, unallocated := [(1, 2)] }

theorem roomyIntMap_staysReachable : roomyIntMap.StaysReachable (PersistentMap.layout intMap) [] (3, 4)
    (PersistentMap.insertAt intMap (3, 4)) := by
  have hlookup : ∀ k, k ≠ 1 → roomyIntMap.entries.lookup k = none := fun k hne =>
    Finmap.lookup_insert_of_ne _ hne
  have hone : roomyIntMap.entries.lookup 1 = some 4096 := Finmap.lookup_insert _
  have hreach : roomyIntMap.Reachable (PersistentMap.layout intMap) := by
    refine ⟨rfl, fun k p hk => ?_⟩
    obtain rfl : k = 1 := by
      by_contra hne
      simp [hlookup k hne] at hk
    exact ⟨0, (1, 2), Option.some.inj (hk.symm.trans hone), rfl, rfl⟩
  refine (((mapping_staysReachable_iff intMap intSet []).1 roomyIntMap hreach rfl).1 (3, 4)
    (hlookup 3 (by decide))).mpr ⟨by decide, by decide, fun k p hk => ?_⟩
  obtain rfl : k = 1 := by
    by_contra hne
    simp [hlookup k hne] at hk
  obtain rfl : p = 4096 := Option.some.inj (hk.symm.trans hone)
  decide

/-- The file grows and is mapped at 8192: the entry of the key 1 is not there. -/
theorem fullIntMap_leftBehind :
    (∃ c, Steps (PersistentMap.step intMap) fullIntFile [.openFile] c ∧
      fullIntMap.At (PersistentMap.layout intMap) c) ∧
    Free [] 8192 (fullIntMap.mapSize + intMap.pairSize * 10) ∧
    ∃ p m', PersistentMap.insertAt intMap (3, 4) 8192 fullIntMap = some (p, true, m') ∧
      m'.entries.lookup 1 = some 4096 ∧ ¬ m'.Inside (PersistentMap.layout intMap) 4096 ∧
      m'.deref (PersistentMap.layout intMap) 4096 = none := by
  refine ⟨fullIntMap_at, ⟨by decide, by simp⟩, _, _, rfl, ?_, ?_, rfl⟩
  · rw [Finmap.lookup_insert_of_ne _ (by decide)]
    exact Finmap.lookup_insert _
  · rintro ⟨hle, -⟩
    exact absurd hle (by decide)

end IntMap

end DecaFS
