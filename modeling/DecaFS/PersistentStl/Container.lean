import Mathlib.Data.Finmap
import DecaFS.PersistentStl.Extents

/-!
# Persistent containers

`persistent_map.h` and `persistent_set.h` keep an array of entries in a mapped file, an index
`entries` from keys to entries of the array, and the extents of the array that hold no entry.
The two headers are one text but for what an entry is and which of its bytes are its key;
`Layout` is that difference and the functions here are the common text.

Pointers into the mapping are slot indices. `clear` and the iterators are left out, and the
file opens. `map_size` and the size of the file agree between calls, so one field is both.
-/

namespace DecaFS

open OrderedList

/-- What a container knows of its entries: the class of the key under `operator<` and the
bytes of the key. -/
structure Layout (E K : Type) where
  key : E → K
  /-- `memcmp` of the key's bytes with `zeros` -/
  isZero : E → Bool
  /-- `memset` of the key's bytes -/
  zero : E → E
  /-- an entry of zero bytes, as `ftruncate` adds them -/
  blank : E
  /-- `sizeof` an entry -/
  size : ℕ
  size_pos : 0 < size
  isZero_blank : isZero blank = true
  zero_of_isZero : ∀ e, isZero e = true → zero e = e

/-- A container and its file. -/
structure Container (E K : Type) where
  /-- the whole entries of the file -/
  slots : List E
  mapSize : ℤ
  /-- `fd >= 0` -/
  isOpen : Bool
  entries : Finmap fun _ : K => ℕ
  unallocated : List (ℤ × ℤ)

namespace Container

variable {E K : Type}

/-- A closed container over a file of the given entries and `rest` bytes more. -/
def onFile (L : Layout E K) (slots : List E) (rest : Fin L.size) : Container E K where
  slots := slots
  mapSize := slots.length * L.size + rest.val
  isOpen := false
  entries := ∅
  unallocated := []

/-- `close` -/
def close (c : Container E K) : Container E K :=
  { c with isOpen := false, entries := ∅, unallocated := [] }

variable [DecidableEq K]

/-- `erase(key)`: the entry leaves the index. -/
def erase (k : K) (c : Container E K) : ℕ × Container E K :=
  if k ∈ c.entries then (1, { c with entries := c.entries.erase k }) else (0, c)

/-- `find(key)` and the entry it points to. -/
def find? (k : K) (c : Container E K) : Option E :=
  (c.entries.lookup k).bind fun p => c.slots[p]?

end Container

namespace Layout

variable {E K : Type} [DecidableEq K] (L : Layout E K)

/-- `allocate`: the first unallocated slot, or the first of ten new ones. -/
def allocate (c : Container E K) : ℤ × Container E K :=
  match c.unallocated with
  | first :: _ => (first.1, { c with unallocated := takeExtent first c.unallocated })
  | [] =>
    let startOfNew := toInt32 (c.mapSize / L.size)
    (startOfNew,
      { c with
        slots := c.slots ++ List.replicate 10 L.blank
        mapSize := c.mapSize + L.size * 10
        unallocated := [(toInt32 (startOfNew + 1), toInt32 (startOfNew + 10))] })

/-- The slot `deallocate` computes for the slot `p`: `(p - map)` counts entries already. -/
def slotIndex (p : ℕ) : ℤ := toInt32 (p / L.size)

/-- `deallocate` -/
def deallocate (p : ℕ) (c : Container E K) : Container E K :=
  { c with
    slots := c.slots.modify p L.zero
    unallocated := insertExtent (L.slotIndex p) c.unallocated }

/-- The body of the loop in `open`. -/
def scanEntry (p : ℕ) (e : E) (c : Container E K) : Container E K :=
  if L.isZero e then L.deallocate p c
  else { c with entries := if L.key e ∈ c.entries then c.entries else c.entries.insert (L.key e) p }

/-- The loop in `open`, from slot `p` on. -/
def scan : ℕ → List E → Container E K → Container E K
  | _, [], c => c
  | p, e :: es, c => scan (p + 1) es (L.scanEntry p e c)

/-- `open`. It reports an error on an empty file, which cannot be mapped. -/
def openFile (c : Container E K) : ℤ × Container E K :=
  let c := { c with isOpen := true }
  (if c.mapSize = 0 then -1 else 0, L.scan 0 c.slots c)

/-- The common part of `insert` and `operator[]`: the slot of the key of `e`, with `e` in a
slot of its own when the key is new. `none` is a write outside the mapping. -/
def emplace (e : E) (c : Container E K) : Option (ℕ × Bool × Container E K) :=
  if c.isOpen then
    match c.entries.lookup (L.key e) with
    | some p => some (p, false, c)
    | none =>
      let (p, c) := L.allocate c
      if 0 ≤ p ∧ p < c.slots.length then
        some (p.toNat, true,
          { c with
            slots := c.slots.set p.toNat e
            entries := c.entries.insert (L.key e) p.toNat })
      else none
  else none

/-- A call on a container. `emplace e f` is a call that looks up or makes the entry of the key
of `e` and then edits it by `f`. -/
inductive Call (E K : Type) : Type
  | openFile
  | emplace (e : E) (f : E → E)
  | erase (k : K)
  | close

/-- The container after a call. -/
def apply (call : Call E K) (c : Container E K) : Option (Container E K) :=
  match call with
  | .openFile => some (L.openFile c).2
  | .emplace e f => (L.emplace e c).map fun r => { r.2.2 with slots := r.2.2.slots.modify r.1 f }
  | .erase k => some (c.erase k).2
  | .close => some c.close

/-- The calls of a program: new entries have a nonzero key, and edits leave the key alone. -/
def KeyNonzero : Call E K → Prop
  | .emplace e f => L.isZero e = false ∧ ∀ x, L.key (f x) = L.key x ∧ L.isZero (f x) = L.isZero x
  | _ => True

/-! ### The calls, case by case -/

variable {L} {c c' : Container E K} {e : E} {k : K} {p q : ℕ} {b : Bool}

omit [DecidableEq K] in
@[simp]
theorem allocate_entries : (L.allocate c).2.entries = c.entries := by
  unfold allocate
  split <;> rfl

omit [DecidableEq K] in
/-- Allocation leaves the slots there are as they are. -/
theorem allocate_slots_getElem? (h : q < c.slots.length) :
    (L.allocate c).2.slots[q]? = c.slots[q]? := by
  unfold allocate
  split
  · rfl
  · exact List.getElem?_append_left h

omit [DecidableEq K] in
/-- A slot allocation adds is blank. -/
theorem allocate_slots_of_some (h : (L.allocate c).2.slots[q]? = some e) :
    c.slots[q]? = some e ∨ (c.slots.length ≤ q ∧ e = L.blank) := by
  unfold allocate at h
  split at h
  · exact .inl h
  · rcases lt_or_ge q c.slots.length with hq | hq
    · exact .inl (by rwa [List.getElem?_append_left hq] at h)
    · rw [List.getElem?_append_right hq, List.getElem?_replicate] at h
      exact .inr ⟨hq, by split_ifs at h; exact (Option.some.inj h).symm⟩

/-- `emplace` finds the key or writes the entry to the slot it allocates. -/
theorem emplace_cases (h : L.emplace e c = some (p, b, c')) :
    (c.entries.lookup (L.key e) = some p ∧ c' = c) ∨
      (c.entries.lookup (L.key e) = none ∧ (L.allocate c).1 = p ∧
        p < (L.allocate c).2.slots.length ∧
        c' = { (L.allocate c).2 with
          slots := (L.allocate c).2.slots.set p e
          entries := c.entries.insert (L.key e) p }) := by
  unfold emplace at h
  split_ifs at h
  cases hl : c.entries.lookup (L.key e) with
  | some q =>
    obtain ⟨rfl, -, rfl⟩ : q = p ∧ false = b ∧ c = c' := by simpa [hl] using h
    exact .inl ⟨rfl, rfl⟩
  | none =>
    simp only [hl, allocate_entries, Option.ite_none_right_eq_some, Option.some.injEq,
      Prod.mk.injEq] at h
    obtain ⟨hp, rfl, -, rfl⟩ := h
    exact .inr ⟨rfl, by omega, by omega, rfl⟩

/-! ### The scan -/

theorem scanEntry_slots (h : c.slots[p]? = some e) : (L.scanEntry p e c).slots = c.slots := by
  unfold scanEntry
  by_cases hz : L.isZero e = true
  · rw [if_pos hz]
    refine List.ext_getElem? fun q => ?_
    rw [deallocate, List.getElem?_modify]
    rcases eq_or_ne p q with rfl | hne
    · simp [h, L.zero_of_isZero e hz]
    · simp [hne]
  · rw [if_neg hz]

/-- **The loop rule of the scan.** What each slot keeps holds at the end, and the slots are
what they were. -/
theorem scan_rule {I : ℕ → Container E K → Prop} {slots : List E}
    (hstep : ∀ p e c, c.slots = slots → slots[p]? = some e → I p c → I (p + 1) (L.scanEntry p e c))
    (hslots : c.slots = slots) (hI : I 0 c) :
    (L.scan 0 slots c).slots = slots ∧ I slots.length (L.scan 0 slots c) := by
  suffices hfrom : ∀ (es : List E) (p : ℕ) (c : Container E K), slots.drop p = es →
      p + es.length = slots.length → c.slots = slots → I p c →
      (L.scan p es c).slots = slots ∧ I slots.length (L.scan p es c) from
    hfrom slots 0 c rfl (by simp) hslots hI
  intro es
  induction es with
  | nil =>
    intro p c _ hlen hc hIp
    exact ⟨hc, hlen ▸ hIp⟩
  | cons e es ih =>
    intro p c hdrop hlen hc hIp
    have hp : slots[p]? = some e := by
      rw [← List.head?_drop, hdrop, List.head?_cons]
    refine ih (p + 1) _ ?_ (by simpa [Nat.add_right_comm, Nat.add_assoc] using hlen) ?_
      (hstep p e c hc hp hIp)
    · rw [← List.drop_drop, hdrop, List.drop_one, List.tail_cons]
    · rw [scanEntry_slots (hc ▸ hp), hc]

end Layout

end DecaFS
