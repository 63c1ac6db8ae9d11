import Mathlib.Data.Prod.Lex
import DecaFS.ForMathlib.Intervals
import DecaFS.ForMathlib.OrderedList
import DecaFS.Types.Machine

/-!
# The unallocated extents of a persistent container

`unallocated_extents` of `persistent_map.h` and `persistent_set.h` is a
`std::set<std::pair<int, int> >` of half-open ranges of slot indices, in the order of pairs.
`insertExtent` is the part of `deallocate` that puts one slot back, `takeExtent` the part of
`allocate` that takes the first slot.

On a canonical list of extents both are the interval operations: `insertExtent` is a `merge`
and `takeExtent` a `carve`.
-/

namespace DecaFS

open OrderedList Intervals

/-- Join `newExtent` with the extent `before` it, which leaves the set. -/
def joinBefore (before : Option (ℤ × ℤ)) (newExtent : ℤ × ℤ) (extents : List (ℤ × ℤ)) :
    (ℤ × ℤ) × List (ℤ × ℤ) :=
  match before with
  | none => (newExtent, extents)
  | some b => if b.2 = newExtent.1 then ((b.1, newExtent.2), eraseKey toLex (toLex b) extents)
    else (newExtent, extents)

/-- Join `newExtent` with the extent `after` it, which leaves the set. -/
def joinAfter (after : Option (ℤ × ℤ)) (newExtent : ℤ × ℤ) (extents : List (ℤ × ℤ)) :
    (ℤ × ℤ) × List (ℤ × ℤ) :=
  match after with
  | none => (newExtent, extents)
  | some a => if a.1 = newExtent.2 then ((newExtent.1, a.2), eraseKey toLex (toLex a) extents)
    else (newExtent, extents)

/-- Insert the slot `start`, joined with the extents that end or begin there. -/
def insertExtent (start : ℤ) (extents : List (ℤ × ℤ)) : List (ℤ × ℤ) :=
  let newExtent : ℤ × ℤ := (start, toInt32 (start + 1))
  if extents.isEmpty then
    insertKey toLex newExtent extents
  else
    let after := (atLeast toLex (toLex newExtent) extents).head?
    let before := (below toLex (toLex newExtent) extents).getLast?
    let (newExtent, extents) := joinBefore before newExtent extents
    let (newExtent, extents) := joinAfter after newExtent extents
    insertKey toLex newExtent extents

/-- Take the first slot of `first`, the first of the `extents`. -/
def takeExtent (first : ℤ × ℤ) (extents : List (ℤ × ℤ)) : List (ℤ × ℤ) :=
  if first.1 + 1 = first.2 then
    eraseKey toLex (toLex first) extents
  else
    insertKey toLex (first.1 + 1, first.2) (eraseKey toLex (toLex first) extents)

variable {l L R : List (ℤ × ℤ)} {m : ℤ × ℤ} {s : ℤ}

private theorem lex_lt_of_fst_lt {a b : ℤ × ℤ} (h : a.1 < b.1) : toLex a < toLex b :=
  Prod.Lex.toLex_lt_toLex.mpr (.inl h)

theorem Intervals.Canonical.sorted_toLex (h : Canonical l) : Sorted toLex l :=
  h.2.imp_of_mem fun {a _} ha _ hab => lex_lt_of_fst_lt ((h.1 a ha).trans hab)

/-- A canonical list split at a point outside its cover. -/
private theorem Canonical.exists_split (h : Canonical l) (hs : s ∉ cover l) :
    ∃ L R, l = L ++ R ∧ (∀ a ∈ L, a.1 < s ∧ a.2 ≤ s) ∧ ∀ b ∈ R, s + 1 ≤ b.1 := by
  refine ⟨below Prod.fst s l, atLeast Prod.fst s l, (below_append_atLeast _ s l).symm,
    fun a ha => ?_, fun b hb => ?_⟩
  · have hlt := lt_of_mem_below ha
    refine ⟨hlt, not_lt.mp fun hcon => hs ⟨a, ?_, hlt.le, hcon⟩⟩
    exact (below_append_atLeast Prod.fst s l) ▸ List.mem_append_left _ ha
  · have hmem : b ∈ l :=
      (below_append_atLeast Prod.fst s l) ▸ List.mem_append_right _ hb
    have hsorted : Sorted Prod.fst l :=
      h.2.imp_of_mem fun {a _} ha _ hab => (h.1 a ha).trans hab
    have hle := hsorted.le_of_mem_atLeast hb
    have hne : b.1 ≠ s := fun heq => hs ⟨b, hmem, heq.le, heq ▸ h.1 b hmem⟩
    omega

private theorem joinBefore_append {e : ℤ} (h : Sorted toLex (L ++ R)) :
    joinBefore L.getLast? (s, e) (L ++ R) = (((joinLeft L s).2, e), (joinLeft L s).1 ++ R) := by
  induction L using List.reverseRecOn with
  | nil => rfl
  | append_singleton L b _ =>
    rw [List.getLast?_append_cons, List.append_assoc, List.singleton_append] at *
    by_cases hb : b.2 = s
    · simp [joinBefore, hb, joinLeft_append_of_eq hb, eraseKey_append h]
    · simp [joinBefore, hb, joinLeft_append_of_ne hb]

private theorem joinAfter_append {e : ℤ} (h : Sorted toLex (L ++ R)) :
    joinAfter R.head? (s, e) (L ++ R) = ((s, (joinRight R e).2), L ++ (joinRight R e).1) := by
  cases R with
  | nil => rfl
  | cons a R =>
    by_cases ha : a.1 = e
    · simp [joinAfter, joinRight, ha, eraseKey_append h]
    · simp [joinAfter, joinRight, ha]

/-- Giving a slot back to a canonical list of extents merges it in. -/
theorem insertExtent_eq_merge (h : Canonical (L ++ R)) (hmax : s < intMax) (hmin : -2147483648 ≤ s)
    (hL : ∀ a ∈ L, a.1 < s ∧ a.2 ≤ s) (hR : ∀ b ∈ R, s + 1 ≤ b.1) :
    insertExtent s (L ++ R) = merge L s (s + 1) R := by
  have hs32 : toInt32 (s + 1) = s + 1 := toInt32_eq (by omega) (by omega)
  have hLlt : ∀ a ∈ L, toLex a < toLex (s, s + 1) := fun a ha => lex_lt_of_fst_lt (hL a ha).1
  have hRle : ∀ b ∈ R, toLex (s, s + 1) ≤ toLex b := fun b hb =>
    (lex_lt_of_fst_lt (by have := hR b hb; dsimp only; omega)).le
  have hmerged : insertKey toLex ((joinLeft L s).2, (joinRight R (s + 1)).2)
      ((joinLeft L s).1 ++ (joinRight R (s + 1)).1) = merge L s (s + 1) R := by
    have hcan : Canonical (merge L s (s + 1) R) :=
      canonical_merge (h.sublist (List.sublist_append_left L R))
        (h.sublist (List.sublist_append_right L R)) (by omega) (fun a ha => (hL a ha).2) hR
    obtain ⟨hL', -, hlt, hlo, hhi⟩ := canonical_append_cons.mp hcan
    refine insertKey_append (fun b hb => lex_lt_of_fst_lt ?_) fun b hb => lex_lt_of_fst_lt ?_
    · exact (hL'.1 b hb).trans (hlo b hb)
    · exact hlt.trans (hhi b hb)
  have hjoined : Sorted toLex ((joinLeft L s).1 ++ R) :=
    h.sorted_toLex.sublist ((joinLeft_sublist L s).append_right R)
  simp only [insertExtent, hs32, below_append hLlt hRle, atLeast_append hLlt hRle,
    joinBefore_append h.sorted_toLex, joinAfter_append hjoined, hmerged]
  split_ifs with hempty
  · obtain ⟨rfl, rfl⟩ := List.append_eq_nil_iff.mp (List.isEmpty_iff.mp hempty)
    simp [merge, joinLeft, joinRight, insertKey, atLeast, below]
  · rfl

/-- Giving back a slot no extent holds keeps the extents canonical and adds that slot. -/
theorem insertExtent_spec (h : Canonical l) (hmin : -2147483648 ≤ s) (hmax : s < intMax)
    (hs : s ∉ cover l) :
    Canonical (insertExtent s l) ∧ ∀ x, x ∈ cover (insertExtent s l) ↔ x ∈ cover l ∨ x = s := by
  obtain ⟨L, R, rfl, hL, hR⟩ := Canonical.exists_split h hs
  rw [insertExtent_eq_merge h hmax hmin hL hR]
  have hcL := h.sublist (List.sublist_append_left L R)
  have hcR := h.sublist (List.sublist_append_right L R)
  refine ⟨canonical_merge hcL hcR (by omega) (fun a ha => (hL a ha).2) hR, fun x => ?_⟩
  rw [mem_cover_merge hcL hcR (by omega) (fun a ha => (hL a ha).2) hR]
  exact or_congr_right (by omega)

/-- The first extent at or behind a new one at `intMax` does not begin where that one ends. -/
private theorem fst_ne_of_head? {e : ℤ} {a : ℤ × ℤ} (h : Canonical l) (he : e < intMax)
    (ha : a ∈ (atLeast toLex (toLex (intMax, e)) l).head?) : a.1 ≠ e := by
  have hle := h.sorted_toLex.le_of_mem_atLeast (List.mem_of_mem_head? ha)
  rcases Prod.Lex.toLex_le_toLex.mp hle with hlt | ⟨heq, -⟩
  · exact (he.trans hlt).ne'
  · exact heq ▸ he.ne'

/-- The end of an extent at `intMax` wraps: the slot is not recorded. -/
theorem intMax_notMem_insertExtent (h : Canonical l) (hs : intMax ∉ cover l) :
    intMax ∉ cover (insertExtent intMax l) := by
  have hend : toInt32 (intMax + 1) < intMax := by decide
  have hinsert : ∀ {a : ℤ × ℤ} {l' : List (ℤ × ℤ)}, a.2 < intMax → l'.Sublist l →
      intMax ∉ cover (insertKey toLex a l') := by
    rintro a l' ha hl' ⟨m, hm, hlo, hhi⟩
    have hmem : m = a ∨ m ∈ l' := by
      rcases insertKey_eq_or toLex a l' with heq | hperm
      · exact .inr (heq ▸ hm)
      · exact List.mem_cons.mp (hperm.mem_iff.mp hm)
    rcases hmem with rfl | hm
    · exact absurd hhi ha.not_gt
    · exact hs ⟨m, hl'.subset hm, hlo, hhi⟩
  have hbefore : ∀ b, (joinBefore b (intMax, toInt32 (intMax + 1)) l).1.2 = toInt32 (intMax + 1) ∧
      (joinBefore b (intMax, toInt32 (intMax + 1)) l).2.Sublist l := by
    intro b
    unfold joinBefore
    split
    · exact ⟨rfl, List.Sublist.refl _⟩
    · split_ifs
      · exact ⟨rfl, eraseKey_sublist ..⟩
      · exact ⟨rfl, List.Sublist.refl _⟩
  unfold insertExtent
  dsimp only
  split_ifs
  · exact hinsert hend (List.Sublist.refl _)
  · obtain ⟨hsnd, hsub⟩ := hbefore (below toLex (toLex (intMax, toInt32 (intMax + 1))) l).getLast?
    cases hafter : (atLeast toLex (toLex (intMax, toInt32 (intMax + 1))) l).head? with
    | none => exact hinsert (hsnd.trans_lt hend) hsub
    | some a =>
      rw [joinAfter, if_neg (by rw [hsnd]; exact fst_ne_of_head? h hend hafter)]
      exact hinsert (hsnd.trans_lt hend) hsub

/-- Taking the first slot of the first extent carves it off. -/
theorem takeExtent_eq_carve (h : Canonical (m :: R)) : takeExtent m (m :: R) = carve [] 1 m R := by
  obtain ⟨-, -, hlt, -, hmR⟩ := canonical_append_cons (L := []).mp h
  have herase : eraseKey toLex (toLex m) (m :: R) = R := eraseKey_append (L := []) h.sorted_toLex
  by_cases heq : m.1 + 1 = m.2
  · simp [takeExtent, carve, heq, herase]
  · have hR : ∀ b ∈ R, toLex (m.1 + 1, m.2) < toLex b := fun b hb =>
      lex_lt_of_fst_lt (by have := hmR b hb; dsimp only; omega)
    rw [takeExtent, if_neg heq, herase, carve, if_pos (by omega)]
    exact insertKey_append (L := []) (by simp) hR

/-- Taking a slot keeps the extents canonical and removes that slot. -/
theorem takeExtent_spec (h : Canonical (m :: R)) :
    Canonical (takeExtent m (m :: R)) ∧
      ∀ x, x ∈ cover (takeExtent m (m :: R)) ↔ x ∈ cover (m :: R) ∧ x ≠ m.1 := by
  have hlt := h.1 m List.mem_cons_self
  rw [takeExtent_eq_carve h]
  refine ⟨canonical_carve (L := []) h (by omega), fun x => ?_⟩
  rw [mem_cover_carve (L := []) h (by omega) (by omega)]
  exact and_congr_right fun _ => by omega

end DecaFS
