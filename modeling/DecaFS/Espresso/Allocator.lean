import DecaFS.ForMathlib.Intervals
import DecaFS.Espresso.Storage

/-!
# The extent allocator of the chunk store

What `allocate_chunk`, `deallocate_chunk` and the cleaning up in `reallocate_chunk` do to the
free extents. The extents are intervals of file positions; on a canonical list of them
`deallocate_chunk` is a `merge` and `allocate_chunk` a `carve`, and the cleaning up restores
the list the deallocation found, whichever neighbours it had merged.
-/

namespace DecaFS

open OrderedList Intervals Code

/-- The positions of an extent. -/
def DataAddress.interval (a : DataAddress) : ℤ × ℤ := (a.offset, a.offset + a.size)

namespace EspressoData

/-- The free positions. -/
def free (s : EspressoData) : Set ℤ := cover (s.freeExtents.map DataAddress.interval)

/-- The free extents are canonical intervals. -/
def FreeCanonical (s : EspressoData) : Prop := Canonical (s.freeExtents.map DataAddress.interval)

end EspressoData

namespace Espresso

variable {L R Lk Rk l : List DataAddress} {Ll Rl : Option DataAddress} {a b : DataAddress}
  {s : EspressoData} {size : ℤ}

theorem sorted_offset (h : Canonical (l.map DataAddress.interval)) :
    Sorted DataAddress.offset l := by
  refine (List.pairwise_map.mp h.2).imp_of_mem fun {x _} hx _ hxy => ?_
  exact (h.1 _ (List.mem_map_of_mem hx)).trans hxy

/-! ### Neighbours -/

/-- An extent list as the part kept and the last extent, when it ends at `p`. -/
theorem exists_left (L : List DataAddress) (p : ℤ) : ∃ Lk Ll, L = Lk ++ Option.toList Ll ∧
    (∀ b ∈ Ll, b.offset + b.size = p) ∧ (Ll = none → ∀ b ∈ L.getLast?, b.offset + b.size ≠ p) := by
  induction L using List.reverseRecOn with
  | nil => exact ⟨[], none, by simp, by simp, by simp⟩
  | append_singleton L b _ =>
    by_cases hb : b.offset + b.size = p
    · exact ⟨L, some b, by simp, by simpa using hb, by simp⟩
    · exact ⟨L ++ [b], none, by simp, by simp, by simpa using hb⟩

/-- An extent list as the first extent, when it begins at `p`, and the part kept. -/
theorem exists_right (R : List DataAddress) (p : ℤ) : ∃ Rl Rk, R = Option.toList Rl ++ Rk ∧
    (∀ b ∈ Rl, b.offset = p) ∧ (Rl = none → ∀ b ∈ R.head?, b.offset ≠ p) := by
  cases R with
  | nil => exact ⟨none, [], by simp, by simp, by simp⟩
  | cons b R =>
    by_cases hb : b.offset = p
    · exact ⟨some b, R, by simp, by simpa using hb, by simp⟩
    · exact ⟨none, b :: R, by simp, by simp, by simpa using hb⟩

/-- The extent `a` joined with its neighbours. -/
def joined (Ll : Option DataAddress) (a : DataAddress) (Rl : Option DataAddress) : DataAddress :=
  ⟨Ll.elim a.offset DataAddress.offset,
    Ll.elim 0 DataAddress.size + a.size + Rl.elim 0 DataAddress.size⟩

/-- The extents in front of `a` are those of `Lk` and `Ll`, and it is joined with `Ll` and `Rl`. -/
structure Beside (Lk : List DataAddress) (Ll : Option DataAddress) (a : DataAddress)
    (Rl : Option DataAddress) (Rk : List DataAddress) : Prop where
  sorted : Sorted DataAddress.offset (Lk ++ Ll.toList ++ (Rl.toList ++ Rk))
  left_lt : ∀ b ∈ Lk ++ Ll.toList, b.offset < a.offset
  right_le : ∀ b ∈ Rl.toList ++ Rk, a.offset ≤ b.offset
  left_eq : ∀ b ∈ Ll, b.offset + b.size = a.offset
  left_ne : Ll = none → ∀ b ∈ (Lk ++ Ll.toList).getLast?, b.offset + b.size ≠ a.offset
  right_eq : ∀ b ∈ Rl, b.offset = a.offset + a.size
  right_ne : Rl = none → ∀ b ∈ (Rl.toList ++ Rk).head?, b.offset ≠ a.offset + a.size

namespace Beside

theorem lowerBound_eq (h : Beside Lk Ll a Rl Rk) :
    (atLeast DataAddress.offset a.offset (Lk ++ Ll.toList ++ (Rl.toList ++ Rk))).head? =
      (Rl.toList ++ Rk).head? := by
  rw [atLeast_append h.left_lt h.right_le]

theorem beforeLowerBound_eq (h : Beside Lk Ll a Rl Rk) :
    (below DataAddress.offset a.offset (Lk ++ Ll.toList ++ (Rl.toList ++ Rk))).getLast? =
      (Lk ++ Ll.toList).getLast? := by
  rw [below_append h.left_lt h.right_le]

theorem left_lt_of_some (h : Beside Lk (some b) a Rl Rk) : ∀ x ∈ Lk, x.offset < b.offset := by
  have hsorted := h.sorted
  simp only [Option.toList_some, List.append_assoc, List.singleton_append] at hsorted
  exact fun x hx => (List.pairwise_append.mp hsorted).2.2 x hx b List.mem_cons_self

theorem lt_right_of_some (h : Beside Lk Ll a (some b) Rk) : ∀ x ∈ Rk, b.offset < x.offset := fun _ hx =>
  List.rel_of_pairwise_cons (List.pairwise_append.mp h.sorted).2.1 hx

theorem lt_of_some (h : Beside Lk (some b) a Rl Rk) : b.offset < a.offset := h.left_lt b (by simp)

end Beside

/-- Where an extent lies among sorted ones. -/
theorem exists_beside (hsorted : Sorted DataAddress.offset l) (a : DataAddress) :
    ∃ Lk Ll Rl Rk, l = Lk ++ Ll.toList ++ (Rl.toList ++ Rk) ∧ Beside Lk Ll a Rl Rk := by
  have hsplit := below_append_atLeast DataAddress.offset a.offset l
  obtain ⟨Lk, Ll, hL, hl, hl'⟩ := exists_left (below DataAddress.offset a.offset l) a.offset
  obtain ⟨Rl, Rk, hR, hr, hr'⟩ := exists_right (atLeast DataAddress.offset a.offset l)
    (a.offset + a.size)
  have hall : l = Lk ++ Ll.toList ++ (Rl.toList ++ Rk) := by rw [← hL, ← hR, hsplit]
  refine ⟨Lk, Ll, Rl, Rk, hall, hall ▸ hsorted, fun b hb => ?_, fun b hb => ?_, hl, ?_, hr, ?_⟩
  · exact lt_of_mem_below (hL ▸ hb)
  · exact hsorted.le_of_mem_atLeast (hR ▸ hb)
  · rwa [← hL]
  · rwa [← hR]

/-- `a` lies between `L` and `R`, and touches exactly the neighbours `Ll` and `Rl`. -/
structure Fits (Lk : List DataAddress) (Ll : Option DataAddress) (a : DataAddress)
    (Rl : Option DataAddress) (Rk : List DataAddress) : Prop where
  canonical : Canonical ((Lk ++ Ll.toList ++ (Rl.toList ++ Rk)).map DataAddress.interval)
  size_pos : 0 < a.size
  left_le : ∀ b ∈ Lk ++ Ll.toList, b.offset + b.size ≤ a.offset
  le_right : ∀ b ∈ Rl.toList ++ Rk, a.offset + a.size ≤ b.offset
  left_eq : ∀ b ∈ Ll, b.offset + b.size = a.offset
  left_ne : Ll = none → ∀ b ∈ (Lk ++ Ll.toList).getLast?, b.offset + b.size ≠ a.offset
  right_eq : ∀ b ∈ Rl, b.offset = a.offset + a.size
  right_ne : Rl = none → ∀ b ∈ (Rl.toList ++ Rk).head?, b.offset ≠ a.offset + a.size

namespace Fits

theorem pos_of_mem (h : Fits Lk Ll a Rl Rk) (hb : b ∈ Lk ++ Ll.toList ++ (Rl.toList ++ Rk)) :
    0 < b.size := by
  have := h.canonical.1 _ (List.mem_map_of_mem hb)
  simp only [DataAddress.interval] at this
  omega

theorem offset_lt (h : Fits Lk Ll a Rl Rk) (hb : b ∈ Lk ++ Ll.toList) : b.offset < a.offset := by
  have := h.left_le b hb
  have := h.pos_of_mem (List.mem_append_left _ hb)
  omega

theorem map_joined (h : Fits Lk Ll a Rl Rk) :
    (Lk ++ joined Ll a Rl :: Rk).map DataAddress.interval =
      merge ((Lk ++ Ll.toList).map DataAddress.interval) a.offset (a.offset + a.size)
        ((Rl.toList ++ Rk).map DataAddress.interval) := by
  have hleft : joinLeft ((Lk ++ Ll.toList).map DataAddress.interval) a.offset =
      (Lk.map DataAddress.interval, Ll.elim a.offset DataAddress.offset) := by
    cases Ll with
    | some b =>
      simp only [Option.toList_some, List.map_append, List.map_cons, List.map_nil]
      exact joinLeft_append_of_eq (h.left_eq b rfl)
    | none =>
      simp only [Option.toList_none, List.append_nil, Option.elim_none]
      induction Lk using List.reverseRecOn with
      | nil => rfl
      | append_singleton Lk b _ =>
        simp only [List.map_append, List.map_cons, List.map_nil]
        exact joinLeft_append_of_ne (h.left_ne rfl b (by simp))
  have hright : joinRight ((Rl.toList ++ Rk).map DataAddress.interval) (a.offset + a.size) =
      (Rk.map DataAddress.interval, a.offset + a.size + Rl.elim 0 DataAddress.size) := by
    cases Rl with
    | some b =>
      have hb := h.right_eq b rfl
      simp [joinRight, DataAddress.interval, hb]
    | none =>
      cases Rk with
      | nil => simp [joinRight]
      | cons b Rk =>
        have hb := h.right_ne rfl b (by simp)
        simp [joinRight, DataAddress.interval, hb]
  rw [merge, hleft, hright]
  cases Ll with
  | none => simp [joined, DataAddress.interval, add_assoc]
  | some b =>
    have hb := h.left_eq b rfl
    simp only [joined, DataAddress.interval, Option.elim_some, List.map_append, List.map_cons]
    rw [show b.offset + (b.size + a.size + Rl.elim 0 DataAddress.size) =
      a.offset + a.size + Rl.elim 0 DataAddress.size by omega]

theorem sorted (h : Fits Lk Ll a Rl Rk) :
    Sorted DataAddress.offset (Lk ++ Ll.toList ++ (Rl.toList ++ Rk)) :=
  sorted_offset h.canonical

theorem canonical_left (h : Fits Lk Ll a Rl Rk) :
    Canonical ((Lk ++ Ll.toList).map DataAddress.interval) :=
  h.canonical.sublist ((List.sublist_append_left _ _).map _)

theorem canonical_right (h : Fits Lk Ll a Rl Rk) :
    Canonical ((Rl.toList ++ Rk).map DataAddress.interval) :=
  h.canonical.sublist ((List.sublist_append_right _ _).map _)

theorem hi_le (h : Fits Lk Ll a Rl Rk) :
    ∀ m ∈ (Lk ++ Ll.toList).map DataAddress.interval, m.2 ≤ a.offset :=
  List.forall_mem_map.mpr h.left_le

theorem le_lo (h : Fits Lk Ll a Rl Rk) :
    ∀ m ∈ (Rl.toList ++ Rk).map DataAddress.interval, a.offset + a.size ≤ m.1 :=
  List.forall_mem_map.mpr h.le_right

theorem canonical_joined (h : Fits Lk Ll a Rl Rk) :
    Canonical ((Lk ++ joined Ll a Rl :: Rk).map DataAddress.interval) := by
  rw [h.map_joined]
  exact canonical_merge h.canonical_left h.canonical_right (by have := h.size_pos; omega)
    h.hi_le h.le_lo

theorem mem_cover_joined (h : Fits Lk Ll a Rl Rk) (x : ℤ) :
    x ∈ cover ((Lk ++ joined Ll a Rl :: Rk).map DataAddress.interval) ↔
      x ∈ cover ((Lk ++ Ll.toList ++ (Rl.toList ++ Rk)).map DataAddress.interval) ∨
        (a.offset ≤ x ∧ x < a.offset + a.size) := by
  rw [h.map_joined, mem_cover_merge h.canonical_left h.canonical_right
    (by have := h.size_pos; omega) h.hi_le h.le_lo, ← List.map_append]

theorem beside (h : Fits Lk Ll a Rl Rk) : Beside Lk Ll a Rl Rk where
  sorted := h.sorted
  left_lt _ hb := h.offset_lt hb
  right_le b hb := by
    have := h.le_right b hb
    have := h.size_pos
    omega
  left_eq := h.left_eq
  left_ne := h.left_ne
  right_eq := h.right_eq
  right_ne := h.right_ne

end Fits

/-- Where a used extent lies among the free ones. -/
theorem exists_fits (hcan : s.FreeCanonical) (hsize : 0 < a.size)
    (hfree : ∀ x, a.offset ≤ x → x < a.offset + a.size → x ∉ s.free) :
    ∃ Lk Ll Rl Rk, s.freeExtents = Lk ++ Ll.toList ++ (Rl.toList ++ Rk) ∧ Fits Lk Ll a Rl Rk := by
  obtain ⟨Lk, Ll, Rl, Rk, hall, h⟩ := exists_beside (sorted_offset hcan) a
  have hside : ∀ b ∈ s.freeExtents, 0 < b.size ∧ (b.offset + b.size ≤ a.offset ∨
      a.offset + a.size ≤ b.offset) := fun b hb => by
    have hpos := hcan.1 _ (List.mem_map_of_mem hb)
    have hapart := hcan.hi_le_or_le_lo (by omega) hfree (List.mem_map_of_mem hb)
    simp only [DataAddress.interval] at hpos hapart
    omega
  refine ⟨Lk, Ll, Rl, Rk, hall, hall ▸ hcan, hsize, fun b hb => ?_, fun b hb => ?_, h.left_eq,
    h.left_ne, h.right_eq, h.right_ne⟩
  · have := hside b (hall ▸ List.mem_append_left _ hb)
    have := h.left_lt b hb
    omega
  · have := hside b (hall ▸ List.mem_append_right _ hb)
    have := h.right_le b hb
    omega

/-! ### The functions -/

variable {α : Type} {Q : DataAddress → EspressoData → Prop} {E : EspressoSite → Prop}

theorem wp_joinAfter (h : Beside Lk Ll a Rl Rk)
    (hs : s.freeExtents = Lk ++ Ll.toList ++ (Rl.toList ++ Rk))
    (hQ : Q { a with size := a.size + Rl.elim 0 DataAddress.size }
      { s with freeExtents := Lk ++ Ll.toList ++ Rk }) :
    wp (joinAfter (Rl.toList ++ Rk).head? a) Q E s := by
  cases Rl with
  | some b =>
    have herase := eraseKey_append (L := Lk ++ Ll.toList) (a := b) (R := Rk) h.sorted
    have hb := h.right_eq b rfl
    rw [hb, List.append_assoc] at herase
    simp only [Option.toList_some, List.singleton_append] at hs
    simpa [joinAfter, hb, eraseExtent, hs, herase] using hQ
  | none =>
    simp only [Option.toList_none, List.nil_append] at hs ⊢
    have hQ' : Q a s := by simpa [← hs] using hQ
    cases hRk : Rk.head? with
    | none => simpa [joinAfter] using hQ'
    | some b =>
      have hb := h.right_ne rfl b (by simpa using hRk)
      simpa [joinAfter, hb] using hQ'

theorem wp_joinBefore (h : Beside Lk Ll a Rl Rk) (hs : s.freeExtents = Lk ++ Ll.toList ++ Rk)
    (hQ : Q ⟨Ll.elim a.offset DataAddress.offset, size + Ll.elim 0 DataAddress.size⟩
      { s with freeExtents := Lk ++ Rk }) :
    wp (joinBefore (Lk ++ Ll.toList).getLast? ⟨a.offset, size⟩) Q E s := by
  cases Ll with
  | some b =>
    have herase := eraseKey_append (L := Lk) (a := b) (R := Rk) (h.sorted.sublist (by simp))
    have hb := h.left_eq b rfl
    simp only [Option.toList_some, List.append_assoc, List.singleton_append] at hs
    simpa [joinBefore, hb, eraseExtent, hs, herase] using hQ
  | none =>
    simp only [Option.toList_none, List.append_nil] at hs ⊢
    have hQ' : Q ⟨a.offset, size⟩ s := by simpa [← hs] using hQ
    cases hLk : Lk.getLast? with
    | none => simpa [joinBefore] using hQ'
    | some b =>
      have hb := h.left_ne rfl b (by simpa using hLk)
      simpa [joinBefore, hb] using hQ'

theorem wp_deallocateChunk_beside (h : Beside Lk Ll a Rl Rk)
    (hs : s.freeExtents = Lk ++ Ll.toList ++ (Rl.toList ++ Rk)) {Q : PUnit → EspressoData → Prop}
    (hQ : Q ⟨⟩ { s with freeExtents := insertKey DataAddress.offset (joined Ll a Rl) (Lk ++ Rk) }) :
    wp (deallocateChunk a) Q E s := by
  simp only [deallocateChunk, wp_bind, lowerBound, beforeLowerBound, wp_get, wp_pure, hs,
    h.lowerBound_eq, h.beforeLowerBound_eq]
  refine wp_joinAfter h hs ?_
  rw [wp_bind]
  refine wp_joinBefore h (s := { s with freeExtents := Lk ++ Ll.toList ++ Rk }) rfl ?_
  have hjoined : (⟨Ll.elim a.offset DataAddress.offset,
      a.size + Rl.elim 0 DataAddress.size + Ll.elim 0 DataAddress.size⟩ : DataAddress) = joined Ll a Rl := by
    simp only [joined, DataAddress.mk.injEq, true_and]
    omega
  simp only [insertExtent, wp_modify, hjoined]
  exact hQ

theorem Fits.insert_joined (h : Fits Lk Ll a Rl Rk) :
    insertKey DataAddress.offset (joined Ll a Rl) (Lk ++ Rk) = Lk ++ joined Ll a Rl :: Rk := by
  obtain ⟨-, hR, hL⟩ := List.pairwise_append.mp (sorted_offset h.canonical_joined)
  exact insertKey_append (fun b hb => hL b hb _ List.mem_cons_self)
    fun b hb => List.rel_of_pairwise_cons hR hb

@[simp]
theorem wp_assert {site : EspressoSite} {c : Bool} {Q : PUnit → EspressoData → Prop} :
    wp (assert site c) Q E s ↔ (c = true → Q ⟨⟩ s) ∧ (c = false → E site) := by
  cases c <;> simp [assert]

/-! ### The cleaning up -/

/-- The cleaning up can tell which neighbours the deallocation joined: there is none behind that is
empty, or that `a`, itself empty, does not part from the place of `a`. -/
def TakesBack (Ll : Option DataAddress) (a : DataAddress) (Rl : Option DataAddress)
    (Rk : List DataAddress) : Prop :=
  match Rl with
  | some c => 0 < c.size ∧ (0 < a.size ∨ Ll.isSome)
  | none => ∀ c ∈ Rk.head?, c.offset ≠ a.offset

section

variable {Q : PUnit → EspressoData → Prop} {j : DataAddress}

/-- The deallocation is taken to have merged before, with the extent `j`. -/
theorem wp_undoDeallocate_before (hlower : ((atLeast DataAddress.offset a.offset s.freeExtents).head?.filter
      fun it => it.offset ≤ a.offset) = none)
    (hbefore : (below DataAddress.offset a.offset s.freeExtents).getLast? = some j) :
    wp (undoDeallocate a) Q (fun _ => False) s ↔ a.size < j.size ∧
      Q ⟨⟩ { s with
        freeExtents := insertKey DataAddress.offset ⟨j.offset, a.offset - j.offset⟩
          (eraseKey DataAddress.offset j.offset (if a.offset - j.offset + a.size < j.size then
            insertKey DataAddress.offset ⟨a.offset + a.size, j.size - a.size - (a.offset - j.offset)⟩
              s.freeExtents else s.freeExtents)) } := by
  simp only [undoDeallocate, lowerBound, beforeLowerBound, wp_bind, wp_get, wp_pure, hlower,
    hbefore, wp_assert, eraseExtent, insertExtent]
  by_cases hsize : a.size < j.size
  · by_cases hmore : a.offset - j.offset + a.size < j.size
    · simp [hsize, hmore]
    · simp [hsize, hmore]
  · simp [hsize]

/-- The deallocation is taken not to have merged before: the extent `j` begins at `a`. -/
theorem wp_undoDeallocate_exact (hlower : (atLeast DataAddress.offset a.offset s.freeExtents).head? = some j)
    (hj : j.offset = a.offset) :
    wp (undoDeallocate a) Q (fun _ => False) s ↔ a.size ≤ j.size ∧
      Q ⟨⟩ { s with
        freeExtents := eraseKey DataAddress.offset a.offset (if a.size < j.size then
          insertKey DataAddress.offset ⟨a.offset + a.size, j.size - a.size⟩ s.freeExtents
            else s.freeExtents) } := by
  have hfilter : (some j).filter (fun it => it.offset ≤ a.offset) = some j := by simp [hj]
  simp only [undoDeallocate, lowerBound, wp_bind, wp_get, wp_pure, hlower, hfilter, eraseExtent,
    insertExtent]
  rcases lt_trichotomy a.size j.size with hsize | hsize | hsize
  · simp [hsize, hsize.le, hj]
  · simp [hsize, hj]
  · simp [hsize.not_gt, hsize.not_ge, hsize.ne, hj]

end

/-- What was erased is not among the extents. -/
theorem eraseKey_ne {b : DataAddress} (hb : b ∈ l) (l' : List DataAddress) :
    eraseKey DataAddress.offset b.offset l' ≠ l := by
  intro heq
  rw [← heq] at hb
  exact of_decide_eq_true (List.mem_filter.mp hb).2 rfl

/-- **The cleaning up**, after a deallocation that merged before. -/
theorem wp_undoDeallocate_left (h : Beside Lk (some b) a Rl Rk) (hsize : 0 ≤ a.size)
    (hs : s.freeExtents = Lk ++ joined (some b) a Rl :: Rk) :
    wp (undoDeallocate a) (fun _ u => u = { s with freeExtents := Lk ++ b :: (Rl.toList ++ Rk) })
      (fun _ => False) s ↔ TakesBack (some b) a Rl Rk := by
  have hb := h.left_eq b rfl
  have hlt := h.lt_of_some
  have hLk := h.left_lt_of_some
  have hR : ∀ x ∈ Rl.toList ++ Rk, b.offset < x.offset := fun x hx => by
    have := h.right_le x hx
    omega
  obtain ⟨j, hj⟩ : ∃ j, joined (some b) a Rl = j := ⟨_, rfl⟩
  rw [hj] at hs
  have hjoff : j.offset = b.offset := by rw [← hj]; rfl
  have hfree : s.freeExtents = (Lk ++ [j]) ++ Rk := by simpa using hs
  have hbelow : ∀ x ∈ Lk ++ [j], x.offset < a.offset := fun x hx => by
    rcases List.mem_append.mp hx with hx | hx
    · have := hLk x hx
      omega
    · rw [List.mem_singleton.mp hx]
      omega
  have habove : ∀ x ∈ Rk, a.offset ≤ x.offset := fun x hx => h.right_le x (List.mem_append_right _ hx)
  have hlower : (atLeast DataAddress.offset a.offset s.freeExtents).head? = Rk.head? := by
    rw [hfree, atLeast_append hbelow habove]
  by_cases hexact : ∃ c ∈ Rk.head?, c.offset = a.offset
  · -- the extent behind has the place of `a`
    obtain ⟨c, hc, hca⟩ := hexact
    have hmem : c ∈ Rk := List.mem_of_mem_head? hc
    have hnone : Rl = none := by
      cases Rl with
      | none => rfl
      | some e =>
        have := h.right_eq e rfl
        have := h.lt_right_of_some c hmem
        omega
    subst hnone
    refine iff_of_false (fun hwp => ?_) fun htakes => htakes c hc hca
    rw [wp_undoDeallocate_exact (hlower.trans hc) hca, ← hca] at hwp
    exact eraseKey_ne (by simp [hmem]) _ (congrArg EspressoData.freeExtents hwp.2)
  · have hnone : ((atLeast DataAddress.offset a.offset s.freeExtents).head?.filter
        fun it => it.offset ≤ a.offset) = none := by
      rw [hlower, Option.filter_eq_none_iff]
      intro c hc hle
      have := habove c (List.mem_of_mem_head? hc)
      exact hexact ⟨c, hc, by simp only [decide_eq_true_eq] at hle; omega⟩
    have hbefore : (below DataAddress.offset a.offset s.freeExtents).getLast? = some j := by
      rw [hfree, below_append hbelow habove, List.getLast?_append_cons]
      rfl
    have hbj : (⟨j.offset, a.offset - j.offset⟩ : DataAddress) = b := by
      rw [hjoff, ← hb, add_sub_cancel_left]
    have hjs : j.size = b.size + a.size + Rl.elim 0 DataAddress.size := by rw [← hj]; rfl
    -- the extents are put back if those behind `j` are
    have hback : ∀ X, (∀ x ∈ X, b.offset < x.offset) → insertKey DataAddress.offset b
        (eraseKey DataAddress.offset j.offset (Lk ++ j :: X)) = Lk ++ b :: X := by
      intro X hX
      rw [eraseKey_append_of_ne (fun x hx => (hjoff ▸ hLk x hx).ne) fun x hx => (hjoff ▸ hX x hx).ne']
      exact insertKey_append hLk hX
    have hRk : ∀ x ∈ Rk, b.offset < x.offset := fun x hx => hR x (List.mem_append_right _ hx)
    rw [wp_undoDeallocate_before hnone hbefore, hbj, hs]
    cases Rl with
    | none =>
      simp only [Option.elim_none] at hjs
      rw [if_neg (by omega), hback Rk hRk]
      exact iff_of_true ⟨by omega, rfl⟩ fun c hc hca => hexact ⟨c, hc, hca⟩
    | some c =>
      have hc := h.right_eq c rfl
      simp only [Option.elim_some] at hjs
      by_cases hpos : 0 < c.size
      · have hextra : (⟨a.offset + a.size, j.size - a.size - (a.offset - j.offset)⟩ :
            DataAddress) = c := by
          rw [← hc]
          congr 1
          omega
        have hsplit : insertKey DataAddress.offset c (Lk ++ j :: Rk) = Lk ++ j :: c :: Rk := by
          refine insertKey_append_cons (fun x hx => ?_) (by omega) h.lt_right_of_some
          have := hLk x hx
          omega
        rw [if_pos (by omega), hextra, hsplit, hback (c :: Rk) (by simpa using hR)]
        exact iff_of_true ⟨by omega, rfl⟩ ⟨hpos, .inr rfl⟩
      · rw [if_neg (by omega), hback Rk hRk]
        refine iff_of_false (fun hwp => ?_) fun htakes => hpos htakes.1
        have hlength := congrArg (fun u : EspressoData => u.freeExtents.length) hwp.2
        simp at hlength

/-- **The cleaning up**, after a deallocation that did not merge before. -/
theorem wp_undoDeallocate_right (h : Beside Lk none a Rl Rk) (hsize : 0 ≤ a.size)
    (hs : s.freeExtents = insertKey DataAddress.offset (joined none a Rl) (Lk ++ Rk)) :
    wp (undoDeallocate a) (fun _ u => u = { s with freeExtents := Lk ++ (Rl.toList ++ Rk) })
      (fun _ => False) s ↔ TakesBack none a Rl Rk := by
  have hLk : ∀ x ∈ Lk, x.offset < a.offset := fun x hx => h.left_lt x (List.mem_append_left _ hx)
  have hRk : ∀ x ∈ Rk, a.offset ≤ x.offset := fun x hx => h.right_le x (List.mem_append_right _ hx)
  obtain ⟨j, hj⟩ : ∃ j, joined none a Rl = j := ⟨_, rfl⟩
  rw [hj] at hs
  have hjoff : j.offset = a.offset := by rw [← hj]; rfl
  have hjs : j.size = a.size + Rl.elim 0 DataAddress.size := by
    rw [← hj]
    simp [joined]
  by_cases hexact : ∃ c ∈ Rk.head?, c.offset = a.offset
  · -- the set has an extent in the place of `a`, which stays out
    obtain ⟨c, hc, hca⟩ := hexact
    obtain ⟨R, rfl⟩ : ∃ R, Rk = c :: R := by
      cases Rk with
      | nil => simp at hc
      | cons x R => exact ⟨R, by rw [Option.some.inj hc]⟩
    have hnone : Rl = none := by
      cases Rl with
      | none => rfl
      | some e =>
        have := h.right_eq e rfl
        have := h.lt_right_of_some c List.mem_cons_self
        omega
    subst hnone
    have hkept : s.freeExtents = Lk ++ c :: R := by
      rw [hs]
      exact insertKey_of_mem (by simpa using h.sorted) (List.mem_append_right _ List.mem_cons_self)
        (hca.trans hjoff.symm)
    have hlower : (atLeast DataAddress.offset a.offset s.freeExtents).head? = some c := by
      rw [hkept, atLeast_append hLk hRk]
      rfl
    refine iff_of_false (fun hwp => ?_) fun htakes => htakes c rfl hca
    rw [wp_undoDeallocate_exact hlower hca, ← hca] at hwp
    exact eraseKey_ne (by simp) _ (congrArg EspressoData.freeExtents hwp.2)
  · have hRlt : ∀ x ∈ Rk, a.offset < x.offset := by
      intro x hx
      cases Rk with
      | nil => simp at hx
      | cons c R =>
        have hcle := hRk c List.mem_cons_self
        have hcne : c.offset ≠ a.offset := fun heq => hexact ⟨c, rfl, heq⟩
        rcases List.mem_cons.mp hx with rfl | hx
        · omega
        · have hsorted := (List.pairwise_append.mp h.sorted).2.1
          have := List.rel_of_pairwise_cons (hsorted.sublist (List.sublist_append_right _ _)) hx
          omega
    rw [insertKey_append (fun x hx => hjoff ▸ hLk x hx) fun x hx => hjoff ▸ hRlt x hx] at hs
    have hlower : (atLeast DataAddress.offset a.offset s.freeExtents).head? = some j := by
      rw [hs, atLeast_append hLk fun x hx => ?_]
      · rfl
      · rcases List.mem_cons.mp hx with rfl | hx
        · exact hjoff.ge
        · exact hRk x hx
    have herase : ∀ X, (∀ x ∈ X, a.offset < x.offset) →
        eraseKey DataAddress.offset a.offset (Lk ++ j :: X) = Lk ++ X := by
      intro X hX
      rw [← hjoff]
      exact eraseKey_append_of_ne (fun x hx => (hjoff ▸ hLk x hx).ne) fun x hx => (hjoff ▸ hX x hx).ne'
    rw [wp_undoDeallocate_exact hlower hjoff, hs]
    cases Rl with
    | none =>
      simp only [Option.elim_none] at hjs
      rw [if_neg (by omega), herase Rk hRlt]
      exact iff_of_true ⟨by omega, rfl⟩ fun c hc hca => hexact ⟨c, hc, hca⟩
    | some c =>
      have hc := h.right_eq c rfl
      simp only [Option.elim_some] at hjs
      by_cases htakes : 0 < c.size ∧ 0 < a.size
      · obtain ⟨hpos, hapos⟩ := htakes
        have hextra : (⟨a.offset + a.size, j.size - a.size⟩ : DataAddress) = c := by
          rw [← hc]
          congr 1
          omega
        have hsplit : insertKey DataAddress.offset c (Lk ++ j :: Rk) = Lk ++ j :: c :: Rk := by
          refine insertKey_append_cons (fun x hx => ?_) (by omega) h.lt_right_of_some
          have := hLk x hx
          omega
        have hX : ∀ x ∈ c :: Rk, a.offset < x.offset := by
          intro x hx
          rcases List.mem_cons.mp hx with rfl | hx
          · omega
          · exact hRlt x hx
        rw [if_pos (by omega), hextra, hsplit, herase (c :: Rk) hX]
        exact iff_of_true ⟨by omega, rfl⟩ ⟨hpos, .inl hapos⟩
      · -- the extent behind is not put back
        have hkept : (if a.size < j.size then insertKey DataAddress.offset
            ⟨a.offset + a.size, j.size - a.size⟩ (Lk ++ j :: Rk) else Lk ++ j :: Rk) = Lk ++ j :: Rk := by
          split_ifs with hmore
          · refine insertKey_of_mem (b := j) ?_ (by simp) (by dsimp only; omega)
            refine List.pairwise_append.mpr ⟨(List.pairwise_append.mp (List.pairwise_append.mp
              h.sorted).1).1, List.pairwise_cons.mpr ⟨fun x hx => hjoff ▸ hRlt x hx, ?_⟩, fun x hx y hy => ?_⟩
            · exact (List.pairwise_append.mp (List.pairwise_append.mp h.sorted).2.1).2.1
            · have := hLk x hx
              rcases List.mem_cons.mp hy with rfl | hy
              · omega
              · have := hRlt y hy
                omega
          · rfl
        rw [hkept, herase Rk hRlt]
        refine iff_of_false (fun hwp => ?_) fun h' => htakes ⟨h'.1, h'.2.resolve_right (by simp)⟩
        have hlength := congrArg (fun u : EspressoData => u.freeExtents.length) hwp.2
        simp at hlength

/-- **The cleaning up restores the extents the deallocation found** exactly if it can tell which. -/
theorem wp_undoDeallocate_iff (h : Beside Lk Ll a Rl Rk) (hsize : 0 ≤ a.size)
    (hs : s.freeExtents = insertKey DataAddress.offset (joined Ll a Rl) (Lk ++ Rk)) :
    wp (undoDeallocate a) (fun _ u => u =
      { s with freeExtents := Lk ++ Ll.toList ++ (Rl.toList ++ Rk) }) (fun _ => False) s ↔
      TakesBack Ll a Rl Rk := by
  cases Ll with
  | some b =>
    have hlt := h.lt_of_some
    have hjoined : insertKey DataAddress.offset (joined (some b) a Rl) (Lk ++ Rk) =
        Lk ++ joined (some b) a Rl :: Rk := by
      refine insertKey_append h.left_lt_of_some fun x hx => ?_
      exact hlt.trans_le (h.right_le x (List.mem_append_right _ hx))
    simpa using wp_undoDeallocate_left h hsize (hs.trans hjoined)
  | none => simpa using wp_undoDeallocate_right h hsize hs

/-- Extents that are not empty, apart from `a`, are restored. -/
theorem Fits.takesBack (h : Fits Lk Ll a Rl Rk) : TakesBack Ll a Rl Rk := by
  have hpos := h.size_pos
  cases Rl with
  | some c => exact ⟨h.pos_of_mem (by simp), .inl hpos⟩
  | none =>
    intro c hc
    have := h.le_right c (List.mem_append_right _ (List.mem_of_mem_head? hc))
    omega

/-- **`deallocate_chunk`** frees the extent `a`, and the cleaning up undoes it. -/
theorem wp_deallocateChunk (hcan : s.FreeCanonical) (hsize : 0 < a.size)
    (hfree : ∀ x, a.offset ≤ x → x < a.offset + a.size → x ∉ s.free) :
    wp (deallocateChunk a) (fun _ t => t.file = s.file ∧ t.metadata = s.metadata ∧
      t.FreeCanonical ∧ (∀ x, x ∈ t.free ↔ x ∈ s.free ∨ (a.offset ≤ x ∧ x < a.offset + a.size)) ∧
      wp (undoDeallocate a) (fun _ u => u = s) (fun _ => False) t) E s := by
  obtain ⟨Lk, Ll, Rl, Rk, hs, hfits⟩ := exists_fits hcan hsize hfree
  refine wp_deallocateChunk_beside hfits.beside hs ?_
  have hundo := wp_undoDeallocate_iff
    (s := { s with freeExtents := insertKey DataAddress.offset (joined Ll a Rl) (Lk ++ Rk) })
    hfits.beside hsize.le rfl
  rw [← hs] at hundo
  rw [hfits.insert_joined] at hundo ⊢
  refine ⟨rfl, rfl, hfits.canonical_joined, fun x => ?_, hundo.mpr hfits.takesBack⟩
  simp only [EspressoData.free, hs]
  exact hfits.mem_cover_joined x

/-- The `size` positions from `p` on are free. -/
def Roomy (s : EspressoData) (size p : ℤ) : Prop := ∀ x, p ≤ x → x < p + size → x ∈ s.free

/-- Free room lies in one extent. -/
theorem exists_extent_of_roomy (hcan : s.FreeCanonical) (hsize : 0 < size) {p : ℤ}
    (hp : Roomy s size p) :
    ∃ it ∈ s.freeExtents, it.offset ≤ p ∧ p + size ≤ it.offset + it.size := by
  obtain ⟨m, hm, hlo, hhi⟩ := hcan.exists_mem_of_segment (by omega : p < p + size) hp
  obtain ⟨it, hit, rfl⟩ := List.mem_map.mp hm
  exact ⟨it, hit, hlo, hhi⟩

/-- **`allocate_chunk`** takes the first extent that is large enough, and with it the first room
that is. -/
theorem wp_allocateChunk (hcan : s.FreeCanonical) (hsize : 0 < size) :
    wp (allocateChunk size) (fun r t => match r with
      | none => t = s ∧ ∀ p, ¬ Roomy s size p
      | some a => a.size = size ∧ t.file = s.file ∧ t.metadata = s.metadata ∧ t.FreeCanonical ∧
        Roomy s size a.offset ∧ (∀ p, Roomy s size p → a.offset ≤ p) ∧
        ∀ x, x ∈ t.free ↔ x ∈ s.free ∧ ¬ (a.offset ≤ x ∧ x < a.offset + size)) E s := by
  simp only [allocateChunk, wp_bind, wp_get]
  cases hfind : s.freeExtents.find? fun it => size ≤ it.size with
  | none =>
    rw [wp_pure]
    refine ⟨rfl, fun p hp => ?_⟩
    obtain ⟨it, hit, hlo, hhi⟩ := exists_extent_of_roomy hcan hsize hp
    have hsmall : ¬ size ≤ it.size := by simpa using List.find?_eq_none.mp hfind it hit
    omega
  | some it =>
    obtain ⟨hit, L, R, hs, hL⟩ := List.find?_eq_some_iff_append.mp hfind
    have hit' : size ≤ it.size := by simpa using hit
    have hfirst : ∀ p, Roomy s size p → it.offset ≤ p := by
      intro p hp
      obtain ⟨b, hb, hlo, hhi⟩ := exists_extent_of_roomy hcan hsize hp
      rw [hs] at hb
      rcases List.mem_append.mp hb with hb | hb
      · have hsmall : ¬ size ≤ b.size := by simpa using hL b hb
        omega
      · rcases List.mem_cons.mp hb with rfl | hb
        · exact hlo
        · have hlt := (List.pairwise_append.mp (hs ▸ sorted_offset hcan)).2.1
          have := List.rel_of_pairwise_cons hlt hb
          omega
    have hcan' : Canonical (L.map DataAddress.interval ++ it.interval ::
        R.map DataAddress.interval) := by simpa [EspressoData.FreeCanonical, hs] using hcan
    have hsorted : Sorted DataAddress.offset (L ++ it :: R) := hs ▸ sorted_offset hcan
    have hcarved : ∀ t : EspressoData,
        t.freeExtents.map DataAddress.interval =
          carve (L.map DataAddress.interval) size it.interval (R.map DataAddress.interval) →
        t.FreeCanonical ∧ Roomy s size it.offset ∧ (∀ p, Roomy s size p → it.offset ≤ p) ∧
          ∀ x, x ∈ t.free ↔ x ∈ s.free ∧ ¬ (it.offset ≤ x ∧ x < it.offset + size) := by
      intro t ht
      have hfree : s.free = cover (L.map DataAddress.interval ++ it.interval ::
          R.map DataAddress.interval) := by simp [EspressoData.free, hs]
      refine ⟨?_, fun x hlo hhi => ?_, hfirst, fun x => ?_⟩
      · rw [EspressoData.FreeCanonical, ht]
        exact canonical_carve hcan' hsize.le
      · rw [hfree, mem_cover_append, mem_cover_cons]
        exact .inr (.inl ⟨hlo, by simp only [DataAddress.interval]; omega⟩)
      · rw [EspressoData.free, ht, hfree]
        exact mem_cover_carve hcan' hsize.le (by simp only [DataAddress.interval]; omega)
    have hafter : ∀ x ∈ R, it.offset + it.size < x.offset := by
      obtain ⟨-, -, -, -, hR⟩ := canonical_append_cons.mp hcan'
      exact fun x hx => hR _ (List.mem_map_of_mem hx)
    by_cases hlt : size < it.size
    · have hsplit : insertKey DataAddress.offset ⟨it.offset + size, it.size - size⟩
          (L ++ it :: R) = L ++ it :: ⟨it.offset + size, it.size - size⟩ :: R := by
        obtain ⟨-, -, hL⟩ := List.pairwise_append.mp hsorted
        refine insertKey_append_cons (fun x hx => ?_) (by dsimp only; omega) fun x hx => ?_
        · have := hL x hx it List.mem_cons_self
          dsimp only
          omega
        · have := hafter x hx
          dsimp only
          omega
      have herase : eraseKey DataAddress.offset it.offset
          (L ++ it :: ⟨it.offset + size, it.size - size⟩ :: R) =
          L ++ ⟨it.offset + size, it.size - size⟩ :: R := by
        obtain ⟨-, hR, hL⟩ := List.pairwise_append.mp hsorted
        refine eraseKey_append_of_ne (fun x hx => (hL x hx it List.mem_cons_self).ne) ?_
        rintro x (_ | ⟨_, hx⟩)
        · dsimp only
          omega
        · exact (List.rel_of_pairwise_cons hR hx).ne'
      simp only [if_pos hlt, wp_bind, insertExtent, eraseExtent, wp_modify, wp_pure, hs, hsplit,
        herase, true_and]
      refine hcarved _ ?_
      rw [carve, if_pos (by simp only [DataAddress.interval]; omega)]
      simp [DataAddress.interval]
    · simp only [if_neg hlt, wp_bind, eraseExtent, wp_modify, wp_pure, hs,
        eraseKey_append hsorted, true_and]
      refine hcarved _ ?_
      rw [carve, if_neg (by simp only [DataAddress.interval]; omega), List.map_append]

/-- An allocation of nothing is served from the first extent, if there is one. -/
theorem wp_allocateChunk_of_nonpos (hcan : s.FreeCanonical) (hsize : size ≤ 0) :
    wp (allocateChunk size) (fun r t => match r with
      | none => t = s ∧ s.freeExtents = []
      | some a => a.size = size ∧ s.freeExtents ≠ []) E s := by
  simp only [allocateChunk, wp_bind, wp_get]
  cases hs : s.freeExtents with
  | nil => simp
  | cons it R =>
    have hpos := hcan.1 it.interval (List.mem_map_of_mem (hs ▸ List.mem_cons_self))
    simp only [DataAddress.interval] at hpos
    have hle : size ≤ it.size := by omega
    have hlt : size < it.size := by omega
    simp [hle, hlt, insertExtent, eraseExtent, hs]

end Espresso

end DecaFS
