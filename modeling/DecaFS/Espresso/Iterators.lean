import DecaFS.Espresso.Storing
import DecaFS.ForMathlib.NodeSet

/-!
# The iterators of `deallocate_chunk`

`deallocate_chunk` once more, on the nodes of `free_extents`. It starts with two iterators to the lower
bound of the extent, erases the first of them if the free extent there begins where `a` ends, and then
compares the second, which is to the same node. So its iterators are valid exactly if it does not merge
with the extent behind (`wp_deallocateChunk_iterators`), and then it does what `Espresso.deallocateChunk`
says.
-/

namespace DecaFS

open OrderedList NodeSet Code Intervals

namespace Espresso.Iterators

/-- Code on `free_extents`. -/
abbrev FreeExtents (α : Type) : Type := Code InvalidUse (NodeSet DataAddress) α

/-- Join `a` with the extent at `after`. -/
def joinAfter (after : Iter) (a : DataAddress) : FreeExtents DataAddress := do
  if ← differ after none then
    if (← deref after).offset = a.offset + a.size then
      let size := (← deref after).size
      eraseAt after
      return { a with size := a.size + size }
    else return a
  else return a

/-- Join `a` with the extent in front of `before`. -/
def joinBefore (before : Iter) (a : DataAddress) : FreeExtents DataAddress := do
  if ← differ before (← begin) then
    let before ← prev before
    let it ← deref before
    if it.offset + it.size = a.offset then
      eraseAt before
      return ⟨it.offset, a.size + it.size⟩
    else return a
  else return a

/-- `deallocate_chunk` -/
def deallocateChunk (a : DataAddress) : FreeExtents PUnit := do
  if (← get).nodes.isEmpty then
    insertValue DataAddress.offset a
  else
    let after ← NodeSet.lowerBound DataAddress.offset a.offset
    let before := after
    let a ← joinAfter after a
    let a ← joinBefore before a
    insertValue DataAddress.offset a

/-- The free extent at the lower bound of `a` begins where `a` ends. -/
def MergesBehind (a : DataAddress) (l : List DataAddress) : Prop :=
  ∃ it, (atLeast DataAddress.offset a.offset l).head? = some it ∧ it.offset = a.offset + a.size

/-- The free extents with `a`, joined with the extent before it. -/
def freed (a : DataAddress) (l : List DataAddress) : List DataAddress :=
  match (below DataAddress.offset a.offset l).getLast? with
  | some it =>
    if it.offset + it.size = a.offset then
      insertKey DataAddress.offset ⟨it.offset, a.size + it.size⟩ (eraseKey DataAddress.offset it.offset l)
    else insertKey DataAddress.offset a l
  | none => insertKey DataAddress.offset a l

section

variable {a : DataAddress} {s : NodeSet DataAddress} {L R : List (ℕ × DataAddress)}
  {l : List DataAddress} {E : InvalidUse → Prop} {Q : DataAddress → NodeSet DataAddress → Prop}

theorem wp_joinAfter (h : s.nodes = L ++ R)
    (hmerge : ∀ n it R', R = (n, it) :: R' → it.offset = a.offset + a.size →
      Q { a with size := a.size + it.size } (s.erase n))
    (hkeep : (∀ x ∈ R.head?, x.2.offset ≠ a.offset + a.size) → Q a s) :
    wp (joinAfter (R.head?.map Prod.fst) a) Q E s := by
  unfold joinAfter
  rw [wp_bind, wp_differ (live_head h) live_end]
  cases R with
  | nil =>
    simp only [List.head?_nil, Option.map_none, ne_eq, not_true_eq_false, decide_false,
      Bool.false_eq_true, if_false, wp_pure]
    exact hkeep (by simp)
  | cons x R =>
    obtain ⟨n, it⟩ := x
    simp only [List.head?_cons, Option.map_some, ne_eq, reduceCtorEq, not_false_eq_true, decide_true,
      if_true, wp_bind, wp_deref h]
    by_cases hit : it.offset = a.offset + a.size
    · rw [if_pos hit, wp_bind, wp_deref h, wp_bind, wp_eraseAt h, wp_pure]
      exact hmerge n it R rfl hit
    · rw [if_neg hit, wp_pure]
      exact hkeep (by simpa using hit)

theorem wp_joinBefore (h : s.nodes = L ++ R)
    (hmerge : ∀ n it L', L = L' ++ [(n, it)] → it.offset + it.size = a.offset →
      Q ⟨it.offset, a.size + it.size⟩ (s.erase n))
    (hkeep : (∀ x ∈ L.getLast?, x.2.offset + x.2.size ≠ a.offset) → Q a s) :
    wp (joinBefore (R.head?.map Prod.fst) a) Q E s := by
  have hbegin : s.Live (s.nodes.head?.map Prod.fst) := live_head (L := []) rfl
  unfold joinBefore
  simp only [wp_bind, wp_begin, wp_differ (live_head h) hbegin]
  induction L using List.reverseRecOn with
  | nil =>
    rw [List.nil_append] at h
    simp only [h, ne_eq, not_true_eq_false, decide_false, Bool.false_eq_true, if_false, wp_pure]
    exact hkeep (by simp)
  | append_singleton L x _ =>
    obtain ⟨n, it⟩ := x
    rw [List.append_assoc, List.singleton_append] at h
    -- the first node is not the one behind `a`
    have hdiffer : R.head?.map Prod.fst ≠ s.nodes.head?.map Prod.fst := by
      intro heq
      cases R with
      | nil => simp [h] at heq
      | cons y R =>
        have hsplit : s.nodes = (L ++ [(n, it)]) ++ (y.1, y.2) :: R := by simp [h]
        obtain ⟨hL, -⟩ := notMem_of_split hsplit
        cases hhead : (L ++ [(n, it)]).head? with
        | none => simp at hhead
        | some x =>
          have hfirst : s.nodes.head? = some x := by rw [hsplit, List.head?_append, hhead]; rfl
          rw [hfirst, List.head?_cons, Option.map_some, Option.map_some] at heq
          exact hL x (List.mem_of_head? hhead) (Option.some.inj heq).symm
    simp only [hdiffer, ne_eq, not_false_eq_true, decide_true, if_true, wp_bind, wp_prev h, wp_deref h]
    by_cases hit : it.offset + it.size = a.offset
    · rw [if_pos hit, wp_bind, wp_eraseAt h, wp_pure]
      exact hmerge n it L rfl hit
    · rw [if_neg hit, wp_pure]
      exact hkeep (by simpa using hit)

/-- An erased iterator in place of `before`. -/
theorem wp_joinBefore_of_not_live {before : Iter} (h : ¬ s.Live before) :
    wp (joinBefore before a) Q E s ↔ E .compare := by
  unfold joinBefore
  simp only [wp_bind, wp_begin, wp_differ_of_not_live h]

/-- **The iterators of `deallocate_chunk`.** Either the second one is used after its node was erased, or
all are valid. -/
theorem wp_deallocateChunk_iterators (hsorted : Sorted DataAddress.offset s.values) :
    wp (deallocateChunk a) (fun _ t => ¬ MergesBehind a s.values ∧ t.values = freed a s.values)
      (fun e => e = .compare ∧ MergesBehind a s.values) s := by
  obtain ⟨L, hL⟩ : ∃ L, below (DataAddress.offset ∘ Prod.snd) a.offset s.nodes = L := ⟨_, rfl⟩
  obtain ⟨R, hR⟩ : ∃ R, atLeast (DataAddress.offset ∘ Prod.snd) a.offset s.nodes = R := ⟨_, rfl⟩
  have hsplit : s.nodes = L ++ R := by rw [← hL, ← hR, below_append_atLeast]
  have hbelow : below DataAddress.offset a.offset s.values = L.map Prod.snd := by
    rw [NodeSet.values, ← below_map, hL]
  have hatLeast : atLeast DataAddress.offset a.offset s.values = R.map Prod.snd := by
    rw [NodeSet.values, ← atLeast_map, hR]
  have hlt : ∀ x ∈ L, x.2.offset < a.offset := fun x hx => by
    rw [← hL] at hx
    have hx' : (DataAddress.offset ∘ Prod.snd) x < a.offset := lt_of_mem_below hx
    exact hx'
  have hge : ∀ x ∈ R, a.offset ≤ x.2.offset := fun x hx => by
    rw [← hR] at hx
    exact (sorted_map.mp hsorted).le_of_mem_atLeast hx
  have hmerges : MergesBehind a s.values ↔ ∃ x ∈ R.head?, x.2.offset = a.offset + a.size := by
    unfold MergesBehind
    rw [hatLeast]
    cases R <;> simp
  unfold deallocateChunk
  rw [wp_bind, wp_get]
  by_cases hempty : s.nodes.isEmpty = true
  · rw [if_pos hempty, wp_insertValue]
    have hnil := List.isEmpty_iff.mp hempty
    rw [hnil] at hsplit
    obtain ⟨rfl, rfl⟩ := List.append_eq_nil_iff.mp hsplit.symm
    refine ⟨by simp [hmerges], ?_⟩
    rw [values_insert, freed, hbelow]
    rfl
  rw [if_neg hempty, wp_bind, wp_lowerBound hsplit hlt hge, wp_bind]
  refine wp_joinAfter hsplit (fun n it R' hcons hit => ?_) fun hkeep => ?_
  · -- the iterator to the erased node is compared
    rw [wp_bind, hcons]
    refine (wp_joinBefore_of_not_live (not_live_erase n)).mpr ⟨rfl, hmerges.mpr ⟨(n, it), ?_, hit⟩⟩
    rw [hcons]
    rfl
  · have hnot : ¬ MergesBehind a s.values := fun h => by
      obtain ⟨x, hx, hit⟩ := hmerges.mp h
      exact hkeep x hx hit
    rw [wp_bind]
    refine wp_joinBefore hsplit (fun n it L' hcons hit => ?_) fun hkeep => ?_
    · rw [wp_insertValue]
      refine ⟨hnot, ?_⟩
      rw [hcons, List.append_assoc, List.singleton_append] at hsplit
      have hvalues : s.values = L'.map Prod.snd ++ it :: R.map Prod.snd := by
        rw [NodeSet.values, hsplit, List.map_append, List.map_cons]
      have herase : eraseKey DataAddress.offset it.offset s.values = (s.erase n).values := by
        rw [hvalues] at hsorted ⊢
        rw [NodeSet.values, nodes_erase hsplit, List.map_append]
        exact eraseKey_append hsorted
      rw [values_insert, freed, hbelow, hcons, List.map_append, List.map_singleton, List.getLast?_concat]
      simp only [hit, if_true, herase]
    · rw [wp_insertValue]
      refine ⟨hnot, ?_⟩
      rw [values_insert, freed, hbelow]
      cases hlast : (L.map Prod.snd).getLast? with
      | none => rfl
      | some it =>
        rw [List.getLast?_map] at hlast
        obtain ⟨x, hx, rfl⟩ := Option.map_eq_some_iff.mp hlast
        simp only [hkeep x hx, if_false]

/-- Where its iterators are valid, `deallocate_chunk` does what the model without iterators says. -/
theorem wp_deallocateChunk_freed {u : EspressoData} {E : EspressoSite → Prop}
    (h : ¬ MergesBehind a u.freeExtents) : wp (Espresso.deallocateChunk a)
      (fun _ t => t = { u with freeExtents := freed a u.freeExtents }) E u := by
  have hafter : ∀ {Q : DataAddress → EspressoData → Prop}, Q a u → wp (Espresso.joinAfter
      (atLeast DataAddress.offset a.offset u.freeExtents).head? a) Q E u := by
    intro Q hQ
    cases hhead : (atLeast DataAddress.offset a.offset u.freeExtents).head? with
    | none => exact (wp_pure _).mpr hQ
    | some it =>
      have hit : it.offset ≠ a.offset + a.size := fun heq => h ⟨it, hhead, heq⟩
      simp only [Espresso.joinAfter, hit, if_false, wp_pure]
      exact hQ
  unfold Espresso.deallocateChunk Espresso.lowerBound Espresso.beforeLowerBound
  simp only [wp_bind, wp_get, wp_pure]
  refine hafter ?_
  unfold freed
  cases (below DataAddress.offset a.offset u.freeExtents).getLast? with
  | none => simp only [Espresso.joinBefore, wp_bind, wp_pure, insertExtent, wp_modify]
  | some it =>
    by_cases hit : it.offset + it.size = a.offset
    · simp only [Espresso.joinBefore, hit, if_true, wp_bind, eraseExtent, wp_modify, wp_pure, insertExtent]
    · simp only [Espresso.joinBefore, hit, if_false, wp_bind, wp_pure, insertExtent, wp_modify]

/-! ### What is freed -/

/-- A free extent, which is then empty, begins where `a` does, and the one before it does not end there. -/
def Shadowed (a : DataAddress) (l : List DataAddress) : Prop :=
  (∃ it ∈ l, it.offset = a.offset) ∧
    ∀ it ∈ (below DataAddress.offset a.offset l).getLast?, it.offset + it.size ≠ a.offset

theorem mem_cover_perm {l l' : List (ℤ × ℤ)} (h : l.Perm l') {x : ℤ} : x ∈ cover l ↔ x ∈ cover l' :=
  exists_congr fun _ => and_congr_left' h.mem_iff

theorem mem_cover_insertKey {b : DataAddress} (h : ∀ it ∈ l, it.offset ≠ b.offset) {x : ℤ} :
    x ∈ cover ((insertKey DataAddress.offset b l).map DataAddress.interval) ↔
      b.Has x ∨ x ∈ cover (l.map DataAddress.interval) := by
  rw [mem_cover_perm ((insertKey_perm h).map DataAddress.interval), List.map_cons, mem_cover_cons]
  rfl

theorem mem_cover_erase {it : DataAddress} (hsorted : Sorted DataAddress.offset l) (hit : it ∈ l) {x : ℤ} :
    x ∈ cover (l.map DataAddress.interval) ↔ it.Has x ∨
      x ∈ cover ((eraseKey DataAddress.offset it.offset l).map DataAddress.interval) := by
  obtain ⟨L, R, rfl⟩ := List.append_of_mem hit
  rw [eraseKey_append hsorted, mem_cover_perm (List.perm_middle.map DataAddress.interval), List.map_cons,
    mem_cover_cons]
  rfl

theorem mem_cover_insert_iff {P : Prop} (hsorted : Sorted DataAddress.offset l) (hsize : 0 ≤ a.size)
    (hdisjoint : ∀ x, a.Has x → x ∉ cover (l.map DataAddress.interval)) (hnot : ¬ MergesBehind a l) (hP : P) :
    (∀ x, x ∈ cover ((insertKey DataAddress.offset a l).map DataAddress.interval) ↔
      x ∈ cover (l.map DataAddress.interval) ∨ a.Has x) ↔
      ¬ ((∃ it ∈ l, it.offset = a.offset) ∧ P) := by
  by_cases hkey : ∃ it ∈ l, it.offset = a.offset
  · -- the first byte of `a` stays out
    refine iff_of_false (fun h => ?_) fun h => h ⟨hkey, hP⟩
    obtain ⟨it, hit, heq⟩ := hkey
    have hpos : a.size ≠ 0 := by
      intro hzero
      obtain ⟨L, R, rfl⟩ := List.append_of_mem hit
      obtain ⟨-, hR, hL⟩ := List.pairwise_append.mp hsorted
      refine hnot ⟨it, ?_, by omega⟩
      rw [atLeast_append (fun b hb => heq ▸ hL b hb it List.mem_cons_self)]
      · rfl
      · intro b hb
        rcases List.mem_cons.mp hb with rfl | hb
        · exact heq.ge
        · exact heq ▸ (List.rel_of_pairwise_cons hR hb).le
    have hfirst : a.Has a.offset := ⟨le_refl _, by omega⟩
    have hcovered := (h a.offset).mpr (.inr hfirst)
    rw [insertKey_of_mem hsorted hit heq] at hcovered
    exact hdisjoint _ hfirst hcovered
  · refine iff_of_true (fun x => ?_) fun h => hkey h.1
    rw [mem_cover_insertKey fun it hit heq => hkey ⟨it, hit, heq⟩, or_comm]

/-- **What `deallocate_chunk` frees**: `a`, unless an empty extent has its place in the set. -/
theorem mem_cover_freed_iff (hsorted : Sorted DataAddress.offset l) (hsize : 0 ≤ a.size)
    (hdisjoint : ∀ x, a.Has x → x ∉ cover (l.map DataAddress.interval)) (hnot : ¬ MergesBehind a l) :
    (∀ x, x ∈ cover ((freed a l).map DataAddress.interval) ↔
      x ∈ cover (l.map DataAddress.interval) ∨ a.Has x) ↔ ¬ Shadowed a l := by
  unfold Shadowed freed
  cases hlast : (below DataAddress.offset a.offset l).getLast? with
  | some it =>
    have hbelow : it ∈ below DataAddress.offset a.offset l := List.mem_of_getLast? hlast
    have hmem : it ∈ l := (List.takeWhile_sublist _).mem hbelow
    have hlt : it.offset < a.offset := lt_of_mem_below hbelow
    by_cases hends : it.offset + it.size = a.offset
    · -- it is merged with the extent before it
      simp only [hends, if_true]
      have hfree : ∀ b ∈ eraseKey DataAddress.offset it.offset l, b.offset ≠ it.offset := fun b hb =>
        of_decide_eq_true (List.mem_filter.mp hb).2
      refine iff_of_true (fun x => ?_) fun h => h.2 it rfl hends
      rw [mem_cover_insertKey (b := ⟨it.offset, a.size + it.size⟩) hfree, mem_cover_erase hsorted hmem]
      simp only [DataAddress.Has]
      have hor : (it.offset ≤ x ∧ x < it.offset + (a.size + it.size)) ↔
          (it.offset ≤ x ∧ x < it.offset + it.size) ∨ (a.offset ≤ x ∧ x < a.offset + a.size) := by omega
      rw [hor, or_right_comm]
    · simp only [hends, if_false]
      exact mem_cover_insert_iff hsorted hsize hdisjoint hnot (by simpa using hends)
  | none => exact mem_cover_insert_iff hsorted hsize hdisjoint hnot (by simp)

end

/-! ### Reachable free lists -/

/-- The free extents are in order. -/
def InOrder (s : EspressoData) : Prop := Sorted DataAddress.offset s.freeExtents

theorem storing_inOrder : Storing InOrder where
  insert _ a h := h.insertKey a
  erase _ k h := h.eraseKey k
  place _ _ _ _ h := h
  remove _ _ h := h
  write _ _ h := h

theorem inOrder_of_run {maxSize : ℕ} {tr : List (StorageCall × ℤ)} {s : EspressoData}
    (hrun : Steps storageStep (espressoGlobalDataInit maxSize) tr s) : InOrder s := by
  refine storing_inOrder.run ?_ hrun
  exact List.pairwise_singleton _ _

/-- The iterators of `deallocate_chunk` are valid, and it frees exactly `a`. -/
def FreesValidly (a : DataAddress) (t : NodeSet DataAddress) : Prop :=
  ∃ t', deallocateChunk a t = .ok (⟨⟩, t') ∧
    ∀ x, x ∈ cover (t'.values.map DataAddress.interval) ↔
      x ∈ cover (t.values.map DataAddress.interval) ∨ a.Has x

section

variable {maxSize : ℕ} {tr : List (StorageCall × ℤ)} {s : EspressoData} {a : DataAddress}
  {t : NodeSet DataAddress}

theorem freesValidly_iff (hsorted : Sorted DataAddress.offset t.values) (hsize : 0 ≤ a.size)
    (hdisjoint : ∀ x, a.Has x → x ∉ cover (t.values.map DataAddress.interval)) :
    FreesValidly a t ↔ ¬ MergesBehind a t.values ∧ ¬ Shadowed a t.values := by
  have hwp := wp_deallocateChunk_iterators (a := a) hsorted
  by_cases hmerges : MergesBehind a t.values
  · refine iff_of_false ?_ fun h => h.1 hmerges
    rintro ⟨t', hok, -⟩
    exact (hwp.of_ok hok).1 hmerges
  · obtain ⟨⟨⟩, t', hok, -, hvalues⟩ :=
      (wp_mono hwp (fun _ _ h => h) fun _ he => hmerges he.2).exists_ok
    rw [and_iff_right hmerges, ← mem_cover_freed_iff hsorted hsize hdisjoint hmerges, ← hvalues]
    refine ⟨?_, fun h => ⟨t', hok, h⟩⟩
    rintro ⟨t'', hok', hcover⟩
    obtain rfl : t'' = t' := congrArg Prod.snd (Except.ok.inj (hok'.symm.trans hok))
    exact hcover

/-- **When the iterators of `deallocate_chunk` are valid.** In every state reached by calls with any
arguments and for every extent apart from the free ones, whichever nodes the free extents are at:
`deallocate_chunk` uses only valid iterators and frees exactly the extent, exactly if the free extent
that its lower bound finds does not begin where the extent ends (and no empty one has its place). -/
theorem deallocateChunk_valid_iff (hrun : Steps storageStep (espressoGlobalDataInit maxSize) tr s)
    (hsize : 0 ≤ a.size) (hdisjoint : ∀ x, a.Has x → x ∉ s.free) (ht : t.values = s.freeExtents) :
    FreesValidly a t ↔ ¬ MergesBehind a s.freeExtents ∧ ¬ Shadowed a s.freeExtents := by
  have hsorted := inOrder_of_run hrun
  rw [← ht]
  refine freesValidly_iff (ht ▸ hsorted) hsize fun x hx => ?_
  rw [ht]
  exact hdisjoint x hx

/-- Two chunks of two bytes in a file of 16. -/
def sampleChunks : List (StorageCall × ℤ) :=
  [(sampleWrite, 2), (.writeChunk ⟨1, 1, 2⟩ 0 [3, 4] 2 fun _ => 0, 2)]

theorem deallocateChunk_valid_iff_sampleChunks : ∃ s,
    Steps storageStep (espressoGlobalDataInit 16) sampleChunks s ∧
      FreesValidly ⟨0, 2⟩ (NodeSet.ofList s.freeExtents) := by
  obtain ⟨s, hrun, hfree⟩ : ∃ s, Steps storageStep (espressoGlobalDataInit 16) sampleChunks s ∧
      s.freeExtents = [⟨4, 12⟩] := ⟨_, .cons rfl (.cons rfl (.refl _)), rfl⟩
  refine ⟨s, hrun, (deallocateChunk_valid_iff hrun (by decide) ?_ (values_ofList _)).mpr ⟨?_, ?_⟩⟩
  · intro x hx
    rw [EspressoData.free, hfree]
    simp only [DataAddress.Has, List.map_cons, List.map_nil, mem_cover_cons, cover_nil,
      DataAddress.interval, Set.mem_empty_iff_false, or_false] at hx ⊢
    omega
  · rw [hfree]
    rintro ⟨it, hit, heq⟩
    obtain rfl : (⟨4, 12⟩ : DataAddress) = it := Option.some.inj hit
    exact absurd heq (by decide)
  · rw [hfree]
    rintro ⟨⟨it, hit, heq⟩, -⟩
    obtain rfl := List.mem_singleton.mp hit
    exact absurd heq (by decide)

/-- The first chunk, freed in front of the free rest of the file. -/
theorem erasedIterator_compared : ∃ s, storageStep (espressoGlobalDataInit 16) (sampleWrite, 2) s ∧
    s.metadata.lookup sampleChunk = some ⟨0, 2⟩ ∧ (∀ x, DataAddress.Has ⟨0, 2⟩ x → x ∉ s.free) ∧
    deallocateChunk ⟨0, 2⟩ (NodeSet.ofList s.freeExtents) = .error .compare := by
  obtain ⟨s, hstep, hfree, hchunk⟩ : ∃ s, storageStep (espressoGlobalDataInit 16) (sampleWrite, 2) s ∧
      s.freeExtents = [⟨2, 14⟩] ∧ s.metadata.lookup sampleChunk = some ⟨0, 2⟩ :=
    ⟨_, rfl, rfl, by decide⟩
  refine ⟨s, hstep, hchunk, fun x hx => ?_, ?_⟩
  · rw [EspressoData.free, hfree]
    simp only [DataAddress.Has, List.map_cons, List.map_nil, mem_cover_cons, cover_nil,
      DataAddress.interval, Set.mem_empty_iff_false, or_false] at hx ⊢
    omega
  · rw [hfree]
    rfl

end

end Espresso.Iterators

end DecaFS
