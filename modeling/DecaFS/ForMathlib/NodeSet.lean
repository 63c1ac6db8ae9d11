import DecaFS.ForMathlib.OrderedList
import DecaFS.ForMathlib.WeakestPre

/-!
# Ordered sets with iterators

A set as the list of its nodes in order. A node keeps its identity for as long as it is in the set and
no later node gets it again, so that an iterator to an erased element is not one to the element that
came in its place. Iterators are nodes or the end; code that compares, decrements, dereferences or
erases one whose node is gone stops with the `InvalidUse`.

The rules are for a list of nodes split at the iterator, as those of `OrderedList` are.
-/

namespace DecaFS

open OrderedList Code

/-- An ordered set, by its nodes. -/
structure NodeSet (α : Type) where
  nodes : List (ℕ × α)
  fresh : ℕ
  nodup : (nodes.map Prod.fst).Nodup
  lt_fresh : ∀ x ∈ nodes, x.1 < fresh

/-- An iterator: a node, or `none` for the end. -/
abbrev Iter : Type := Option ℕ

/-- What was done with an iterator that is not valid for it. -/
inductive InvalidUse : Type
  | compare
  | increment
  | decrement
  | dereference
  | erase
  deriving DecidableEq, Repr

namespace NodeSet

variable {α κ : Type} [LinearOrder κ] (key : α → κ)

/-- The elements in order. -/
def values (s : NodeSet α) : List α := s.nodes.map Prod.snd

/-- The iterator denotes an element or the end. -/
def Live (s : NodeSet α) (i : Iter) : Prop := ∀ n ∈ i, n ∈ s.nodes.map Prod.fst

instance (s : NodeSet α) (i : Iter) : Decidable (s.Live i) :=
  inferInstanceAs (Decidable (∀ n ∈ i, _))

/-- The set without the node `n`. -/
def erase (n : ℕ) (s : NodeSet α) : NodeSet α where
  nodes := s.nodes.filter fun x => x.1 ≠ n
  fresh := s.fresh
  nodup := s.nodup.sublist (List.filter_sublist.map _)
  lt_fresh x hx := s.lt_fresh x (List.mem_of_mem_filter hx)

/-- The elements of the list, each with a node of its own. -/
def ofList : List α → NodeSet α
  | [] => ⟨[], 0, .nil, by simp⟩
  | a :: l =>
    let s := ofList l
    { nodes := (s.fresh, a) :: s.nodes
      fresh := s.fresh + 1
      nodup := by
        refine List.nodup_cons.mpr ⟨fun hmem => ?_, s.nodup⟩
        obtain ⟨x, hx, heq⟩ := List.mem_map.mp hmem
        exact absurd heq (s.lt_fresh x hx).ne
      lt_fresh := by
        intro x hx
        rcases List.mem_cons.mp hx with rfl | hx
        · exact Nat.lt_succ_self _
        · exact (s.lt_fresh x hx).trans (Nat.lt_succ_self _) }

/-- The set with `a`, at a new node unless its key is taken. -/
def insert (a : α) (s : NodeSet α) : NodeSet α where
  nodes := insertKey (key ∘ Prod.snd) (s.fresh, a) s.nodes
  fresh := s.fresh + 1
  nodup := by
    rcases insertKey_eq_or (key ∘ Prod.snd) (s.fresh, a) s.nodes with heq | hperm
    · rw [heq]
      exact s.nodup
    · rw [(hperm.map Prod.fst).nodup_iff, List.map_cons]
      refine List.nodup_cons.mpr ⟨fun hmem => ?_, s.nodup⟩
      obtain ⟨x, hx, heq⟩ := List.mem_map.mp hmem
      exact absurd heq (s.lt_fresh x hx).ne
  lt_fresh := by
    intro x hx
    rcases insertKey_eq_or (key ∘ Prod.snd) (s.fresh, a) s.nodes with heq | hperm
    · rw [heq] at hx
      exact (s.lt_fresh x hx).trans (Nat.lt_succ_self _)
    · rcases List.mem_cons.mp (hperm.mem_iff.mp hx) with rfl | hx
      · exact Nat.lt_succ_self _
      · exact (s.lt_fresh x hx).trans (Nat.lt_succ_self _)

/-! ### Code -/

/-- `begin()` -/
def begin : Code InvalidUse (NodeSet α) Iter := return (← get).nodes.head?.map Prod.fst

/-- `lower_bound` -/
def lowerBound (k : κ) : Code InvalidUse (NodeSet α) Iter :=
  return (atLeast (key ∘ Prod.snd) k (← get).nodes).head?.map Prod.fst

/-- `operator!=` -/
def differ (i j : Iter) : Code InvalidUse (NodeSet α) Bool := do
  let s ← get
  if s.Live i ∧ s.Live j then return i ≠ j else throw .compare

/-- `operator*` -/
def deref (i : Iter) : Code InvalidUse (NodeSet α) α := do
  let s ← get
  match i.bind fun n => s.nodes.lookup n with
  | some a => return a
  | none => throw .dereference

/-- `operator++` -/
def next (i : Iter) : Code InvalidUse (NodeSet α) Iter := do
  match (← get).nodes.dropWhile fun x => i ≠ some x.1 with
  | _ :: R => return R.head?.map Prod.fst
  | [] => throw .increment

/-- `operator--` -/
def prev (i : Iter) : Code InvalidUse (NodeSet α) Iter := do
  let s ← get
  match (s.nodes.takeWhile fun x => i ≠ some x.1).getLast? with
  | some x => if s.Live i then return some x.1 else throw .decrement
  | none => throw .decrement

/-- `erase` -/
def eraseAt (i : Iter) : Code InvalidUse (NodeSet α) PUnit := do
  let s ← get
  match i.filter fun n => n ∈ s.nodes.map Prod.fst with
  | some n => modify (erase n)
  | none => throw .erase

/-- `insert` -/
def insertValue (a : α) : Code InvalidUse (NodeSet α) PUnit := modify (insert key a)

/-! ### Rules -/

section

variable {key} {s : NodeSet α} {L R : List (ℕ × α)} {n : ℕ} {a : α} {k : κ} {i j : Iter}
  {E : InvalidUse → Prop}

theorem values_ofList (l : List α) : (ofList l).values = l := by
  induction l with
  | nil => rfl
  | cons a l ih => exact congrArg (a :: ·) ih

/-- A node occurs once. -/
theorem notMem_of_split (h : s.nodes = L ++ (n, a) :: R) : (∀ x ∈ L, x.1 ≠ n) ∧ ∀ x ∈ R, x.1 ≠ n := by
  have hnodup := s.nodup
  rw [h, List.map_append, List.map_cons, List.nodup_append, List.nodup_cons] at hnodup
  obtain ⟨-, ⟨hR, -⟩, hL⟩ := hnodup
  refine ⟨fun x hx => hL _ (List.mem_map_of_mem hx) _ List.mem_cons_self, fun x hx heq => hR ?_⟩
  exact List.mem_map.mpr ⟨x, hx, heq⟩

theorem live_head (h : s.nodes = L ++ R) : s.Live (R.head?.map Prod.fst) := by
  intro n hn
  obtain ⟨x, hx, rfl⟩ := Option.map_eq_some_iff.mp hn
  rw [h, List.map_append]
  exact List.mem_append_right _ (List.mem_map_of_mem (List.mem_of_head? hx))

theorem live_end : s.Live none := by simp [Live]

theorem nodes_erase (h : s.nodes = L ++ (n, a) :: R) : (s.erase n).nodes = L ++ R := by
  obtain ⟨hL, hR⟩ := notMem_of_split h
  have hkeepL : L.filter (fun x => x.1 ≠ n) = L :=
    List.filter_eq_self.mpr fun x hx => decide_eq_true (hL x hx)
  have hkeepR : R.filter (fun x => x.1 ≠ n) = R :=
    List.filter_eq_self.mpr fun x hx => decide_eq_true (hR x hx)
  change s.nodes.filter _ = _
  rw [h, List.filter_append, hkeepL, List.filter_cons_of_neg (by simp), hkeepR]

/-- An iterator to an erased element is not valid any more. -/
theorem not_live_erase (n : ℕ) : ¬ (s.erase n).Live (some n) := by
  intro h
  obtain ⟨x, hx, heq⟩ := List.mem_map.mp (h n rfl)
  have hne : x.1 ≠ n := of_decide_eq_true (List.mem_filter.mp hx).2
  exact hne heq

theorem values_insert : (s.insert key a).values = insertKey key a s.values := by
  have hatLeast := atLeast_map key Prod.snd (key a) s.nodes
  have hbelow := below_map key Prod.snd (key a) s.nodes
  change (insertKey (key ∘ Prod.snd) (s.fresh, a) s.nodes).map Prod.snd =
    insertKey key a (s.nodes.map Prod.snd)
  simp only [insertKey, Function.comp_apply, ← hatLeast, ← hbelow]
  cases atLeast (key ∘ Prod.snd) (key a) s.nodes with
  | nil => simp
  | cons x R =>
    simp only [List.map_cons]
    split_ifs
    · rfl
    · simp

@[simp]
theorem wp_begin {Q : Iter → NodeSet α → Prop} :
    wp begin Q E s ↔ Q (s.nodes.head?.map Prod.fst) s := by
  simp [begin]

theorem wp_lowerBound {Q : Iter → NodeSet α → Prop} (h : s.nodes = L ++ R)
    (hL : ∀ x ∈ L, key x.2 < k) (hR : ∀ x ∈ R, k ≤ key x.2) :
    wp (lowerBound key k) Q E s ↔ Q (R.head?.map Prod.fst) s := by
  have hsplit : atLeast (key ∘ Prod.snd) k s.nodes = R := by
    rw [h]
    exact atLeast_append hL hR
  simp [lowerBound, hsplit]

theorem wp_differ {Q : Bool → NodeSet α → Prop} (hi : s.Live i) (hj : s.Live j) :
    wp (differ i j) Q E s ↔ Q (i ≠ j) s := by
  simp [differ, hi, hj]

theorem wp_differ_of_not_live {Q : Bool → NodeSet α → Prop} (hi : ¬ s.Live i) :
    wp (differ i j) Q E s ↔ E .compare := by
  simp [differ, hi]

theorem wp_deref {Q : α → NodeSet α → Prop} (h : s.nodes = L ++ (n, a) :: R) :
    wp (deref (some n)) Q E s ↔ Q a s := by
  obtain ⟨hL, -⟩ := notMem_of_split h
  have hlookup : s.nodes.lookup n = some a := by
    have hnone : L.lookup n = none := List.lookup_eq_none_iff.mpr fun x hx =>
      bne_iff_ne.mpr (hL x hx).symm
    rw [h, List.lookup_append, hnone, List.lookup_cons_self]
    rfl
  simp [deref, hlookup]

theorem wp_next {Q : Iter → NodeSet α → Prop} (h : s.nodes = L ++ (n, a) :: R) :
    wp (next (some n)) Q E s ↔ Q (R.head?.map Prod.fst) s := by
  obtain ⟨hL, -⟩ := notMem_of_split h
  have hfrom : s.nodes.dropWhile (fun x => some n ≠ some x.1) = (n, a) :: R := by
    rw [h, List.dropWhile_append_of_pos fun x hx => by simpa using (hL x hx).symm]
    simp
  simp only [next, wp_bind, wp_get, hfrom, wp_pure]

theorem wp_next_of_not_live {Q : Iter → NodeSet α → Prop} (hi : ¬ s.Live i) :
    wp (next i) Q E s ↔ E .increment := by
  have hfrom : s.nodes.dropWhile (fun x => i ≠ some x.1) = [] := by
    refine List.dropWhile_eq_nil_iff.mpr fun x hx => decide_eq_true ?_
    rintro rfl
    refine hi fun n hn => ?_
    obtain rfl := Option.some.inj hn
    exact List.mem_map_of_mem hx
  simp only [next, wp_bind, wp_get, hfrom, wp_throw]

theorem wp_prev {Q : Iter → NodeSet α → Prop} (h : s.nodes = L ++ (n, a) :: R) :
    wp (prev (R.head?.map Prod.fst)) Q E s ↔ Q (some n) s := by
  have hfull : s.nodes = (L ++ [(n, a)]) ++ R := by rw [h, List.append_assoc, List.singleton_append]
  have hbefore : s.nodes.takeWhile (fun x => R.head?.map Prod.fst ≠ some x.1) = L ++ [(n, a)] := by
    cases R with
    | nil =>
      rw [h]
      exact List.takeWhile_eq_self_iff.mpr fun x _ => by simp
    | cons y R =>
      obtain ⟨hL, -⟩ := notMem_of_split (a := y.2) (n := y.1) hfull
      rw [hfull, List.takeWhile_append_of_pos fun x hx => by simpa using (hL x hx).symm]
      simp
  simp only [prev, wp_bind, wp_get, hbefore, List.getLast?_concat, live_head hfull, if_true, wp_pure]

theorem wp_eraseAt {Q : PUnit → NodeSet α → Prop} (h : s.nodes = L ++ (n, a) :: R) :
    wp (eraseAt (some n)) Q E s ↔ Q ⟨⟩ (s.erase n) := by
  have hmem : n ∈ s.nodes.map Prod.fst := by
    rw [h]
    simp
  simp only [eraseAt, wp_bind, wp_get, Option.filter_some, decide_eq_true hmem, if_true, wp_modify]

@[simp]
theorem wp_insertValue {Q : PUnit → NodeSet α → Prop} :
    wp (insertValue key a) Q E s ↔ Q ⟨⟩ (s.insert key a) := by
  simp [insertValue]

end

end NodeSet

end DecaFS
