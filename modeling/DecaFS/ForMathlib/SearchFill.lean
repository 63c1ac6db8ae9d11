import Mathlib.Data.List.Pairwise
import Mathlib.Data.List.Sort
import DecaFS.ForMathlib.SearchMap

/-!
# Search trees filled from a list

`S.fill l m` sets the entries of `l` in `m`, one after the other. Where the keys are compared as their
ranks are and no rank is there twice, the order of `l` does not matter: a tree filled from `l` lists
its entries by rank (`fill_eq_insertionSort`). Where two keys are not told apart, or each is less than
the other, it does (`set_pair`), whatever is set besides (`flatMap_fill_sublist`).
-/

namespace DecaFS

namespace Search

variable {α β γ δ : Type*} {lt : α → α → Bool} {S : Search lt} {k : α} {v : β} {l m : List (α × β)}

/-- Set the entries of `l` in the order of the list. -/
def fill (S : Search lt) (l m : List (α × β)) : List (α × β) :=
  l.foldl (fun m e => S.set e.1 e.2 m) m

@[simp]
theorem fill_nil : S.fill [] m = m := rfl

@[simp]
theorem fill_cons (e : α × β) : S.fill (e :: l) m = S.fill l (S.set e.1 e.2 m) := rfl

theorem fill_append (l' : List (α × β)) : S.fill (l ++ l') m = S.fill l' (S.fill l m) :=
  List.foldl_append

/-! ### By rank -/

section Ranked

variable [LinearOrder γ] {ρ : α → γ}

/-- A key of a new rank is inserted. -/
theorem set_of_ne (h : SortedBy ρ m) (hk : RankedAt lt ρ m k) (hne : ∀ e ∈ m, ρ e.1 ≠ ρ k) (v : β) :
    ∃ a c, m = a ++ c ∧ S.set k v m = a ++ (k, v) :: c := by
  rcases set_cases (S := S) h hk v with ⟨a, e, c, rfl, heq, -, -⟩ | ⟨a, c, rfl, -, -, hset⟩
  · exact absurd heq (hne e (by simp))
  · exact ⟨a, c, rfl, hset⟩

/-- **Filling a tree by rank** keeps it sorted and adds the entries. -/
theorem fill_ranked (h : SortedBy ρ m) (hm : ∀ e ∈ l, RankedAt lt ρ m e.1)
    (hl : ∀ e ∈ l, ∀ e' ∈ l, (lt e.1 e'.1 = true ↔ ρ e.1 < ρ e'.1))
    (hnew : ∀ e ∈ m, ∀ e' ∈ l, ρ e.1 ≠ ρ e'.1) (honce : l.Pairwise fun e e' => ρ e.1 ≠ ρ e'.1) :
    SortedBy ρ (S.fill l m) ∧ (S.fill l m).Perm (l ++ m) := by
  induction l generalizing m with
  | nil => exact ⟨h, .refl m⟩
  | cons e l ih =>
    obtain ⟨he, hrest⟩ := List.pairwise_cons.mp honce
    have hke := hm e List.mem_cons_self
    obtain ⟨a, c, rfl, hset⟩ :=
      set_of_ne (S := S) h hke (fun x hx => hnew x hx e List.mem_cons_self) e.2
    have hperm : (a ++ (e.1, e.2) :: c).Perm (e :: (a ++ c)) := List.perm_middle
    rw [fill_cons]
    have hsorted : SortedBy ρ (S.set e.1 e.2 (a ++ c)) := sortedBy_set h hke
    rw [hset] at hsorted ⊢
    have hfill := ih hsorted
      (fun x hx => rankedAt_insert (hm x (List.mem_cons_of_mem _ hx))
        ⟨hl e List.mem_cons_self x (List.mem_cons_of_mem _ hx),
          hl x (List.mem_cons_of_mem _ hx) e List.mem_cons_self⟩)
      (fun x hx y hy => hl x (List.mem_cons_of_mem _ hx) y (List.mem_cons_of_mem _ hy))
      (fun x hx y hy => ?_) hrest
    · refine ⟨hfill.1, hfill.2.trans (((List.Perm.refl l).append hperm).trans ?_)⟩
      exact List.perm_middle
    · rcases List.mem_cons.mp (hperm.subset hx) with rfl | hx
      · exact he y hy
      · exact hnew x hx y (List.mem_cons_of_mem _ hy)

/-- **The order of the list does not matter.** -/
theorem fill_eq_insertionSort {l' : List (α × β)} (hl' : l'.Perm l)
    (hl : ∀ e ∈ l, ∀ e' ∈ l, (lt e.1 e'.1 = true ↔ ρ e.1 < ρ e'.1))
    (honce : l.Pairwise fun e e' => ρ e.1 ≠ ρ e'.1) :
    S.fill l' [] = l.insertionSort fun e e' => ρ e.1 ≤ ρ e'.1 := by
  have hsymm : Std.Symm fun e e' : α × β => ρ e.1 ≠ ρ e'.1 := ⟨fun _ _ h => h.symm⟩
  have hempty : ∀ e ∈ l', RankedAt lt ρ ([] : List (α × β)) e.1 := fun _ _ x hx =>
    absurd hx List.not_mem_nil
  obtain ⟨hsorted, hperm⟩ := fill_ranked (S := S) (m := []) List.Pairwise.nil hempty
    (fun e he e' he' => hl e (hl'.subset he) e' (hl'.subset he'))
    (fun x hx => absurd hx List.not_mem_nil) ((hl'.pairwise_iff fun h => h.symm).mpr honce)
  rw [List.append_nil] at hperm
  have htotal : Std.Total fun e e' : α × β => ρ e.1 ≤ ρ e'.1 := ⟨fun e e' => le_total _ _⟩
  have htrans : IsTrans (α × β) fun e e' => ρ e.1 ≤ ρ e'.1 := ⟨fun _ _ _ => le_trans⟩
  have hsort := List.perm_insertionSort (fun e e' : α × β => ρ e.1 ≤ ρ e'.1) l
  refine List.Perm.eq_of_pairwise (fun x y hx hy hxy hyx => ?_) hsorted
    (List.pairwise_insertionSort _ l) ((hperm.trans hl').trans hsort.symm)
  -- two entries of one rank are one entry
  have hx' := (hperm.trans hl').subset hx
  have hy' := hsort.subset hy
  by_contra hne
  exact honce.forall hx' hy' hne (le_antisymm hxy hyx)

end Ranked

/-! ### Without ranks -/

/-- The first key. -/
theorem set_nil (k : α) (v : β) : S.set k v [] = [(k, v)] := by
  simp [set, before, behind]

/-- A second key in a tree of one. -/
theorem set_pair (S : Search lt) (a b : α) (u v : β) : S.set b v [(a, u)] =
    if lt a b then [(a, u), (b, v)] else if lt b a then [(b, v), (a, u)] else [(a, v)] := by
  have hle := S.gap_le [a] b
  unfold set before behind
  by_cases hab : lt a b = true
  · have hgap : S.gap [a] b = 1 := by
      by_contra hne
      have hzero : S.gap [a] b = 0 := by
        simp only [List.length_singleton] at hle
        omega
      have hnot := S.not_lt_of_gap [a] b a (by rw [hzero]; rfl)
      simp [hab] at hnot
    simp [hgap, hab]
  · have hgap : S.gap [a] b = 0 := by
      by_contra hne
      have hone : S.gap [a] b = 0 + 1 := by
        simp only [List.length_singleton] at hle
        omega
      exact hab (S.lt_of_gap [a] b 0 a hone rfl)
    simp [hgap, hab]

/-- Setting an entry without content adds nothing to what the tree lists. -/
theorem flatMap_set_nil_sublist (k : α) (m : List (α × List δ)) :
    ((S.set k [] m).flatMap Prod.snd).Sublist (m.flatMap Prod.snd) := by
  have hsplit := before_append_behind (S := S) (k := k) (m := m)
  have hm : m.flatMap Prod.snd = (S.before k m).flatMap Prod.snd ++ (S.behind k m).flatMap Prod.snd := by
    rw [← List.flatMap_append, hsplit]
  rw [hm]
  unfold set
  rw [List.flatMap_append]
  refine (List.Sublist.refl _).append ?_
  cases S.behind k m with
  | nil => exact List.Sublist.refl _
  | cons e rest =>
    dsimp only
    split
    · exact List.Sublist.refl _
    · simp

theorem flatMap_fill_sublist {l m : List (α × List δ)} (h : ∀ e ∈ l, e.2 = []) :
    ((S.fill l m).flatMap Prod.snd).Sublist (m.flatMap Prod.snd) := by
  induction l generalizing m with
  | nil => exact List.Sublist.refl _
  | cons e l ih =>
    rw [fill_cons, h e List.mem_cons_self]
    exact (ih fun x hx => h x (List.mem_cons_of_mem _ hx)).trans (flatMap_set_nil_sublist e.1 m)

end Search

end DecaFS
