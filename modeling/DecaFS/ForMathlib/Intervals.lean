import Mathlib.Data.Set.Basic
import Mathlib.Data.List.Induction
import Mathlib.Data.Int.Order.Basic
import Mathlib.Data.Int.Interval

/-!
# Canonical lists of intervals

Half-open integer intervals `(lo, hi)`, kept in a list. The list is canonical when its
intervals are non-empty and each ends strictly before the next begins: no two overlap and no
two touch. `cover` is the set of points of the list.

Two operations edit a canonical list. `merge L s e R` puts `[s, e)` between `L` and `R` and
joins it with the neighbours it touches; `carve L k m R` takes the first `k` points off the
interval `m` between `L` and `R`. Both keep the list canonical and change the cover by exactly
the points named.

A canonical list is determined by its cover: its intervals are the maximal segments of it
(`Canonical.mem_iff`). `sum_length_of_cover` adds up the lengths of disjoint intervals that
cover a segment, canonical or not.
-/

namespace DecaFS

namespace Intervals

/-- The points of the intervals of `l`. -/
def cover (l : List (ℤ × ℤ)) : Set ℤ := {x | ∃ m ∈ l, m.1 ≤ x ∧ x < m.2}

/-- Non-empty intervals, each ending strictly before the next begins. -/
def Canonical (l : List (ℤ × ℤ)) : Prop :=
  (∀ m ∈ l, m.1 < m.2) ∧ l.Pairwise fun a b => a.2 < b.1

variable {l L R : List (ℤ × ℤ)} {m : ℤ × ℤ} {s e k x : ℤ}

@[simp]
theorem cover_nil : cover [] = ∅ := by
  simp [cover]

@[simp]
theorem mem_cover_append : x ∈ cover (L ++ R) ↔ x ∈ cover L ∨ x ∈ cover R := by
  simp only [cover, Set.mem_ofPred_eq, List.mem_append]
  constructor
  · rintro ⟨m, hm | hm, hx⟩
    · exact .inl ⟨m, hm, hx⟩
    · exact .inr ⟨m, hm, hx⟩
  · rintro (⟨m, hm, hx⟩ | ⟨m, hm, hx⟩)
    · exact ⟨m, .inl hm, hx⟩
    · exact ⟨m, .inr hm, hx⟩

@[simp]
theorem mem_cover_cons : x ∈ cover (m :: l) ↔ (m.1 ≤ x ∧ x < m.2) ∨ x ∈ cover l := by
  simp [cover]

theorem canonical_nil : Canonical [] := ⟨by simp, .nil⟩

theorem canonical_append_cons :
    Canonical (L ++ m :: R) ↔ Canonical L ∧ Canonical R ∧ m.1 < m.2 ∧
      (∀ a ∈ L, a.2 < m.1) ∧ ∀ b ∈ R, m.2 < b.1 := by
  simp only [Canonical, List.pairwise_append, List.pairwise_cons, List.mem_append, List.mem_cons]
  constructor
  · rintro ⟨hlt, hL, ⟨hmR, hR⟩, hLR⟩
    exact ⟨⟨fun a ha => hlt a (.inl ha), hL⟩, ⟨fun b hb => hlt b (.inr (.inr hb)), hR⟩,
      hlt m (.inr (.inl rfl)), fun a ha => hLR a ha m (.inl rfl), hmR⟩
  · rintro ⟨⟨hL, hL'⟩, ⟨hR, hR'⟩, hm, hLm, hmR⟩
    refine ⟨?_, hL', ⟨hmR, hR'⟩, ?_⟩
    · rintro a (ha | rfl | ha)
      · exact hL a ha
      · exact hm
      · exact hR a ha
    · rintro a ha b (rfl | hb)
      · exact hLm a ha
      · have := hLm a ha
        have := hmR b hb
        omega

theorem canonical_singleton : Canonical [m] ↔ m.1 < m.2 := by
  simp [Canonical]

theorem Canonical.sublist (h : Canonical l) (hs : L.Sublist l) : Canonical L :=
  ⟨fun m hm => h.1 m (hs.subset hm), h.2.sublist hs⟩

/-- An interval apart from the cover lies wholly on one side of each member. -/
theorem Canonical.hi_le_or_le_lo (h : Canonical l) (hse : s < e)
    (hdis : ∀ x, s ≤ x → x < e → x ∉ cover l) (hm : m ∈ l) : m.2 ≤ s ∨ e ≤ m.1 := by
  by_contra! hcon
  have hlt := h.1 m hm
  exact hdis (max s m.1) (by omega) (by omega) ⟨m, hm, by omega, by omega⟩

/-- Two members are the same or apart. -/
theorem Canonical.eq_or_lt {m' : ℤ × ℤ} (h : Canonical l) (hm : m ∈ l) (hm' : m' ∈ l) :
    m = m' ∨ m.2 < m'.1 ∨ m'.2 < m.1 := by
  obtain ⟨L, R, rfl⟩ := List.append_of_mem hm
  obtain ⟨-, -, -, hL, hR⟩ := canonical_append_cons.mp h
  rcases List.mem_append.mp hm' with hm' | hm'
  · exact .inr (.inr (hL m' hm'))
  · rcases List.mem_cons.mp hm' with rfl | hm'
    · exact .inl rfl
    · exact .inr (.inl (hR m' hm'))

/-- A segment of the cover lies in one member. -/
theorem Canonical.exists_mem_of_segment (h : Canonical l) (hse : s < e)
    (hcov : ∀ x, s ≤ x → x < e → x ∈ cover l) : ∃ m ∈ l, m.1 ≤ s ∧ e ≤ m.2 := by
  obtain ⟨m, hm, hlo, hhi⟩ := hcov s le_rfl hse
  refine ⟨m, hm, hlo, not_lt.mp fun hlt => ?_⟩
  -- otherwise the point where `m` ends is in another member, and the two touch
  obtain ⟨m', hm', hlo', hhi'⟩ := hcov m.2 hhi.le hlt
  rcases h.eq_or_lt hm hm' with rfl | hlt' | hlt'
  · omega
  · omega
  · have := h.1 m hm
    omega

/-- **The members are the maximal segments of the cover.** -/
theorem Canonical.mem_iff (h : Canonical l) : m ∈ l ↔ m.1 < m.2 ∧
    (∀ x, m.1 ≤ x → x < m.2 → x ∈ cover l) ∧ m.1 - 1 ∉ cover l ∧ m.2 ∉ cover l := by
  constructor
  · intro hm
    have hlt := h.1 m hm
    refine ⟨hlt, fun x hlo hhi => ⟨m, hm, hlo, hhi⟩, ?_, ?_⟩
    · rintro ⟨m', hm', hlo, hhi⟩
      rcases h.eq_or_lt hm hm' with rfl | hlt' | hlt' <;> omega
    · rintro ⟨m', hm', hlo, hhi⟩
      rcases h.eq_or_lt hm hm' with rfl | hlt' | hlt' <;> omega
  · rintro ⟨hlt, hcov, hbefore, hbehind⟩
    obtain ⟨m', hm', hlo, hhi⟩ := h.exists_mem_of_segment hlt hcov
    have hlo' : m'.1 = m.1 := by
      by_contra hne
      exact hbefore ⟨m', hm', by omega, by omega⟩
    have hhi' : m'.2 = m.2 := by
      by_contra hne
      exact hbehind ⟨m', hm', by omega, by omega⟩
    rwa [← Prod.ext hlo' hhi']

/-- One segment is covered by one interval. -/
theorem Canonical.eq_singleton (h : Canonical l) (hse : s < e)
    (hcov : ∀ x, x ∈ cover l ↔ s ≤ x ∧ x < e) : l = [(s, e)] := by
  have hmem : ∀ m, m ∈ l → m = (s, e) := by
    intro m hm
    obtain ⟨hlt, hin, hbefore, hbehind⟩ := h.mem_iff.mp hm
    have hlo := (hcov m.1).mp (hin m.1 le_rfl hlt)
    have hhi := (hcov (m.2 - 1)).mp (hin (m.2 - 1) (by omega) (by omega))
    rw [hcov] at hbefore hbehind
    exact Prod.ext (by dsimp only; omega) (by dsimp only; omega)
  have hse' : (s, e) ∈ l := by
    obtain ⟨m, hm, -⟩ := (hcov s).mpr ⟨le_rfl, hse⟩
    rwa [← hmem m hm]
  obtain ⟨L, R, rfl⟩ := List.append_of_mem hse'
  obtain ⟨-, -, -, hL, hR⟩ := canonical_append_cons.mp h
  have hL' : L = [] := List.eq_nil_iff_forall_not_mem.mpr fun m hm => by
    have hlt := hL m hm
    rw [hmem m (by simp [hm])] at hlt
    dsimp only at hlt
    omega
  have hR' : R = [] := List.eq_nil_iff_forall_not_mem.mpr fun m hm => by
    have hlt := hR m hm
    rw [hmem m (by simp [hm])] at hlt
    dsimp only at hlt
    omega
  rw [hL', hR', List.nil_append]

/-! ### Lengths -/

/-- Disjoint intervals that cover a segment have its length together. -/
theorem sum_length_of_cover (lo hi : ℤ) (hle : ∀ m ∈ l, m.1 ≤ m.2) (hlohi : lo ≤ hi)
    (hdisj : l.Pairwise fun a b => ∀ x, a.1 ≤ x → x < a.2 → ¬ (b.1 ≤ x ∧ x < b.2))
    (hcov : ∀ x, x ∈ cover l ↔ lo ≤ x ∧ x < hi) : (l.map fun m => m.2 - m.1).sum = hi - lo := by
  -- the number of points of the cover, counted interval by interval
  have hcount : ∀ l : List (ℤ × ℤ), (∀ m ∈ l, m.1 ≤ m.2) →
      l.Pairwise (fun a b => ∀ x, a.1 ≤ x → x < a.2 → ¬ (b.1 ≤ x ∧ x < b.2)) →
      ∃ points : Finset ℤ, (∀ x, x ∈ points ↔ x ∈ cover l) ∧
        (l.map fun m => m.2 - m.1).sum = points.card := by
    intro l
    induction l with
    | nil => exact fun _ _ => ⟨∅, by simp, by simp⟩
    | cons m l ih =>
      intro hle hdisj
      obtain ⟨hm, hdisj⟩ := List.pairwise_cons.mp hdisj
      obtain ⟨points, hmem, hsum⟩ := ih (fun m hm => hle m (by simp [hm])) hdisj
      have hapart : Disjoint (Finset.Ico m.1 m.2) points := by
        rw [Finset.disjoint_left]
        intro x hx hx'
        obtain ⟨hlo, hhi⟩ := Finset.mem_Ico.mp hx
        obtain ⟨m', hm', hx'⟩ := (hmem x).mp hx'
        exact hm m' hm' x hlo hhi hx'
      have := hle m (by simp)
      refine ⟨Finset.Ico m.1 m.2 ∪ points, fun x => by simp [hmem], ?_⟩
      rw [List.map_cons, List.sum_cons, hsum, Finset.card_union_of_disjoint hapart, Int.card_Ico]
      push_cast
      omega
  obtain ⟨points, hmem, hsum⟩ := hcount l hle hdisj
  have hpoints : points = Finset.Ico lo hi := by
    ext x
    rw [hmem, hcov, Finset.mem_Ico]
  rw [hsum, hpoints, Int.card_Ico]
  omega

/-! ### Joining with the neighbours -/

/-- Where the interval from `s` on begins once joined with the last interval of `L`, and the
intervals that stay before it. -/
def joinLeft (L : List (ℤ × ℤ)) (s : ℤ) : List (ℤ × ℤ) × ℤ :=
  match L.getLast? with
  | none => (L, s)
  | some b => if b.2 = s then (L.dropLast, b.1) else (L, s)

/-- Where the interval up to `e` ends once joined with the first interval of `R`, and the
intervals that stay after it. -/
def joinRight (R : List (ℤ × ℤ)) (e : ℤ) : List (ℤ × ℤ) × ℤ :=
  match R with
  | [] => (R, e)
  | a :: R' => if a.1 = e then (R', a.2) else (R, e)

/-- Put `[s, e)` between `L` and `R`, joined with the neighbours it touches. -/
def merge (L : List (ℤ × ℤ)) (s e : ℤ) (R : List (ℤ × ℤ)) : List (ℤ × ℤ) :=
  (joinLeft L s).1 ++ ((joinLeft L s).2, (joinRight R e).2) :: (joinRight R e).1

theorem joinLeft_append_of_eq (h : m.2 = s) : joinLeft (L ++ [m]) s = (L, m.1) := by
  simp [joinLeft, h]

theorem joinLeft_append_of_ne (h : m.2 ≠ s) : joinLeft (L ++ [m]) s = (L ++ [m], s) := by
  simp [joinLeft, h]

theorem joinLeft_sublist (L : List (ℤ × ℤ)) (s : ℤ) : (joinLeft L s).1.Sublist L := by
  unfold joinLeft
  split
  · exact .refl L
  · split_ifs
    · exact List.dropLast_sublist L
    · exact .refl L

private theorem joinLeft_spec (hL : Canonical L) (hs : ∀ a ∈ L, a.2 ≤ s) :
    Canonical (joinLeft L s).1 ∧ (∀ a ∈ (joinLeft L s).1, a.2 < (joinLeft L s).2) ∧
      (joinLeft L s).2 ≤ s ∧
      ∀ x, x ∈ cover (joinLeft L s).1 ∨ ((joinLeft L s).2 ≤ x ∧ x < s) ↔ x ∈ cover L := by
  induction L using List.reverseRecOn with
  | nil => exact ⟨canonical_nil, by simp [joinLeft], by simp [joinLeft], by simp [joinLeft]⟩
  | append_singleton L m _ =>
    obtain ⟨hL', -, hm, hLm, -⟩ := canonical_append_cons.mp hL
    by_cases h : m.2 = s
    · rw [joinLeft_append_of_eq h]
      refine ⟨hL', hLm, by omega, fun x => ?_⟩
      simp [h]
    · rw [joinLeft_append_of_ne h]
      have hms := hs m (by simp)
      refine ⟨hL, fun a ha => ?_, le_rfl, fun x => by simp⟩
      rcases List.mem_append.mp ha with ha | ha
      · have := hLm a ha
        omega
      · rw [List.mem_singleton] at ha
        subst ha
        omega

private theorem joinRight_spec (hR : Canonical R) (he : ∀ b ∈ R, e ≤ b.1) :
    Canonical (joinRight R e).1 ∧ (∀ b ∈ (joinRight R e).1, (joinRight R e).2 < b.1) ∧
      e ≤ (joinRight R e).2 ∧
      ∀ x, x ∈ cover (joinRight R e).1 ∨ (e ≤ x ∧ x < (joinRight R e).2) ↔ x ∈ cover R := by
  cases R with
  | nil => exact ⟨canonical_nil, by simp [joinRight], by simp [joinRight], by simp [joinRight]⟩
  | cons m R =>
    obtain ⟨-, hR', hm, -, hmR⟩ := canonical_append_cons (L := []).mp hR
    by_cases h : m.1 = e
    · simp only [joinRight, if_pos h]
      refine ⟨hR', hmR, by omega, fun x => ?_⟩
      rw [mem_cover_cons, h, or_comm]
    · simp only [joinRight, if_neg h]
      have hme := he m List.mem_cons_self
      refine ⟨hR, fun b hb => ?_, le_rfl, fun x => by simp⟩
      rcases List.mem_cons.mp hb with rfl | hb
      · omega
      · have := hmR b hb
        omega

section Merge

variable (hL : Canonical L) (hR : Canonical R) (hse : s < e) (hs : ∀ a ∈ L, a.2 ≤ s)
  (he : ∀ b ∈ R, e ≤ b.1)

include hL hR hse hs he

/-- Merging keeps the list canonical. -/
theorem canonical_merge : Canonical (merge L s e R) := by
  obtain ⟨hL', hLlo, hlo, -⟩ := joinLeft_spec hL hs
  obtain ⟨hR', hhiR, hhi, -⟩ := joinRight_spec hR he
  exact canonical_append_cons.mpr ⟨hL', hR', by dsimp only; omega, hLlo, hhiR⟩

/-- Merging adds the points of `[s, e)` and no others. -/
theorem mem_cover_merge : x ∈ cover (merge L s e R) ↔ x ∈ cover (L ++ R) ∨ (s ≤ x ∧ x < e) := by
  obtain ⟨-, -, hlo, hcL⟩ := joinLeft_spec hL hs
  obtain ⟨-, -, hhi, hcR⟩ := joinRight_spec hR he
  have hmid : ((joinLeft L s).2 ≤ x ∧ x < (joinRight R e).2) ↔
      ((joinLeft L s).2 ≤ x ∧ x < s) ∨ (s ≤ x ∧ x < e) ∨ (e ≤ x ∧ x < (joinRight R e).2) := by
    omega
  rw [merge, mem_cover_append, mem_cover_cons, mem_cover_append, ← hcL x, ← hcR x, hmid]
  tauto

end Merge

/-! ### Carving from the front of an interval -/

/-- Take the first `k` points off the interval `m` between `L` and `R`. -/
def carve (L : List (ℤ × ℤ)) (k : ℤ) (m : ℤ × ℤ) (R : List (ℤ × ℤ)) : List (ℤ × ℤ) :=
  if m.1 + k < m.2 then L ++ (m.1 + k, m.2) :: R else L ++ R

theorem canonical_carve (h : Canonical (L ++ m :: R)) (hk : 0 ≤ k) : Canonical (carve L k m R) := by
  unfold carve
  split_ifs with hlt
  · obtain ⟨hL, hR, -, hLm, hmR⟩ := canonical_append_cons.mp h
    refine canonical_append_cons.mpr ⟨hL, hR, hlt, fun a ha => ?_, hmR⟩
    have := hLm a ha
    dsimp only
    omega
  · exact h.sublist (List.Sublist.append_left (List.sublist_cons_self _ _) L)

/-- Carving removes the first `k` points of `m` and no others. -/
theorem mem_cover_carve (h : Canonical (L ++ m :: R)) (hk : 0 ≤ k) (hfit : m.1 + k ≤ m.2) :
    x ∈ cover (carve L k m R) ↔ x ∈ cover (L ++ m :: R) ∧ ¬ (m.1 ≤ x ∧ x < m.1 + k) := by
  obtain ⟨hL, hR, hm, hLm, hmR⟩ := canonical_append_cons.mp h
  have hxL : x ∈ cover L → x < m.1 := by
    rintro ⟨a, ha, -, hx⟩
    have := hLm a ha
    omega
  have hxR : x ∈ cover R → m.2 < x := by
    rintro ⟨b, hb, hx, -⟩
    have := hmR b hb
    omega
  have hcov : x ∈ cover (carve L k m R) ↔
      x ∈ cover L ∨ (m.1 + k ≤ x ∧ x < m.2) ∨ x ∈ cover R := by
    unfold carve
    split_ifs with hlt
    · simp
    · rw [mem_cover_append]
      have : ¬ (m.1 + k ≤ x ∧ x < m.2) := by omega
      tauto
  rw [hcov, mem_cover_append, mem_cover_cons]
  by_cases hL' : x ∈ cover L
  · have := hxL hL'
    simp only [hL', true_or, true_and, true_iff]
    omega
  · by_cases hR' : x ∈ cover R
    · have := hxR hR'
      simp only [hR', or_true, true_and, true_iff]
      omega
    · simp only [hL', hR', or_false, false_or]
      omega

end Intervals

end DecaFS
