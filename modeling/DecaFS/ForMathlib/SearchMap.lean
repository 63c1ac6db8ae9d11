import Mathlib.Data.List.Basic
import Mathlib.Order.Lattice

/-!
# Maps kept in a search tree under an arbitrary comparison

A search tree is seen through the list of its entries in the order of the tree. Searching for
a key walks down from the root and ends in the gap between two neighbours of that list, both
of which it was compared with on the way: the one before the gap is less than the key and the
one behind it is not. Nothing else is known when the comparison `lt` is not an order, so a
`Search` is any choice of gaps with these two properties, as the shape of the tree may have it.

* `find?`, `set`, `erase`: the operations of `std::map`, in terms of the gap.
* `gap_append`: when the key splits the list, the gap is where it splits.
* `RankedAt`: `lt` compares the key with the keys of the map as their ranks do. On a map sorted
  by rank the search then finds the entry of the key's rank (`find?_eq`), and `set` puts the
  entry there, keeps the map sorted and leaves the other entries alone (`set_cases`).
* `ReadsBack`: while keys of a set that are not found yet are set, each is found from then on. It
  holds where the keys are compared as their ranks are (`readsBack_of_ranked`).
* `FindsOwn`: while keys of a set are erased, each is found as long as it is there; again by rank
  (`findsOwn_of_ranked`).
* `OrderedIn`: a map whose keys are all compared as their ranks are; `set` and `erase` keep it so.
-/

namespace DecaFS

/-- The gap at which the search for a key ends, for every list of keys. -/
structure Search {α : Type*} (lt : α → α → Bool) where
  gap : List α → α → ℕ
  lt_of_gap : ∀ ks k p x, gap ks k = p + 1 → ks[p]? = some x → lt x k = true
  gap_le : ∀ ks k, gap ks k ≤ ks.length
  not_lt_of_gap : ∀ ks k x, ks[gap ks k]? = some x → lt x k = false

namespace Search

variable {α β γ : Type*} {lt : α → α → Bool}

/-- The gap before the first key that is not less. -/
def linear (lt : α → α → Bool) : Search lt where
  gap ks k := ks.findIdx fun x => !lt x k
  gap_le _ _ := List.findIdx_le_length
  lt_of_gap ks k p x hp hx := by
    obtain ⟨h, rfl⟩ := List.getElem?_eq_some_iff.mp hx
    have hlt : p < ks.findIdx fun x => !lt x k := by omega
    simpa using List.not_of_lt_findIdx hlt
  not_lt_of_gap ks k x hx := by simpa using List.findIdx_of_getElem?_eq_some hx

variable (S : Search lt)

/-- The entries before the gap of `k`. -/
def before (k : α) (m : List (α × β)) : List (α × β) := m.take (S.gap (m.map Prod.fst) k)

/-- The entries behind the gap of `k`. -/
def behind (k : α) (m : List (α × β)) : List (α × β) := m.drop (S.gap (m.map Prod.fst) k)

/-- `find` -/
def find? (k : α) (m : List (α × β)) : Option (α × β) :=
  match S.behind k m with
  | e :: _ => if lt k e.1 then none else some e
  | [] => none

/-- `m[k] = v` -/
def set (k : α) (v : β) (m : List (α × β)) : List (α × β) :=
  S.before k m ++
    match S.behind k m with
    | e :: rest => if lt k e.1 then (k, v) :: e :: rest else (e.1, v) :: rest
    | [] => [(k, v)]

/-- `erase` -/
def erase (k : α) (m : List (α × β)) : List (α × β) :=
  S.before k m ++
    match S.behind k m with
    | e :: rest => if lt k e.1 then e :: rest else rest
    | [] => []

variable {S} {k : α} {v : β} {m a c : List (α × β)} {e : α × β}

theorem before_append_behind : S.before k m ++ S.behind k m = m := List.take_append_drop _ _

/-- The entry behind the gap is not less than the key. -/
theorem not_lt_of_behind {rest : List (α × β)} (hb : S.behind k m = e :: rest) :
    e ∈ m ∧ lt e.1 k = false := by
  constructor
  · rw [← before_append_behind (S := S) (k := k) (m := m), hb]
    simp
  · refine S.not_lt_of_gap (m.map Prod.fst) k e.1 ?_
    rw [List.getElem?_map, ← List.head?_drop]
    change Option.map Prod.fst (S.behind k m).head? = some e.1
    rw [hb]
    rfl

/-- The key found is equivalent to the one searched for. -/
theorem mem_of_find? (h : S.find? k m = some e) :
    e ∈ m ∧ lt e.1 k = false ∧ lt k e.1 = false := by
  unfold find? at h
  cases hb : S.behind k m with
  | nil => simp [hb] at h
  | cons e' rest =>
    simp only [hb] at h
    split_ifs at h with hlt
    obtain rfl := Option.some.inj h
    obtain ⟨hmem, hnlt⟩ := not_lt_of_behind hb
    exact ⟨hmem, hnlt, by simpa using hlt⟩

/-- The key under which `set` puts the value is the one given or equivalent to it. -/
theorem key_of_mem_set (h : e ∈ S.set k v m) :
    e ∈ m ∨ e.2 = v ∧ (e.1 = k ∨ lt e.1 k = false ∧ lt k e.1 = false) := by
  have hsplit := before_append_behind (S := S) (k := k) (m := m)
  unfold set at h
  rcases List.mem_append.mp h with h | h
  · exact .inl (hsplit ▸ List.mem_append_left _ h)
  · cases hb : S.behind k m with
    | nil =>
      rw [hb] at h
      obtain rfl := List.mem_singleton.mp h
      exact .inr ⟨rfl, .inl rfl⟩
    | cons e' rest =>
      have hrest : ∀ x ∈ e' :: rest, x ∈ m := fun x hx =>
        hsplit ▸ List.mem_append_right _ (hb ▸ hx)
      simp only [hb] at h
      split_ifs at h with hlt
      · rcases List.mem_cons.mp h with rfl | h
        · exact .inr ⟨rfl, .inl rfl⟩
        · exact .inl (hrest e h)
      · rcases List.mem_cons.mp h with rfl | h
        · exact .inr ⟨rfl, .inr ⟨(not_lt_of_behind hb).2, by simpa using hlt⟩⟩
        · exact .inl (hrest e (List.mem_cons_of_mem _ h))

theorem sublist_erase : (S.erase k m).Sublist m := by
  have hsplit := before_append_behind (S := S) (k := k) (m := m)
  conv_rhs => rw [← hsplit]
  unfold erase
  refine (List.Sublist.refl _).append ?_
  cases S.behind k m with
  | nil => exact List.nil_sublist _
  | cons e' rest =>
    simp only
    split_ifs
    · exact List.Sublist.refl _
    · exact List.sublist_cons_self _ _

theorem mem_of_mem_erase (h : e ∈ S.erase k m) : e ∈ m := sublist_erase.subset h

theorem erase_of_find?_none (h : S.find? k m = none) : S.erase k m = m := by
  have hsplit := before_append_behind (S := S) (k := k) (m := m)
  unfold erase
  unfold find? at h
  cases hb : S.behind k m with
  | nil =>
    rw [hb] at hsplit
    exact hsplit
  | cons e rest =>
    simp only [hb] at h
    split_ifs at h with hlt
    simpa [hlt, hb] using hsplit

/-- What is erased is what is found. -/
theorem erase_of_find? (h : S.find? k m = some e) : ∃ a c, m = a ++ e :: c ∧ S.erase k m = a ++ c := by
  have hsplit := before_append_behind (S := S) (k := k) (m := m)
  unfold erase
  unfold find? at h
  cases hb : S.behind k m with
  | nil => simp [hb] at h
  | cons e' rest =>
    simp only [hb] at h
    split_ifs at h with hlt
    obtain rfl := Option.some.inj h
    exact ⟨_, rest, hb ▸ hsplit.symm, by simp [hlt]⟩

/-- Setting a key that no entry is equivalent to adds one entry. -/
theorem set_eq_of_forall (h : ∀ e ∈ m, lt e.1 k = false → lt k e.1 = true) :
    S.set k v m = S.before k m ++ (k, v) :: S.behind k m := by
  unfold set
  cases hb : S.behind k m with
  | nil => rfl
  | cons e rest =>
    obtain ⟨hmem, hlt⟩ := not_lt_of_behind hb
    simp [h e hmem hlt]

/-! ### The gap of a key that splits the map -/

theorem gap_append (ha : ∀ e ∈ a, lt e.1 k = true) (hc : ∀ e ∈ c, lt e.1 k = false) :
    S.gap ((a ++ c).map Prod.fst) k = a.length := by
  rcases Nat.lt_trichotomy (S.gap ((a ++ c).map Prod.fst) k) a.length with hlt | heq | hgt
  · have hx : ((a ++ c).map Prod.fst)[S.gap ((a ++ c).map Prod.fst) k]? = some (a.get ⟨_, hlt⟩).1 := by
      rw [List.getElem?_map, List.getElem?_append_left hlt, List.getElem?_eq_getElem hlt]
      rfl
    have h := S.not_lt_of_gap _ _ _ hx
    rw [ha _ (List.get_mem _ _)] at h
    exact absurd h (by decide)
  · exact heq
  · obtain ⟨p, hp⟩ := Nat.exists_eq_add_one_of_ne_zero (Nat.ne_zero_of_lt hgt)
    have hle := S.gap_le ((a ++ c).map Prod.fst) k
    rw [List.length_map, List.length_append] at hle
    have hpc : p - a.length < c.length := by omega
    have hx : ((a ++ c).map Prod.fst)[p]? = some (c.get ⟨_, hpc⟩).1 := by
      rw [List.getElem?_map, List.getElem?_append_right (by omega), List.getElem?_eq_getElem hpc]
      rfl
    have h := S.lt_of_gap _ _ _ _ hp hx
    rw [hc _ (List.get_mem _ _)] at h
    exact absurd h (by decide)

theorem before_append (ha : ∀ e ∈ a, lt e.1 k = true) (hc : ∀ e ∈ c, lt e.1 k = false) :
    S.before k (a ++ c) = a := by
  rw [before, gap_append ha hc, List.take_left]

theorem behind_append (ha : ∀ e ∈ a, lt e.1 k = true) (hc : ∀ e ∈ c, lt e.1 k = false) :
    S.behind k (a ++ c) = c := by
  rw [behind, gap_append ha hc, List.drop_left]

/-! ### Comparisons that are orders -/

/-- `lt` is a strict total order of the keys `K`. -/
structure OrdersStrictly (lt : α → α → Bool) (K : Set α) : Prop where
  irrefl : ∀ a ∈ K, lt a a = false
  asymm : ∀ a ∈ K, ∀ b ∈ K, lt a b = true → lt b a = false
  trans : ∀ a ∈ K, ∀ b ∈ K, ∀ c ∈ K, lt a b = true → lt b c = true → lt a c = true
  eq_of_not_lt : ∀ a ∈ K, ∀ b ∈ K, lt a b = false → lt b a = false → a = b

/-- Keys that are compared as their ranks are, when no two share a rank. -/
theorem ordersStrictly_of_rank [LinearOrder γ] {ρ : α → γ} {K : Set α} (hρ : Function.Injective ρ)
    (h : ∀ a ∈ K, ∀ b ∈ K, (lt a b = true ↔ ρ a < ρ b)) : OrdersStrictly lt K where
  irrefl a ha := Bool.eq_false_iff.mpr fun hlt => lt_irrefl _ ((h a ha a ha).mp hlt)
  asymm a ha b hb hlt := Bool.eq_false_iff.mpr fun hgt =>
    lt_asymm ((h a ha b hb).mp hlt) ((h b hb a ha).mp hgt)
  trans a ha b hb c hc hab hbc :=
    (h a ha c hc).mpr (((h a ha b hb).mp hab).trans ((h b hb c hc).mp hbc))
  eq_of_not_lt a ha b hb hlt hgt := by
    have hle : ρ b ≤ ρ a := not_lt.mp fun hcon => Bool.eq_false_iff.mp hlt ((h a ha b hb).mpr hcon)
    have hge : ρ a ≤ ρ b := not_lt.mp fun hcon => Bool.eq_false_iff.mp hgt ((h b hb a ha).mpr hcon)
    exact hρ (le_antisymm hge hle)

/-! ### Maps sorted by rank -/

section Ranked

variable [LinearOrder γ] {ρ : α → γ}

/-- The keys of the map are compared with `k` as their ranks are. -/
def RankedAt (lt : α → α → Bool) (ρ : α → γ) (m : List (α × β)) (k : α) : Prop :=
  ∀ e ∈ m, (lt e.1 k = true ↔ ρ e.1 < ρ k) ∧ (lt k e.1 = true ↔ ρ k < ρ e.1)

/-- The entries stand in the order of the ranks of their keys. -/
def SortedBy (ρ : α → γ) (m : List (α × β)) : Prop := m.Pairwise fun e e' => ρ e.1 ≤ ρ e'.1

theorem exists_split (h : SortedBy ρ m) (k : α) : ∃ a c, m = a ++ c ∧
    (∀ e ∈ a, ρ e.1 < ρ k) ∧ ∀ e ∈ c, ρ k ≤ ρ e.1 := by
  induction m with
  | nil => exact ⟨[], [], rfl, by simp, by simp⟩
  | cons e m ih =>
    obtain ⟨he, hm⟩ := List.pairwise_cons.mp h
    rcases lt_or_ge (ρ e.1) (ρ k) with hlt | hge
    · obtain ⟨a, c, rfl, ha, hc⟩ := ih hm
      exact ⟨e :: a, c, rfl, List.forall_mem_cons.mpr ⟨hlt, ha⟩, hc⟩
    · exact ⟨[], e :: m, rfl, by simp,
        List.forall_mem_cons.mpr ⟨hge, fun x hx => hge.trans (he x hx)⟩⟩

/-- **The search finds the entry of the key's rank.** -/
theorem find?_eq (h : SortedBy ρ m) (hk : RankedAt lt ρ m k) :
    S.find? k m = m.find? fun e => ρ e.1 = ρ k := by
  obtain ⟨a, c, rfl, ha, hc⟩ := exists_split h k
  have hbehind : S.behind k (a ++ c) = c := behind_append
    (fun e he => (hk e (List.mem_append_left _ he)).1.mpr (ha e he))
    (fun e he => by simpa using mt (hk e (List.mem_append_right _ he)).1.mp (hc e he).not_gt)
  have hnone : a.find? (fun e => ρ e.1 = ρ k) = none := by
    simpa [List.find?_eq_none] using fun e b he => (ha (e, b) he).ne
  unfold find?
  rw [hbehind, List.find?_append, hnone, Option.none_or]
  cases c with
  | nil => rfl
  | cons e c =>
    have hke := (hk e (by simp)).2
    rcases (hc e (by simp)).eq_or_lt with heq | hlt
    · have : lt k e.1 = false := by simpa using mt hke.mp (by simp [heq])
      simp [this, heq]
    · have hrest := (List.pairwise_cons.mp (List.pairwise_append.mp h).2.1).1
      have hsome : (e :: c).find? (fun e => ρ e.1 = ρ k) = none := by
        rw [List.find?_eq_none, List.forall_mem_cons]
        exact ⟨by simpa using hlt.ne', fun x hx => by simpa using (hlt.trans_le (hrest x hx)).ne'⟩
      simp only [hke.mpr hlt, if_true, hsome]

/-- **What `set` does.** It overwrites the value of the entry of the key's rank or inserts the
entry between the smaller and the larger ranks. -/
theorem set_cases (h : SortedBy ρ m) (hk : RankedAt lt ρ m k) (v : β) :
    (∃ a e c, m = a ++ e :: c ∧ ρ e.1 = ρ k ∧ (∀ x ∈ a, ρ x.1 < ρ k) ∧
        S.set k v m = a ++ (e.1, v) :: c) ∨
      ∃ a c, m = a ++ c ∧ (∀ x ∈ a, ρ x.1 < ρ k) ∧ (∀ x ∈ c, ρ k < ρ x.1) ∧
        S.set k v m = a ++ (k, v) :: c := by
  obtain ⟨a, c, rfl, ha, hc⟩ := exists_split h k
  have hlt : ∀ e ∈ a, lt e.1 k = true := fun e he =>
    (hk e (List.mem_append_left _ he)).1.mpr (ha e he)
  have hge : ∀ e ∈ c, lt e.1 k = false := fun e he => by
    simpa using mt (hk e (List.mem_append_right _ he)).1.mp (hc e he).not_gt
  unfold set
  rw [before_append hlt hge, behind_append hlt hge]
  cases c with
  | nil => exact .inr ⟨a, [], rfl, ha, by simp, rfl⟩
  | cons e c =>
    have hke := (hk e (by simp)).2
    rcases (hc e (by simp)).eq_or_lt with heq | hlt
    · refine .inl ⟨a, e, c, rfl, heq.symm, ha, ?_⟩
      have : lt k e.1 = false := by simpa using mt hke.mp (by simp [heq])
      simp [this]
    · have hrest := (List.pairwise_cons.mp (List.pairwise_append.mp h).2.1).1
      refine .inr ⟨a, e :: c, rfl, ha, ?_, by simp [hke.mpr hlt]⟩
      exact List.forall_mem_cons.mpr ⟨hlt, fun x hx => hlt.trans_le (hrest x hx)⟩

theorem sortedBy_set (h : SortedBy ρ m) (hk : RankedAt lt ρ m k) : SortedBy ρ (S.set k v m) := by
  rcases set_cases (S := S) h hk v with ⟨a, e, c, rfl, -, -, hset⟩ | ⟨a, c, rfl, ha, hc, hset⟩
  · rw [hset]
    unfold SortedBy at *
    rw [List.pairwise_append, List.pairwise_cons] at *
    exact ⟨h.1, h.2.1, fun x hx => List.forall_mem_cons.mpr
      ⟨h.2.2 x hx e (by simp), fun y hy => h.2.2 x hx y (by simp [hy])⟩⟩
  · rw [hset]
    unfold SortedBy at *
    rw [List.pairwise_append] at *
    exact ⟨h.1, List.pairwise_cons.mpr ⟨fun x hx => (hc x hx).le, h.2.1⟩, fun x hx =>
      List.forall_mem_cons.mpr ⟨(ha x hx).le, h.2.2 x hx⟩⟩

end Ranked

/-! ### Reading back what was set -/

/-- The values found under the keys. -/
def valueOf (S : Search lt) (m : List (α × β)) (k : α) : Option β := (S.find? k m).map Prod.snd

/-- `m'` comes from `m` by setting keys of `K` that were not found. -/
inductive Grows (S : Search lt) (K : Set α) (m : List (α × β)) : List (α × β) → Prop
  | refl : Grows S K m m
  | set {m' : List (α × β)} {k : α} (h : Grows S K m m') (mem : k ∈ K)
      (new : S.valueOf m' k = none) (v : β) : Grows S K m (S.set k v m')

/-- Among the keys of `K` the map works as a map: a key that was not found is found once it is set,
and the others keep their values. -/
def ReadsBack (S : Search lt) (K : Set α) (m : List (α × β)) : Prop :=
  ∀ m' k v, Grows S K m m' → k ∈ K → S.valueOf m' k = none →
    S.valueOf (S.set k v m') k = some v ∧
      ∀ k' ∈ K, k' ≠ k → S.valueOf (S.set k v m') k' = S.valueOf m' k'

section ReadsBack

variable {K : Set α} {m' m'' : List (α × β)}

theorem Grows.trans (h : Grows S K m m') (h' : Grows S K m' m'') : Grows S K m m'' := by
  induction h' with
  | refl => exact h
  | set _ mem new v ih => exact .set ih mem new v

theorem ReadsBack.of_grows (hm : S.ReadsBack K m) (h : Grows S K m m') : S.ReadsBack K m' :=
  fun m'' k v h' => hm m'' k v (h.trans h')

theorem Grows.mono {K' : Set α} (hK : K ⊆ K') (h : Grows S K m m') : Grows S K' m m' := by
  induction h with
  | refl => exact .refl
  | set _ mem new v ih => exact .set ih (hK mem) new v

theorem ReadsBack.mono {K' : Set α} (hK : K ⊆ K') (hm : S.ReadsBack K' m) : S.ReadsBack K m := by
  intro m' k v h hk hnew
  obtain ⟨hset, hother⟩ := hm m' k v (h.mono hK) (hK hk) hnew
  exact ⟨hset, fun k' hk' => hother k' (hK hk')⟩

/-- A key that is found keeps its value. -/
theorem ReadsBack.valueOf_eq (hm : S.ReadsBack K m) (h : Grows S K m m') (hk : k ∈ K)
    (hv : S.valueOf m k = some v) : S.valueOf m' k = some v := by
  induction h with
  | refl => exact hv
  | @set m' k' hgrows mem new v' ih =>
    have hne : k ≠ k' := by
      rintro rfl
      simp [ih] at new
    rw [(hm m' k' v' hgrows mem new).2 k hk hne, ih]

end ReadsBack

section Ranked

variable [LinearOrder γ] {ρ : α → γ} {K : Set α} {m' : List (α × β)}

theorem valueOf_eq (h : SortedBy ρ m) (hk : RankedAt lt ρ m k) :
    S.valueOf m k = (m.find? fun e => ρ e.1 = ρ k).map Prod.snd := by
  rw [valueOf, find?_eq h hk]

/-- Setting a key that is not found, in a map sorted by rank. -/
theorem set_of_new (h : SortedBy ρ m) (hk : RankedAt lt ρ m k) (hnew : S.valueOf m k = none) (v : β) :
    ∃ a c, m = a ++ c ∧ S.set k v m = a ++ (k, v) :: c ∧ ∀ e ∈ m, ρ e.1 ≠ ρ k := by
  rw [valueOf_eq h hk, Option.map_eq_none_iff, List.find?_eq_none] at hnew
  have hne : ∀ e ∈ m, ρ e.1 ≠ ρ k := fun e he => by simpa using hnew e he
  rcases set_cases (S := S) h hk v with ⟨a, e, c, rfl, heq, -, -⟩ | ⟨a, c, rfl, -, -, hset⟩
  · exact absurd heq (hne e (by simp))
  · exact ⟨a, c, rfl, hset, hne⟩

/-- A key that is set in between is compared as its rank is. -/
theorem rankedAt_insert {a c : List (α × β)} {k' : α} (h : RankedAt lt ρ (a ++ c) k')
    (hk : (lt k k' = true ↔ ρ k < ρ k') ∧ (lt k' k = true ↔ ρ k' < ρ k)) :
    RankedAt lt ρ (a ++ (k, v) :: c) k' := by
  intro e he
  have hor : e = (k, v) ∨ e ∈ a ++ c := by
    simp only [List.mem_append, List.mem_cons] at he ⊢
    tauto
  rcases hor with rfl | hold
  · exact hk
  · exact h e hold

/-- A sorted map stays sorted while keys of `K` are set. -/
theorem Grows.sortedBy (hgrows : Grows S K m m') (h : SortedBy ρ m)
    (hm : ∀ k ∈ K, RankedAt lt ρ m k) (hK : ∀ k ∈ K, ∀ k' ∈ K, lt k k' = true ↔ ρ k < ρ k') :
    SortedBy ρ m' ∧ ∀ k ∈ K, RankedAt lt ρ m' k := by
  induction hgrows with
  | refl => exact ⟨h, hm⟩
  | @set m' k _ mem new v ih =>
    obtain ⟨hsorted, hranked⟩ := ih
    obtain ⟨a, c, rfl, hset, -⟩ := set_of_new hsorted (hranked k mem) new v
    refine ⟨sortedBy_set hsorted (hranked k mem), fun k' hk' => ?_⟩
    rw [hset]
    exact rankedAt_insert (hranked k' hk') ⟨hK k mem k' hk', hK k' hk' k mem⟩

/-- **A map sorted by rank reads back** the keys it compares as their ranks are. -/
theorem readsBack_of_ranked (h : SortedBy ρ m) (hm : ∀ k ∈ K, RankedAt lt ρ m k)
    (hK : ∀ k ∈ K, ∀ k' ∈ K, lt k k' = true ↔ ρ k < ρ k')
    (hinj : ∀ k ∈ K, ∀ k' ∈ K, ρ k = ρ k' → k = k') : S.ReadsBack K m := by
  intro m' k v hgrows hk hnew
  obtain ⟨hsorted, hranked⟩ := hgrows.sortedBy h hm hK
  obtain ⟨hsorted', hranked'⟩ := (hgrows.set hk hnew v).sortedBy h hm hK
  obtain ⟨a, c, rfl, hset, hne⟩ := set_of_new hsorted (hranked k hk) hnew v
  refine ⟨?_, fun k' hk' hkk' => ?_⟩
  · have hnone : a.find? (fun e => ρ e.1 = ρ k) = none := by
      rw [List.find?_eq_none]
      exact fun e he => by simpa using hne e (List.mem_append_left _ he)
    rw [valueOf_eq hsorted' (hranked' k hk), hset, List.find?_append, hnone]
    simp
  · have hrank : ρ k ≠ ρ k' := fun heq => hkk' (hinj k hk k' hk' heq).symm
    rw [valueOf_eq hsorted' (hranked' k' hk'), valueOf_eq hsorted (hranked k' hk'), hset,
      List.find?_append, List.find?_append, List.find?_cons_of_neg (by simpa using hrank)]

end Ranked

/-! ### Erasing what is found -/

/-- `m'` comes from `m` by erasing keys of `K`. -/
inductive Shrinks (S : Search lt) (K : Set α) (m : List (α × β)) : List (α × β) → Prop
  | refl : Shrinks S K m m
  | erase {m' : List (α × β)} {k : α} (h : Shrinks S K m m') (mem : k ∈ K) :
    Shrinks S K m (S.erase k m')

/-- Among the keys of `K` the map works as a map while some of them are erased: each has one entry at
most, and that is the one found. -/
structure FindsOwn (S : Search lt) (K : Set α) (m : List (α × β)) : Prop where
  once : m.Pairwise fun e e' => e.1 ∈ K → e.1 ≠ e'.1
  find : ∀ m', Shrinks S K m m' → ∀ k ∈ K, ∀ e, S.find? k m' = some e ↔ e ∈ m' ∧ e.1 = k

section FindsOwn

variable {K : Set α} {m' : List (α × β)}

theorem Shrinks.sublist (h : Shrinks S K m m') : m'.Sublist m := by
  induction h with
  | refl => exact List.Sublist.refl _
  | erase _ _ ih => exact sublist_erase.trans ih

theorem Shrinks.trans {m'' : List (α × β)} (h : Shrinks S K m m') (h' : Shrinks S K m' m'') :
    Shrinks S K m m'' := by
  induction h' with
  | refl => exact h
  | erase _ mem ih => exact .erase ih mem

theorem FindsOwn.of_shrinks (hm : S.FindsOwn K m) (h : Shrinks S K m m') : S.FindsOwn K m' where
  once := hm.once.sublist h.sublist
  find m'' h' := hm.find m'' (h.trans h')

/-- A key that is erased has no entry any more. -/
theorem FindsOwn.erase_eq [DecidableEq α] (hm : S.FindsOwn K m) (hk : k ∈ K) :
    S.erase k m = m.filter fun e => e.1 ≠ k := by
  have hfind := hm.find m .refl k hk
  cases hs : S.find? k m with
  | none =>
    have hnone : ∀ e ∈ m, e.1 ≠ k := by
      intro e he heq
      rw [(hfind e).mpr ⟨he, heq⟩] at hs
      exact Option.some_ne_none e hs
    have hall : m.filter (fun e => e.1 ≠ k) = m :=
      List.filter_eq_self.mpr fun x hx => decide_eq_true (hnone x hx)
    rw [erase_of_find?_none hs, hall]
  | some e =>
    obtain ⟨a, c, rfl, herase⟩ := erase_of_find? hs
    obtain ⟨-, rfl⟩ := (hfind e).mp hs
    obtain ⟨-, hc, hac⟩ := List.pairwise_append.mp hm.once
    have ha' : a.filter (fun x => x.1 ≠ e.1) = a := List.filter_eq_self.mpr fun x hx =>
      decide_eq_true fun hxe => hac x hx e List.mem_cons_self (hxe ▸ hk) hxe
    have hc' : c.filter (fun x => x.1 ≠ e.1) = c := List.filter_eq_self.mpr fun x hx =>
      decide_eq_true fun hxe => (List.pairwise_cons.mp hc).1 x hx hk hxe.symm
    rw [herase, List.filter_append, List.filter_cons_of_neg (by simp), ha', hc']

/-- A map sorted by rank finds what it has of the keys it compares as their ranks are. -/
theorem findsOwn_of_ranked [LinearOrder γ] {ρ : α → γ} (h : SortedBy ρ m)
    (hm : ∀ k ∈ K, RankedAt lt ρ m k) (hinj : ∀ e ∈ m, ∀ k ∈ K, ρ e.1 = ρ k → e.1 = k)
    (honce : m.Pairwise fun e e' => e.1 ∈ K → e.1 ≠ e'.1) : S.FindsOwn K m := by
  refine ⟨honce, fun m' hshrinks k hk e => ?_⟩
  have hsub := hshrinks.sublist
  have hfind : S.find? k m' = m'.find? fun e => ρ e.1 = ρ k :=
    find?_eq (h.sublist hsub) fun e he => hm k hk e (hsub.subset he)
  rw [hfind]
  constructor
  · intro hsome
    have hrank : ρ e.1 = ρ k := by simpa using List.find?_some hsome
    have hmem := List.mem_of_find?_eq_some hsome
    exact ⟨hmem, hinj e (hsub.subset hmem) k hk hrank⟩
  · rintro ⟨hmem, rfl⟩
    obtain ⟨a, c, rfl⟩ := List.append_of_mem hmem
    obtain ⟨-, -, hac⟩ := List.pairwise_append.mp (honce.sublist hsub)
    have hnone : a.find? (fun x => decide (ρ x.1 = ρ e.1)) = none := by
      rw [List.find?_eq_none]
      intro x hx hrank
      have hxe := hinj x (hsub.subset (List.mem_append_left _ hx)) e.1 hk (by simpa using hrank)
      exact hac x hx e List.mem_cons_self (hxe ▸ hk) hxe
    rw [List.find?_append, hnone, Option.none_or, List.find?_cons_of_pos (by simp)]

end FindsOwn

/-! ### Maps whose keys are told apart -/

/-- The map is in the order of the ranks, and its keys are those of `K`. -/
structure OrderedIn [LinearOrder γ] (ρ : α → γ) (K : Set α) (m : List (α × β)) : Prop where
  sorted : SortedBy ρ m
  mem : ∀ e ∈ m, e.1 ∈ K

section OrderedIn

variable [LinearOrder γ] {ρ : α → γ} {K : Set α} {k' : α}
  (hK : ∀ k ∈ K, ∀ k' ∈ K, lt k k' = true ↔ ρ k < ρ k')

theorem orderedIn_nil : OrderedIn ρ K ([] : List (α × β)) := ⟨.nil, List.forall_mem_nil _⟩

include hK

theorem OrderedIn.ranked (h : OrderedIn ρ K m) (hk : k ∈ K) : RankedAt lt ρ m k := fun e he =>
  ⟨hK e.1 (h.mem e he) k hk, hK k hk e.1 (h.mem e he)⟩

theorem OrderedIn.readsBack (h : OrderedIn ρ K m) (hρ : Function.Injective ρ) : S.ReadsBack K m :=
  readsBack_of_ranked h.sorted (fun _ hk => h.ranked hK hk) hK fun _ _ _ _ heq => hρ heq

theorem OrderedIn.set (h : OrderedIn ρ K m) (hk : k ∈ K) (v : β) : OrderedIn ρ K (S.set k v m) := by
  refine ⟨sortedBy_set h.sorted (h.ranked hK hk), fun e he => ?_⟩
  rcases set_cases (S := S) h.sorted (h.ranked hK hk) v with
    ⟨a, e', c, rfl, -, -, hset⟩ | ⟨a, c, rfl, -, -, hset⟩
  · rw [hset] at he
    rcases List.mem_append.mp he with he | he
    · exact h.mem e (List.mem_append_left _ he)
    · rcases List.mem_cons.mp he with rfl | he
      · exact h.mem e' (List.mem_append_right _ List.mem_cons_self)
      · exact h.mem e (List.mem_append_right _ (List.mem_cons_of_mem _ he))
  · rw [hset] at he
    rcases List.mem_append.mp he with he | he
    · exact h.mem e (List.mem_append_left _ he)
    · rcases List.mem_cons.mp he with rfl | he
      · exact hk
      · exact h.mem e (List.mem_append_right _ he)

omit hK in
theorem OrderedIn.erase (h : OrderedIn ρ K m) : OrderedIn ρ K (S.erase k m) :=
  ⟨h.sorted.sublist sublist_erase, fun e he => h.mem e (mem_of_mem_erase he)⟩

/-- Erasing a key leaves the keys alone that are not equivalent to it. -/
theorem OrderedIn.valueOf_erase (h : OrderedIn ρ K m) (hk : k ∈ K) (hne : ∀ e ∈ m,
    lt e.1 k' = false → lt k' e.1 = false → ρ e.1 ≠ ρ k) :
    S.valueOf (S.erase k' m) k = S.valueOf m k := by
  cases hfind : S.find? k' m with
  | none => rw [erase_of_find?_none hfind]
  | some e =>
    obtain ⟨hmem, hlt, hgt⟩ := mem_of_find? hfind
    have hrank : ¬ ρ e.1 = ρ k := hne e hmem hlt hgt
    have herased := h.erase (S := S) (k := k')
    obtain ⟨a, c, rfl, herase⟩ := erase_of_find? hfind
    rw [valueOf_eq herased.sorted (herased.ranked hK hk), valueOf_eq h.sorted (h.ranked hK hk), herase,
      List.find?_append, List.find?_append, List.find?_cons_of_neg (by simpa using hrank)]

end OrderedIn

end Search

end DecaFS
