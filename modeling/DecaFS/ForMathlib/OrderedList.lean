import Mathlib.Order.Lattice
import Mathlib.Data.List.TakeWhile
import Mathlib.Data.List.Nodup

/-!
# Ordered sets as sorted lists

A set ordered by a key `κ` is a list strictly increasing in the key. `atLeast` is the part
from the lower bound on and `below` the part before it; `insertKey` keeps what is there when
the key is taken, as `std::set::insert` does, and `eraseKey` removes a key.

Every operation is described on a list already split at the key, `L ++ R` or `L ++ a :: R`,
which is the form a proof about code with two neighbouring iterators has in hand.
-/

namespace DecaFS

namespace OrderedList

variable {α κ : Type*} [LinearOrder κ] (key : α → κ)

/-- The elements before the lower bound of `k`. -/
def below (k : κ) (l : List α) : List α := l.takeWhile fun a => key a < k

/-- The elements from the lower bound of `k` on. -/
def atLeast (k : κ) (l : List α) : List α := l.dropWhile fun a => key a < k

/-- Insert `a` unless its key is taken. -/
def insertKey (a : α) (l : List α) : List α :=
  match atLeast key (key a) l with
  | [] => below key (key a) l ++ [a]
  | b :: r => if key b = key a then l else below key (key a) l ++ a :: b :: r

/-- Remove the element with key `k`. -/
def eraseKey (k : κ) (l : List α) : List α := l.filter fun a => key a ≠ k

/-- Strictly increasing in the key. -/
def Sorted (l : List α) : Prop := l.Pairwise fun a b => key a < key b

variable {key} {L R l : List α} {a : α} {k : κ}

variable (key) in
theorem below_append_atLeast (k : κ) (l : List α) : below key k l ++ atLeast key k l = l :=
  List.takeWhile_append_dropWhile

theorem below_append (hL : ∀ b ∈ L, key b < k) (hR : ∀ b ∈ R, k ≤ key b) :
    below key k (L ++ R) = L := by
  rw [below, List.takeWhile_append_of_pos (by simpa using hL)]
  cases R with
  | nil => simp
  | cons b R => simp [not_lt.mpr (hR b List.mem_cons_self)]

theorem atLeast_append (hL : ∀ b ∈ L, key b < k) (hR : ∀ b ∈ R, k ≤ key b) :
    atLeast key k (L ++ R) = R := by
  rw [atLeast, List.dropWhile_append_of_pos (by simpa using hL)]
  cases R with
  | nil => rfl
  | cons b R => simp [not_lt.mpr (hR b List.mem_cons_self)]

theorem lt_of_mem_below (h : a ∈ below key k l) : key a < k := by
  simpa using List.mem_takeWhile_imp h

theorem Sorted.le_of_mem_atLeast (hl : Sorted key l) (h : a ∈ atLeast key k l) : k ≤ key a := by
  have hsub : Sorted key (atLeast key k l) := hl.sublist (List.dropWhile_sublist _)
  cases hR : atLeast key k l with
  | nil => simp [hR] at h
  | cons b R =>
    have hb : ¬ key b < k := by
      have hhead := List.head?_dropWhile_not (fun a => decide (key a < k)) l
      rw [show l.dropWhile (fun a => decide (key a < k)) = b :: R from hR] at hhead
      simpa using hhead
    rw [hR] at h hsub
    rcases List.mem_cons.mp h with rfl | h
    · exact not_lt.mp hb
    · exact (not_lt.mp hb).trans (List.rel_of_pairwise_cons hsub h).le

theorem insertKey_append (hL : ∀ b ∈ L, key b < key a) (hR : ∀ b ∈ R, key a < key b) :
    insertKey key a (L ++ R) = L ++ a :: R := by
  have hR' : ∀ b ∈ R, key a ≤ key b := fun b hb => (hR b hb).le
  rw [insertKey, atLeast_append hL hR', below_append hL hR']
  cases R with
  | nil => rfl
  | cons b R => simp [(hR b List.mem_cons_self).ne']

variable (key) in
/-- Inserting changes nothing, or adds the element. -/
theorem insertKey_eq_or (a : α) (l : List α) : insertKey key a l = l ∨ (insertKey key a l).Perm (a :: l) := by
  have hsplit := below_append_atLeast key (key a) l
  unfold insertKey
  cases hR : atLeast key (key a) l with
  | nil =>
    rw [hR, List.append_nil] at hsplit
    rw [hsplit]
    exact .inr (List.perm_append_singleton a l)
  | cons b R =>
    rw [hR] at hsplit
    simp only
    split_ifs
    · exact .inl rfl
    · refine .inr ?_
      nth_rewrite 2 [← hsplit]
      exact List.perm_middle

/-- An element whose key is free is added. -/
theorem insertKey_perm (h : ∀ b ∈ l, key b ≠ key a) : (insertKey key a l).Perm (a :: l) := by
  refine (insertKey_eq_or key a l).resolve_left fun heq => ?_
  have hsub : ∀ b ∈ atLeast key (key a) l, b ∈ l := fun b hb =>
    below_append_atLeast key (key a) l ▸ List.mem_append_right _ hb
  have hlength := congrArg List.length heq
  have hsplit := congrArg List.length (below_append_atLeast key (key a) l)
  rw [List.length_append] at hsplit
  unfold insertKey at hlength
  cases hR : atLeast key (key a) l with
  | nil =>
    rw [hR] at hlength hsplit
    simp only [List.length_append, List.length_singleton, List.length_nil] at hlength hsplit
    omega
  | cons b R =>
    rw [hR] at hlength hsplit
    simp only [if_neg (h b (hsub b (hR ▸ List.mem_cons_self))), List.length_append, List.length_cons]
      at hlength hsplit
    omega

theorem eraseKey_sublist (k : κ) (l : List α) : (eraseKey key k l).Sublist l := List.filter_sublist

/-- Inserting keeps the order. -/
theorem Sorted.insertKey (hl : Sorted key l) (a : α) : Sorted key (insertKey key a l) := by
  have hsplit := below_append_atLeast key (key a) l
  unfold OrderedList.insertKey
  cases hR : atLeast key (key a) l with
  | nil =>
    rw [hR, List.append_nil] at hsplit
    refine List.pairwise_append.mpr ⟨hsplit.symm ▸ hl, List.pairwise_singleton _ _, fun b hb c hc => ?_⟩
    obtain rfl := List.mem_singleton.mp hc
    exact lt_of_mem_below hb
  | cons b R =>
    simp only
    split_ifs with hkey
    · exact hl
    · have hle : ∀ c ∈ b :: R, key a ≤ key c := fun c hc => hl.le_of_mem_atLeast (hR.symm ▸ hc)
      rw [hR] at hsplit
      rw [← hsplit] at hl
      obtain ⟨hbelow, hrest, hacross⟩ := List.pairwise_append.mp hl
      have hlt : ∀ c ∈ b :: R, key a < key c := by
        intro c hc
        have hab : key a < key b := lt_of_le_of_ne (hle b List.mem_cons_self) (Ne.symm hkey)
        rcases List.mem_cons.mp hc with rfl | hc
        · exact hab
        · exact hab.trans (List.rel_of_pairwise_cons hrest hc)
      refine List.pairwise_append.mpr ⟨hbelow, List.pairwise_cons.mpr ⟨hlt, hrest⟩, fun c hc e he => ?_⟩
      rcases List.mem_cons.mp he with rfl | he
      · exact lt_of_mem_below hc
      · exact hacross c hc e he

theorem Sorted.eraseKey (hl : Sorted key l) (k : κ) : Sorted key (eraseKey key k l) :=
  hl.sublist (eraseKey_sublist k l)

/-- The keys of a sorted list are told apart. -/
theorem Sorted.eq_of_key (hl : Sorted key l) {b : α} (ha : a ∈ l) (hb : b ∈ l) (hk : key a = key b) :
    a = b := by
  have hnodup : (l.map key).Nodup := List.pairwise_map.mpr (hl.imp fun hlt => hlt.ne)
  exact List.inj_on_of_nodup_map hnodup ha hb hk

/-! ### Lists that are mapped -/

theorem sorted_map {β : Type*} {f : β → α} {l : List β} : Sorted key (l.map f) ↔ Sorted (key ∘ f) l :=
  List.pairwise_map

variable (key) in
theorem atLeast_map {β : Type*} (f : β → α) (k : κ) (l : List β) :
    (atLeast (key ∘ f) k l).map f = atLeast key k (l.map f) := by
  induction l with
  | nil => rfl
  | cons a l ih =>
    unfold atLeast at ih ⊢
    by_cases h : key (f a) < k
    · simpa [h] using ih
    · simp [h]

variable (key) in
theorem below_map {β : Type*} (f : β → α) (k : κ) (l : List β) :
    (below (key ∘ f) k l).map f = below key k (l.map f) := by
  induction l with
  | nil => rfl
  | cons a l ih =>
    unfold below at ih ⊢
    by_cases h : key (f a) < k
    · simpa [h] using ih
    · simp [h]

/-- Inserting a taken key changes nothing. -/
theorem insertKey_of_mem (hl : Sorted key l) {b : α} (hb : b ∈ l) (hk : key b = key a) :
    insertKey key a l = l := by
  obtain ⟨L, R, rfl⟩ := List.append_of_mem hb
  have hL : ∀ c ∈ L, key c < key a := fun c hc =>
    hk ▸ (List.pairwise_append.mp hl).2.2 c hc b List.mem_cons_self
  have hR : ∀ c ∈ b :: R, key a ≤ key c := by
    intro c hc
    rcases List.mem_cons.mp hc with rfl | hc
    · exact hk.ge
    · exact hk ▸ (List.rel_of_pairwise_cons (List.pairwise_append.mp hl).2.1 hc).le
  rw [insertKey, atLeast_append hL hR]
  simp [hk]

theorem eraseKey_append_of_ne (hL : ∀ b ∈ L, key b ≠ key a) (hR : ∀ b ∈ R, key b ≠ key a) :
    eraseKey key (key a) (L ++ a :: R) = L ++ R := by
  have h₁ : L.filter (fun b => key b ≠ key a) = L := List.filter_eq_self.mpr (by simpa using hL)
  have h₂ : R.filter (fun b => key b ≠ key a) = R := List.filter_eq_self.mpr (by simpa using hR)
  simp only [eraseKey, List.filter_append, h₁]
  rw [List.filter_cons_of_neg (by simp), h₂]

theorem eraseKey_append (hl : Sorted key (L ++ a :: R)) :
    eraseKey key (key a) (L ++ a :: R) = L ++ R := by
  obtain ⟨-, hR, hLR⟩ := List.pairwise_append.mp hl
  exact eraseKey_append_of_ne (fun b hb => (hLR b hb a List.mem_cons_self).ne)
    fun b hb => (List.rel_of_pairwise_cons hR hb).ne'

/-- Insertion right behind an element. -/
theorem insertKey_append_cons {b : α} (hL : ∀ c ∈ L, key c < key b) (hab : key a < key b)
    (hR : ∀ c ∈ R, key b < key c) : insertKey key b (L ++ a :: R) = L ++ a :: b :: R := by
  have hLa : ∀ c ∈ L ++ [a], key c < key b := by
    simpa [or_imp, forall_and] using ⟨hL, hab⟩
  simpa using insertKey_append hLa hR

end OrderedList

end DecaFS
