import Mathlib.Data.List.Nodup
import Mathlib.Data.List.Pairwise
import Mathlib.Logic.Nontrivial.Basic
import Mathlib.Logic.Function.Basic
import Mathlib.Order.Basic
import Mathlib.Algebra.Order.Group.Nat

/-!
# Values that came in parts

A list of places is asked for in parts, and for each part some values come, those of its first places.
The values one after the other are then those of the first places of all, whatever is stored at the
places of which nothing came, if and only if nothing comes for a part behind one that came short
(`isPrefix_iff_gapless`).
-/

namespace DecaFS

variable {ι β : Type*} {content : ι → β} {e : List ι × List β} {l : List (List ι × List β)}

/-- The places hold the values that came: those of a part at its first places. -/
def Fills (content : ι → β) (l : List (List ι × List β)) : Prop :=
  ∀ e ∈ l, e.2 <+: e.1.map content

/-- Nothing came for a part behind one that came short. -/
def Gapless (l : List (List ι × List β)) : Prop :=
  l.Pairwise fun e e' => e'.2 ≠ [] → e.2.length = e.1.length

theorem gapless_of_forall_nil (h : ∀ e ∈ l, e.2 = []) : Gapless l :=
  List.pairwise_of_forall_mem_list fun _ _ _ he' hne => absurd (h _ he') hne

/-- Nothing came if nothing came for the first part that asks for something. -/
theorem Gapless.forall_nil (h : Gapless l) (hlen : ∀ e ∈ l, e.2.length ≤ e.1.length)
    (hfirst : ∀ e ∈ (l.filter fun e => !e.1.isEmpty).head?, e.2 = []) : ∀ e ∈ l, e.2 = [] := by
  induction l with
  | nil => exact List.forall_mem_nil _
  | cons e l ih =>
    obtain ⟨hhead, htail⟩ := List.pairwise_cons.mp h
    have hrest := fun x hx => hlen x (List.mem_cons_of_mem _ hx)
    have he := hlen e List.mem_cons_self
    by_cases hempty : e.1 = []
    · have hnil : e.2 = [] := by
        rw [hempty] at he
        exact List.eq_nil_of_length_eq_zero (Nat.le_zero.mp he)
      refine List.forall_mem_cons.mpr ⟨hnil, ih htail hrest fun x hx => hfirst x ?_⟩
      rwa [List.filter_cons_of_neg (by simp [hempty])]
    · have hnil : e.2 = [] := hfirst e (by rw [List.filter_cons_of_pos (by simp [hempty])]; rfl)
      refine List.forall_mem_cons.mpr ⟨hnil, fun x hx => ?_⟩
      by_contra hne
      have hfull := hhead x hx hne
      rw [hnil] at hfull
      exact hempty (List.eq_nil_of_length_eq_zero hfull.symm)

/-! ### Without a gap -/

/-- **Without a gap** the values are those of the first places. -/
theorem Gapless.isPrefix (h : Gapless l) (hl : Fills content l) :
    l.flatMap Prod.snd <+: (l.flatMap Prod.fst).map content := by
  induction l with
  | nil => exact List.nil_prefix
  | cons e l ih =>
    obtain ⟨hhead, htail⟩ := List.pairwise_cons.mp h
    obtain ⟨he, hl⟩ := List.forall_mem_cons.mp hl
    rw [List.flatMap_cons, List.flatMap_cons, List.map_append]
    by_cases hnil : ∀ x ∈ l, x.2 = []
    · rw [List.flatMap_eq_nil_iff.mpr hnil, List.append_nil]
      exact he.trans (List.prefix_append _ _)
    · push Not at hnil
      obtain ⟨x, hx, hne⟩ := hnil
      have hfull : e.2 = e.1.map content := he.eq_of_length (by
        rw [List.length_map]
        exact hhead x hx hne)
      rw [← hfull]
      exact (List.prefix_append_right_inj _).mpr (ih htail hl)

/-! ### With a gap -/

theorem map_update_of_notMem [DecidableEq ι] {ks : List ι} {k : ι} (hk : k ∉ ks) (v : β) :
    ks.map (Function.update content k v) = ks.map content :=
  List.map_congr_left fun _ hx => Function.update_of_ne (ne_of_mem_of_not_mem hx hk) v content

/-- Whatever came for one part is there in some content, with nothing changed at other places. -/
theorem exists_isPrefix [DecidableEq ι] (content : ι → β) : ∀ (ks : List ι) (vs : List β), ks.Nodup →
    vs.length ≤ ks.length → ∃ content', vs <+: ks.map content' ∧ ∀ x ∉ ks, content' x = content x
  | _, [], _, _ => ⟨content, List.nil_prefix, fun _ _ => rfl⟩
  | k :: ks, v :: vs, hnodup, hlen => by
    obtain ⟨hk, hnodup⟩ := List.nodup_cons.mp hnodup
    obtain ⟨content', hvs, hkeep⟩ :=
      exists_isPrefix content ks vs hnodup (Nat.le_of_succ_le_succ hlen)
    refine ⟨Function.update content' k v, ?_, fun x hx => ?_⟩
    · rw [List.map_cons, Function.update_self, map_update_of_notMem hk]
      exact List.cons_prefix_cons.mpr ⟨rfl, hvs⟩
    · rw [List.mem_cons, not_or] at hx
      rw [Function.update_of_ne hx.1, hkeep x hx.2]

/-- Whatever came is there in some content. -/
theorem exists_fills [DecidableEq ι] (content : ι → β) (honce : (l.flatMap Prod.fst).Nodup)
    (hlen : ∀ e ∈ l, e.2.length ≤ e.1.length) :
    ∃ content', Fills content' l ∧ ∀ x ∉ l.flatMap Prod.fst, content' x = content x := by
  induction l generalizing content with
  | nil => exact ⟨content, List.forall_mem_nil _, fun _ _ => rfl⟩
  | cons e l ih =>
    rw [List.flatMap_cons, List.nodup_append'] at honce
    obtain ⟨he, hl, hdisjoint⟩ := honce
    obtain ⟨hlen, hlens⟩ := List.forall_mem_cons.mp hlen
    obtain ⟨content₁, hprefix₁, hkeep₁⟩ := exists_isPrefix content e.1 e.2 he hlen
    obtain ⟨content₂, hfills, hkeep₂⟩ := ih content₁ hl hlens
    have hsame : e.1.map content₂ = e.1.map content₁ :=
      List.map_congr_left fun x hx => hkeep₂ x (hdisjoint hx)
    refine ⟨content₂, List.forall_mem_cons.mpr ⟨hsame ▸ hprefix₁, hfills⟩, fun x hx => ?_⟩
    rw [List.flatMap_cons, List.mem_append, not_or] at hx
    rw [hkeep₂ x hx.2, hkeep₁ x hx.1]

theorem Fills.congr {content' : ι → β} (h : Fills content l)
    (hsame : ∀ x ∈ l.flatMap Prod.fst, content' x = content x) : Fills content' l := by
  intro e he
  rw [List.map_congr_left fun x hx => hsame x (List.mem_flatMap.mpr ⟨e, he, hx⟩)]
  exact h e he

/-- The first place of which nothing came may hold something else. -/
theorem Fills.exists_changed [DecidableEq ι] [Nontrivial β] (h : Fills content (e :: l))
    (honce : ((e :: l).flatMap Prod.fst).Nodup) (hshort : e.2.length < e.1.length) (y : β) :
    ∃ content', Fills content' (e :: l) ∧ (e.1.map content')[e.2.length]? ≠ some y := by
  obtain ⟨z, hz⟩ := exists_ne y
  obtain ⟨he, hl⟩ := List.forall_mem_cons.mp h
  rw [List.flatMap_cons, List.nodup_append'] at honce
  obtain ⟨hnodup, -, hdisjoint⟩ := honce
  obtain ⟨front, k, back, hsplit, hfront⟩ : ∃ front k back, e.1 = front ++ k :: back ∧
      front.length = e.2.length := by
    refine ⟨e.1.take e.2.length, e.1[e.2.length], e.1.drop (e.2.length + 1), ?_, ?_⟩
    · rw [← List.drop_eq_getElem_cons, List.take_append_drop]
    · exact List.length_take.trans (Nat.min_eq_left (Nat.le_of_lt hshort))
  rw [hsplit] at he hnodup hdisjoint
  have hk : k ∉ front := fun hmem => (List.nodup_append'.mp hnodup).2.2 hmem List.mem_cons_self
  refine ⟨Function.update content k z, List.forall_mem_cons.mpr ⟨?_, ?_⟩, ?_⟩
  · have hvalues : e.2 = front.map content := by
      have htake := List.prefix_iff_eq_take.mp he
      rwa [List.map_append, ← hfront, ← List.length_map content, List.take_left'] at htake
      rw [List.length_map]
    rw [hsplit, List.map_append, map_update_of_notMem hk, ← hvalues]
    exact List.prefix_append _ _
  · refine Fills.congr hl fun x hx => Function.update_of_ne ?_ z content
    rintro rfl
    exact hdisjoint (List.mem_append_right _ List.mem_cons_self) hx
  · rw [hsplit, List.map_append, ← hfront, List.getElem?_append_right (by simp)]
    simpa using hz

/-- **Values behind a gap** are taken for others, for some content. -/
theorem gapless_of_isPrefix [DecidableEq ι] [Nontrivial β]
    (hlen : ∀ e ∈ l, e.2.length ≤ e.1.length) (honce : (l.flatMap Prod.fst).Nodup)
    (h : ∀ content, Fills content l → l.flatMap Prod.snd <+: (l.flatMap Prod.fst).map content) :
    Gapless l := by
  induction l with
  | nil => exact List.Pairwise.nil
  | cons e l ih =>
    obtain ⟨hlen₁, hlens⟩ := List.forall_mem_cons.mp hlen
    have honce' := honce
    rw [List.flatMap_cons, List.nodup_append'] at honce
    obtain ⟨hnodup, hl, hdisjoint⟩ := honce
    simp only [List.flatMap_cons, List.map_append] at h
    have hhead : ∀ x ∈ l, x.2 ≠ [] → e.2.length = e.1.length := by
      intro x hx hne
      by_contra hshort
      obtain ⟨y, rest, hrest⟩ := List.exists_cons_of_ne_nil
        (fun hnil => hne (List.flatMap_eq_nil_iff.mp hnil x hx) : l.flatMap Prod.snd ≠ [])
      obtain ⟨content, hcontent, -⟩ := exists_fills (fun _ => y) honce' hlen
      obtain ⟨content', hcontent', hne'⟩ :=
        hcontent.exists_changed honce' (lt_of_le_of_ne hlen₁ hshort) y
      have hprefix := h content' hcontent'
      have hlt : e.2.length < (e.1.map content').length := by
        rw [List.length_map]
        exact lt_of_le_of_ne hlen₁ hshort
      have hget := List.prefix_iff_getElem?.mp hprefix e.2.length (by simp [hrest])
      rw [List.getElem?_append_left hlt] at hget
      refine hne' (hget.trans ?_)
      simp [hrest]
    refine List.pairwise_cons.mpr ⟨hhead, ?_⟩
    by_cases hnil : ∀ x ∈ l, x.2 = []
    · exact gapless_of_forall_nil hnil
    · push Not at hnil
      obtain ⟨x, hx, hne⟩ := hnil
      refine ih hlens hl fun content hcontent => ?_
      obtain ⟨content', he, hkeep⟩ := exists_isPrefix content e.1 e.2 hnodup hlen₁
      have hsame : ∀ x ∈ l.flatMap Prod.fst, content' x = content x := fun x hx =>
        hkeep x fun hmem => hdisjoint hmem hx
      have hprefix := h content' (List.forall_mem_cons.mpr ⟨he, hcontent.congr hsame⟩)
      have hfull : e.2 = e.1.map content' := he.eq_of_length (by
        rw [List.length_map]
        exact hhead x hx hne)
      rw [← hfull, List.prefix_append_right_inj, List.map_congr_left hsame] at hprefix
      exact hprefix

/-- **When the values are those of the first places**, whatever is stored where nothing came. -/
theorem isPrefix_iff_gapless [DecidableEq ι] [Nontrivial β]
    (hlen : ∀ e ∈ l, e.2.length ≤ e.1.length) (honce : (l.flatMap Prod.fst).Nodup) :
    (∀ content, Fills content l → l.flatMap Prod.snd <+: (l.flatMap Prod.fst).map content) ↔
      Gapless l :=
  ⟨gapless_of_isPrefix hlen honce, fun h _ => h.isPrefix⟩

end DecaFS
