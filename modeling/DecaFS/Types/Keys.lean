import DecaFS.BaristaCore.World
import DecaFS.Espresso.Storage

/-!
# The keys of the ordered containers

The three `operator<` that order the keys of a `std::map`: those of `file_chunk`, `write_request` and
`data_descriptor`. The last two are lexicographic. The first one is a strict total order of a set of
chunks exactly if it tells the stripes of each file of the set apart (`keys_ordered_iff`).
-/

namespace DecaFS

open Search

/-- `operator<` of `write_request` -/
def WriteRequest.less (left right : WriteRequest) : Bool :=
  if left.requestId ≠ right.requestId then left.requestId < right.requestId
  else left.replicaRequestId < right.replicaRequestId

/-- The fields in the order in which they are compared. -/
def WriteRequest.rank (q : WriteRequest) : ℕ ×ₗ ℕ := toLex (q.requestId, q.replicaRequestId)

theorem WriteRequest.rank_injective : Function.Injective WriteRequest.rank := by
  rintro ⟨a, b⟩ ⟨a', b'⟩ h
  simpa [WriteRequest.rank] using h

theorem WriteRequest.less_iff_rank_lt (a b : WriteRequest) : a.less b = true ↔ a.rank < b.rank := by
  simp only [WriteRequest.rank, Prod.Lex.toLex_lt_toLex]
  unfold WriteRequest.less
  grind

/-- `operator<` of `data_descriptor` -/
def DataDescriptor.less (d₁ d₂ : DataDescriptor) : Bool :=
  if d₁.fileId ≠ d₂.fileId then d₁.fileId < d₂.fileId
  else if d₁.stripeId ≠ d₂.stripeId then d₁.stripeId < d₂.stripeId
  else d₁.chunkNum < d₂.chunkNum

/-- The fields in the order in which they are compared. -/
def DataDescriptor.rank (d : DataDescriptor) : ℤ ×ₗ ℤ ×ₗ ℤ :=
  toLex (d.fileId, toLex (d.stripeId, d.chunkNum))

theorem DataDescriptor.rank_injective : Function.Injective DataDescriptor.rank := by
  rintro ⟨a, b, c⟩ ⟨a', b', c'⟩ h
  simpa [DataDescriptor.rank] using h

theorem DataDescriptor.less_iff_rank_lt (a b : DataDescriptor) :
    a.less b = true ↔ a.rank < b.rank := by
  simp only [DataDescriptor.rank, Prod.Lex.toLex_lt_toLex]
  unfold DataDescriptor.less
  grind

namespace FileChunk

/-- The chunks are ordered strictly, and lexicographically. -/
structure OrdersLexicographically (K : Set FileChunk) : Prop extends OrdersStrictly less K where
  less_iff : ∀ a ∈ K, ∀ b ∈ K, (a.less b = true ↔ a.rank < b.rank)

/-- Of two stripes of one file that are not told apart, either both are less or none is. -/
theorem not_stripesApart {a b : FileChunk} (h : ¬ StripesApart a b) :
    a ≠ b ∧ (a.less b = true ↔ b.less a = true) := by
  unfold StripesApart at h
  push Not at h
  obtain ⟨hfile, hlt, hnot⟩ := h
  refine ⟨fun heq => hlt.ne (congrArg stripeId heq), ?_⟩
  unfold less
  grind

theorem ordersLexicographically_iff (K : Set FileChunk) :
    OrdersLexicographically K ↔ ∀ a ∈ K, ∀ b ∈ K, StripesApart a b := by
  constructor
  · intro h a ha b hb
    by_contra hnot
    obtain ⟨hne, hboth⟩ := not_stripesApart hnot
    cases hlt : a.less b with
    | true => exact absurd (h.asymm a ha b hb hlt) (by simp [hboth.mp hlt])
    | false =>
      have hgt : b.less a = false := Bool.eq_false_iff.mpr fun hgt => by simp [hboth.mpr hgt] at hlt
      exact hne (h.eq_of_not_lt a ha b hb hlt hgt)
  · intro h
    have hless : ∀ a ∈ K, ∀ b ∈ K, (a.less b = true ↔ a.rank < b.rank) := fun a ha b hb =>
      less_iff_rank_lt (h a ha b hb) (h b hb a ha)
    exact ⟨ordersStrictly_of_rank rank_injective hless, hless⟩

end FileChunk

/-- **Which keys are ordered.** -/
theorem keys_ordered_iff (K : Set FileChunk) :
    (FileChunk.OrdersLexicographically K ∧ OrdersStrictly WriteRequest.less Set.univ ∧
      OrdersStrictly DataDescriptor.less Set.univ) ↔
      ∀ a ∈ K, ∀ b ∈ K, FileChunk.StripesApart a b := by
  rw [FileChunk.ordersLexicographically_iff]
  refine and_iff_left ⟨?_, ?_⟩
  · exact ordersStrictly_of_rank WriteRequest.rank_injective fun a _ b _ =>
      WriteRequest.less_iff_rank_lt a b
  · exact ordersStrictly_of_rank DataDescriptor.rank_injective fun a _ b _ =>
      DataDescriptor.less_iff_rank_lt a b

/-- The second and the third stripe of file 1: each is less than the other. -/
theorem secondStripe_less_less :
    (⟨1, 2, 1⟩ : FileChunk).less ⟨1, 3, 1⟩ = true ∧ (⟨1, 3, 1⟩ : FileChunk).less ⟨1, 2, 1⟩ = true ∧
      ¬ FileChunk.OrdersLexicographically Set.univ := by
  refine ⟨rfl, rfl, fun h => ?_⟩
  exact absurd (h.asymm ⟨1, 2, 1⟩ trivial ⟨1, 3, 1⟩ trivial rfl) (by decide)

end DecaFS
