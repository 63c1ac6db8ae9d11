import Mathlib.Data.List.Count
import DecaFS.ForMathlib.Transition
import DecaFS.ForMathlib.WeakestPre
import DecaFS.Metadata.Volatile

/-!
# Fresh file descriptors

`get_new_fd` counts in `uint32_t`, `new_file_cursor` returns an `int`. The calls number the descriptors
from 1 on whatever is closed in between, so a descriptor is a positive `int` that is not open until
the counter reaches `2^31`; the one it gives then is negative (`fdsFresh_iff`).
-/

namespace DecaFS

open Code

namespace VolatileMetadata

/-- The calls that open and close cursors. -/
inductive CursorCall : Type
  | newFileCursor (fileId : ℕ) (client : Client)
  | closeFileCursor (fd : ℕ) (client : Client)

namespace CursorCall

/-- Run a call. -/
def perform : CursorCall → Code (Halt Site) VolatileMetadata ℤ
  | .newFileCursor fileId client => VolatileMetadata.newFileCursor fileId client
  | .closeFileCursor fd client => VolatileMetadata.closeFileCursor fd client

/-- Does the call open a cursor? -/
def isNew : CursorCall → Bool
  | .newFileCursor .. => true
  | .closeFileCursor .. => false

end CursorCall

/-- A call, with its result. -/
def Calls (v : VolatileMetadata) (call : CursorCall × ℤ) (v' : VolatileMetadata) : Prop :=
  call.1.perform v = .ok (call.2, v')

/-- A new descriptor is a positive `int` and not open, and the open cursors stay as they are. -/
structure FdFresh (v : VolatileMetadata) (fd : ℤ) (v' : VolatileMetadata) : Prop where
  pos : 0 < fd
  le_intMax : fd ≤ intMax
  notMem : fd.toNat ∉ v.fileCursors
  kept : ∀ fd' file, v.fileCursors.lookup fd' = some file → v'.fileCursors.lookup fd' = some file

/-- A call, the descriptor of which is fresh if it opens a cursor. -/
def CallsFresh (v : VolatileMetadata) (call : CursorCall × ℤ) (v' : VolatileMetadata) : Prop :=
  Calls v call v' ∧ (call.1.isNew = true → FdFresh v call.2 v')

/-- So far `n` cursors have been opened. -/
structure Opened (n : ℕ) (v : VolatileMetadata) : Prop where
  lastFd_eq : v.lastFd = n
  le : ∀ fd ∈ v.fileCursors, fd ≤ n

variable {v v' : VolatileMetadata} {n fd f : ℕ} {client : Client} {res : ℤ}

theorem opened_zero (hlast : v.lastFd = fdNotSet) (hnone : v.fileCursors = ∅) : Opened 0 v where
  lastFd_eq := hlast
  le fd hfd := by
    rw [hnone] at hfd
    exact absurd hfd (Finmap.notMem_empty)

/-- The counter that is not set yet counts from 0: no cursor is open. -/
theorem Opened.last_eq (h : Opened n v) :
    (if v.lastFd = fdNotSet then v.fileCursors.keys.sup id else v.lastFd) = n := by
  have hlast := h.lastFd_eq
  split_ifs with hzero
  · have hle : v.fileCursors.keys.sup id ≤ n :=
      Finset.sup_le fun fd hfd => h.le fd (Finmap.mem_keys.mp hfd)
    rw [fdNotSet] at hzero
    omega
  · exact hlast

/-- The state after a cursor is opened. -/
theorem newFileCursor_eq (h : Opened n v) (hn : n < 2147483648) :
    newFileCursor f client v = .ok (toInt32 ((n : ℤ) + 1), { v with
      lastFd := n + 1
      fileCursors := v.fileCursors.insert (n + 1) ⟨client, f, 0⟩ }) := by
  have hfd : (toUInt32 ((n : ℤ) + 1)).toNat = n + 1 := by
    rw [toUInt32_eq (by omega) (by omega)]
    omega
  refine eq_ok_iff_wp.mpr ?_
  simp only [newFileCursor, getNewFd, wp_bind, wp_get, wp_set, wp_pure, wp_modify, h.last_eq, hfd]
  exact ⟨by push_cast; rfl, trivial⟩

theorem Opened.opens (h : Opened n v) : Opened (n + 1) { v with
    lastFd := n + 1
    fileCursors := v.fileCursors.insert (n + 1) ⟨client, f, 0⟩ } where
  lastFd_eq := rfl
  le fd hfd := by
    rcases Finmap.mem_insert.mp hfd with rfl | hfd
    · exact le_rfl
    · exact Nat.le_succ_of_le (h.le fd hfd)

/-- Closing a cursor opens none. -/
theorem Opened.closes (h : Opened n v) (hclose : closeFileCursor fd client v = .ok (res, v')) :
    Opened n v' := by
  have hwp : wp (closeFileCursor fd client) (fun _ v' => Opened n v') (fun _ => False) v := by
    simp only [closeFileCursor, wp_bind, wp_get]
    cases hl : v.fileCursors.lookup fd with
    | none => simpa only [wp_pure] using h
    | some file =>
      simp only [wp_ite, wp_bind, wp_modify, wp_pure]
      split_ifs
      · exact ⟨h.lastFd_eq, fun fd' hfd' => h.le fd' (Finmap.mem_erase.mp hfd').2⟩
      · exact h
  exact hwp.of_ok hclose

/-- The descriptor is fresh exactly if the counter stays below `2^31`. -/
theorem Opened.fdFresh_iff (h : Opened n v) (hn : n < 2147483648) :
    FdFresh v (toInt32 ((n : ℤ) + 1)) { v with
      lastFd := n + 1
      fileCursors := v.fileCursors.insert (n + 1) ⟨client, f, 0⟩ } ↔ n + 1 < 2147483648 := by
  constructor
  · intro hfresh
    have hpos := hfresh.pos
    unfold toInt32 at hpos
    omega
  · intro hlt
    have hfd : toInt32 ((n : ℤ) + 1) = n + 1 := toInt32_eq (by omega) (by unfold intMax; omega)
    have hnot : n + 1 ∉ v.fileCursors := fun hmem => absurd (h.le _ hmem) (Nat.not_succ_le_self n)
    rw [hfd]
    refine ⟨by omega, by unfold intMax; omega, ?_, fun fd' file hfile => ?_⟩
    · exact hnot
    · rw [Finmap.lookup_insert_of_ne _ ?_]
      · exact hfile
      · rintro rfl
        exact hnot (Finmap.mem_of_lookup_eq_some hfile)

/-- The number of cursors that the calls open. -/
def newCount (calls : List (CursorCall × ℤ)) : ℕ := calls.countP fun call => call.1.isNew

theorem calls_unique {call : CursorCall × ℤ} {v₁ : VolatileMetadata} (h : Calls v call v')
    (h₁ : Calls v call v₁) : v₁ = v' :=
  (Prod.mk.inj (Except.ok.inj (h₁.symm.trans h))).2

/-- **Runs.** The descriptors of a run are fresh exactly if it opens fewer than `2^31` cursors. -/
theorem Opened.steps_fresh_iff {calls : List (CursorCall × ℤ)} (hrun : Steps Calls v calls v')
    (h : Opened n v) (hn : n < 2147483648) :
    Steps CallsFresh v calls v' ↔ n + newCount calls < 2147483648 := by
  induction hrun generalizing n with
  | refl v => exact iff_of_true (.refl v) hn
  | @cons v v₁ v' call calls head _ ih =>
    obtain ⟨call, res⟩ := call
    rw [Steps.cons_iff]
    cases call with
    | newFileCursor f client =>
      have hcount : newCount ((.newFileCursor f client, res) :: calls) = newCount calls + 1 :=
        List.countP_cons_of_pos rfl
      obtain ⟨rfl, rfl⟩ := Prod.mk.inj (Except.ok.inj ((newFileCursor_eq h hn).symm.trans head))
      rw [hcount]
      constructor
      · rintro ⟨v₂, ⟨hcall, hfresh⟩, htail⟩
        obtain rfl := calls_unique head hcall
        have hlt := (h.fdFresh_iff hn).mp (hfresh rfl)
        have htotal := (ih h.opens hlt).mp htail
        omega
      · intro htotal
        have hlt : n + 1 < 2147483648 := by omega
        exact ⟨_, ⟨head, fun _ => (h.fdFresh_iff hn).mpr hlt⟩, (ih h.opens hlt).mpr (by omega)⟩
    | closeFileCursor fd client =>
      have hcount : newCount ((.closeFileCursor fd client, res) :: calls) = newCount calls :=
        List.countP_cons_of_neg Bool.false_ne_true
      rw [hcount, ← ih (h.closes head) hn]
      constructor
      · rintro ⟨v₂, ⟨hcall, -⟩, htail⟩
        obtain rfl := calls_unique head hcall
        exact htail
      · exact fun htail => ⟨v₁, ⟨head, fun hnew => absurd hnew Bool.false_ne_true⟩, htail⟩

theorem newCount_eq (calls : List (CursorCall × ℤ)) :
    newCount calls = (calls.map Prod.fst).countP CursorCall.isNew := by
  rw [newCount, List.countP_map]
  rfl

/-- Every sequence of calls runs. -/
theorem exists_calls (cs : List CursorCall) : ∀ v : VolatileMetadata,
    ∃ calls v', calls.map Prod.fst = cs ∧ Steps Calls v calls v' := by
  induction cs with
  | nil => exact fun v => ⟨[], v, rfl, .refl v⟩
  | cons c cs ih =>
    intro v
    have hwp : wp c.perform (fun _ _ => True) (fun _ => False) v := by
      cases c with
      | newFileCursor f client =>
        simp only [CursorCall.perform, newFileCursor, getNewFd, wp_bind, wp_get, wp_set, wp_pure,
          wp_modify]
      | closeFileCursor fd client =>
        simp only [CursorCall.perform, closeFileCursor, wp_bind, wp_get]
        cases v.fileCursors.lookup fd <;> simp only [wp_ite, wp_bind, wp_modify, wp_pure, ite_self]
    obtain ⟨res, v₁, hv₁, -⟩ := hwp.exists_ok
    obtain ⟨calls, v', hmap, hrun⟩ := ih v₁
    exact ⟨(c, res) :: calls, v', by rw [List.map_cons, hmap], .cons hv₁ hrun⟩

/-- **Descriptors are fresh below `2^31`.** From a server without open files, in every run that opens
and closes cursors, each new descriptor is a positive `int` that is not open exactly if the run opens
fewer than `2^31` of them. -/
theorem fdsFresh_iff {calls : List (CursorCall × ℤ)} (hlast : v.lastFd = fdNotSet)
    (hnone : v.fileCursors = ∅) (hrun : Steps Calls v calls v') :
    Steps CallsFresh v calls v' ↔ newCount calls < 2147483648 := by
  have hiff := (opened_zero hlast hnone).steps_fresh_iff hrun (by decide)
  rwa [Nat.zero_add] at hiff

section Started

/-- User 1. -/
def firstUser : Client := ⟨⟨"10.0.0.1"⟩, 1, some 1⟩

/-- A file is opened, closed and opened again. -/
theorem justStarted_fdsFresh : ∃ calls v', calls.map Prod.fst =
      [.newFileCursor 1 firstUser, .closeFileCursor 1 firstUser, .newFileCursor 1 firstUser] ∧
    Steps CallsFresh justStarted calls v' := by
  obtain ⟨calls, v', hmap, hrun⟩ := exists_calls [.newFileCursor 1 firstUser,
    .closeFileCursor 1 firstUser, .newFileCursor 1 firstUser] justStarted
  refine ⟨calls, v', hmap, (fdsFresh_iff rfl rfl hrun).mpr ?_⟩
  rw [newCount_eq, hmap]
  decide

/-- The cursor with the number `2^31`. -/
theorem justStarted_not_fdsFresh : ∃ calls v', Steps Calls justStarted calls v' ∧
    ¬ Steps CallsFresh justStarted calls v' := by
  obtain ⟨calls, v', hmap, hrun⟩ :=
    exists_calls (List.replicate 2147483648 (.newFileCursor 1 firstUser)) justStarted
  refine ⟨calls, v', hrun, fun hfresh => ?_⟩
  have hlt := ((opened_zero rfl rfl).steps_fresh_iff hrun (by decide)).mp hfresh
  rw [newCount_eq, hmap, List.countP_replicate, if_pos (by decide)] at hlt
  exact absurd hlt (by decide)

end Started

end VolatileMetadata

end DecaFS
