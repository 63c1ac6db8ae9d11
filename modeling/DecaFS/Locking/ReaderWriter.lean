import DecaFS.ForMathlib.ReaderWriterLock
import DecaFS.ForMathlib.Transition
import DecaFS.Locking.Records

/-!
# The file lock table as reader-writer locks

The abstract state gives each file an `RWLock`; the code spreads it over `owner_uid`,
`owner_ip`, `ex_proc` and `sh_procs`, and `Represents` says which record stands for which
lock.

`get_shared_lock` never looks at `ex_proc`: a process of the user and address that hold the
file exclusively is let in, where the test `SameProcExclusiveSharedConflict` expects it to
be refused. `SharedRequestClean` is the condition that no call does this.
`fileLocks_refine_iff` is exact: a history of calls gets the results of the reader-writer
machine if and only if every call of it is clean.
-/

namespace DecaFS

open Code FileLocks

/-- A client that may take locks: it has a user id and a connection. -/
structure Process where
  client : Client
  userId_ne : client.userId ≠ 0
  ctc_ne : client.ctc ≠ none

/-- The user at an address. -/
structure LockOwner where
  userId : ℕ
  ip : IpAddress
  deriving DecidableEq

/-- The owner a process acts for. -/
def Process.owner (p : Process) : LockOwner := ⟨p.client.userId, p.client.ip⟩

/-- The owner a record names. -/
def FileLock.owner (lock : FileLock) : LockOwner := ⟨lock.ownerUid, lock.ownerIp⟩

theorem FileLocks.ownedBy_iff {lock : FileLock} {p : Process} :
    ownedBy lock p.client ↔ lock.owner = p.owner := by
  simp [ownedBy, FileLock.owner, Process.owner]

/-- The calls on the table. -/
inductive LockCall
  | getExclusiveLock (p : Process) (fileId : ℕ)
  | getSharedLock (p : Process) (fileId : ℕ)
  | releaseLock (p : Process) (fileId : ℕ)
  | hasExclusiveLock (p : Process) (fileId : ℕ)
  | hasSharedLock (p : Process) (fileId : ℕ)

/-- The code a call runs. -/
def LockCall.code : LockCall → Code (Halt Site) FileLocks ℤ
  | getExclusiveLock p f => DecaFS.getExclusiveLock p.client f
  | getSharedLock p f => DecaFS.getSharedLock p.client f
  | releaseLock p f => DecaFS.releaseLock p.client f
  | hasExclusiveLock p f => DecaFS.hasExclusiveLock p.client f
  | hasSharedLock p f => DecaFS.hasSharedLock p.client f

/-- One call with its result. -/
def lockStep (locks : FileLocks) (l : LockCall × ℤ) (locks' : FileLocks) : Prop :=
  l.1.code locks = .ok (l.2, locks')

/-! ### The reader-writer machine -/

/-- A reader-writer lock for each file. -/
abbrev RWTable : Type := ℕ → RWLock LockOwner ConnectionPtr

/-- The reply to a request and the table after it: a refusal leaves the table alone. -/
def RWTable.reply (a : RWTable) (f : ℕ) : Option (RWLock LockOwner ConnectionPtr) → ℤ × RWTable
  | none => (lockError, a)
  | some l => (lockSuccess, Function.update a f l)

/-- What the reader-writer machine does on a call. -/
def LockCall.spec : LockCall → RWTable → ℤ × RWTable
  | getExclusiveLock p f, a => a.reply f ((a f).acquireExclusive p.owner p.client.ctc)
  | getSharedLock p f, a => a.reply f ((a f).acquireShared p.owner p.client.ctc)
  | releaseLock p f, a => a.reply f ((a f).release p.owner p.client.ctc)
  | hasExclusiveLock p f, a => (if (a f).HoldsExclusive p.owner p.client.ctc then 1 else 0, a)
  | hasSharedLock p f, a => (if (a f).HoldsShared p.owner p.client.ctc then 1 else 0, a)

/-- One call of the machine with its result. -/
def rwStep (a : RWTable) (l : LockCall × ℤ) (b : RWTable) : Prop := l.1.spec a = (l.2, b)

theorem rwStep_deterministic (a : RWTable) (l : LockCall × ℤ) (b b' : RWTable)
    (h : rwStep a l b) (h' : rwStep a l b') : b = b' :=
  congrArg Prod.snd (h.symm.trans h')

/-! ### Which record stands for which lock -/

/-- The lock a record stands for. -/
def FileLock.Represents (lock : FileLock) : RWLock LockOwner ConnectionPtr → Prop
  | .free => lock.ownerUid = 0 ∧ lock.exProc = none ∧ lock.shProcs = ∅
  | .exclusive o p =>
    lock.ownerUid ≠ 0 ∧ lock.owner = o ∧ lock.exProc = p ∧ p ≠ none ∧ lock.shProcs = ∅
  | .shared o ps _ =>
    lock.ownerUid ≠ 0 ∧ lock.owner = o ∧ lock.exProc = none ∧ lock.shProcs = ps

/-- The table stands for the locks, file by file. -/
def FileLocks.Represents (locks : FileLocks) (a : RWTable) : Prop :=
  ∀ f, (locks.record f).Represents (a f)

namespace FileLocks

variable {locks : FileLocks} {a : RWTable} {f : ℕ} {lock : FileLock} {p : Process}

theorem represents_empty : Represents ∅ fun _ => .free :=
  fun _ => ⟨rfl, rfl, rfl⟩

/-- Writing a record updates one file's lock. -/
theorem Represents.insert (h : locks.Represents a) {l : RWLock LockOwner ConnectionPtr}
    (hl : lock.Represents l) : Represents (locks.insert f lock) (Function.update a f l) := by
  intro f'
  obtain rfl | hne := eq_or_ne f' f
  · rwa [record_insert, Function.update_self]
  · rw [record_insert_of_ne hne, Function.update_of_ne hne]
    exact h f'

/-- Writing a record back changes nothing. -/
theorem Represents.insert_record (h : locks.Represents a) :
    Represents (locks.insert f (locks.record f)) a := by
  simpa only [Function.update_eq_self] using h.insert (f := f) (h f)

/-- Erasing a record frees one file's lock. -/
theorem Represents.erase (h : locks.Represents a) :
    Represents (locks.erase f) (Function.update a f .free) := by
  intro f'
  obtain rfl | hne := eq_or_ne f' f
  · rw [record_erase, Function.update_self]
    exact ⟨rfl, rfl, rfl⟩
  · rw [record_erase_of_ne hne, Function.update_of_ne hne]
    exact h f'

end FileLocks

/-! ### The code of each call -/

section Calls

variable {p : Process} {f : ℕ} {locks : FileLocks} {Q : ℤ → FileLocks → Prop}
  {E : Halt Site → Prop}

theorem wp_getExclusiveLock :
    wp (getExclusiveLock p.client f) Q E locks ↔
      if (locks.record f).ownerUid ≠ 0 then Q lockError (locks.insert f (locks.record f))
      else Q lockSuccess (locks.insert f { locks.record f with
        ownerUid := p.client.userId, ownerIp := p.client.ip, exProc := p.client.ctc }) := by
  simp [getExclusiveLock, wp_ite, p.userId_ne]

theorem wp_getSharedLock :
    wp (getSharedLock p.client f) Q E locks ↔
      if (locks.record f).ownerUid ≠ 0 ∧ ¬ ownedBy (locks.record f) p.client then
        Q lockError (locks.insert f (locks.record f))
      else Q (if p.client.ctc ∈ (locks.record f).shProcs then lockError else lockSuccess)
        (locks.insert f { locks.record f with
          ownerUid := p.client.userId, ownerIp := p.client.ip
          shProcs := insert p.client.ctc (locks.record f).shProcs }) := by
  by_cases h₀ : (locks.record f).ownerUid = 0
  · simp [getSharedLock, h₀, p.userId_ne]
  · by_cases hown : ownedBy (locks.record f) p.client
    · obtain ⟨huid, hip⟩ := id hown
      simp [getSharedLock, h₀, hown, ← huid, ← hip]
    · simp [getSharedLock, h₀, hown, p.userId_ne]

theorem wp_releaseLock :
    wp (releaseLock p.client f) Q E locks ↔
      if ¬ ownedBy (locks.record f) p.client then
        Q lockError (locks.insert f (locks.record f))
      else if (locks.record f).exProc = p.client.ctc then Q lockSuccess (locks.erase f)
      else if p.client.ctc ∉ (locks.record f).shProcs then
        Q lockError (locks.insert f (locks.record f))
      else if (locks.record f).shProcs.erase p.client.ctc = ∅ then
        Q lockSuccess (locks.erase f)
      else Q lockSuccess (locks.insert f { locks.record f with
        shProcs := (locks.record f).shProcs.erase p.client.ctc }) := by
  simp only [releaseLock, wp_bind, wp_assert, wp_get, wp_ite, wp_modify, wp_pure, ne_eq,
    p.userId_ne, not_false_eq_true, decide_true, Finset.card_eq_zero]
  simp

theorem wp_hasExclusiveLock :
    wp (hasExclusiveLock p.client f) Q E locks ↔
      Q (if ownedBy (locks.record f) p.client ∧ (locks.record f).exProc = p.client.ctc
        then 1 else 0) locks := by
  cases h : locks.lookup f with
  | none =>
    have : ¬ ownedBy ({} : FileLock) p.client := fun hown => p.userId_ne hown.1.symm
    simp [hasExclusiveLock, h, record, this, p.userId_ne]
  | some lock => simp [hasExclusiveLock, h, record, p.userId_ne]

theorem wp_hasSharedLock :
    wp (hasSharedLock p.client f) Q E locks ↔
      Q (if ownedBy (locks.record f) p.client ∧ p.client.ctc ∈ (locks.record f).shProcs
        then 1 else 0) locks := by
  cases h : locks.lookup f with
  | none =>
    have : ¬ ownedBy ({} : FileLock) p.client := fun hown => p.userId_ne hown.1.symm
    simp [hasSharedLock, h, record, this, p.userId_ne]
  | some lock => simp [hasSharedLock, h, record, p.userId_ne]

end Calls

/-! ### Refinement -/

/-- The call does not ask for shared mode next to an exclusive holder of the same user and
address, the one request `get_shared_lock` should refuse and does not. -/
def SharedRequestClean (locks : FileLocks) (l : LockCall × ℤ) : Prop :=
  match l.1 with
  | .getSharedLock p f => ¬ (ownedBy (locks.record f) p.client ∧ (locks.record f).exProc ≠ none)
  | _ => True

variable {locks locks' : FileLocks} {a b : RWTable} {p : Process} {f : ℕ}

private theorem wp_getExclusiveLock_spec (h : locks.Represents a) :
    wp (getExclusiveLock p.client f)
      (fun r t => ∃ b, (LockCall.getExclusiveLock p f).spec a = (r, b) ∧ t.Represents b)
      (fun _ => False) locks := by
  have hf := h f
  rw [wp_getExclusiveLock]
  cases haf : a f with
  | free =>
    rw [haf] at hf
    obtain ⟨huid, -, hsh⟩ := hf
    rw [if_neg (by simp [huid])]
    have hspec : (LockCall.getExclusiveLock p f).spec a =
        (lockSuccess, Function.update a f (.exclusive p.owner p.client.ctc)) := by
      simp [LockCall.spec, haf, RWLock.acquireExclusive, RWTable.reply]
    exact ⟨_, hspec, h.insert ⟨p.userId_ne, rfl, rfl, p.ctc_ne, hsh⟩⟩
  | exclusive o q =>
    rw [haf] at hf
    rw [if_pos hf.1]
    exact ⟨a, by simp [LockCall.spec, haf, RWLock.acquireExclusive, RWTable.reply],
      h.insert_record⟩
  | shared o ps hps =>
    rw [haf] at hf
    rw [if_pos hf.1]
    exact ⟨a, by simp [LockCall.spec, haf, RWLock.acquireExclusive, RWTable.reply],
      h.insert_record⟩

private theorem wp_getSharedLock_spec (h : locks.Represents a) {r : ℤ}
    (hclean : SharedRequestClean locks (.getSharedLock p f, r)) :
    wp (getSharedLock p.client f)
      (fun r t => ∃ b, (LockCall.getSharedLock p f).spec a = (r, b) ∧ t.Represents b)
      (fun _ => False) locks := by
  have hf := h f
  simp only [SharedRequestClean, ownedBy_iff] at hclean
  rw [wp_getSharedLock]
  simp only [ownedBy_iff]
  cases haf : a f with
  | free =>
    rw [haf] at hf
    obtain ⟨huid, hex, hsh⟩ := hf
    rw [if_neg (by simp [huid]), if_neg (by simp [hsh])]
    have hspec : (LockCall.getSharedLock p f).spec a = (lockSuccess, Function.update a f
        (.shared p.owner {p.client.ctc} (Finset.singleton_nonempty _))) := by
      simp [LockCall.spec, haf, RWLock.acquireShared, RWTable.reply]
    exact ⟨_, hspec, h.insert ⟨p.userId_ne, rfl, hex, by simp [hsh]⟩⟩
  | exclusive o q =>
    rw [haf] at hf
    obtain ⟨huid, rfl, rfl, hq, -⟩ := hf
    have hne : (locks.record f).owner ≠ p.owner := fun ho => hclean ⟨ho, hq⟩
    rw [if_pos ⟨huid, hne⟩]
    exact ⟨a, by simp [LockCall.spec, haf, RWLock.acquireShared, RWTable.reply],
      h.insert_record⟩
  | shared o ps hps =>
    rw [haf] at hf
    obtain ⟨huid, rfl, hex, rfl⟩ := hf
    by_cases ho : (locks.record f).owner = p.owner
    · rw [if_neg (by simp [ho])]
      by_cases hmem : p.client.ctc ∈ (locks.record f).shProcs
      · refine ⟨a, by simp [LockCall.spec, haf, RWLock.acquireShared, RWTable.reply, hmem], ?_⟩
        have hlock : FileLock.Represents { locks.record f with
            ownerUid := p.client.userId, ownerIp := p.client.ip
            shProcs := insert p.client.ctc (locks.record f).shProcs }
            (.shared (locks.record f).owner (locks.record f).shProcs hps) :=
          ⟨p.userId_ne, ho.symm, hex, Finset.insert_eq_self.mpr hmem⟩
        have := h.insert (f := f) hlock
        rwa [← haf, Function.update_eq_self] at this
      · rw [if_neg hmem]
        have hspec : (LockCall.getSharedLock p f).spec a = (lockSuccess, Function.update a f
            (.shared p.owner _ (Finset.insert_nonempty p.client.ctc (locks.record f).shProcs))) := by
          simp [LockCall.spec, haf, RWLock.acquireShared, RWTable.reply, hmem, ho]
        exact ⟨_, hspec, h.insert ⟨p.userId_ne, rfl, hex, rfl⟩⟩
    · rw [if_pos ⟨huid, ho⟩]
      exact ⟨a, by simp [LockCall.spec, haf, RWLock.acquireShared, RWTable.reply, ho],
        h.insert_record⟩

private theorem wp_releaseLock_spec (h : locks.Represents a) :
    wp (releaseLock p.client f)
      (fun r t => ∃ b, (LockCall.releaseLock p f).spec a = (r, b) ∧ t.Represents b)
      (fun _ => False) locks := by
  have hf := h f
  rw [wp_releaseLock]
  simp only [ownedBy_iff]
  by_cases ho : (locks.record f).owner = p.owner
  swap
  · -- somebody else's record: refused on both sides
    rw [if_pos ho]
    refine ⟨a, ?_, h.insert_record⟩
    cases haf : a f with
    | free => simp [LockCall.spec, haf, RWLock.release, RWTable.reply]
    | exclusive o q =>
      rw [haf] at hf
      have : o ≠ p.owner := hf.2.1 ▸ ho
      simp [LockCall.spec, haf, RWLock.release, RWTable.reply, this]
    | shared o ps hps =>
      rw [haf] at hf
      have : o ≠ p.owner := hf.2.1 ▸ ho
      simp [LockCall.spec, haf, RWLock.release, RWTable.reply, this]
  rw [if_neg (not_not.mpr ho)]
  cases haf : a f with
  | free =>
    rw [haf] at hf
    have hu : (locks.record f).ownerUid = p.client.userId := congrArg LockOwner.userId ho
    exact absurd (hu.symm.trans hf.1) p.userId_ne
  | exclusive o q =>
    rw [haf] at hf
    obtain ⟨-, rfl, rfl, -, hsh⟩ := hf
    by_cases hq : (locks.record f).exProc = p.client.ctc
    · rw [if_pos hq]
      exact ⟨_, by simp [LockCall.spec, haf, RWLock.release, RWTable.reply, ho, hq], h.erase⟩
    · rw [if_neg hq, if_pos (by simp [hsh])]
      exact ⟨a, by simp [LockCall.spec, haf, RWLock.release, RWTable.reply, hq],
        h.insert_record⟩
  | shared o ps hps =>
    rw [haf] at hf
    obtain ⟨huid, rfl, hex, rfl⟩ := hf
    rw [if_neg (by rw [hex]; exact p.ctc_ne.symm)]
    by_cases hmem : p.client.ctc ∈ (locks.record f).shProcs
    · rw [if_neg (not_not.mpr hmem)]
      have hspec : (LockCall.releaseLock p f).spec a = (lockSuccess, Function.update a f
          (RWLock.sharedOrFree p.owner ((locks.record f).shProcs.erase p.client.ctc))) := by
        simp [LockCall.spec, haf, RWLock.release, RWTable.reply, ho, hmem]
      split_ifs with hlast
      · refine ⟨_, hspec, ?_⟩
        simpa [RWLock.sharedOrFree, hlast] using h.erase (f := f)
      · refine ⟨_, hspec, h.insert ?_⟩
        simp [RWLock.sharedOrFree, Finset.nonempty_iff_ne_empty.mpr hlast, FileLock.Represents,
          huid, hex, FileLock.owner, ← ho]
    · rw [if_pos hmem]
      exact ⟨a, by simp [LockCall.spec, haf, RWLock.release, RWTable.reply, hmem],
        h.insert_record⟩

/-- What `has_exclusive_lock` tests is what the lock says. -/
theorem FileLocks.Represents.holdsExclusive_iff (h : locks.Represents a) :
    (a f).HoldsExclusive p.owner p.client.ctc ↔
      ownedBy (locks.record f) p.client ∧ (locks.record f).exProc = p.client.ctc := by
  have hf := h f
  rw [ownedBy_iff]
  cases haf : a f with
  | free =>
    rw [haf] at hf
    refine iff_of_false id fun hh => p.ctc_ne ?_
    rw [← hh.2, hf.2.1]
  | exclusive o q =>
    rw [haf] at hf
    obtain ⟨-, rfl, rfl, -⟩ := hf
    rfl
  | shared o ps hps =>
    rw [haf] at hf
    refine iff_of_false id fun hh => p.ctc_ne ?_
    rw [← hh.2, hf.2.2.1]

/-- What `has_shared_lock` tests is what the lock says. -/
theorem FileLocks.Represents.holdsShared_iff (h : locks.Represents a) :
    (a f).HoldsShared p.owner p.client.ctc ↔
      ownedBy (locks.record f) p.client ∧ p.client.ctc ∈ (locks.record f).shProcs := by
  have hf := h f
  rw [ownedBy_iff]
  cases haf : a f with
  | free =>
    rw [haf] at hf
    exact iff_of_false id fun hh => by simp [hf.2.2] at hh
  | exclusive o q =>
    rw [haf] at hf
    exact iff_of_false id fun hh => by simp [hf.2.2.2.2] at hh
  | shared o ps hps =>
    rw [haf] at hf
    obtain ⟨-, rfl, -, rfl⟩ := hf
    rfl

/-- **One call.** From a table that stands for the locks, a clean call gives the machine's
result and a table that stands for the machine's locks. -/
theorem wp_code_of_represents (h : locks.Represents a) (call : LockCall)
    (hclean : ∀ r, SharedRequestClean locks (call, r)) :
    wp call.code (fun r t => ∃ b, call.spec a = (r, b) ∧ t.Represents b)
      (fun _ => False) locks := by
  cases call with
  | getExclusiveLock p f => exact wp_getExclusiveLock_spec h
  | getSharedLock p f => exact wp_getSharedLock_spec h (hclean 0)
  | releaseLock p f => exact wp_releaseLock_spec h
  | hasExclusiveLock p f =>
    simp only [LockCall.code, wp_hasExclusiveLock, ← h.holdsExclusive_iff]
    exact ⟨a, rfl, h⟩
  | hasSharedLock p f =>
    simp only [LockCall.code, wp_hasSharedLock, ← h.holdsShared_iff]
    exact ⟨a, rfl, h⟩

theorem lockStep.simulates {l : LockCall × ℤ} (h : locks.Represents a)
    (hclean : SharedRequestClean locks l) (hstep : lockStep locks l locks') :
    ∃ b, rwStep a l b ∧ locks'.Represents b :=
  (wp_code_of_represents h l.1 fun _ => hclean).of_ok hstep

/-- The machine refuses a request that is not clean; the code grants it. -/
theorem lockStep.clean_of_accepted {l : LockCall × ℤ} (h : locks.Represents a)
    (hstep : lockStep locks l locks') (hspec : rwStep a l b) : SharedRequestClean locks l := by
  obtain ⟨call, r⟩ := l
  cases call with
  | getSharedLock p f =>
    rintro ⟨hown, hex⟩
    have hf := h f
    cases haf : a f with
    | free => rw [haf] at hf; exact hex hf.2.1
    | shared o ps hps => rw [haf] at hf; exact hex hf.2.2.1
    | exclusive o q =>
      rw [haf] at hf
      have hsucc : r = lockSuccess := by
        have hwp : wp (getSharedLock p.client f) (fun r' _ => r' = lockSuccess)
            (fun _ => False) locks := by
          rw [wp_getSharedLock, if_neg (by simp [hown])]
          simp [hf.2.2.2.2]
        exact hwp.of_ok hstep
      have herr : lockError = r := by
        simpa [rwStep, LockCall.spec, haf, RWLock.acquireShared, RWTable.reply] using
          congrArg Prod.fst hspec
      exact absurd (herr.trans hsucc) (by decide)
  | _ => trivial

/-- Every call of a process returns. -/
theorem exists_lockStep (locks : FileLocks) (call : LockCall) :
    ∃ r locks', lockStep locks (call, r) locks' := by
  have hwp : wp call.code (fun _ _ => True) (fun _ => False) locks := by
    cases call <;>
      simp [LockCall.code, wp_getExclusiveLock, wp_getSharedLock, wp_releaseLock,
        wp_hasExclusiveLock, wp_hasSharedLock]
  obtain ⟨r, locks', h, -⟩ := hwp.exists_ok
  exact ⟨r, locks', h⟩

/-- Every history of calls has a run. -/
theorem exists_lockRun (calls : List LockCall) (locks : FileLocks) :
    ∃ tr locks', tr.map Prod.fst = calls ∧ Steps lockStep locks tr locks' := by
  induction calls generalizing locks with
  | nil => exact ⟨[], locks, rfl, .refl _⟩
  | cons call calls ih =>
    obtain ⟨r, locks₁, h₁⟩ := exists_lockStep locks call
    obtain ⟨tr, locks₂, htr, h₂⟩ := ih locks₁
    exact ⟨(call, r) :: tr, locks₂, by simp [htr], .cons h₁ h₂⟩

/-- `has_exclusive_lock` answers yes. -/
def FileLocks.ShowsExclusive (locks : FileLocks) (p : Process) (f : ℕ) : Prop :=
  hasExclusiveLock p.client f locks = .ok (1, locks)

/-- `has_shared_lock` answers yes. -/
def FileLocks.ShowsShared (locks : FileLocks) (p : Process) (f : ℕ) : Prop :=
  hasSharedLock p.client f locks = .ok (1, locks)

theorem FileLocks.Represents.showsExclusive_iff (h : locks.Represents a) :
    locks.ShowsExclusive p f ↔ (a f).HoldsExclusive p.owner p.client.ctc := by
  have hwp : wp (hasExclusiveLock p.client f) (fun r t => t = locks ∧
      (r = 1 ↔ (a f).HoldsExclusive p.owner p.client.ctc)) (fun _ => False) locks := by
    simp only [wp_hasExclusiveLock, ← h.holdsExclusive_iff]
    split_ifs with hc <;> simp [hc]
  obtain ⟨r, t, hrun, rfl, hr⟩ := hwp.exists_ok
  rw [ShowsExclusive, hrun, ← hr]
  simp

theorem FileLocks.Represents.showsShared_iff (h : locks.Represents a) :
    locks.ShowsShared p f ↔ (a f).HoldsShared p.owner p.client.ctc := by
  have hwp : wp (hasSharedLock p.client f) (fun r t => t = locks ∧
      (r = 1 ↔ (a f).HoldsShared p.owner p.client.ctc)) (fun _ => False) locks := by
    simp only [wp_hasSharedLock, ← h.holdsShared_iff]
    split_ifs with hc <;> simp [hc]
  obtain ⟨r, t, hrun, rfl, hr⟩ := hwp.exists_ok
  rw [ShowsShared, hrun, ← hr]
  simp

/-- The table shows no file in both modes at once. -/
def FileLocks.ModesExclude (locks : FileLocks) : Prop :=
  ∀ (p q : Process) (f : ℕ), ¬ (locks.ShowsExclusive p f ∧ locks.ShowsShared q f)

/-- A release takes away no lock but the caller's on that file. -/
def FileLocks.ReleaseLocal (locks : FileLocks) : Prop :=
  ∀ (p q : Process) (f g : ℕ) (r : ℤ) (locks' : FileLocks),
    lockStep locks (.releaseLock p f, r) locks' →
    (g ≠ f ∨ (q.owner, q.client.ctc) ≠ (p.owner, p.client.ctc)) →
    (locks'.ShowsExclusive q g ↔ locks.ShowsExclusive q g) ∧
      (locks'.ShowsShared q g ↔ locks.ShowsShared q g)

theorem FileLocks.Represents.modesExclude (h : locks.Represents a) : locks.ModesExclude := by
  intro p q f
  rw [h.showsExclusive_iff, h.showsShared_iff]
  exact fun ⟨he, hs⟩ => he.not_holdsShared hs

theorem FileLocks.Represents.releaseLocal (h : locks.Represents a) : locks.ReleaseLocal := by
  intro p q f g r locks' hstep hother
  have hclean : SharedRequestClean locks (.releaseLock p f, r) := trivial
  obtain ⟨b, hb, h'⟩ := hstep.simulates h hclean
  rw [h'.showsExclusive_iff, h'.showsShared_iff, h.showsExclusive_iff, h.showsShared_iff]
  have hbeq : b = ((a f).release p.owner p.client.ctc |> a.reply f).2 :=
    (congrArg Prod.snd hb).symm
  cases hrel : (a f).release p.owner p.client.ctc with
  | none =>
    rw [hrel] at hbeq
    subst hbeq
    exact ⟨Iff.rfl, Iff.rfl⟩
  | some l =>
    rw [hrel] at hbeq
    subst hbeq
    obtain rfl | hg := eq_or_ne g f
    · have hne := hother.resolve_left (by simp)
      simp only [RWTable.reply, Function.update_self]
      exact ⟨RWLock.holdsExclusive_of_release hrel hne, RWLock.holdsShared_of_release hrel hne⟩
    · simp [RWTable.reply, Function.update_of_ne hg]

/-- **The lock table is a reader-writer lock exactly on clean histories.** Every history of
calls by processes runs to the end; its results are those of the reader-writer machine if
and only if no `get_shared_lock` in it meets an exclusive holder of the caller's own user
and address, and then no file shows both modes and no release takes another's lock. -/
theorem fileLocks_refine_iff (calls : List LockCall) :
    ∃ tr locks, tr.map Prod.fst = calls ∧ Steps lockStep ∅ tr locks ∧
      (Steps (Guarded SharedRequestClean lockStep) ∅ tr locks ↔
        ∃ b, Steps rwStep (fun _ => .free) tr b) ∧
      (Steps (Guarded SharedRequestClean lockStep) ∅ tr locks →
        locks.ModesExclude ∧ locks.ReleaseLocal) := by
  obtain ⟨tr, locks, htr, hrun⟩ := exists_lockRun calls ∅
  refine ⟨tr, locks, htr, hrun, ?_, fun hclean => ?_⟩
  · exact hrun.guarded_iff_accepted (R := Represents)
      (fun _ _ _ _ hR hC hst => hst.simulates hR hC)
      (fun _ _ _ _ _ hR hst hsp => hst.clean_of_accepted hR hsp)
      rwStep_deterministic represents_empty
  · obtain ⟨b, -, hb⟩ := hclean.simulation (R := Represents)
      (fun _ _ _ _ hR hst => hst.2.simulates hR hst.1) represents_empty
    exact ⟨hb.modesExclude, hb.releaseLocal⟩

section Conflict

/-- A process of user 1 on connection `ctc`. -/
def processOf (ctc : ℕ) : Process :=
  ⟨⟨⟨"10.0.0.1"⟩, 1, some ctc⟩, by simp, by simp⟩

/-- The schedule of `SameProcExclusiveSharedConflict`: user 1 holds file 7 exclusively and
asks for shared mode over another connection. The code grants it, the machine refuses, and
the file shows both modes. -/
theorem sharedGranted_nextToExclusive :
    ∃ locks, Steps lockStep ∅
        [(.getExclusiveLock (processOf 1) 7, 0), (.getSharedLock (processOf 2) 7, 0)] locks ∧
      (¬ ∃ b, Steps rwStep (fun _ => .free)
        [(.getExclusiveLock (processOf 1) 7, 0), (.getSharedLock (processOf 2) 7, 0)] b) ∧
      locks.ShowsExclusive (processOf 1) 7 ∧ locks.ShowsShared (processOf 2) 7 := by
  refine ⟨_, .cons rfl (.cons rfl (.refl _)), ?_, rfl, rfl⟩
  rintro ⟨b, hb⟩
  obtain ⟨a₁, h₁, hb⟩ := Steps.cons_iff.mp hb
  obtain ⟨a₂, h₂, -⟩ := Steps.cons_iff.mp hb
  obtain rfl : Function.update (fun _ => RWLock.free) 7
      (.exclusive (processOf 1).owner (processOf 1).client.ctc) = a₁ := congrArg Prod.snd h₁
  have hrefused : lockError = 0 := congrArg Prod.fst h₂
  exact absurd hrefused (by decide)

end Conflict

end DecaFS
