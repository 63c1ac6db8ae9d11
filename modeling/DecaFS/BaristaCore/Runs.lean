import DecaFS.BaristaCore.Handling

/-!
# Runs of the server

A run begins when the server is started, and each of its steps handles one message. While fewer
than `2^32` request ids are given out the request tables keep their books (`Running`), and no
response, in whichever order they come, makes an assertion about them fail.
-/

namespace DecaFS

open Desk Code Barista FileLocks Custody

/-- A server that was just started, over whatever files there are. -/
structure Started (w : World) : Prop where
  fileLocks : w.fileLocks = ∅
  metaLock : w.metaLock = none
  persistent : w.persistent.Consistent
  fileCursors : w.volatile.fileCursors = ∅
  lastFd : w.volatile.lastFd = fdNotSet
  requestId : w.volatile.requestId = 0
  requests : w.requests = {}
  inFlight : w.network.inFlight = []
  log : w.network.log = []

/-- The request ids that the messages take. -/
def idsOf (is : List Input) : ℕ := (is.map Input.ids).sum

/-- The file ids that the messages take at most. -/
def filesOf (is : List Input) : ℕ := (is.map Input.files).sum

/-- What holds between two messages. -/
structure Running (w : World) : Prop where
  booked : Booked none w
  clear : (custody w).Clear

section

variable {R : Runtime} {w₀ w w' : World} {is : List Input} {i : Input}

@[simp]
theorem idsOf_nil : idsOf [] = 0 := rfl

@[simp]
theorem idsOf_cons : idsOf (i :: is) = i.ids + idsOf is := List.sum_cons

theorem idsOf_append (is' : List Input) : idsOf (is ++ is') = idsOf is + idsOf is' := by
  simp [idsOf]

@[simp]
theorem filesOf_nil : filesOf [] = 0 := rfl

@[simp]
theorem filesOf_cons : filesOf (i :: is) = i.files + filesOf is := List.sum_cons

theorem Started.running (h : Started w) : Running w where
  booked := by
    have hactive : ∀ op, ¬ w.requests.Active op := by
      intro op
      rw [h.requests]
      cases op <;> exact Finmap.notMem_empty
    have hcounter : ∀ t, w.requests.counter t = none := by
      rintro ⟨flag, id⟩
      rw [h.requests]
      cases flag <;> rfl
    refine ⟨.of_empty rfl ?_ (fun t => ?_) (by simp [desk, h.log, ledger]), ?_, ?_, ?_, h.metaLock⟩
    · simp [desk, hactive]
    · simp [desk, hcounter, h.inFlight]
    · rw [h.requests]
      refine ⟨fun q hq => ?_, fun q hq => ?_, fun q hq => ?_, by simp⟩
      all_goals exact absurd hq Finmap.notMem_empty
    · intro id info
      simp [h.requests]
    · simp [h.log, ledger, Mentions]
  clear f _ := by
    simp [custody, h.fileLocks, record]

theorem Custody.clear_of_steps {s s' : Custody} {ms : List Move}
    (h : Steps Custody.Step s ms s') (hs : s.Clear) : s'.Clear :=
  h.invariant (fun _ _ _ hs hstep => hstep.clear hs) hs

/-- **What a message does between two states of a run.** -/
theorem Running.handled (h : Running w) (hids : w.volatile.requestId + i.ids < 4294967296)
    (hstep : step R w i w') : Handled i w w' :=
  (wp_handle i h.booked h.clear hids).of_ok hstep

theorem Handled.running (h : Handled i w w') (hw : Running w) : Running w' where
  booked := h.booked
  clear := by
    obtain ⟨ms, ends, -, hsteps, -⟩ := h.moves
    exact Custody.clear_of_steps hsteps hw.clear

/-- What every message does is done along the run: `P` holds of a state and the messages that led
to it. -/
theorem Running.induct {P : World → Prop} (hrun : Steps (step R) w is w') (hw : Running w)
    (hids : w.volatile.requestId + idsOf is < 4294967296) (hP : P w)
    (hstep : ∀ w i w', Running w → w.volatile.requestId + i.ids < 4294967296 → step R w i w' →
      Handled i w w' → P w → P w') :
    Running w' ∧ w'.volatile.requestId = w.volatile.requestId + idsOf is ∧ P w' := by
  induction hrun with
  | refl w => exact ⟨hw, rfl, hP⟩
  | @cons w w₁ w' i is head _ ih =>
    rw [idsOf_cons, ← Nat.add_assoc] at hids
    have hhandled := hw.handled (by omega) head
    have hP₁ := hstep w i w₁ hw (by omega) head hhandled hP
    obtain ⟨hw', hid, hP'⟩ := ih (hhandled.running hw) (by rwa [hhandled.requestId]) hP₁
    exact ⟨hw', by rw [hid, hhandled.requestId, idsOf_cons, Nat.add_assoc], hP'⟩

theorem Started.run (hstart : Started w₀) (hrun : Steps (step R) w₀ is w)
    (hids : idsOf is < 4294967296) : Running w ∧ w.volatile.requestId = idsOf is := by
  obtain ⟨hw, hid, -⟩ := Running.induct (P := fun _ => True) hrun hstart.running
    (by rwa [hstart.requestId, Nat.zero_add]) trivial fun _ _ _ _ _ _ _ _ => trivial
  exact ⟨hw, by rw [hid, hstart.requestId, Nat.zero_add]⟩

/-- The tables of the files agree in every state of a run that does not run out of file ids. -/
theorem Running.consistent (hw : Running w) (hrun : Steps (step R) w is w')
    (hids : w.volatile.requestId + idsOf is < 4294967296) (hc : w.persistent.Consistent)
    (hfiles : w.persistent.lastFileId + filesOf is < 4294967296) :
    w'.persistent.Consistent ∧
      w'.persistent.lastFileId ≤ w.persistent.lastFileId + filesOf is := by
  induction hrun with
  | refl w => exact ⟨hc, Nat.le_refl _⟩
  | @cons w w₁ w' i is head _ ih =>
    rw [idsOf_cons, ← Nat.add_assoc] at hids
    rw [filesOf_cons, ← Nat.add_assoc] at hfiles ⊢
    have hhandled := hw.handled (by omega) head
    obtain ⟨hc₁, hle₁, -⟩ := hhandled.deletes hc (by omega)
    obtain ⟨hc', hle'⟩ := ih (hhandled.running hw) (by rwa [hhandled.requestId]) hc₁ (by omega)
    exact ⟨hc', by omega⟩

/-- The state after the messages, unless the server stops. -/
def Barista.run (R : Runtime) (w : World) : List Input → Except (Halt Site) World
  | [] => .ok w
  | i :: is =>
    match handle R i w with
    | .ok p => run R p.2 is
    | .error e => .error e

theorem steps_of_run (h : run R w is = .ok w') : Steps (step R) w is w' := by
  induction is generalizing w with
  | nil =>
    obtain rfl : w = w' := Except.ok.inj h
    exact .refl w
  | cons i is ih =>
    unfold run at h
    cases hi : handle R i w with
    | error e =>
      rw [hi] at h
      exact absurd h (by simp)
    | ok p =>
      rw [hi] at h
      exact .cons hi (ih h)

/-- A run can be found by running the server. -/
theorem exists_steps (is : List Input) {p : World → Bool} (h : (run R w is).toOption.any p = true) :
    ∃ w', Steps (step R) w is w' ∧ p w' = true := by
  cases hrun : run R w is with
  | error e =>
    rw [hrun] at h
    exact absurd h (by simp [Except.toOption])
  | ok w' =>
    rw [hrun] at h
    exact ⟨w', steps_of_run hrun, h⟩

/-! ### The log -/

/-- A packet with the tag is sent. -/
def Event.sends (t : Tag) : Event → Bool
  | .sent _ r => r.tag = t
  | _ => false

/-- A packet with the tag is answered. -/
def Event.answers (t : Tag) : Event → Bool
  | .answered r _ _ => r.tag = t
  | _ => false

/-- The result of a request with this id goes to a client. -/
def Event.repliesTo (id : ℕ) : Event → Bool
  | .replied op _ _ => op.tags.any fun t => t.id = id
  | _ => false

theorem count_ledger {log : List Event} {e : Entry Tag Operation} {p : Event → Bool}
    (hp : ∀ event, p event = true ↔ event.entry = some e) :
    (ledger log).count e = log.countP p := by
  induction log with
  | nil => rfl
  | cons event log ih =>
    unfold ledger at ih ⊢
    rw [List.countP_cons, ← ih]
    cases hentry : event.entry with
    | none =>
      have hno : ¬ p event = true := by rw [hp, hentry]; simp
      rw [List.filterMap_cons_none hentry, if_neg hno, Nat.add_zero]
    | some e' =>
      rw [List.filterMap_cons_some hentry, List.count_cons]
      have hiff : (e' == e) = true ↔ p event = true := by rw [hp, hentry]; simp
      simp only [hiff]

theorem count_sent_ledger (log : List Event) (t : Tag) :
    (ledger log).count (.sent t) = log.countP (Event.sends t) := by
  refine count_ledger fun event => ?_
  cases event <;> simp [Event.sends, Event.entry]

theorem count_answered_ledger (log : List Event) (t : Tag) :
    (ledger log).count (.answered t) = log.countP (Event.answers t) := by
  refine count_ledger fun event => ?_
  cases event <;> simp [Event.answers, Event.entry]

theorem ledger_append (log log' : List Event) : ledger (log ++ log') = ledger log ++ ledger log' :=
  List.filterMap_append

/-- A reply to an id is a reply to the one request that has it. -/
theorem Booked.countP_repliesTo_le (h : Booked none w) (id : ℕ) :
    w.network.log.countP (Event.repliesTo id) ≤ 1 := by
  by_cases hnone : ∃ e ∈ w.network.log, Event.repliesTo id e = true
  · obtain ⟨e, he, hid⟩ := hnone
    cases e with
    | replied op client reply =>
      have hment : ∀ op client reply, .replied op client reply ∈ w.network.log →
          .replied op ∈ ledger w.network.log := fun op client reply hmem =>
        List.mem_filterMap.mpr ⟨_, hmem, rfl⟩
      have hone := h.inv.replied_once op
      refine le_trans ?_ hone
      -- every reply to the id is one to `op`
      have hsame : ∀ e ∈ w.network.log, Event.repliesTo id e = true → e.entry = some (.replied op) := by
        intro e' he' hid'
        cases e' with
        | replied op' client' reply' =>
          obtain ⟨t, ht, hkey⟩ : ∃ t ∈ op.tags, t.id = id := by simpa [Event.repliesTo] using hid
          obtain ⟨t', ht', hkey'⟩ : ∃ t ∈ op'.tags, t.id = id := by
            simpa [Event.repliesTo] using hid'
          have hor := h.inv.apart op op' (.inr (hment _ _ _ he)) (.inr (hment _ _ _ he'))
          obtain rfl : op = op' := hor.resolve_right fun hap => hap t ht t' ht' (hkey.trans hkey'.symm)
          rfl
        | _ => simp [Event.repliesTo] at hid'
      have hcount : ∀ log : List Event, (∀ e ∈ log, Event.repliesTo id e = true →
          e.entry = some (.replied op)) → log.countP (Event.repliesTo id) ≤
            (ledger log).count (.replied op) := by
        intro log hlog
        rw [count_ledger (p := fun e => e.entry = some (.replied op)) fun _ => decide_eq_true_iff]
        exact List.countP_mono_left fun e he hid => decide_eq_true (hlog e he hid)
      exact hcount _ hsame
    | _ => simp [Event.repliesTo] at hid
  · rw [List.countP_eq_zero.mpr fun e he hid => hnone ⟨e, he, hid⟩]
    exact Nat.zero_le _

/-! ### Safety of the request tables -/

/-- A server without files over the nodes 1 to 4. -/
def sampleServer : World where
  volatile := {
    stripeSize := ⟨256, by decide, by decide⟩
    chunkSize := ⟨128, by decide, by decide⟩
    upNodes := [1, 2, 3, 4] }

/-- Search trees that find the first place that will do. -/
def sampleRuntime : Runtime := ⟨.linear _, 0, fun _ => {}⟩

/-- User 1 over connection `n`. -/
def sampleClient (n : ℕ) : Client := ⟨⟨"10.0.0.1"⟩, 1, some n⟩

theorem started_sampleServer : Started sampleServer where
  fileLocks := rfl
  metaLock := rfl
  persistent :=
    ⟨by simp [sampleServer], by simp [sampleServer], fun _ hf => absurd hf Finmap.notMem_empty⟩
  fileCursors := rfl
  lastFd := rfl
  requestId := rfl
  requests := rfl
  inFlight := rfl
  log := rfl

/-- The state of `sampleServer` once it has refused a read. -/
def sampleRefused : World :=
  logged (.replied (.read 1) (sampleClient 1) (.readResult 0 fileNotOpenForRead []))
    (issuedUpTo 1 sampleServer)

end

end DecaFS
