import DecaFS.BaristaCore.Bookkeeping
import DecaFS.IoManager.Splitting

/-!
# A send and the responses during it

While the packets of a request are sent, responses to it and to others may come in. `Sending` is
what holds between two moments of that time: which outcomes of the script were used up, which
packets were sent, and what the responses did in between. `wp_sendToEspresso` is a single send.
-/

namespace DecaFS

open Desk Code Barista

/-- The call stays in its stripe, and the unsigned differences do not wrap. -/
def Event.Fits : Event → Prop
  | .stripe _ _ stripeSize offset count => offset + count ≤ stripeSize
  | .compared count done size offset => done ≤ count ∧ offset ≤ size
  | _ => True

/-- Between two moments at which packets of `op` are being sent, with the outcomes `used`. -/
structure Sending (R : Runtime) (op : Operation) (used : List SendOutcome)
    (sent : List (ℤ × ChunkRequest)) (w w' : World) : Prop where
  booked : Booked (some op) w'
  reaches : Reaches Operation.tags Tag.id (desk (some op) w) (desk (some op) w')
  requestId : w'.volatile.requestId = w.volatile.requestId
  script : w.network.script = used ++ w'.network.script
  accepted : used.countP (·.accepted) = sent.length
  sends : sends w'.network.log = sends w.network.log ++ sent
  tagged : ∀ e ∈ sent, e.2.tag ∈ op.tags
  calls : ∃ new, w'.network.log.filter Event.isCall = new ++ w.network.log.filter Event.isCall ∧
    ∀ e ∈ new, e.Fits
  deletes : Deleting w w'
  reads : Assembling R w w'
  custody : Custody.Ending (custody w) (custody w')
  answers : Answering w w'

section Sending

variable {op : Operation} {used used' : List SendOutcome} {sent sent' : List (ℤ × ChunkRequest)}
  {w w' w'' : World} {R : Runtime}

theorem Sending.refl (h : Booked (some op) w) : Sending R op [] [] w w :=
  ⟨h, .refl, rfl, rfl, rfl, (List.append_nil _).symm, by simp, ⟨[], rfl, by simp⟩, .refl,
    .refl, .refl, .refl⟩

theorem Sending.trans (h : Sending R op used sent w w') (h' : Sending R op used' sent' w' w'') :
    Sending R op (used ++ used') (sent ++ sent') w w'' := by
  obtain ⟨new, hnew, hfits⟩ := h.calls
  obtain ⟨new', hnew', hfits'⟩ := h'.calls
  refine ⟨h'.booked, h.reaches.trans h'.reaches, h'.requestId.trans h.requestId, ?_, ?_, ?_, ?_,
    ⟨new' ++ new, ?_, ?_⟩, h.deletes.trans h'.deletes, h.reads.trans h'.reads,
    h.custody.trans h'.custody, h.answers.trans h'.answers⟩
  · rw [h.script, h'.script, List.append_assoc]
  · rw [List.countP_append, List.length_append, h.accepted, h'.accepted]
  · rw [h'.sends, h.sends, List.append_assoc]
  · exact fun e he => (List.mem_append.mp he).elim (h.tagged e) (h'.tagged e)
  · rw [hnew', hnew, List.append_assoc]
  · exact fun e he => (List.mem_append.mp he).elim (hfits' e) (hfits e)

/-- The sends that the script still has in store. -/
theorem Sending.countP_script (h : Sending R op used sent w w') :
    w.network.script.countP (·.accepted) =
      sent.length + w'.network.script.countP (·.accepted) := by
  rw [h.script, List.countP_append, h.accepted]

theorem under_append (t : Tag) (sent sent' : List (ℤ × ChunkRequest)) :
    under t (sent ++ sent') = under t sent ++ under t sent' := by
  simp [under]

/-- How many packets are sent under a tag that was not used before. -/
theorem Sending.count_sent {t : Tag} (h : Sending R op used sent w w')
    (hnew : (ledger w.network.log).count (.sent t) = 0) :
    (ledger w'.network.log).count (.sent t) = (under t sent).length := by
  rw [← length_under_sends, h.sends, under_append, List.length_append, length_under_sends, hnew,
    Nat.zero_add]

theorem Heard.sending (h : Heard R (some op) w w') : Sending R op [] [] w w' :=
  ⟨h.booked, h.reaches, by rw [h.volatile], by rw [h.script, List.nil_append],
    rfl, by rw [h.sends, List.append_nil], by simp, ⟨[], by simp [h.calls], by simp⟩, h.deletes, h.reads,
    h.custody, h.answers⟩

/-- A change that the request tables, the files and the packets do not see. -/
structure Unseen (w w' : World) : Prop where
  requests : w'.requests = w.requests
  network : w'.network = w.network
  metaLock : w'.metaLock = w.metaLock
  requestId : w'.volatile.requestId = w.volatile.requestId

theorem Unseen.sending (hs : Unseen w w') (h : Booked (some op) w) (hdeletes : Deleting w w')
    (hcustody : custody w' = custody w) : Sending R op [] [] w w' := by
  have hdesk : desk (some op) w' = desk (some op) w := by
    simp only [desk, hs.requests, hs.network]
  refine ⟨⟨hdesk ▸ h.inv, hs.requests ▸ h.paired, hs.requests ▸ h.named, ?_,
    hs.metaLock.trans h.unlocked⟩, hdesk ▸ .refl, hs.requestId, by rw [hs.network, List.nil_append],
    rfl, by rw [hs.network, List.append_nil], by simp, ⟨[], by simp [hs.network], by simp⟩, hdeletes,
    .of_eq [] (by rw [hs.network, List.nil_append]) (by rw [hs.requests]) (by simp),
    .of_eq hcustody, .of_eq [] (by rw [hs.network, List.nil_append]) (by rw [hs.requests])⟩
  rw [hs.network, hs.requestId]
  exact h.issued

/-- A call is logged. -/
theorem Booked.sending_emit (h : Booked (some op) w) {e : Event} (hcall : e.isCall = true)
    (hfits : e.Fits) :
    Sending R op [] [] w (logged e w) := by
  have hledger : ledger (e :: w.network.log) = ledger w.network.log := by
    cases e <;> first | rfl | simp [Event.isCall] at hcall
  have hsends : sends (e :: w.network.log) = sends w.network.log := by
    cases e <;> first | rfl | simp [Event.isCall] at hcall
  have hanswered : ∀ r count data, e = .answered r count data → r.flag ≠ .readChunk := by
    rintro _ _ _ rfl
    simp [Event.isCall] at hcall
  have hdesk : desk (some op) (logged e w) = desk (some op) w := by
    simp only [desk, logged, hledger]
  refine ⟨⟨hdesk ▸ h.inv, h.paired, h.named, ?_, h.unlocked⟩, hdesk ▸ .refl, rfl, rfl, rfl,
    hsends.trans (List.append_nil _).symm, by simp, ⟨[e], by simp [logged, hcall], by simpa using hfits⟩,
    .of_eq rfl rfl rfl, .emit rfl rfl hanswered, .of_eq rfl, .of_eq [e] rfl rfl⟩
  simp only [logged, hledger]
  exact h.issued

/-- **A send.** It is answered at once, later or never. -/
theorem wp_sendToEspresso (node : ℤ) (r : ChunkRequest) (h : Booked (some op) w)
    (ht : r.tag ∈ op.tags) :
    wp (sendToEspresso R node r)
      (fun res w' => ∃ o, Sending R op [o] (if o.accepted then [(node, r)] else []) w w' ∧
        w'.volatile = w.volatile ∧ w'.chunks = w.chunks ∧ Undisturbed w w' ∧
        res = if o.accepted then 1 else nodeFailure)
      (fun e => e = .noReturn ∧ w.network.script = []) w := by
  unfold sendToEspresso
  cases hs : w.network.script with
  | nil => simp [hs]
  | cons o rest =>
    simp only [wp_bind, wp_get, hs, network]
    -- the state right after the send, before any response is handled
    let w₁ : World := { w with network :=
      if o.accepted then { w.network with
        script := rest, inFlight := w.network.inFlight ++ [r], log := .sent node r :: w.network.log }
      else { w.network with script := rest, log := .failed node r :: w.network.log } }
    have hfirst : Sending R op [o] (if o.accepted then [(node, r)] else []) w w₁ := by
      by_cases ho : o.accepted = true
      · have hdesk : desk (some op) w₁ = (desk (some op) w).put r.tag :=
          desk_put node rfl (by simp [w₁, ho]) (by simp [w₁, ho])
        have hstep : Step Operation.tags Tag.id (desk (some op) w) (.send r.tag)
            (desk (some op) w₁) := hdesk ▸ .send rfl ht
        refine ⟨h.step hstep h.paired h.named h.unlocked le_rfl (by simp), .single hstep, rfl,
          by simp [w₁, ho, hs], by simp [ho], by simp [w₁, ho, DecaFS.sends], by simpa [ho] using ht,
          ⟨[], by simp [w₁, ho, Event.isCall], by simp⟩, .of_eq rfl rfl rfl,
          .emit (e := .sent node r) (by simp [w₁, ho]) rfl (by simp), .of_eq rfl,
          .of_eq [.sent node r] (by simp [w₁, ho]) rfl⟩
      · have hdesk : desk (some op) w₁ = desk (some op) w := by
          simp [desk, w₁, ho]
        refine ⟨⟨hdesk ▸ h.inv, h.paired, h.named, ?_, h.unlocked⟩, hdesk ▸ .refl, rfl,
          by simp [w₁, ho, hs], by simp [ho], by simp [w₁, ho, DecaFS.sends], by simp [ho],
          ⟨[], by simp [w₁, ho, Event.isCall], by simp⟩, .of_eq rfl rfl rfl,
          .emit (e := .failed node r) (by simp [w₁, ho]) rfl (by simp), .of_eq rfl,
          .of_eq [.failed node r] (by simp [w₁, ho]) rfl⟩
        simpa [w₁, ho] using h.issued
    have hrest : wp (receiveAll R o.deliveries) (fun _ w' => Heard R (some op) w₁ w')
        (fun _ => False) w₁ := wp_receiveAll hfirst.booked o.deliveries
    have hgoal : wp (receiveAll R o.deliveries)
        (fun _ w' => ∃ o', Sending R op [o'] (if o'.accepted then [(node, r)] else []) w w' ∧
          w'.volatile = w.volatile ∧ w'.chunks = w.chunks ∧ Undisturbed w w' ∧
          (if o.accepted then 1 else nodeFailure) = if o'.accepted then 1 else nodeFailure)
        (fun e => e = .noReturn ∧ (o :: rest : List SendOutcome) = []) w₁ := by
      refine wp_mono hrest (fun _ w' hheard => ⟨o, ?_, hheard.volatile, hheard.chunks, ?_, rfl⟩)
        fun _ => False.elim
      · simpa using hfirst.trans hheard.sending
      · exact .trans (fun hidle => ⟨hidle, rfl, rfl⟩) hheard.idle
    by_cases ho : o.accepted = true
    · simpa [ho, w₁] using hgoal
    · simpa [ho, w₁] using hgoal

/-- No descriptor moves, and the files are left alone while no delete is active. -/
structure Quiet (w w' : World) : Prop where
  fileCursors : w'.volatile.fileCursors = w.volatile.fileCursors
  undisturbed : Undisturbed w w'

theorem Quiet.refl : Quiet w w := ⟨rfl, .refl⟩

theorem Quiet.trans (h : Quiet w w') (h' : Quiet w' w'') : Quiet w w'' :=
  ⟨h'.fileCursors.trans h.fileCursors, h.undisturbed.trans h'.undisturbed⟩

end Sending

end DecaFS
