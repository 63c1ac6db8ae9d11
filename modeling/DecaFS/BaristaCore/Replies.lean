import DecaFS.BaristaCore.Results
import DecaFS.BaristaCore.Traffic

/-!
# Responses and results

A request that has its result has one response for each packet it sent (`Running.responses_perm`), and what
it sent is what its calls put into packets (`Finished.under_sends`). So what came for each chunk is a
function of the log (`came`), and the responses are those of the chunks in some order
(`perm_of_map_fst`).
-/

namespace DecaFS

open Desk Code Barista

section

variable {R : Runtime} {w w₁ w₂ w' : World} {used : List SendOutcome}
  {sent : List (ℤ × ChunkRequest)} {t : Tag} {β : Type} {v : ℤ → List UInt8 → List β}

/-- The chunk and the values of a response under the tag. -/
def Event.response (t : Tag) (v : ℤ → List UInt8 → List β) : Event → Option (FileChunk × List β)
  | .answered r count data => if r.tag = t then some (r.chunk, v count data) else none
  | _ => none

/-- The responses under the tag, in the order in which they came. -/
def responses (t : Tag) (v : ℤ → List UInt8 → List β) (log : List Event) : List (FileChunk × List β) :=
  (log.filterMap (Event.response t v)).reverse

/-- The values that came for a chunk. -/
def came (t : Tag) (v : ℤ → List UInt8 → List β) (log : List Event) (chunk : FileChunk) : List β :=
  ((responses t v log).filter (·.1 = chunk)).flatMap Prod.snd

theorem responses_append (log log' : List Event) :
    responses t v (log' ++ log) = responses t v log ++ responses t v log' := by
  rw [responses, List.filterMap_append, List.reverse_append]
  rfl

theorem responses_cons (e : Event) (log : List Event) :
    responses t v (e :: log) = responses t v log ++ (e.response t v).toList := by
  cases h : e.response t v with
  | none => simp [responses, h]
  | some a => simp [responses, h]

/-- Each response answers a packet. -/
theorem map_fst_responses (log : List Event) : (responses t v log).map Prod.fst =
    (((answeredPackets log).filter (·.tag = t)).map ChunkRequest.chunk).reverse := by
  induction log with
  | nil => rfl
  | cons e log ih =>
    rw [responses_cons, List.map_append, ih, answeredPackets_cons]
    cases e with
    | answered r count data =>
      by_cases htag : r.tag = t
      · simp [Event.response, Event.answeredPacket, htag]
      · simp [Event.response, Event.answeredPacket, htag]
    | _ => simp [Event.response, Event.answeredPacket]

theorem responses_eq_nil {log : List Event} (h : ∀ r ∈ answeredPackets log, r.tag ≠ t) :
    responses t v log = [] := by
  have hmap := map_fst_responses (t := t) (v := v) log
  rw [List.filter_eq_nil_iff.mpr (by simpa using h)] at hmap
  exact List.map_eq_nil_iff.mp hmap

/-- Nothing comes under a tag before a packet is sent under it. -/
theorem Booked.responses_eq_nil {current : Option Operation} (h : Booked current w)
    (hunsent : (ledger w.network.log).count (.sent t) = 0) : responses t v w.network.log = [] := by
  refine DecaFS.responses_eq_nil fun r hr htag => ?_
  have hbalance : (ledger w.network.log).count (.sent t) =
      (ledger w.network.log).count (.answered t) + _ := h.inv.balance t
  have hnone : (answeredPackets w.network.log).countP (·.tag = t) = 0 := by
    rw [countP_answeredPackets, ← count_answered_ledger]
    omega
  exact List.countP_eq_zero.mp hnone r hr (decide_eq_true htag)

/-! ### The packets of a request and its result -/

/-- What is sent under a tag of a request is sent before it expects its responses. -/
theorem Finished.under_sends {op : Operation} {n : ℕ} (ht : t ∈ op.tags)
    (hnew : (ledger w.network.log).count (.sent t) = 0) (hsending : Sending R op used sent w w₂)
    (hfinished : Finished R op n w₂ w₁)
    (hreaches : Reaches Operation.tags Tag.id (desk none w₁) (desk none w'))
    (hlog : ∃ new, w'.network.log = new ++ w₂.network.log) :
    under t (sends w'.network.log) = under t sent := by
  have hexpecting := hfinished.booked.inv.reaches hreaches
  have hend := hreaches.preserves (fun _ _ _ hd hs h => Expecting.step hd hs h)
    hfinished.booked.inv (hsending.booked.inv.expecting hfinished.step)
  have hcount : (ledger w'.network.log).count (.sent t) = (ledger w₂.network.log).count (.sent t) :=
    hend.2.2.1 t ht
  obtain ⟨new, hnew'⟩ := hlog
  have hsends : ∀ new log, sends (new ++ log) = sends log ++ sends new := by
    intro new log
    induction new with
    | nil => exact (List.append_nil _).symm
    | cons e new ih => cases e <;> simp [sends, ih]
  have hfirst : under t (sends w.network.log) = [] := by
    rw [← length_under_sends] at hnew
    exact List.eq_nil_of_length_eq_zero hnew
  have hlater : under t (sends new) = [] := by
    rw [← length_under_sends, ← length_under_sends, hnew', hsends, under_append,
      List.length_append] at hcount
    exact List.eq_nil_of_length_eq_zero (by omega)
  rw [hnew', hsends, under_append, hlater, List.append_nil, hsending.sends, under_append, hfirst,
    List.nil_append]

/-- A result is the only one of its request. -/
theorem Booked.replied_unique {op : Operation} {c c' : Client} {reply reply' : Reply}
    (h : Booked none w) (hmem : .replied op c reply ∈ w.network.log)
    (hmem' : .replied op c' reply' ∈ w.network.log) : c = c' ∧ reply = reply' := by
  have honce := h.inv.replied_once op
  simp only [desk, count_replied_ledger, List.countP_eq_length_filter] at honce
  have hfilter : ∀ {c : Client} {reply : Reply}, .replied op c reply ∈ w.network.log →
      .replied op c reply ∈ w.network.log.filter (Event.concludes op) := fun hmem =>
    List.mem_filter.mpr ⟨hmem, by simp [Event.concludes]⟩
  obtain ⟨e, he⟩ : ∃ e, w.network.log.filter (Event.concludes op) = [e] :=
    List.length_eq_one_iff.mp (le_antisymm honce (List.length_pos_of_mem (hfilter hmem)))
  have hone := List.mem_singleton.mp (he ▸ hfilter hmem)
  have hone' := List.mem_singleton.mp (he ▸ hfilter hmem')
  simpa using hone.trans hone'.symm

/-- Nothing comes for a request behind its result. -/
theorem Running.responses_eq {op : Operation} {c : Client} {reply : Reply} {pre post : List Event}
    (hw' : Running w') (haccounted : Accounted w') (ht : t ∈ op.tags)
    (hlog : w'.network.log = post ++ .replied op c reply :: pre) :
    responses t v w'.network.log = responses t v pre := by
  obtain ⟨hlate, -⟩ := hw'.packets_of_replied haccounted hlog ht
  rw [hlog, responses_append, responses_eq_nil hlate, List.append_nil, responses_cons]
  exact List.append_nil _

/-- **Each packet of a request is answered once**, by the time of the result. -/
theorem Running.responses_perm {op : Operation} {c : Client} {reply : Reply} (hw' : Running w')
    (haccounted : Accounted w') (ht : t ∈ op.tags) (hmem : .replied op c reply ∈ w'.network.log) :
    ((responses t v w'.network.log).map Prod.fst).Perm
      ((under t (sends w'.network.log)).map ChunkRequest.chunk) := by
  obtain ⟨post, pre, hlog⟩ := List.append_of_mem hmem
  obtain ⟨-, hperm⟩ := hw'.packets_of_replied haccounted hlog ht
  rw [hw'.responses_eq haccounted ht hlog, map_fst_responses]
  exact (List.reverse_perm _).trans (hperm.symm.map ChunkRequest.chunk)

end

/-! ### Chunk by chunk -/

theorem filter_fst_eq {α β : Type} [DecidableEq α] {l : List (α × β)} (honce : (l.map Prod.fst).Nodup)
    {e : α × β} (he : e ∈ l) : l.filter (·.1 = e.1) = [e] := by
  induction l with
  | nil => exact absurd he List.not_mem_nil
  | cons x l ih =>
    obtain ⟨hx, honce⟩ := List.nodup_cons.mp honce
    rcases List.mem_cons.mp he with rfl | he
    · have hrest : l.filter (·.1 = e.1) = [] := List.filter_eq_nil_iff.mpr fun y hy heq =>
        hx (of_decide_eq_true heq ▸ List.mem_map_of_mem hy)
      rw [List.filter_cons_of_pos (by simp), hrest]
    · have hne : x.1 ≠ e.1 := fun heq => hx (heq ▸ List.mem_map_of_mem he)
      rw [List.filter_cons_of_neg (by simpa using hne), ih honce he]

/-- Entries under different keys, read back key by key. -/
theorem perm_of_map_fst {α β : Type} [DecidableEq α] {l : List (α × List β)} {ks : List α}
    (hperm : (l.map Prod.fst).Perm ks) (honce : ks.Nodup) :
    l.Perm (ks.map fun k => (k, (l.filter (·.1 = k)).flatMap Prod.snd)) := by
  have hself : l = (l.map Prod.fst).map fun k => (k, (l.filter (·.1 = k)).flatMap Prod.snd) := by
    rw [List.map_map]
    refine (List.map_id l).symm.trans (List.map_congr_left fun e he => ?_)
    rw [Function.comp_apply, filter_fst_eq (hperm.nodup_iff.mpr honce) he, List.flatMap_singleton]
    rfl
  exact (List.Perm.of_eq hself).trans (hperm.map _)

end DecaFS
