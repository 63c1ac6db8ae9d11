import DecaFS.BaristaCore.Exchange

/-!
# What the packets of a request add up to

Facts about every run, each from what one exchange does. The packets sent are those in flight and those
answered, each once (`Accounted`). A read gathers what its packets are answered with (`Assembling`) until
the result is sent. A request that has its result has all its packets answered, and by then
(`Running.packets_of_replied`).
-/

namespace DecaFS

open Relation Desk Code Barista

variable {R : Runtime} {w w' w'' : World}

/-! ### Packets -/

/-- The packet that the event answers. -/
def Event.answeredPacket : Event → Option ChunkRequest
  | .answered r _ _ => some r
  | _ => none

/-- The packets that were answered, newest first. -/
def answeredPackets (log : List Event) : List ChunkRequest := log.filterMap Event.answeredPacket

theorem answeredPackets_cons (e : Event) (log : List Event) :
    answeredPackets (e :: log) = e.answeredPacket.toList ++ answeredPackets log := by
  cases h : e.answeredPacket with
  | none => exact List.filterMap_cons_none h
  | some r => exact List.filterMap_cons_some h

/-- Every packet that was sent is in flight or was answered, once. -/
def Accounted (w : World) : Prop :=
  ((sends w.network.log).map Prod.snd).Perm (w.network.inFlight ++ answeredPackets w.network.log)

theorem traffic_eq {r : Requests} {l : List ChunkRequest} {log : List Event}
    (h : traffic w' = (r, l, log)) :
    w'.requests = r ∧ w'.network.inFlight = l ∧ w'.network.log = log :=
  ⟨congrArg Prod.fst h, congrArg (fun t => t.2.1) h, congrArg (fun t => t.2.2) h⟩

/-- **What an exchange does to the packets.** One is sent, one is answered, or nothing happens. -/
theorem Exchange.packets (h : Exchange R w w') :
    (∃ node r, w'.network.inFlight = w.network.inFlight ++ [r] ∧
        w'.network.log = .sent node r :: w.network.log) ∨
      (∃ i r count data, w.network.inFlight[i]? = some r ∧
        w'.network.inFlight = w.network.inFlight.eraseIdx i ∧
        w'.network.log = .answered r count data :: w.network.log) ∨
      w'.network.inFlight = w.network.inFlight ∧ sends w'.network.log = sends w.network.log ∧
        answeredPackets w'.network.log = answeredPackets w.network.log := by
  have hsplit : ∀ {r : Requests} {l : List ChunkRequest} {log : List Event}, traffic w' = (r, l, log) →
      w'.network.inFlight = l ∧ w'.network.log = log := fun h => (traffic_eq h).2
  cases h with
  | send node r h => exact .inl ⟨node, r, hsplit h⟩
  | answerRead i r count data a packet _ _ h | answerWrite i r count data _ a packet _ _ _ h
  | answerDelete i r count data a packet _ _ h =>
    exact .inr (.inl ⟨i, r, count, data, packet, hsplit h⟩)
  | note e plain h =>
    obtain ⟨hflight, hlog⟩ := hsplit h
    rw [hlog]
    refine .inr (.inr ⟨hflight, ?_⟩)
    cases e <;> simp [Event.isPlain, sends, answeredPackets_cons, Event.answeredPacket] at plain ⊢
  | idle h | refuse _ _ _ h | expectRead _ _ _ _ h | expectWrite _ _ _ _ _ h | expectDelete _ _ _ _ h
  | replyRead _ _ _ h | replyWrite _ _ _ h | replyDelete _ _ _ h | registerRead _ _ _ h
  | registerWrite _ _ _ _ _ h | registerDelete _ _ _ h =>
    obtain ⟨hflight, hlog⟩ := hsplit h
    exact .inr (.inr ⟨hflight, by simp [hlog, sends, readReply], by simp [hlog, answeredPackets_cons, readReply, Event.answeredPacket]⟩)

theorem Exchange.accounted (h : Exchange R w w') (hw : Accounted w) : Accounted w' := by
  unfold Accounted at hw ⊢
  rcases h.packets with ⟨node, r, hflight, hlog⟩ | ⟨i, r, count, data, hr, hflight, hlog⟩ |
      ⟨hflight, hsends, hanswered⟩
  · have hanswered : answeredPackets (.sent node r :: w.network.log) = answeredPackets w.network.log :=
      List.filterMap_cons_none rfl
    rw [hflight, hlog, hanswered, sends, List.map_append, List.append_assoc, List.singleton_append,
      List.map_singleton]
    exact ((List.perm_append_singleton r _).trans (hw.cons r)).trans List.perm_middle.symm
  · have hanswered : answeredPackets (.answered r count data :: w.network.log) =
        r :: answeredPackets w.network.log := List.filterMap_cons_some rfl
    have hsends : sends (.answered r count data :: w.network.log) = sends w.network.log := by simp [sends]
    rw [hflight, hlog, hanswered, hsends]
    obtain ⟨hlt, rfl⟩ := List.getElem?_eq_some_iff.mp hr
    refine hw.trans (.trans ?_ List.perm_middle.symm)
    exact (List.getElem_cons_eraseIdx_perm hlt).symm.append_right _
  · rwa [hflight, hsends, hanswered]

theorem Started.accounted (h : Started w) : Accounted w := by
  rw [Accounted, h.inFlight, h.log]
  exact .refl []

/-- **No packet is lost and none is answered twice.** -/
theorem Started.accounted_of_run {w₀ : World} {is : List Input} (hstart : Started w₀)
    (hrun : Steps (Barista.step R) w₀ is w) (hids : idsOf is < 4294967296) : Accounted w := by
  have hexchanges : ReflTransGen (Exchange R) w₀ w :=
    exchanges_of_run hstart.running hrun (by rwa [hstart.requestId, Nat.zero_add])
  exact ReflTransGen.head_induction_on (motive := fun w₀ _ => Accounted w₀ → Accounted w) hexchanges id
    (fun h _ ih hw => ih (h.accounted hw)) hstart.accounted

theorem countP_answeredPackets (log : List Event) (t : Tag) :
    (answeredPackets log).countP (·.tag = t) = log.countP (Event.answers t) := by
  rw [answeredPackets, List.countP_filterMap]
  congr 1
  funext e
  cases e <;> simp [Event.answeredPacket, Event.answers]

/-- **A request that has its result has all its packets answered**, and by then. -/
theorem Running.packets_of_replied {op : Operation} {client : Client} {result : Reply}
    {pre post : List Event} {t : Tag} (hw : Running w) (haccounted : Accounted w)
    (hlog : w.network.log = post ++ .replied op client result :: pre) (ht : t ∈ op.tags) :
    (∀ r ∈ answeredPackets post, r.tag ≠ t) ∧
      (under t (sends w.network.log)).Perm ((answeredPackets pre).filter (·.tag = t)) := by
  have hlast := hw.booked.inv.repliesLast
  simp only [desk, hlog, ledger_append, ledger_replied] at hlast
  obtain ⟨hpre, hpost⟩ := RepliesLast.append _ hlast
  have hsent : (under t (sends w.network.log)).length =
      (answeredPackets pre).countP (·.tag = t) := by
    rw [length_under_sends, hlog, ledger_append, ledger_replied, List.count_append,
      List.count_eq_zero.mpr (hpost t ht), countP_answeredPackets, ← count_answered_ledger, ← hpre t ht]
    simp
  have hperm : (under t (sends w.network.log)).Perm (w.network.inFlight.filter (·.tag = t) ++
      ((answeredPackets post).filter (·.tag = t) ++ (answeredPackets pre).filter (·.tag = t))) := by
    have hanswered : answeredPackets w.network.log = answeredPackets post ++ answeredPackets pre := by
      rw [hlog, answeredPackets, List.filterMap_append, List.filterMap_cons_none rfl]
      rfl
    have hfilter := haccounted.filter (·.tag = t)
    rwa [hanswered, List.filter_append, List.filter_append] at hfilter
  have hlength := hperm.length_eq
  rw [List.length_append, List.length_append, hsent, List.countP_eq_length_filter] at hlength
  have hflight : w.network.inFlight.filter (·.tag = t) = [] := List.eq_nil_of_length_eq_zero (by omega)
  have hlate : (answeredPackets post).filter (·.tag = t) = [] := List.eq_nil_of_length_eq_zero (by omega)
  refine ⟨fun r hr htag => ?_, ?_⟩
  · have hmem : r ∈ (answeredPackets post).filter (·.tag = t) := List.mem_filter.mpr ⟨hr, decide_eq_true htag⟩
    rw [hlate] at hmem
    exact absurd hmem List.not_mem_nil
  · rwa [hflight, hlate, List.nil_append, List.nil_append] at hperm

/-! ### Reads -/

/-- **What an exchange does to the reads.** -/
theorem Exchange.assembling (h : Exchange R w w') : Assembling R w w' := by
  cases h with
  | idle h =>
    obtain ⟨hr, -, hlog⟩ := traffic_eq h
    exact .of_eq [] hlog (by rw [hr]) (by simp)
  | note e plain h =>
    obtain ⟨hr, -, hlog⟩ := traffic_eq h
    refine .emit hlog (by rw [hr]) ?_
    rintro r count data rfl
    simp [Event.isPlain] at plain
  | refuse op client reply h =>
    obtain ⟨hr, -, hlog⟩ := traffic_eq h
    exact .emit hlog (by rw [hr]) (by simp)
  | send node r h =>
    obtain ⟨hr, -, hlog⟩ := traffic_eq h
    exact .emit hlog (by rw [hr]) (by simp)
  | answerRead i r count data a packet flag entry h =>
    obtain ⟨hr, -, hlog⟩ := traffic_eq h
    have htag : r.tag = ⟨.readChunk, r.id⟩ := by rw [← flag]; rfl
    have hread : w'.requests.activeReadRequests = w.requests.activeReadRequests.insert r.id
        (a.heard R r.chunk (readBuffer count data)) := by rw [hr]; rfl
    exact .answer hlog htag entry hread rfl rfl rfl
  | answerWrite i r count data q a packet flag request entry h =>
    obtain ⟨hr, -, hlog⟩ := traffic_eq h
    refine .emit hlog (by rw [hr]; rfl) ?_
    rintro r count data ⟨rfl, rfl, rfl⟩
    simp [flag]
  | answerDelete i r count data a packet flag entry h =>
    obtain ⟨hr, -, hlog⟩ := traffic_eq h
    refine .emit hlog (by rw [hr]; rfl) ?_
    rintro r count data ⟨rfl, rfl, rfl⟩
    simp [flag]
  | expectRead id n a entry h =>
    obtain ⟨hr, -, hlog⟩ := traffic_eq h
    have hread : w'.requests.activeReadRequests = w.requests.activeReadRequests.insert id
        { a with info := { a.info with chunksExpected := n } } := by rw [hr]; rfl
    exact .set hlog entry hread rfl rfl rfl
  | expectWrite q n m a entry h | expectDelete id n a entry h =>
    obtain ⟨hr, -, hlog⟩ := traffic_eq h
    exact .of_eq [] hlog (by rw [hr]; rfl) (by simp)
  | replyRead id a entry h =>
    obtain ⟨hr, -, hlog⟩ := traffic_eq h
    exact .finish entry hlog (by rw [hr]; rfl)
  | replyWrite q a entry h | replyDelete id a entry h =>
    obtain ⟨hr, -, hlog⟩ := traffic_eq h
    exact .emit hlog (by rw [hr]; rfl) (by simp)
  | registerRead id a new h =>
    obtain ⟨hr, -, hlog⟩ := traffic_eq h
    refine ⟨[], hlog, fun id' b hb => .inl ⟨b, ?_, rfl, rfl, rfl⟩⟩
    have hne : id' ≠ id := by
      rintro rfl
      simp [new] at hb
    rw [hr]
    exact (Finmap.lookup_insert_of_ne _ hne).trans hb
  | registerWrite q a ne newId newReplica h | registerDelete id a new h =>
    obtain ⟨hr, -, hlog⟩ := traffic_eq h
    exact .of_eq [] hlog (by rw [hr]; rfl) (by simp)

theorem assembling_of_exchanges (h : ReflTransGen (Exchange R) w w') : Assembling R w w' := by
  induction h with
  | refl => exact .refl
  | tail _ h ih => exact ih.trans h.assembling

end DecaFS
