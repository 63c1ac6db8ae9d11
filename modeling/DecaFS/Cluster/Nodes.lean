import DecaFS.BaristaCore.Answers
import DecaFS.BaristaCore.Traffic
import DecaFS.Espresso.Refinement
import DecaFS.ForMathlib.Links

/-!
# The Barista and its Espressos

The server, the nodes and the connections between them. A packet that `sendToEspresso` gets rid of is
under way until the node takes it from its end of the connection (`EspressoClient`), handles it with the
functions of `espresso_packet_processor.cpp`, and sends the response back; both directions keep the
order. The server handles one message to completion before it looks at the next, so responses come in
between the calls.

What is under way is what the server has in flight (`Cluster.Aligned`), so every run of the cluster is one
of the server, with its log saying what happened on the connections (`Cluster.Sound.run`).
-/

namespace DecaFS

open Code Barista

/-! ### Nodes -/

/-- The chunk that a packet is about, with the ids that the chunk store gets for it. -/
def ChunkRequest.descriptor (r : ChunkRequest) : DataDescriptor :=
  ⟨toInt32 r.chunk.fileId, toInt32 r.chunk.stripeId, toInt32 r.chunk.chunkNum⟩

/-- The result in a response, with its bytes. -/
abbrev Answer : Type := ℤ × List UInt8

namespace Espresso

/-- `process_read_packet` -/
def processReadPacket (r : ChunkRequest) : Espresso Answer := readChunk r.descriptor r.offset r.count

/-- `process_write_packet` -/
def processWritePacket (r : ChunkRequest) (overread : ℕ → UInt8) : Espresso Answer := do
  let bytesWritten ← writeChunk r.descriptor r.offset r.data r.count overread
  return (bytesWritten, [])

/-- `process_delete_packet`. The response says nothing about the result. -/
def processDeletePacket (r : ChunkRequest) : Espresso Answer := do
  let _ ← deleteChunk r.descriptor
  return (-1, [])

/-- `handleMessageFromServer` of `EspressoClient` -/
def handleMessageFromServer (r : ChunkRequest) (overread : ℕ → UInt8) : Espresso Answer :=
  match r.flag with
  | .readChunk => processReadPacket r
  | .writeChunk => processWritePacket r overread
  | .deleteChunk => processDeletePacket r

/-- A node handles a packet and answers it. -/
def Serves (s : EspressoData) (p : ChunkRequest × Answer) (t : EspressoData) : Prop :=
  ∃ overread, handleMessageFromServer p.1 overread s = .ok (p.2, t)

end Espresso

/-! ### The cluster -/

/-- The server, and its connections to the nodes. -/
structure Cluster where
  barista : World
  links : Links ℤ ChunkRequest Answer EspressoData

/-- What happens in a cluster. -/
inductive Action : Type
  | call (i : Input)
  | serve (node : ℤ) (r : ChunkRequest) (a : Answer)
  | deliver (k : ℕ) (node : ℤ) (r : ChunkRequest) (a : Answer)
  | disconnect (node : ℤ)

/-- The message is no response, and none comes in during the sends that it leads to. -/
structure Barista.Input.Quiet (i : Input) : Prop where
  noResponse : ∀ d, i ≠ .response d
  script : ∀ script, i.script = some script → ∀ o ∈ script, o.deliveries = []

/-- A packet that was answered, with its answer. -/
def Event.heard : Event → Option (ChunkRequest × Answer)
  | .answered r count data => some (r, count, data)
  | _ => none

/-- The packets that are sent between two states of the server. -/
def sentSince (w w' : World) : List (ℤ × ChunkRequest) :=
  (sends w'.network.log).drop (sends w.network.log).length

namespace Cluster

/-- What the cluster does next. The calls are those of the clients, and nodes that connect; a node that
has disconnected does not come back. -/
inductive Step (R : Runtime) (c : Cluster) : Action → Cluster → Prop
  | call {i : Input} {w : World} {links : Links ℤ ChunkRequest Answer EspressoData} (quiet : i.Quiet)
      (stays : ∀ node, i ≠ .nodeDown node) (opened : ∀ node, i = .nodeUp node → node ∉ c.links.closed)
      (handled : step R c.barista i w)
      (posted : Links.Step Espresso.Serves c.links (.post (sentSince c.barista w)) links) :
    Step R c (.call i) ⟨w, links⟩
  | serve {node : ℤ} {r : ChunkRequest} {a : Answer} {links : Links ℤ ChunkRequest Answer EspressoData}
      (served : Links.Step Espresso.Serves c.links (.serve node r a) links) :
    Step R c (.serve node r a) ⟨c.barista, links⟩
  | deliver {k : ℕ} {node : ℤ} {r : ChunkRequest} {a : Answer} {w : World}
      {links : Links ℤ ChunkRequest Answer EspressoData}
      (taken : Links.Step Espresso.Serves c.links (.take k node r a) links)
      (handled : step R c.barista (.response ⟨k, a.1, a.2⟩) w) :
    Step R c (.deliver k node r a) ⟨w, links⟩
  | disconnect {node : ℤ} {w : World} {links : Links ℤ ChunkRequest Answer EspressoData}
      (closed : Links.Step Espresso.Serves c.links (.close node) links)
      (handled : step R c.barista (.nodeDown node) w) :
    Step R c (.disconnect node) ⟨w, links⟩

/-- A cluster whose server was just started, with nodes that have room for `maxSize` bytes. -/
structure Started (maxSize : ℕ) (c : Cluster) : Prop where
  barista : DecaFS.Started c.barista
  transit : c.links.transit = []
  stores : ∀ node, c.links.stores node = espressoGlobalDataInit maxSize
  closed : c.links.closed = ∅
  script : c.barista.network.script = []

/-- What is under way is what the server has in flight. -/
def Aligned (c : Cluster) : Prop := c.links.requests = c.barista.network.inFlight

end Cluster

section

variable {R : Runtime} {w₀ w w' : World} {i : Input} {α : Type}

/-! ### Packets that are sent by a call -/

/-- Since `w₀` packets were sent and none was answered, and no response comes in while more are sent. -/
structure Posting (w₀ w : World) : Prop where
  quiet : ∀ o ∈ w.network.script, o.deliveries = []
  posted : ∃ sent, sends w.network.log = sends w₀.network.log ++ sent ∧
    w.network.inFlight = w₀.network.inFlight ++ sent.map Prod.snd
  heard : w.network.log.filterMap Event.heard = w₀.network.log.filterMap Event.heard

theorem keeps_posting_zoom {τ : Type} {get : World → τ} {put : τ → World → World}
    {m : Code (Halt Site) τ α} (h : ∀ w t, (put t w).network = w.network) :
    (zoom get put m).Keeps (Posting w₀) := by
  refine keeps_zoom fun w t hw => ?_
  exact ⟨h w t ▸ hw.quiet, h w t ▸ hw.posted, h w t ▸ hw.heard⟩

theorem keeps_posting_emit {e : Event} (hsent : ∀ log, sends (e :: log) = sends log)
    (hheard : e.heard = none) : (emit e).Keeps (Posting w₀) := by
  intro w hw
  refine wp_emit.mpr ⟨hw.quiet, ?_, ?_⟩
  · obtain ⟨sent, hsends, hflight⟩ := hw.posted
    exact ⟨sent, (hsent _).trans hsends, hflight⟩
  · exact (List.filterMap_cons_none hheard).trans hw.heard

theorem keeps_posting_send (node : ℤ) (r : ChunkRequest) :
    (sendToEspresso R node r).Keeps (Posting w₀) := by
  intro w hw
  unfold sendToEspresso
  rw [wp_bind, wp_get]
  cases hscript : w.network.script with
  | nil => exact (wp_throw _).mpr trivial
  | cons o script =>
    have hquiet : ∀ o' ∈ script, o'.deliveries = [] := fun o' ho' =>
      hw.quiet o' (hscript ▸ List.mem_cons_of_mem _ ho')
    have hnone : o.deliveries = [] := hw.quiet o (hscript ▸ List.mem_cons_self)
    obtain ⟨sent, hsends, hflight⟩ := hw.posted
    by_cases ho : o.accepted = true
    · simp only [ho, if_true, network, wp_bind, wp_zoom, wp_modify, hnone, receiveAll, wp_pure]
      refine ⟨hquiet, ⟨sent ++ [(node, r)], ?_, ?_⟩, hw.heard⟩
      · simp [sends, hsends]
      · simp [hflight]
    · simp only [ho, Bool.false_eq_true, if_false, network, wp_bind, wp_zoom, wp_modify, hnone, receiveAll,
        wp_pure]
      exact ⟨hquiet, ⟨sent, hsends, hflight⟩, hw.heard⟩

theorem keeps_posting_metadata (client : Client) (refused : α)
    (m : Code (Halt Site) PersistentMetadata α) :
    (withMetadataLock client refused m).Keeps (Posting w₀) := by
  have hlock : ∀ c : Option Client,
      (modify fun w => { w with metaLock := c } : Barista PUnit).Keeps (Posting w₀) := fun _ =>
    keeps_modify fun _ hw => ⟨hw.quiet, hw.posted, hw.heard⟩
  have hget : (getMetadataLock client).Keeps (Posting w₀) :=
    .bind (keeps_assert _ _) fun _ => .bind keeps_get fun _ =>
      .ite (.bind (hlock _) fun _ => keeps_pure _) (keeps_pure _)
  have hrelease : (releaseMetadataLock client).Keeps (Posting w₀) :=
    .bind (keeps_assert _ _) fun _ => .bind keeps_get fun _ =>
      .ite (.bind (hlock _) fun _ => keeps_pure _) (keeps_pure _)
  exact .bind hget fun _ => .ite (keeps_pure _)
    (.bind (keeps_posting_zoom fun _ _ => rfl) fun _ => .bind hrelease fun _ => keeps_pure _)

theorem callParts_posting : CallParts R (Posting w₀) where
  stripe _ _ _ _ _ := keeps_posting_emit (fun _ => rfl) rfl
  compared _ _ _ _ := keeps_posting_emit (fun _ => rfl) rfl
  writeNodes := keeps_writeNodes fun _ => keeps_posting_zoom fun _ _ => rfl
  eraseNode _ := keeps_posting_zoom fun _ _ => rfl
  eraseReplica _ := keeps_posting_zoom fun _ _ => rfl
  setNodeDown _ := keeps_posting_zoom fun _ _ => rfl
  send := keeps_posting_send
  volatile _ := keeps_posting_zoom fun _ _ => rfl
  locking _ := keeps_posting_zoom fun _ _ => rfl
  metadata := keeps_posting_metadata
  requests _ := keeps_posting_zoom fun _ _ => rfl
  emit e he := by
    cases e <;> first
      | exact keeps_posting_emit (fun _ => rfl) rfl
      | exact absurd he (by simp [Event.isSpoken])

/-- No response comes in during a send. -/
def QuietScript (w : World) : Prop := ∀ o ∈ w.network.script, o.deliveries = []

/-- **A call or a change of the nodes sends packets**, and takes no response. -/
theorem posting_of_step (hquiet : QuietScript w) (hi : i.Quiet) (hstep : step R w i w') : Posting w w' := by
  have hhandle : (handle R i).Keeps (Posting w) := by
    refine callParts_posting.handle (fun script hscript => ?_) fun d hd => absurd hd (hi.noResponse d)
    exact keeps_zoom_modify fun v hv => ⟨hi.script script hscript, hv.posted, hv.heard⟩
  exact hhandle.of_ok hstep ⟨hquiet, ⟨[], by simp, by simp⟩, rfl⟩

theorem network_of_nodeDown {node : ℤ} (hstep : step R w (.nodeDown node) w') : w'.network = w.network := by
  have hkeeps : (handle R (.nodeDown node)).Keeps fun v => v.network = w.network :=
    .bind (keeps_zoom fun _ _ hv => hv) fun _ => keeps_pure _
  exact hkeeps.of_ok hstep rfl

theorem Posting.sends_eq (h : Posting w w') :
    sends w'.network.log = sends w.network.log ++ sentSince w w' ∧
      w'.network.inFlight = w.network.inFlight ++ (sentSince w w').map Prod.snd := by
  obtain ⟨sent, hsends, hflight⟩ := h.posted
  have hsince : sentSince w w' = sent := by
    rw [sentSince, hsends, List.drop_left]
  rw [hsince]
  exact ⟨hsends, hflight⟩

/-- **A response answers its packet**, and sends nothing. -/
theorem heard_of_step {k : ℕ} {r : ChunkRequest} {a : Answer} (hw : Running w) (hquiet : QuietScript w)
    (hr : w.network.inFlight[k]? = some r) (hstep : step R w (.response ⟨k, a.1, a.2⟩) w') :
    QuietScript w' ∧ sends w'.network.log = sends w.network.log ∧
      w'.network.inFlight = w.network.inFlight.eraseIdx k ∧
      w'.network.log.filterMap Event.heard = (r, a) :: w.network.log.filterMap Event.heard := by
  have hheard : Heard R none w w' := (wp_receive hw.booked _).of_ok hstep
  let w₁ := received w k r a.1 a.2
  have hrest : wp (receive R ⟨k, a.1, a.2⟩) (fun _ w' => Posting w₁ w') (fun _ => True) w := by
    have hw₁ : Posting w₁ w₁ := ⟨hquiet, ⟨[], by simp, by simp⟩, rfl⟩
    have hparts : CallParts R (Posting w₁) := callParts_posting
    simp only [receive, wp_bind, wp_get, hr, network, wp_zoom, wp_modify]
    cases r.flag with
    | readChunk => exact hparts.readResponseHandler _ _ _ _ w₁ hw₁
    | writeChunk => exact hparts.writeResponseHandler _ _ w₁ hw₁
    | deleteChunk => exact hparts.deleteResponseHandler _ w₁ hw₁
  have hposting := hrest.of_ok hstep
  obtain ⟨sent, hsends, hflight⟩ := hposting.posted
  have hnil : sent = [] := by
    have hlength := congrArg List.length (hheard.sends.symm.trans hsends)
    have hsame : sends w₁.network.log = sends w.network.log := rfl
    rw [hsame, List.length_append] at hlength
    exact List.length_eq_zero_iff.mp (by omega)
  subst hnil
  rw [List.map_nil, List.append_nil] at hflight
  exact ⟨hposting.quiet, hheard.sends, hflight, hposting.heard⟩

end

/-! ### Runs of the cluster -/

/-- The message that the server handles. -/
def Action.input : Action → Option Input
  | .call i => some i
  | .serve .. => none
  | .deliver k _ _ a => some (.response ⟨k, a.1, a.2⟩)
  | .disconnect node => some (.nodeDown node)

/-- The messages that the server handles. -/
def inputs (as : List Action) : List Input := as.filterMap Action.input

theorem inputs_append (as bs : List Action) : inputs (as ++ bs) = inputs as ++ inputs bs :=
  List.filterMap_append

namespace Cluster

/-- What holds of a cluster between two steps. -/
structure Sound (c : Cluster) : Prop where
  running : Running c.barista
  quiet : QuietScript c.barista
  aligned : c.Aligned

/-- What happened on the links, and what the server's log says of it. -/
structure Linked (c : Cluster) (ls : List (Signal ℤ ChunkRequest Answer)) (c' : Cluster) : Prop where
  steps : Steps (Links.Step Espresso.Serves) c.links ls c'.links
  sends : sends c'.barista.network.log = sends c.barista.network.log ++ ls.flatMap Signal.posts
  heard : (c'.barista.network.log.filterMap Event.heard).reverse =
    (c.barista.network.log.filterMap Event.heard).reverse ++ (ls.flatMap Signal.takes).map Prod.snd

variable {R : Runtime} {c c' c'' : Cluster} {a : Action} {as : List Action} {maxSize : ℕ}
  {ls ls' : List (Signal ℤ ChunkRequest Answer)}

theorem Linked.refl (c : Cluster) : Linked c [] c := ⟨.refl _, by simp, by simp⟩

theorem Linked.trans (h : Linked c ls c') (h' : Linked c' ls' c'') : Linked c (ls ++ ls') c'' where
  steps := h.steps.trans h'.steps
  sends := by rw [h'.sends, h.sends, List.flatMap_append, List.append_assoc]
  heard := by rw [h'.heard, h.heard, List.flatMap_append, List.map_append, List.append_assoc]

theorem Started.sound (h : Started maxSize c) : Sound c where
  running := h.barista.running
  quiet := by simp [QuietScript, h.script]
  aligned := by simp [Aligned, Links.requests, h.transit, h.barista.inFlight]

/-- **The step lemma.** -/
theorem Sound.step (h : Sound c) (hids : c.barista.volatile.requestId + idsOf (inputs [a]) < 4294967296)
    (hstep : Step R c a c') : Sound c' ∧
      c'.barista.volatile.requestId = c.barista.volatile.requestId + idsOf (inputs [a]) ∧
      Steps (Barista.step R) c.barista (inputs [a]) c'.barista ∧ ∃ ls, Linked c ls c' := by
  have haligned : c.links.requests = c.barista.network.inFlight := h.aligned
  cases hstep with
  | @call i w links quiet stays opened handled posted =>
    have hids : c.barista.volatile.requestId + i.ids < 4294967296 := by
      simpa [inputs, Action.input] using hids
    have hhandled := h.running.handled hids handled
    have hposting := posting_of_step h.quiet quiet handled
    obtain ⟨hsends, hflight⟩ := hposting.sends_eq
    have hrequests := posted.requests_eq
    refine ⟨⟨hhandled.running h.running, hposting.quiet, ?_⟩, ?_, .single handled, _, .single posted,
      by simpa [Signal.posts] using hsends, by simp [Signal.takes, hposting.heard]⟩
    · exact hrequests.trans (by rw [haligned, hflight])
    · simpa [inputs, Action.input] using hhandled.requestId
  | serve served =>
    refine ⟨⟨h.running, h.quiet, served.requests_eq.trans haligned⟩, rfl, .refl _, _, .single served, by simp [Signal.posts], by simp [Signal.takes]⟩
  | @deliver k node r a w links taken handled =>
    obtain ⟨hr, hrequests⟩ := taken.requests_eq
    rw [haligned] at hr hrequests
    have hhandled := h.running.handled (by simpa [inputs, Action.input] using hids) handled
    obtain ⟨hquiet, hsends, hflight, hheard⟩ := heard_of_step h.running h.quiet hr handled
    refine ⟨⟨hhandled.running h.running, hquiet, hrequests.trans hflight.symm⟩, ?_, .single handled,
      _, .single taken, by simp [Signal.posts, hsends], ?_⟩
    · simpa [inputs, Action.input] using hhandled.requestId
    · simp [Signal.takes, hheard]
  | @disconnect node w links closed handled =>
    have hhandled := h.running.handled (by simpa [inputs, Action.input] using hids) handled
    have hnetwork := network_of_nodeDown handled
    refine ⟨⟨hhandled.running h.running, ?_, ?_⟩, ?_, .single handled, _, .single closed,
      by simp [Signal.posts, hnetwork], by simp [Signal.takes, hnetwork]⟩
    · rw [QuietScript, hnetwork]
      exact h.quiet
    · rw [Aligned, hnetwork]
      exact closed.requests_eq.trans haligned
    · simpa [inputs, Action.input] using hhandled.requestId

/-- **The run lemma.** A run of the cluster is one of the server. -/
theorem Sound.run (h : Sound c) (hids : c.barista.volatile.requestId + idsOf (inputs as) < 4294967296)
    (hrun : Steps (Step R) c as c') : Sound c' ∧
      c'.barista.volatile.requestId = c.barista.volatile.requestId + idsOf (inputs as) ∧
      Steps (Barista.step R) c.barista (inputs as) c'.barista ∧ ∃ ls, Linked c ls c' := by
  induction hrun with
  | refl c => exact ⟨h, rfl, .refl _, [], .refl c⟩
  | @cons c c₁ c' a as head _ ih =>
    have hsplit : inputs (a :: as) = inputs [a] ++ inputs as := inputs_append [a] as
    rw [hsplit, idsOf_append, ← Nat.add_assoc] at hids
    obtain ⟨h₁, hid₁, hsteps₁, ls₁, hlinked₁⟩ := h.step (by omega) head
    obtain ⟨h', hid', hsteps', ls', hlinked'⟩ := ih h₁ (by rwa [hid₁])
    refine ⟨h', ?_, ?_, ls₁ ++ ls', hlinked₁.trans hlinked'⟩
    · rw [hid', hid₁, hsplit, idsOf_append, Nat.add_assoc]
    · rw [hsplit]
      exact hsteps₁.trans hsteps'

/-- A condition on what the server handles, as one on what happens in the cluster. -/
def Handling (G : World → Input → Prop) (c : Cluster) (a : Action) : Prop :=
  ∀ i ∈ a.input, G c.barista i

theorem Sound.run_guarded {G : World → Input → Prop} (h : Sound c)
    (hids : c.barista.volatile.requestId + idsOf (inputs as) < 4294967296)
    (hrun : Steps (Guarded (Handling G) (Step R)) c as c') :
    Steps (Guarded G (Barista.step R)) c.barista (inputs as) c'.barista := by
  induction hrun with
  | refl c => exact .refl _
  | @cons c c₁ c' a as head _ ih =>
    obtain ⟨hguard, hstep⟩ := head
    have hsplit : inputs (a :: as) = inputs [a] ++ inputs as := inputs_append [a] as
    rw [hsplit, idsOf_append, ← Nat.add_assoc] at hids
    obtain ⟨h₁, hid₁, hsteps₁, -⟩ := h.step (by omega) hstep
    rw [hsplit]
    refine .trans ?_ (ih h₁ (by rwa [hid₁]))
    cases hinput : a.input with
    | none =>
      have hnil : inputs [a] = [] := List.filterMap_cons_none hinput
      rw [hnil] at hsteps₁ ⊢
      exact Steps.nil_iff.mp hsteps₁ ▸ .refl _
    | some i =>
      have hone : inputs [a] = [i] := List.filterMap_cons_some hinput
      rw [hone] at hsteps₁ ⊢
      obtain ⟨w, hw, hnil⟩ := Steps.cons_iff.mp hsteps₁
      exact .single ⟨hguard i hinput, Steps.nil_iff.mp hnil ▸ hw⟩

end Cluster

end DecaFS
