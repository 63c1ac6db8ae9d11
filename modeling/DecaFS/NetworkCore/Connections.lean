import DecaFS.NetworkCore.BaristaServer

/-!
# The connection tables

`m_espresso_nodes`, `m_espresso_nodes_rev` and the list of the nodes that are up are changed one after
the other by the handlers of connects, disconnects and `ESPRESSO_INIT`. Whatever node ids come in,
they stay `Wired`: a node of the first table is connected, and a node that is up is in it. The two
tables are inverse to each other, and every node in them is up until a send to it fails, as long as
no Espresso comes with the id of one that is registered (`tablesAgree_iff`).
-/

namespace DecaFS

open Code Barista

theorem toInt32_eq_iff {x y : ℤ} : toInt32 x = toInt32 y ↔ toUInt32 x = toUInt32 y := by
  unfold toInt32 toUInt32
  omega

namespace VolatileMetadata

variable {v : VolatileMetadata} {n node : ℤ}

theorem isNodeUp_up : (v.up node).isNodeUp n = true ↔ v.isNodeUp n = true ∨ toInt32 n = toInt32 node := by
  unfold up isNodeUp
  rw [toInt32_eq_iff]
  by_cases h : toUInt32 node ∈ v.upNodes
  · simp only [h, decide_true, if_true, decide_eq_true_eq, iff_self_or]
    intro heq
    rwa [heq]
  · simp [h]

theorem isNodeUp_down :
    (v.down node).isNodeUp n = true ↔ v.isNodeUp n = true ∧ toInt32 n ≠ toInt32 node := by
  unfold down isNodeUp
  rw [Ne, toInt32_eq_iff]
  simp

end VolatileMetadata

namespace BaristaServer

/-- An Espresso comes with an id that no registered one has. -/
def Distinct (s : BaristaServer) : ServerEvent → Prop
  | .espressoInit client nodeId =>
    client ∈ s.pendingClients → s.espressoNodes.lookup (toInt32 nodeId) = none
  | _ => True

/-- All packets that were tried were sent. -/
def NoSendFailed (s : BaristaServer) : Prop :=
  ∀ a ∈ (routing s.world).tried, a.accepted = true

/-- The tables of the Espressos are inverse to each other over open connections, and the nodes in them
are those that are up. -/
structure TablesAgree (s : BaristaServer) : Prop where
  inverse : ∀ n c, s.espressoNodes.lookup n = some c ↔ s.espressoNodesRev.lookup c = some n
  connected : ∀ n c, s.espressoNodes.lookup n = some c → c ∈ s.clients
  up : s.NoSendFailed → ∀ n, s.world.volatile.isNodeUp n = true ↔
    ∃ c ∈ s.clients, s.espressoNodesRev.lookup c = some (toInt32 n)

/-- What holds of the tables whatever node ids come in. -/
structure Wired (s : BaristaServer) : Prop where
  unlocked : s.world.metaLock = none
  isInt : ∀ c n, s.espressoNodesRev.lookup c = some n → toInt32 n = n
  rev : ∀ n c, s.espressoNodes.lookup n = some c → s.espressoNodesRev.lookup c = some n
  connected : ∀ c, c ∈ s.pendingClients ∨ c ∈ s.decafsClients ∨ c ∈ s.espressoNodesRev → c ∈ s.clients
  pending_rev : ∀ c ∈ s.pendingClients, c ∉ s.espressoNodesRev
  pending_decafs : ∀ c ∈ s.pendingClients, c ∉ s.decafsClients
  decafs_rev : ∀ c ∈ s.decafsClients, c ∉ s.espressoNodesRev
  up : ∀ n, s.world.volatile.isNodeUp n = true → toInt32 n ∈ s.espressoNodes

/-- What holds of them as well if the node ids differ. -/
structure Matched (s : BaristaServer) : Prop where
  nodes : ∀ n c, s.espressoNodesRev.lookup c = some n → s.espressoNodes.lookup n = some c
  up : s.NoSendFailed → ∀ n ∈ s.espressoNodes, s.world.volatile.isNodeUp n = true

section

variable {R : Runtime} {s s' : BaristaServer} {e : ServerEvent} {client : ℕ} {nodeId : ℤ}

theorem Fresh.wired (h : s.Fresh) : s.Wired where
  unlocked := h.started.metaLock
  isInt := by simp [h.espressoNodesRev]
  rev := by simp [h.espressoNodes]
  connected := by simp [h.pendingClients, h.decafsClients, h.espressoNodesRev, Finmap.notMem_empty]
  pending_rev := by simp [h.pendingClients]
  pending_decafs := by simp [h.pendingClients]
  decafs_rev := by simp [h.decafsClients, Finmap.notMem_empty]
  up := by simp [VolatileMetadata.isNodeUp, h.upNodes]

theorem Fresh.matched (h : s.Fresh) : s.Matched where
  nodes := by simp [h.espressoNodesRev]
  up := by simp [h.espressoNodes, Finmap.notMem_empty]

/-- **What a call or a response does**: nodes go down, and only if a send failed. -/
theorem step_tried {w w' : World} {i : Input} (hlock : w.metaLock = none) (hstep : Barista.step R w i w')
    (hi : i.isCall = true ∨ ∃ d, i = .response d) : w'.metaLock = none ∧
      ∃ new, (routing w').tried = new ++ (routing w).tried ∧
        (routing w').upNodes ⊆ (routing w).upNodes ∧
        ((∀ a ∈ new, a.accepted = true) → (routing w').upNodes = (routing w).upNodes) := by
  have htold : ((routing w).told i).upNodes = (routing w).upNodes ∧
      ((routing w).told i).tried = (routing w).tried := by
    obtain hcall | ⟨d, rfl⟩ := hi
    · cases i <;> first | exact ⟨rfl, rfl⟩ | exact absurd hcall Bool.false_ne_true
    · exact ⟨rfl, rfl⟩
  obtain ⟨hlock', hrouted⟩ := step_routed hlock hstep
  refine ⟨hlock', ?_⟩
  rw [← htold.1, ← htold.2]
  rcases hrouted with heq | ⟨flag, f, K, -, hrounds⟩
  · exact ⟨[], by rw [heq]; rfl, by rw [heq]; exact List.Subset.refl _, fun _ => by rw [heq]⟩
  · obtain ⟨new, hnew, -⟩ := hrounds.exists_tried
    exact ⟨new, hnew.tried, hnew.subset, hnew.upNodes_eq⟩

/-! ### Events, one by one -/

namespace Wired

theorem connect (h : s.Wired) (hnew : client ∉ s.clients) : Wired { s with
    clients := insert client s.clients, pendingClients := insert client s.pendingClients } where
  unlocked := h.unlocked
  isInt := h.isInt
  rev := h.rev
  connected c hc := by
    simp only [Finset.mem_insert] at hc ⊢
    rcases hc with (rfl | hc) | hc | hc
    · exact .inl rfl
    · exact .inr (h.connected c (.inl hc))
    · exact .inr (h.connected c (.inr (.inl hc)))
    · exact .inr (h.connected c (.inr (.inr hc)))
  pending_rev c hc hrev := by
    rcases Finset.mem_insert.mp hc with rfl | hc
    · exact hnew (h.connected c (.inr (.inr hrev)))
    · exact h.pending_rev c hc hrev
  pending_decafs c hc hdecafs := by
    rcases Finset.mem_insert.mp hc with rfl | hc
    · exact hnew (h.connected c (.inr (.inl hdecafs)))
    · exact h.pending_decafs c hc hdecafs
  decafs_rev := h.decafs_rev
  up := h.up

theorem register (h : s.Wired) (hpending : client ∈ s.pendingClients) :
    Wired (registered nodeId client s) where
  unlocked := h.unlocked
  isInt c n hn := by
    by_cases hc : c = client
    · subst hc
      rw [registered, Finmap.lookup_insert] at hn
      rw [← Option.some.inj hn, toInt32_toInt32]
    · rw [registered, Finmap.lookup_insert_of_ne _ hc] at hn
      exact h.isInt c n hn
  rev n c hn := by
    have hnot := h.pending_rev client hpending
    by_cases heq : n = toInt32 nodeId
    · subst heq
      rw [registered, Finmap.lookup_insert] at hn
      obtain rfl := Option.some.inj hn
      exact Finmap.lookup_insert _
    · rw [registered, Finmap.lookup_insert_of_ne _ heq] at hn
      have hc : c ≠ client := by
        rintro rfl
        exact hnot (Finmap.mem_of_lookup_eq_some (h.rev n c hn))
      rw [registered, Finmap.lookup_insert_of_ne _ hc]
      exact h.rev n c hn
  connected c hc := by
    simp only [registered, Finset.mem_erase, Finmap.mem_insert] at hc
    rcases hc with ⟨-, hc⟩ | hc | rfl | hc
    · exact h.connected c (.inl hc)
    · exact h.connected c (.inr (.inl hc))
    · exact h.connected c (.inl hpending)
    · exact h.connected c (.inr (.inr hc))
  pending_rev c hc := by
    obtain ⟨hne, hc⟩ := Finset.mem_erase.mp hc
    simp only [registered, Finmap.mem_insert, not_or]
    exact ⟨hne, h.pending_rev c hc⟩
  pending_decafs c hc := h.pending_decafs c (Finset.mem_of_mem_erase hc)
  decafs_rev c hc := by
    simp only [registered, Finmap.mem_insert, not_or]
    refine ⟨?_, h.decafs_rev c hc⟩
    rintro rfl
    exact h.pending_decafs c hpending hc
  up n hn := by
    rw [registered, Finmap.mem_insert]
    exact (VolatileMetadata.isNodeUp_up.mp hn).symm.imp_right (h.up n)

theorem unregister (h : s.Wired) (hrev : s.espressoNodesRev.lookup client = some nodeId) :
    Wired (unregistered nodeId client s) where
  unlocked := h.unlocked
  isInt c n hn := by
    by_cases hc : c = client
    · subst hc
      simp [unregistered] at hn
    · rw [unregistered, Finmap.lookup_erase_ne hc] at hn
      exact h.isInt c n hn
  rev n c hn := by
    by_cases heq : n = nodeId
    · subst heq
      simp [unregistered] at hn
    · rw [unregistered, Finmap.lookup_erase_ne heq] at hn
      have hc : c ≠ client := by
        rintro rfl
        exact heq (Option.some.inj ((h.rev n c hn).symm.trans hrev))
      rw [unregistered, Finmap.lookup_erase_ne hc]
      exact h.rev n c hn
  connected c hc := by
    have hmem := Finmap.mem_of_lookup_eq_some hrev
    simp only [unregistered, Finmap.mem_erase, Finset.mem_erase] at hc ⊢
    rcases hc with hc | hc | ⟨hne, hc⟩
    · exact ⟨fun heq => h.pending_rev c hc (heq ▸ hmem), h.connected c (.inl hc)⟩
    · exact ⟨fun heq => h.decafs_rev c hc (heq ▸ hmem), h.connected c (.inr (.inl hc))⟩
    · exact ⟨hne, h.connected c (.inr (.inr hc))⟩
  pending_rev c hc hmem := h.pending_rev c hc (Finmap.mem_erase.mp hmem).2
  pending_decafs := h.pending_decafs
  decafs_rev c hc hmem := h.decafs_rev c hc (Finmap.mem_erase.mp hmem).2
  up n hn := by
    obtain ⟨hn, hne⟩ := VolatileMetadata.isNodeUp_down.mp hn
    rw [h.isInt client nodeId hrev] at hne
    exact Finmap.mem_erase.mpr ⟨hne, h.up n hn⟩

/-- A connection that is no Espresso goes away. -/
theorem forget (h : s.Wired) (hrev : client ∉ s.espressoNodesRev) {pending : Finset ℕ}
    {decafs : Finmap (fun _ : ℕ => Client)}
    (hpending : ∀ c ∈ pending, c ≠ client ∧ c ∈ s.pendingClients)
    (hdecafs : ∀ c ∈ decafs, c ≠ client ∧ c ∈ s.decafsClients) : Wired { s with
      clients := s.clients.erase client, pendingClients := pending, decafsClients := decafs } where
  unlocked := h.unlocked
  isInt := h.isInt
  rev := h.rev
  connected c hc := by
    rw [Finset.mem_erase]
    rcases hc with hc | hc | hc
    · exact ⟨(hpending c hc).1, h.connected c (.inl (hpending c hc).2)⟩
    · exact ⟨(hdecafs c hc).1, h.connected c (.inr (.inl (hdecafs c hc).2))⟩
    · exact ⟨fun heq => hrev (heq ▸ hc), h.connected c (.inr (.inr hc))⟩
  pending_rev c hc := h.pending_rev c (hpending c hc).2
  pending_decafs c hc hc' := h.pending_decafs c (hpending c hc).2 (hdecafs c hc').2
  decafs_rev c hc := h.decafs_rev c (hdecafs c hc).2
  up := h.up

theorem init (h : s.Wired) (hpending : client ∈ s.pendingClients) (c : Client) : Wired { s with
    pendingClients := s.pendingClients.erase client
    decafsClients := s.decafsClients.insert client c } where
  unlocked := h.unlocked
  isInt := h.isInt
  rev := h.rev
  connected c hc := by
    simp only [Finset.mem_erase, Finmap.mem_insert] at hc
    rcases hc with ⟨-, hc⟩ | (rfl | hc) | hc
    · exact h.connected c (.inl hc)
    · exact h.connected c (.inl hpending)
    · exact h.connected c (.inr (.inl hc))
    · exact h.connected c (.inr (.inr hc))
  pending_rev c hc := h.pending_rev c (Finset.mem_of_mem_erase hc)
  pending_decafs c hc := by
    obtain ⟨hne, hc⟩ := Finset.mem_erase.mp hc
    simp only [Finmap.mem_insert, not_or]
    exact ⟨hne, h.pending_decafs c hc⟩
  decafs_rev c hc := by
    rcases Finmap.mem_insert.mp hc with rfl | hc
    · exact h.pending_rev c hpending
    · exact h.decafs_rev c hc
  up := h.up

end Wired

/-- What an event does to wired tables. -/
inductive Happens (R : Runtime) (s : BaristaServer) : ServerEvent → BaristaServer → Prop
  | connect {client : ℕ} (new : client ∉ s.clients) : Happens R s (.clientConnected client) { s with
      clients := insert client s.clients, pendingClients := insert client s.pendingClients }
  | register {client : ℕ} {nodeId : ℤ} (pending : client ∈ s.pendingClients) :
      Happens R s (.espressoInit client nodeId) (registered nodeId client s)
  | registered {client : ℕ} {nodeId : ℤ} (known : client ∉ s.pendingClients) :
      Happens R s (.espressoInit client nodeId) s
  | init {client : ℕ} {addr : String} {userId : ℤ} {c : Client} (pending : client ∈ s.pendingClients) :
      Happens R s (.decafsClientInit client addr userId) { s with
        pendingClients := s.pendingClients.erase client
        decafsClients := s.decafsClients.insert client c }
  | inited {client : ℕ} {addr : String} {userId : ℤ} (known : client ∉ s.pendingClients) :
      Happens R s (.decafsClientInit client addr userId) s
  | unregister {client : ℕ} {nodeId : ℤ} (rev : s.espressoNodesRev.lookup client = some nodeId) :
      Happens R s (.clientDisconnected client) (unregistered nodeId client s)
  | forget {client : ℕ} {pending : Finset ℕ} {decafs : Finmap (fun _ : ℕ => Client)}
      (rev : client ∉ s.espressoNodesRev)
      (pending_sub : ∀ c ∈ pending, c ≠ client ∧ c ∈ s.pendingClients)
      (decafs_sub : ∀ c ∈ decafs, c ≠ client ∧ c ∈ s.decafsClients) :
      Happens R s (.clientDisconnected client) { s with
        clients := s.clients.erase client, pendingClients := pending, decafsClients := decafs }
  | message {client : ℕ} {i i' : Input} {w' : World} (call : i'.isCall = true ∨ ∃ d, i' = .response d)
      (served : Barista.step R s.world i' w') :
      Happens R s (.message client i) { s with world := w' }

theorem isCall_calledBy (i : Input) (c : Client) : (i.calledBy c).isCall = i.isCall := by
  cases i <;> rfl

theorem happens_clientDisconnected (h : s.Wired) (hpossible : client ∈ s.clients)
    (hok : clientDisconnected client s = .ok (⟨⟩, s')) :
    Happens R s (.clientDisconnected client) s' := by
  have hpending : ∀ c ∈ s.pendingClients.erase client, c ≠ client ∧ c ∈ s.pendingClients :=
    fun c hc => Finset.mem_erase.mp hc
  have hnone : ∀ {p : ℕ → Prop}, ¬ p client → ∀ c, p c → c ≠ client ∧ p c := by
    rintro p hp c hc
    refine ⟨?_, hc⟩
    rintro rfl
    exact hp hc
  have hall : wp (clientDisconnected client) (fun _ s' => Happens R s (.clientDisconnected client) s')
      (fun _ => True) s := by
    refine wp_clientDisconnected (fun hmem => ?_) (fun hmem hdecafs => ?_) (fun _ _ _ => .unregister)
      fun hmem hdecafs hrev => ?_
    · exact .forget (h.pending_rev client hmem) hpending (hnone (h.pending_decafs client hmem))
    · exact .forget (h.decafs_rev client hdecafs) (hnone hmem) fun c hc => Finmap.mem_erase.mp hc
    · exact .forget (Finmap.lookup_eq_none.mp hrev) (hnone hmem) (hnone hdecafs)
  exact hall.of_ok hok

/-- **What an event does.** -/
theorem serves.happens (h : s.Wired) (hs : serves R s e s') : Happens R s e s' := by
  obtain ⟨hfrom, hpossible, hok⟩ := hs
  cases e with
  | clientConnected client =>
    have hall : wp (clientConnected client) (fun _ s' => Happens R s (.clientConnected client) s')
      (fun _ => True) s := (wp_modify _).mpr (.connect hpossible)
    exact hall.of_ok hok
  | clientDisconnected client => exact happens_clientDisconnected h hpossible hok
  | espressoInit client nodeId =>
    have hall : wp (addEspressoNode nodeId client) (fun _ s' => Happens R s (.espressoInit client nodeId) s')
      (fun _ => True) s := wp_addEspressoNode .register .registered
    exact hall.of_ok hok
  | decafsClientInit client addr userId =>
    have hall : wp (addDecafsClient addr userId client)
        (fun _ s' => Happens R s (.decafsClientInit client addr userId) s') (fun _ => True) s := by
      unfold addDecafsClient
      rw [wp_bind, wp_get]
      by_cases hmem : client ∈ s.pendingClients
      · rw [if_pos hmem, wp_modify]
        exact .init hmem
      · rw [if_neg hmem, wp_pure]
        exact .inited hmem
    exact hall.of_ok hok
  | message client i =>
    obtain ⟨i', w', hstep, rfl, hi⟩ := step_message ⟨hpossible, hok⟩ hfrom
    refine .message ?_ hstep
    rcases hi with ⟨c, -, rfl, hcall⟩ | hresponse
    · exact .inl ((isCall_calledBy i c).trans hcall)
    · exact .inr hresponse

theorem Wired.serves (h : s.Wired) (hs : s.serves R e s') : s'.Wired := by
  cases hs.happens h with
  | connect new => exact h.connect new
  | register pending => exact h.register pending
  | registered => exact h
  | init pending => exact h.init pending _
  | inited => exact h
  | unregister rev => exact h.unregister rev
  | forget rev hpending hdecafs => exact h.forget rev hpending hdecafs
  | message call served =>
    obtain ⟨hlock, new, -, hsub, -⟩ := step_tried h.unlocked served call
    refine ⟨hlock, h.isInt, h.rev, h.connected, h.pending_rev, h.pending_decafs, h.decafs_rev,
      fun n hn => h.up n ?_⟩
    exact decide_eq_true (hsub (of_decide_eq_true hn))

/-- An Espresso comes with a new id. -/
theorem Matched.register (h : s.Matched) (hnew : s.espressoNodes.lookup (toInt32 nodeId) = none) :
    Matched (BaristaServer.registered nodeId client s) where
  nodes n c hn := by
    by_cases hc : c = client
    · subst hc
      rw [registered, Finmap.lookup_insert] at hn
      obtain rfl := Option.some.inj hn
      exact Finmap.lookup_insert _
    · rw [registered, Finmap.lookup_insert_of_ne _ hc] at hn
      have hold := h.nodes n c hn
      have hne : n ≠ toInt32 nodeId := by
        rintro rfl
        rw [hnew] at hold
        exact absurd hold (by simp)
      rw [registered, Finmap.lookup_insert_of_ne _ hne]
      exact hold
  up hsent n hn := by
    refine VolatileMetadata.isNodeUp_up.mpr ((Finmap.mem_insert.mp hn).symm.imp (h.up hsent n) ?_)
    rintro rfl
    exact toInt32_toInt32 _

theorem Matched.unregister (h : s.Matched) (hw : s.Wired)
    (hrev : s.espressoNodesRev.lookup client = some nodeId) :
    Matched (unregistered nodeId client s) where
  nodes n c hn := by
    by_cases hc : c = client
    · subst hc
      simp [unregistered] at hn
    · rw [unregistered, Finmap.lookup_erase_ne hc] at hn
      have hold := h.nodes n c hn
      have hne : n ≠ nodeId := by
        rintro rfl
        exact hc (Option.some.inj (hold.symm.trans (h.nodes n client hrev)))
      rw [unregistered, Finmap.lookup_erase_ne hne]
      exact hold
  up hsent n hn := by
    obtain ⟨hne, hn⟩ := Finmap.mem_erase.mp hn
    obtain ⟨c, hc⟩ := Finmap.mem_iff.mp hn
    refine VolatileMetadata.isNodeUp_down.mpr ⟨h.up hsent n hn, ?_⟩
    rwa [hw.isInt c n (hw.rev n c hc), hw.isInt client nodeId hrev]

theorem Matched.serves (h : s.Matched) (hw : s.Wired) (hd : s.Distinct e) (hs : s.serves R e s') :
    s'.Matched := by
  cases hs.happens hw with
  | connect => exact ⟨h.nodes, h.up⟩
  | register pending => exact h.register (hd pending)
  | registered => exact h
  | init => exact ⟨h.nodes, h.up⟩
  | inited => exact h
  | unregister rev => exact h.unregister hw rev
  | forget => exact ⟨h.nodes, h.up⟩
  | @message _ _ _ w' call served =>
    obtain ⟨-, new, htried, -, hup⟩ := step_tried hw.unlocked served call
    refine ⟨h.nodes, fun hsent n hn => ?_⟩
    unfold NoSendFailed at hsent
    rw [htried, List.forall_mem_append] at hsent
    have heq : w'.volatile.upNodes = s.world.volatile.upNodes := hup hsent.1
    have hold := h.up hsent.2 n hn
    unfold VolatileMetadata.isNodeUp at hold ⊢
    rwa [heq]

/-- **When the tables agree.** -/
theorem Wired.tablesAgree_iff (h : s.Wired) : s.TablesAgree ↔ s.Matched := by
  constructor
  · intro hagree
    refine ⟨fun n c => (hagree.inverse n c).mpr, fun hsent n hn => ?_⟩
    obtain ⟨c, hc⟩ := Finmap.mem_iff.mp hn
    refine (hagree.up hsent n).mpr ⟨c, hagree.connected n c hc, ?_⟩
    rw [h.isInt c n (h.rev n c hc)]
    exact h.rev n c hc
  · intro hmatched
    have hconnected : ∀ n c, s.espressoNodes.lookup n = some c → c ∈ s.clients := fun n c hn =>
      h.connected c (.inr (.inr (Finmap.mem_of_lookup_eq_some (h.rev n c hn))))
    refine ⟨fun n c => ⟨h.rev n c, hmatched.nodes n c⟩, hconnected, fun hsent n => ⟨fun hn => ?_, ?_⟩⟩
    · obtain ⟨c, hc⟩ := Finmap.mem_iff.mp (h.up n hn)
      exact ⟨c, hconnected _ c hc, h.rev _ c hc⟩
    · rintro ⟨c, -, hc⟩
      have hup := hmatched.up hsent _ (Finmap.mem_of_lookup_eq_some (hmatched.nodes _ c hc))
      unfold VolatileMetadata.isNodeUp at hup ⊢
      rwa [toUInt32_toInt32] at hup

/-- A registered id does not come again unnoticed. -/
theorem Wired.distinct (h : s.Wired) (hs : s.serves R e s') (hagree : s'.TablesAgree) : s.Distinct e := by
  cases hs.happens h with
  | @register client nodeId pending =>
    intro _
    by_contra hsome
    obtain ⟨c, hc⟩ := Option.ne_none_iff_exists'.mp hsome
    have hrev := h.rev _ c hc
    have hne : c ≠ client := by
      rintro rfl
      exact h.pending_rev c pending (Finmap.mem_of_lookup_eq_some hrev)
    -- the second table still has the connection that was registered under the id
    have hnode := (hagree.inverse (toInt32 nodeId) c).mpr (by
      rwa [registered, Finmap.lookup_insert_of_ne _ hne])
    rw [registered, Finmap.lookup_insert] at hnode
    exact hne (Option.some.inj hnode).symm
  | registered known => exact fun pending => absurd pending known
  | connect => trivial
  | init => trivial
  | inited => trivial
  | unregister => trivial
  | forget => trivial
  | message => trivial

/-- **When the connection tables agree.** Along every run from a fresh server, in which any packets
come in and any of the sends fail, the two tables of the Espressos are inverse to each other over open
connections and say which nodes are up as long as no send has failed, exactly if no Espresso comes
with the id of one that is registered. -/
theorem espressoTables_agree_iff (R : Runtime) {s₀ : BaristaServer} {es : List ServerEvent}
    (hfresh : s₀.Fresh) : Steps (fun s e s' => serves R s e s' ∧ s'.TablesAgree) s₀ es s ↔
      Steps (Guarded Distinct (serves R)) s₀ es s := by
  have hstart : s₀.Wired ∧ s₀.Matched := ⟨hfresh.wired, hfresh.matched⟩
  constructor
  · intro hrun
    refine (hrun.along (I := fun s => s.Wired ∧ s.Matched) (fun s e s' h hs => ?_) hstart).mono
      fun s e s' h => ⟨h.2.1.1.distinct h.1.1 h.1.2, h.1.1⟩
    have hwired := h.1.serves hs.1
    exact ⟨hwired, hwired.tablesAgree_iff.mp hs.2⟩
  · intro hrun
    refine (hrun.along (I := fun s => s.Wired ∧ s.Matched) (fun s e s' h hs => ?_) hstart).mono
      fun s e s' h => ⟨h.1.2, h.2.2.1.tablesAgree_iff.mpr h.2.2.2⟩
    exact ⟨h.1.serves hs.2, h.2.serves h.1 hs.1 hs.2⟩

/-- A server without connections. -/
def sampleBarista : BaristaServer where
  world := { sampleServer with volatile := { sampleServer.volatile with upNodes := [] } }

theorem fresh_sampleBarista : sampleBarista.Fresh where
  clients := rfl
  pendingClients := rfl
  espressoNodes := rfl
  espressoNodesRev := rfl
  decafsClients := rfl
  started := ⟨rfl, rfl, started_sampleServer.persistent, rfl, rfl, rfl, rfl, rfl, rfl⟩
  upNodes := rfl

/-- The Espresso `nodeId` connects over `client`. -/
def espressoConnects (client : ℕ) (nodeId : ℤ) : List ServerEvent :=
  [.clientConnected client, .espressoInit client nodeId]

/-- The state once it has. -/
def withEspresso (client : ℕ) (nodeId : ℤ) (s : BaristaServer) : BaristaServer :=
  registered nodeId client { s with
    clients := insert client s.clients, pendingClients := insert client s.pendingClients }

theorem steps_espressoConnects (nodeId : ℤ) (hnew : client ∉ s.clients) :
    Steps (serves R) s (espressoConnects client nodeId) (withEspresso client nodeId s) := by
  let s₁ : BaristaServer := { s with
    clients := insert client s.clients, pendingClients := insert client s.pendingClients }
  have hregister : wp (addEspressoNode nodeId client) (fun _ s' => s' = registered nodeId client s₁)
      (fun _ => False) s₁ :=
    wp_addEspressoNode (fun _ => rfl) fun hnot => absurd (Finset.mem_insert_self _ _) hnot
  obtain ⟨_, _, hok, rfl⟩ := hregister.exists_ok
  exact .cons (t := s₁) ⟨trivial, hnew, rfl⟩ (.single ⟨trivial, Finset.mem_insert_self _ _, hok⟩)

theorem espressoTables_agree_sample : ∃ s,
    Steps (fun s e s' => serves sampleRuntime s e s' ∧ s'.TablesAgree) sampleBarista
      (espressoConnects 1 7) s ∧ s.world.volatile.isNodeUp 7 = true := by
  refine ⟨withEspresso 1 7 sampleBarista, (espressoTables_agree_iff sampleRuntime
    fresh_sampleBarista).mpr ?_, by decide⟩
  obtain ⟨s₁, hconnect, hregister⟩ := Steps.cons_iff.mp
    (steps_espressoConnects (R := sampleRuntime) (s := sampleBarista) 7 (Finset.notMem_empty 1))
  obtain ⟨s₂, hregister, hend⟩ := Steps.cons_iff.mp hregister
  obtain rfl := Steps.nil_iff.mp hend
  refine .cons ⟨trivial, hconnect⟩ (.single ⟨fun _ => ?_, hregister⟩)
  obtain rfl : _ = s₁ := (Prod.mk.inj (Except.ok.inj hconnect.2.2)).2
  rfl

/-- Two Espressos register as node 7, and the tables are no bijection any more. -/
theorem sameNodeId_notAgree : ∃ s, Steps (serves sampleRuntime) sampleBarista
    (espressoConnects 1 7 ++ espressoConnects 2 7) s ∧ ¬ s.TablesAgree := by
  refine ⟨_, (steps_espressoConnects 7 (Finset.notMem_empty 1)).trans
    (steps_espressoConnects (s := withEspresso 1 7 sampleBarista) 7 (by decide)), fun h => ?_⟩
  have hnode := (h.inverse 7 1).mpr (by decide)
  revert hnode
  decide

end

end BaristaServer

end DecaFS
