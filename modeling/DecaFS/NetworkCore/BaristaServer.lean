import DecaFS.BaristaCore.Routing
import DecaFS.BaristaCore.Runs

/-!
# Connections of the server

`network_core/barista_server.cpp` over `net_tcp/tcp_server.cpp`: the tables that say what a connection
is (pending, an Espresso or a client), kept by the handlers of connects, disconnects and the two INIT
packets, next to the state of the Barista. A `ConnectionToClient` is known by its pointer and never
freed, so `accept` brings a new one each time.

A packet arrives whole. A client's call gets its client from `m_decafs_clients`, whose `operator[]`
makes an entry where there is none. A send to a node without a connection dereferences a null pointer;
here it goes by the script, so that nothing is said about what comes after one.
-/

namespace DecaFS

open Code Barista

/-- `class BaristaServer`, with `m_clients` of its `TcpServer`. -/
structure BaristaServer where
  clients : Finset ℕ := ∅
  pendingClients : Finset ℕ := ∅
  espressoNodes : Finmap (fun _ : ℤ => ℕ) := ∅
  espressoNodesRev : Finmap (fun _ : ℕ => ℤ) := ∅
  decafsClients : Finmap (fun _ : ℕ => Client) := ∅
  world : World

/-- What happens to the server. -/
inductive ServerEvent : Type
  | clientConnected (client : ℕ)
  | clientDisconnected (client : ℕ)
  /-- an `ESPRESSO_INIT` packet -/
  | espressoInit (client : ℕ) (nodeId : ℤ)
  /-- a `DECAFS_CLIENT_INIT` packet -/
  | decafsClientInit (client : ℕ) (addr : String) (userId : ℤ)
  /-- a call or a chunk response -/
  | message (client : ℕ) (i : Input)

/-- Whether the message is a call, served for the client of its connection. -/
def Barista.Input.isCall : Input → Bool
  | .openFile .. | .readFile .. | .writeFile .. | .closeFile .. | .deleteFile .. | .fileSeek .. => true
  | .response _ | .nodeUp _ | .nodeDown _ => false

/-- The call of the client `c`. -/
def Barista.Input.calledBy (c : Client) : Input → Input
  | .openFile pathname flags _ => .openFile pathname flags c
  | .readFile fd count _ script => .readFile fd count c script
  | .writeFile fd buf count _ script => .writeFile fd buf count c script
  | .closeFile fd _ => .closeFile fd c
  | .deleteFile pathname _ script => .deleteFile pathname c script
  | .fileSeek fd offset whence _ => .fileSeek fd offset whence c
  | i => i

namespace BaristaServer

variable (R : Runtime)

/-- Code of the server and its connections. -/
abbrev Server (α : Type) : Type := Code (Halt Site) BaristaServer α

/-- Code of the Barista. -/
def barista {α : Type} (m : Barista α) : Server α :=
  Code.zoom world (fun w s => { s with world := w }) m

/-- `clientConnected`, after `check_for_clients` has accepted the connection. -/
def clientConnected (client : ℕ) : Server PUnit :=
  modify fun s => { s with
    clients := insert client s.clients
    pendingClients := insert client s.pendingClients }

/-- `clientDisconnected`, after which `check_for_messages` forgets the connection. -/
def clientDisconnected (client : ℕ) : Server PUnit := do
  let s ← get
  if client ∈ s.pendingClients then
    modify fun s => { s with pendingClients := s.pendingClients.erase client }
  else if client ∈ s.decafsClients then
    modify fun s => { s with decafsClients := s.decafsClients.erase client }
  else
    match s.espressoNodesRev.lookup client with
    | some nodeId =>
      modify fun s => { s with
        espressoNodesRev := s.espressoNodesRev.erase client
        espressoNodes := s.espressoNodes.erase nodeId }
      let _ ← barista (volatile (VolatileMetadata.setNodeDown nodeId))
    | none => pure ⟨⟩
  modify fun s => { s with clients := s.clients.erase client }

/-- `addEspressoNode` -/
def addEspressoNode (nodeId : ℤ) (ctc : ℕ) : Server PUnit := do
  if ctc ∈ (← get).pendingClients then
    modify fun s => { s with
      pendingClients := s.pendingClients.erase ctc
      espressoNodes := s.espressoNodes.insert (toInt32 nodeId) ctc
      espressoNodesRev := s.espressoNodesRev.insert ctc (toInt32 nodeId) }
    let _ ← barista (volatile (VolatileMetadata.setNodeUp nodeId))

/-- `addDecafsClient` -/
def addDecafsClient (addr : String) (userId : ℤ) (ctc : ℕ) : Server PUnit := do
  if ctc ∈ (← get).pendingClients then
    modify fun s => { s with
      pendingClients := s.pendingClients.erase ctc
      decafsClients := s.decafsClients.insert ctc ⟨⟨addr⟩, (toUInt32 userId).toNat, some ctc⟩ }

/-- `m_decafs_clients[client]` -/
def decafsClient (client : ℕ) : Server Client := do
  match (← get).decafsClients.lookup client with
  | some c => return c
  | none =>
    let c : Client := ⟨{}, 0, none⟩
    modify fun s => { s with decafsClients := s.decafsClients.insert client c }
    return c

/-- `handleMessageFromClient` on a call or a chunk response. -/
def handleMessageFromClient (client : ℕ) (i : Input) : Server PUnit := do
  if i.isCall then
    let c ← decafsClient client
    barista (handle R (i.calledBy c))
  else
    barista (handle R i)

/-- The handler of an event. -/
def handler : ServerEvent → Server PUnit
  | .clientConnected client => clientConnected client
  | .clientDisconnected client => clientDisconnected client
  | .espressoInit client nodeId => addEspressoNode nodeId client
  | .decafsClientInit client addr userId => addDecafsClient addr userId client
  | .message client i => handleMessageFromClient R client i

/-- The event can happen: a connection is accepted that is new, and packets come from those that are
open. -/
def Possible (s : BaristaServer) : ServerEvent → Prop
  | .clientConnected client => client ∉ s.clients
  | .message client i => client ∈ s.clients ∧ (i.isCall = true ∨ ∃ d, i = .response d)
  | .clientDisconnected client | .espressoInit client _ | .decafsClientInit client _ _ =>
    client ∈ s.clients

/-- The event happens and its handler returns. -/
def step (s : BaristaServer) (e : ServerEvent) (s' : BaristaServer) : Prop :=
  Possible s e ∧ handler R e s = .ok (⟨⟩, s')

/-- A server that was just started. -/
structure Fresh (s : BaristaServer) : Prop where
  clients : s.clients = ∅
  pendingClients : s.pendingClients = ∅
  espressoNodes : s.espressoNodes = ∅
  espressoNodesRev : s.espressoNodesRev = ∅
  decafsClients : s.decafsClients = ∅
  started : Started s.world
  upNodes : s.world.volatile.upNodes = []

/-- A call comes from a connection that has sent `DECAFS_CLIENT_INIT`. -/
def FromClient (s : BaristaServer) : ServerEvent → Prop
  | .message client i => i.isCall = true → client ∈ s.decafsClients
  | _ => True

/-! ### Runs, executed -/

instance (s : BaristaServer) : DecidablePred s.FromClient := fun e => by
  cases e <;> unfold FromClient <;> infer_instance

instance (i : Input) : Decidable (∃ d, i = .response d) :=
  match i with
  | .response d => isTrue ⟨d, rfl⟩
  | .openFile .. | .readFile .. | .writeFile .. | .closeFile .. | .deleteFile .. | .fileSeek ..
  | .nodeUp _ | .nodeDown _ => isFalse nofun

instance (s : BaristaServer) : DecidablePred s.Possible := fun e => by
  cases e <;> unfold Possible <;> infer_instance

/-- The server after the event, if it can happen and its handler returns. -/
def next (s : BaristaServer) (e : ServerEvent) : Option BaristaServer :=
  if s.FromClient e ∧ s.Possible e then (handler R e s).toOption.map Prod.snd else none

/-- The server after the events. -/
def run (s : BaristaServer) (es : List ServerEvent) : Option BaristaServer := es.foldlM (next R) s

/-- One event, calls coming from clients only. -/
def serves : BaristaServer → ServerEvent → BaristaServer → Prop :=
  Guarded FromClient (step R)

theorem serves_of_next {R : Runtime} (s : BaristaServer) (e : ServerEvent) (s' : BaristaServer)
    (h : next R s e = some s') : serves R s e s' := by
  unfold next at h
  split at h
  · rename_i hcan
    cases hrun : handler R e s with
    | error x =>
      rw [hrun] at h
      exact absurd h (by simp [Except.toOption])
    | ok p =>
      rw [hrun] at h
      obtain rfl := Option.some.inj h
      exact ⟨hcan.1, hcan.2, hrun⟩
  · exact absurd h (by simp)

/-- A run can be found by running the server. -/
theorem exists_steps {R : Runtime} {s : BaristaServer} (es : List ServerEvent)
    {p : BaristaServer → Bool} (h : (run R s es).any p = true) :
    ∃ s', Steps (serves R) s es s' ∧ p s' = true :=
  Steps.exists_of_foldlM serves_of_next s es h

/-! ### What the handlers do -/

section

variable {R : Runtime} {s s' : BaristaServer} {client : ℕ} {E : Halt Site → Prop}
  {Q : PUnit → BaristaServer → Prop}

/-- The connection `client` is the Espresso `nodeId`. -/
def registered (nodeId : ℤ) (client : ℕ) (s : BaristaServer) : BaristaServer :=
  { s with
    pendingClients := s.pendingClients.erase client
    espressoNodes := s.espressoNodes.insert (toInt32 nodeId) client
    espressoNodesRev := s.espressoNodesRev.insert client (toInt32 nodeId)
    world := { s.world with volatile := s.world.volatile.up nodeId } }

/-- The connection `client` of the Espresso `nodeId` is gone. -/
def unregistered (nodeId : ℤ) (client : ℕ) (s : BaristaServer) : BaristaServer :=
  { s with
    clients := s.clients.erase client
    espressoNodes := s.espressoNodes.erase nodeId
    espressoNodesRev := s.espressoNodesRev.erase client
    world := { s.world with volatile := s.world.volatile.down nodeId } }

theorem wp_addEspressoNode {nodeId : ℤ}
    (hpending : client ∈ s.pendingClients → Q ⟨⟩ (registered nodeId client s))
    (helse : client ∉ s.pendingClients → Q ⟨⟩ s) : wp (addEspressoNode nodeId client) Q E s := by
  unfold addEspressoNode
  rw [wp_bind, wp_get]
  by_cases hmem : client ∈ s.pendingClients
  · simp only [hmem, if_true, wp_bind, wp_modify, barista, volatile, wp_zoom]
    exact VolatileMetadata.wp_setNodeUp fun _ => (wp_pure _).mpr (hpending hmem)
  · simp only [hmem, if_false, wp_pure]
    exact helse hmem

theorem wp_clientDisconnected
    (hpending : client ∈ s.pendingClients → Q ⟨⟩ { s with
      pendingClients := s.pendingClients.erase client, clients := s.clients.erase client })
    (hclient : client ∉ s.pendingClients → client ∈ s.decafsClients → Q ⟨⟩ { s with
      decafsClients := s.decafsClients.erase client, clients := s.clients.erase client })
    (hespresso : client ∉ s.pendingClients → client ∉ s.decafsClients → ∀ nodeId,
      s.espressoNodesRev.lookup client = some nodeId → Q ⟨⟩ (unregistered nodeId client s))
    (helse : client ∉ s.pendingClients → client ∉ s.decafsClients →
      s.espressoNodesRev.lookup client = none → Q ⟨⟩ { s with clients := s.clients.erase client }) :
    wp (clientDisconnected client) Q E s := by
  unfold clientDisconnected
  rw [wp_bind, wp_get]
  by_cases hmem : client ∈ s.pendingClients
  · simpa only [hmem, if_true, wp_bind, wp_modify] using hpending hmem
  · by_cases hdecafs : client ∈ s.decafsClients
    · simpa only [hmem, hdecafs, if_true, if_false, wp_bind, wp_modify] using hclient hmem hdecafs
    · simp only [hmem, hdecafs, if_false]
      cases hrev : s.espressoNodesRev.lookup client with
      | none => simpa only [wp_bind, wp_pure, wp_modify] using helse hmem hdecafs hrev
      | some nodeId =>
        simp only [wp_bind, wp_modify, barista, volatile, wp_zoom]
        refine VolatileMetadata.wp_setNodeDown fun _ => ?_
        exact hespresso hmem hdecafs nodeId hrev

/-- **A message.** The call is that of the client of the connection. -/
theorem step_message {i : Input} (hstep : step R s (.message client i) s')
    (hfrom : s.FromClient (.message client i)) : ∃ i' w', Barista.step R s.world i' w' ∧
      s' = { s with world := w' } ∧
      ((∃ c, s.decafsClients.lookup client = some c ∧ i' = i.calledBy c ∧ i.isCall = true) ∨
        ∃ d, i' = .response d) := by
  obtain ⟨⟨-, hkind⟩, hok⟩ := hstep
  have hworld : ∀ i' : Input, wp (barista (handle R i')) (fun _ s' => ∃ w',
      Barista.step R s.world i' w' ∧ s' = { s with world := w' }) (fun _ => True) s := by
    intro i'
    rw [barista, wp_zoom]
    cases hrun : handle R i' s.world with
    | error e => exact (wp_error hrun).mpr trivial
    | ok p => exact (wp_ok hrun).mpr ⟨p.2, hrun, rfl⟩
  change handleMessageFromClient R client i s = _ at hok
  unfold handleMessageFromClient at hok
  by_cases hcall : i.isCall = true
  · obtain ⟨c, hc⟩ := Finmap.mem_iff.mp (hfrom hcall)
    rw [if_pos hcall] at hok
    have hclient : wp (decafsClient client >>= fun c => barista (handle R (i.calledBy c)))
        (fun _ s' => ∃ w', Barista.step R s.world (i.calledBy c) w' ∧ s' = { s with world := w' })
        (fun _ => True) s := by
      rw [wp_bind, decafsClient, wp_bind, wp_get, hc, wp_pure]
      exact hworld _
    obtain ⟨w', hw', hs'⟩ := hclient.of_ok hok
    exact ⟨_, w', hw', hs', .inl ⟨c, hc, rfl, hcall⟩⟩
  · rw [if_neg hcall] at hok
    obtain ⟨w', hw', hs'⟩ := (hworld i).of_ok hok
    exact ⟨i, w', hw', hs', .inr (hkind.resolve_left hcall)⟩

end

end BaristaServer

end DecaFS
