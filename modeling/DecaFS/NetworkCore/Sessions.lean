import DecaFS.ForMathlib.Streams
import DecaFS.NetworkCore.Connections
import DecaFS.NetworkCore.DecafsClient

/-!
# Clients and the bytes between them and the server

A `DecafsClient` connects, says who it is, and makes one call after the other. What it sends and what it
is sent are bytes on their way, of which either end takes a packet off the front with two `recv`s. The
server is that of `BaristaServer`; it serves the packets of its clients, in whatever order they are there,
between whatever happens on the connections of the Espressos, and clients may leave at any time.
-/

namespace DecaFS

open Code Barista Front

/-- The connection of a `DecafsClient`. -/
structure Session where
  /-- what `inet_ntoa` says of it -/
  addr : String
  userId : ℤ
  toServer : List UInt8
  toClient : List UInt8 := []
  /-- the call that waits for its answer -/
  pending : Option ClientCall := none
  closed : Bool := false

/-- The server, and the connections of its clients so far. -/
structure Sessions where
  server : BaristaServer
  session : ℕ → Option Session

/-- What happens between clients and server. -/
inductive SessionEvent : Type
  | connects (k : ℕ) (addr : String) (userId : ℤ)
  | calls (k : ℕ) (call : ClientCall)
  /-- the server takes a packet, which says `e` -/
  | serves (k : ℕ) (cut : Cut) (e : ServerEvent)
  | returns (k : ℕ) (cut : Cut) (call : ClientCall) (result : ClientResult)
  | leaves (k : ℕ)
  /-- what happens on the other connections -/
  | hears (e : ServerEvent)

/-- The connection on which it happens. -/
def ServerEvent.connection : ServerEvent → ℕ
  | .clientConnected k | .clientDisconnected k | .espressoInit k _ | .decafsClientInit k _ _
  | .message k _ => k

/-- What happens on the connection of an Espresso. -/
def ServerEvent.FromEspresso : ServerEvent → Prop
  | .decafsClientInit .. => False
  | .message _ i => i.isCall = false
  | _ => True

/-- `wait_for_packet` and the `recv` behind it. -/
def DecafsClient.waitForPacket := handleMessage []

/-- The results that were sent over the connection `k`, in their order. -/
def repliesTo (k : ℕ) (w : World) : List Reply :=
  (((w.network.log.filterMap Event.answer).filter fun p => p.1.ctc = some k).map Prod.snd).reverse

/-- The bytes are the packet of the result. -/
def Reply.Written (reply : Reply) (p : List UInt8) : Prop := ∃ junk, p = reply.packet junk

/-- The bytes are the packet of the call. -/
def ClientCall.Written (call : ClientCall) (p : List UInt8) : Prop := ∃ junk, p = call.packet junk

/-- The bytes that go to each client when the server comes from `w` to `w'`. -/
def Sends (w w' : World) (bytes : ℕ → List UInt8) : Prop :=
  ∀ k, Carries Reply.Written ((repliesTo k w').drop (repliesTo k w).length) (bytes k)

/-- The connections when the bytes are on their way. -/
def forwarded (session : ℕ → Option Session) (bytes : ℕ → List UInt8) (k : ℕ) : Option Session :=
  (session k).map fun t => { t with toClient := t.toClient ++ bytes k }

namespace Sessions

/-- One thing happens. -/
inductive Step (R : Runtime) : Sessions → SessionEvent → Sessions → Prop
  | connects {s : Sessions} {server : BaristaServer} {k : ℕ} {addr : String} {userId : ℤ} {junk : ℕ → UInt8}
      (new : s.session k = none) (accepted : BaristaServer.step R s.server (.clientConnected k) server) :
      Step R s (.connects k addr userId) ⟨server, Function.update s.session k
        (some { addr, userId, toServer := (DecafsClientInit.create junk userId).packet })⟩
  | calls {s : Sessions} {k : ℕ} {t : Session} {call : ClientCall} {junk : ℕ → UInt8}
      (here : s.session k = some t) (there : t.closed = false) (free : t.pending = none) :
      Step R s (.calls k call) ⟨s.server, Function.update s.session k
        (some { t with toServer := t.toServer ++ call.packet junk, pending := some call })⟩
  | serves {s : Sessions} {server : BaristaServer} {k : ℕ} {t : Session} {cut : Cut} {flag : PacketFlag}
      {buffer rest : List UInt8} {script : List SendOutcome} {e : ServerEvent} {bytes : ℕ → List UInt8}
      (here : s.session k = some t) (there : t.closed = false) (fits : cut.Fits t.toServer)
      (taken : handleMessageFromClient cut t.toServer = some ((some flag, buffer), rest))
      (decoded : BaristaServer.received k t.addr script buffer flag = some e)
      (handled : BaristaServer.step R s.server e server) (sends : Sends s.server.world server.world bytes) :
      Step R s (.serves k cut e)
        ⟨server, forwarded (Function.update s.session k (some { t with toServer := rest })) bytes⟩
  | returns {s : Sessions} {k : ℕ} {t : Session} {cut : Cut} {call : ClientCall}
      {flag : Option PacketFlag} {buffer rest : List UInt8} (here : s.session k = some t)
      (there : t.closed = false) (waits : t.pending = some call) (fits : cut.Fits t.toClient)
      (taken : DecafsClient.waitForPacket cut t.toClient = some ((flag, buffer), rest)) :
      Step R s (.returns k cut call (call.result buffer)) ⟨s.server, Function.update s.session k
        (some { t with toClient := rest, pending := none })⟩
  | leaves {s : Sessions} {server : BaristaServer} {k : ℕ} {t : Session} (here : s.session k = some t)
      (there : t.closed = false) (handled : BaristaServer.step R s.server (.clientDisconnected k) server) :
      Step R s (.leaves k) ⟨server, Function.update s.session k (some { t with closed := true })⟩
  | hears {s : Sessions} {server : BaristaServer} {e : ServerEvent} {bytes : ℕ → List UInt8}
      (other : s.session e.connection = none) (kind : e.FromEspresso)
      (handled : BaristaServer.step R s.server e server) (sends : Sends s.server.world server.world bytes) :
      Step R s (.hears e) ⟨server, forwarded s.session bytes⟩

/-- A packet that is read is there as a whole. -/
def Whole (s : Sessions) : SessionEvent → Prop
  | .serves k cut _ => ∀ t ∈ s.session k, cut.Received t.toServer
  | .returns k cut _ _ => ∀ t ∈ s.session k, cut.Received t.toClient
  | _ => True

/-- Nobody has connected yet. -/
structure Fresh (s : Sessions) : Prop where
  server : s.server.Fresh
  session : ∀ k, s.session k = none

end Sessions

/-! ### What an event does to the server -/

namespace BaristaServer

section

variable {R : Runtime} {s s' : BaristaServer} {e : ServerEvent} {client k : ℕ} {nodeId userId : ℤ} {addr : String}

/-- The server keeps what it knows of the connection. -/
structure KeepsEntry (k : ℕ) (s s' : BaristaServer) : Prop where
  pending : k ∈ s.pendingClients → k ∈ s'.pendingClients
  known : s'.decafsClients.lookup k = s.decafsClients.lookup k

/-- The other connections keep their entries. -/
def KeepsOthers (k : ℕ) (s s' : BaristaServer) : Prop := ∀ j ≠ k, KeepsEntry j s s'

/-- The Barista goes on, and nothing is asked of it: it can only end requests. -/
structure Idles (s s' : BaristaServer) : Prop where
  running : Running s'.world
  requestId : s'.world.volatile.requestId = s.world.volatile.requestId
  ends : Finishes callProtocol (front s.world) (front s'.world)

theorem Idles.refl (hw : Running s.world) (hworld : s'.world = s.world) : Idles s s' where
  running := hworld ▸ hw
  requestId := by rw [hworld]
  ends := by rw [hworld]

theorem Idles.of_step {i : Input} (hw : Running s.world) (hid : s.world.volatile.requestId < 4294967296)
    (hi : i.caller = none) (hstep : Barista.step R s.world i s'.world) : Idles s s' := by
  have hids : i.ids = 0 := by
    cases i with
    | response | nodeUp | nodeDown => rfl
    | _ => exact absurd hi (by simp [Input.caller])
  have hids' : s.world.volatile.requestId + i.ids < 4294967296 := by rwa [hids, Nat.add_zero]
  have hhandled := hw.handled hids' hstep
  exact ⟨hhandled.running hw, by rw [hhandled.requestId, hids, Nat.add_zero],
    (hw.serves hids' hstep).finishes hi⟩

theorem step_nodeUp (R : Runtime) (w : World) (node : ℤ) :
    Barista.step R w (.nodeUp node) { w with volatile := w.volatile.up node } := by
  have hwp : wp (handle R (.nodeUp node)) (fun _ w' => w' = { w with volatile := w.volatile.up node })
      (fun _ => False) w := by
    simp only [handle, wp_bind, volatile, wp_zoom, wp_pure]
    exact VolatileMetadata.wp_setNodeUp fun _ => rfl
  obtain ⟨⟨⟩, w', hok, rfl⟩ := hwp.exists_ok
  exact hok

theorem step_nodeDown (R : Runtime) (w : World) (node : ℤ) :
    Barista.step R w (.nodeDown node) { w with volatile := w.volatile.down node } := by
  have hwp : wp (handle R (.nodeDown node)) (fun _ w' => w' = { w with volatile := w.volatile.down node })
      (fun _ => False) w := by
    simp only [handle, wp_bind, volatile, wp_zoom, wp_pure]
    exact VolatileMetadata.wp_setNodeDown fun _ => rfl
  obtain ⟨⟨⟩, w', hok, rfl⟩ := hwp.exists_ok
  exact hok

/-- **What happens on the connections of the Espressos** leaves those of the clients alone. -/
theorem idles_of_step (hw : Running s.world) (hid : s.world.volatile.requestId < 4294967296)
    (hkind : e.FromEspresso) (hstep : step R s e s') :
    Idles s s' ∧ KeepsOthers e.connection s s' := by
  cases e with
  | clientConnected k =>
    have hs' : s' = { s with clients := insert k s.clients, pendingClients := insert k s.pendingClients } := by
      have hwp : wp (clientConnected k) (fun _ s' => s' = { s with
          clients := insert k s.clients, pendingClients := insert k s.pendingClients }) (fun _ => True) s :=
        (wp_modify _).mpr rfl
      exact hwp.of_ok hstep.2
    subst hs'
    exact ⟨.refl hw rfl, fun _ _ => ⟨fun hmem => Finset.mem_insert_of_mem hmem, rfl⟩⟩
  | clientDisconnected k =>
    have hwp : wp (clientDisconnected k) (fun _ s' => Idles s s' ∧ KeepsOthers k s s') (fun _ => True) s := by
      refine wp_clientDisconnected (fun _ => ?_) (fun _ _ => ?_) (fun _ _ nodeId _ => ?_) fun _ _ _ => ?_
      · exact ⟨.refl hw rfl, fun _ hj => ⟨fun hmem => Finset.mem_erase.mpr ⟨hj, hmem⟩, rfl⟩⟩
      · exact ⟨.refl hw rfl, fun _ hj => ⟨fun hmem => hmem, Finmap.lookup_erase_ne hj⟩⟩
      · exact ⟨.of_step hw hid rfl (step_nodeDown R s.world nodeId), fun _ _ => ⟨fun hmem => hmem, rfl⟩⟩
      · exact ⟨.refl hw rfl, fun _ _ => ⟨fun hmem => hmem, rfl⟩⟩
    exact hwp.of_ok hstep.2
  | espressoInit k nodeId =>
    have hwp : wp (addEspressoNode nodeId k) (fun _ s' => Idles s s' ∧ KeepsOthers k s s')
        (fun _ => True) s := by
      refine wp_addEspressoNode (fun _ => ?_) fun _ => ?_
      · exact ⟨.of_step hw hid rfl (step_nodeUp R s.world nodeId),
          fun _ hj => ⟨fun hmem => Finset.mem_erase.mpr ⟨hj, hmem⟩, rfl⟩⟩
      · exact ⟨.refl hw rfl, fun _ _ => ⟨fun hmem => hmem, rfl⟩⟩
    exact hwp.of_ok hstep.2
  | decafsClientInit k addr userId => exact False.elim hkind
  | message k i =>
    have hkind : i.isCall = false := hkind
    obtain ⟨i', w', hserved, rfl, hi⟩ := step_message hstep fun hcall => absurd hkind (by simp [hcall])
    obtain ⟨c, -, -, hcall⟩ | ⟨d, rfl⟩ := hi
    · exact absurd hkind (by simp [hcall])
    · exact ⟨.of_step hw hid rfl hserved, fun _ _ => ⟨fun hmem => hmem, rfl⟩⟩

/-- Nobody is answered when a connection is opened or closed. -/
theorem front_of_step (he : e = .clientConnected k ∨ e = .clientDisconnected k) (hstep : step R s e s') :
    front s'.world = front s.world := by
  rcases he with rfl | rfl
  · have hwp : wp (clientConnected k) (fun _ s' => front s'.world = front s.world) (fun _ => True) s :=
      (wp_modify _).mpr rfl
    exact hwp.of_ok hstep.2
  · have hwp : wp (clientDisconnected k) (fun _ s' => front s'.world = front s.world) (fun _ => True) s :=
      wp_clientDisconnected (fun _ => rfl) (fun _ _ => rfl) (fun _ _ _ _ => rfl) fun _ _ _ => rfl
    exact hwp.of_ok hstep.2

/-- A new connection is pending. -/
theorem pending_of_step (hstep : step R s (.clientConnected k) s') : k ∈ s'.pendingClients := by
  have hwp : wp (clientConnected k) (fun _ s' => k ∈ s'.pendingClients) (fun _ => True) s :=
    (wp_modify _).mpr (Finset.mem_insert_self _ _)
  exact hwp.of_ok hstep.2

/-- **`DECAFS_CLIENT_INIT`** on a pending connection. -/
theorem init_of_step (hpending : k ∈ s.pendingClients) (hstep : step R s (.decafsClientInit k addr userId) s') :
    s'.world = s.world ∧ KeepsOthers k s s' ∧
      s'.decafsClients.lookup k = some ⟨⟨addr⟩, (toUInt32 userId).toNat, some k⟩ := by
  have hwp : wp (addDecafsClient addr userId k) (fun _ s' => s'.world = s.world ∧ KeepsOthers k s s' ∧
      s'.decafsClients.lookup k = some ⟨⟨addr⟩, (toUInt32 userId).toNat, some k⟩) (fun _ => True) s := by
    unfold addDecafsClient
    rw [wp_bind, wp_get, if_pos hpending, wp_modify]
    exact ⟨rfl, fun j hj => ⟨fun hmem => Finset.mem_erase.mpr ⟨hj, hmem⟩, Finmap.lookup_insert_of_ne _ hj⟩,
      Finmap.lookup_insert _⟩
  exact hwp.of_ok hstep.2

/-- What a call does to the server. -/
structure Called (c : Client) (i : Input) (s s' : BaristaServer) : Prop where
  running : Running s'.world
  requestId : s'.world.volatile.requestId ≤ s.world.volatile.requestId + 2
  pendingClients : s'.pendingClients = s.pendingClients
  decafsClients : s'.decafsClients = s.decafsClients
  serves : Serves callProtocol (front s.world) (i.calledBy c) (front s'.world)

/-- **A call** on the connection of a client is served as that client's. -/
theorem called_of_step {c : Client} {i : Input} (hw : Running s.world)
    (hid : s.world.volatile.requestId + 2 < 4294967296) (hknown : s.decafsClients.lookup k = some c)
    (hcall : i.isCall = true) (hstep : step R s (.message k i) s') : Called c i s s' := by
  have hworld : wp (barista (handle R (i.calledBy c))) (fun _ s' => ∃ w',
      Barista.step R s.world (i.calledBy c) w' ∧ s' = { s with world := w' }) (fun _ => True) s := by
    rw [barista, wp_zoom]
    cases hrun : handle R (i.calledBy c) s.world with
    | error e => exact (wp_error hrun).mpr trivial
    | ok p => exact (wp_ok hrun).mpr ⟨p.2, hrun, rfl⟩
  have hwp : wp (handleMessageFromClient R k i) (fun _ s' => ∃ w',
      Barista.step R s.world (i.calledBy c) w' ∧ s' = { s with world := w' }) (fun _ => True) s := by
    rw [handleMessageFromClient, if_pos hcall, wp_bind, decafsClient, wp_bind, wp_get, hknown, wp_pure]
    exact hworld
  obtain ⟨w', hserved, rfl⟩ := hwp.of_ok hstep.2
  have hids : (i.calledBy c).ids ≤ 2 := by
    cases i <;> simp [Input.calledBy, Input.ids]
  have hhandled := hw.handled (by omega) hserved
  have hrequestId : w'.volatile.requestId = _ := hhandled.requestId
  refine ⟨hhandled.running hw, ?_, rfl, rfl, hw.serves (by omega) hserved⟩
  change w'.volatile.requestId ≤ _
  omega

end

end BaristaServer

end DecaFS
