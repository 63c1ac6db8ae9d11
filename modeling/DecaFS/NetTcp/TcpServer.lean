import Mathlib.Data.Finset.Basic
import DecaFS.ForMathlib.NodeSet

/-!
# The poll round of the server

`check_for_messages` of `net_tcp/tcp_server.cpp`: one pass over `m_clients`, the connections in the
order of their sockets. A connection that has been closed is erased through the iterator of the loop,
which the loop then advances. So a round comes to its end exactly if no connection it looks at has been
closed (`checkForMessages_exact_iff`), and then each readable one has been handled once.

The handlers are those of the subclass, which has no access to `m_clients`. What `select` leaves in
the set and what `recv` returns for a socket are given.
-/

namespace DecaFS

open Code OrderedList

/-- `struct ConnectionToClient` -/
structure ConnectionToClient where
  sockFd : ℕ
  deriving DecidableEq, Repr

/-- What `check_for_messages` calls. -/
inductive PollCall : Type
  | handleMessageFromClient (client : ConnectionToClient)
  | clientDisconnected (client : ConnectionToClient)
  /-- `perror` on a failed `recv` -/
  | readError (client : ConnectionToClient)
  deriving DecidableEq, Repr

/-- The connection of a handled message. -/
def PollCall.handled? : PollCall → Option ConnectionToClient
  | .handleMessageFromClient client => some client
  | _ => none

/-- The connection that is reported as closed. -/
def PollCall.disconnected? : PollCall → Option ConnectionToClient
  | .clientDisconnected client => some client
  | _ => none

/-- `class TcpServer`, with the calls that it has made. `m_clients` has each connection under its
socket. -/
structure TcpServer where
  clients : NodeSet ConnectionToClient
  clientSet : Finset ℕ
  calls : List PollCall

/-- What the sockets have for the server. -/
structure Sockets where
  /-- what `select` leaves in `tmp_set` -/
  ready : Finset ℕ
  /-- what `recv` with `MSG_PEEK` returns -/
  lenRead : ℕ → ℤ

namespace TcpServer

/-- Code of the server. -/
abbrev Poll (α : Type) : Type := Code InvalidUse TcpServer α

/-- Code on `m_clients`. -/
def onClients {α : Type} (m : Code InvalidUse (NodeSet ConnectionToClient) α) : Poll α :=
  zoom clients (fun clients s => { s with clients := clients }) m

/-- Make a call. -/
def calling (call : PollCall) : Poll PUnit := modify fun s => { s with calls := s.calls ++ [call] }

/-- The body of the loop of `check_for_messages`. -/
def checkClient (sockets : Sockets) (it : Iter) : Poll PUnit := do
  let client ← onClients (NodeSet.deref it)
  if client.sockFd ∈ sockets.ready then
    if sockets.lenRead client.sockFd > 0 then
      calling (.handleMessageFromClient client)
    else if sockets.lenRead client.sockFd = 0 then
      calling (.clientDisconnected client)
      modify fun s => { s with clientSet := s.clientSet.erase client.sockFd }
      onClients (NodeSet.eraseAt it)
    else
      calling (.readError client)

/-- The loop of `check_for_messages`: has it come to its end? -/
def checkClients (sockets : Sockets) : ℕ → Iter → Poll Bool
  | 0, _ => return false
  | fuel + 1, it => do
    if ← onClients (NodeSet.differ it none) then
      checkClient sockets it
      checkClients sockets fuel (← onClients (NodeSet.next it))
    else
      return true

/-- `check_for_messages` -/
def checkForMessages (sockets : Sockets) : Poll Bool := do
  let fuel := (← get).clients.nodes.length + 1
  checkClients sockets fuel (← onClients NodeSet.begin)

end TcpServer

namespace Sockets

variable (sockets : Sockets)

/-- There is a message on the connection. -/
def Readable (client : ConnectionToClient) : Prop :=
  client.sockFd ∈ sockets.ready ∧ 0 < sockets.lenRead client.sockFd

/-- The other side has closed the connection. -/
def Closed (client : ConnectionToClient) : Prop :=
  client.sockFd ∈ sockets.ready ∧ sockets.lenRead client.sockFd = 0

instance : DecidablePred sockets.Readable := fun _ => inferInstanceAs (Decidable (_ ∧ _))

instance : DecidablePred sockets.Closed := fun _ => inferInstanceAs (Decidable (_ ∧ _))

/-- What the server calls for a connection. -/
def callFor (client : ConnectionToClient) : Option PollCall :=
  if client.sockFd ∈ sockets.ready then
    if sockets.lenRead client.sockFd > 0 then some (.handleMessageFromClient client)
    else if sockets.lenRead client.sockFd = 0 then some (.clientDisconnected client)
    else some (.readError client)
  else none

end Sockets

namespace TcpServer

variable {sockets : Sockets} {s : TcpServer} {it : Iter} {client : ConnectionToClient} {n : ℕ}
  {L R : List (ℕ × ConnectionToClient)} {E : InvalidUse → Prop}

@[simp]
theorem wp_onClients {α : Type} {m : Code InvalidUse (NodeSet ConnectionToClient) α}
    {Q : α → TcpServer → Prop} : wp (onClients m) Q E s ↔
      wp m (fun a clients => Q a { s with clients := clients }) E s.clients := wp_zoom _ _ _

@[simp]
theorem wp_calling {call : PollCall} {Q : PUnit → TcpServer → Prop} :
    wp (calling call) Q E s ↔ Q ⟨⟩ { s with calls := s.calls ++ [call] } := wp_modify _

/-- The server after a round over the connections `R`, none of which is closed. -/
def checked (sockets : Sockets) (R : List (ℕ × ConnectionToClient)) (s : TcpServer) : TcpServer :=
  { s with calls := s.calls ++ R.filterMap fun x => sockets.callFor x.2 }

theorem checked_nil : checked sockets [] s = s := by
  rw [checked, List.filterMap_nil, List.append_nil]

theorem checked_cons (x : ℕ × ConnectionToClient) :
    checked sockets R (checked sockets [x] s) = checked sockets (x :: R) s := by
  cases hcall : sockets.callFor x.2 <;> simp [checked, hcall]

theorem callFor_of_not_closed (hopen : ¬ sockets.Closed client) : sockets.callFor client =
    if client.sockFd ∈ sockets.ready then
      if sockets.lenRead client.sockFd > 0 then some (.handleMessageFromClient client)
      else some (.readError client)
    else none := by
  unfold Sockets.Closed at hopen
  unfold Sockets.callFor
  split_ifs <;> tauto

/-- **One connection** that is not closed. -/
theorem wp_checkClient_of_open {Q : PUnit → TcpServer → Prop}
    (h : s.clients.nodes = L ++ (n, client) :: R) (hopen : ¬ sockets.Closed client) :
    wp (checkClient sockets (some n)) Q E s ↔ Q ⟨⟩ (checked sockets [(n, client)] s) := by
  have hcall := callFor_of_not_closed hopen
  unfold checkClient
  rw [wp_bind, wp_onClients, NodeSet.wp_deref h, wp_ite]
  by_cases hready : client.sockFd ∈ sockets.ready
  · have hlen : sockets.lenRead client.sockFd ≠ 0 := fun hzero => hopen ⟨hready, hzero⟩
    rw [if_pos hready] at hcall ⊢
    rw [wp_ite, wp_ite, if_neg hlen, wp_calling, wp_calling]
    split_ifs at hcall ⊢ <;> simp [checked, hcall]
  · rw [if_neg hready] at hcall ⊢
    simp [checked, hcall]

/-- **One connection** that is closed. -/
theorem wp_checkClient_of_closed {Q : PUnit → TcpServer → Prop}
    (h : s.clients.nodes = L ++ (n, client) :: R) (hclosed : sockets.Closed client) :
    wp (checkClient sockets (some n)) Q E s ↔ Q ⟨⟩ { s with
      clients := s.clients.erase n
      clientSet := s.clientSet.erase client.sockFd
      calls := s.calls ++ [.clientDisconnected client] } := by
  obtain ⟨hready, hzero⟩ := hclosed
  unfold checkClient
  rw [wp_bind, wp_onClients, NodeSet.wp_deref h, wp_ite, if_pos hready, hzero, wp_ite,
    if_neg (lt_irrefl 0), wp_ite, if_pos rfl]
  simp only [wp_bind, wp_calling, wp_modify, wp_onClients, NodeSet.wp_eraseAt h]

/-- **The loop**, from the connections `R` on. -/
theorem wp_checkClients {Q : Bool → TcpServer → Prop} : ∀ {R L : List (ℕ × ConnectionToClient)}
    {fuel : ℕ} {s : TcpServer}, s.clients.nodes = L ++ R → R.length < fuel →
      (wp (checkClients sockets fuel (R.head?.map Prod.fst)) Q E s ↔
        if ∃ x ∈ R, sockets.Closed x.2 then E .increment else Q true (checked sockets R s)) := by
  intro R
  induction R with
  | nil =>
    intro L fuel s h hfuel
    obtain ⟨fuel, rfl⟩ := Nat.exists_eq_succ_of_ne_zero (Nat.ne_of_gt hfuel)
    simp [checkClients, NodeSet.wp_differ NodeSet.live_end NodeSet.live_end, checked_nil]
  | cons x R ih =>
    intro L fuel s h hfuel
    obtain ⟨fuel, rfl⟩ := Nat.exists_eq_succ_of_ne_zero (Nat.ne_zero_of_lt hfuel)
    obtain ⟨n, client⟩ := x
    have hlive : s.clients.Live (some n) := NodeSet.live_head h
    rw [checkClients, wp_bind, List.head?_cons, Option.map_some, wp_onClients,
      NodeSet.wp_differ hlive NodeSet.live_end, wp_ite, if_pos (by simp), wp_bind]
    by_cases hclosed : sockets.Closed client
    · -- the iterator of the loop is the one that was erased
      rw [wp_checkClient_of_closed h hclosed, wp_bind, wp_onClients,
        NodeSet.wp_next_of_not_live (NodeSet.not_live_erase n),
        if_pos ⟨(n, client), List.mem_cons_self, hclosed⟩]
    · have hrest : (checked sockets [(n, client)] s).clients.nodes = (L ++ [(n, client)]) ++ R := by
        rw [List.append_assoc, List.singleton_append]
        exact h
      have hkept : (checked sockets [(n, client)] s).clients.nodes = L ++ (n, client) :: R := h
      have hlen : R.length < fuel := Nat.lt_of_succ_lt_succ hfuel
      rw [wp_checkClient_of_open h hclosed, wp_bind, wp_onClients, NodeSet.wp_next hkept]
      refine (ih hrest hlen).trans ?_
      simp only [List.exists_mem_cons_iff, hclosed, false_or, checked_cons]

/-- **One round** comes to its end, or advances the iterator to the first closed connection. -/
theorem wp_checkForMessages {Q : Bool → TcpServer → Prop} :
    wp (checkForMessages sockets) Q E s ↔
      if ∃ client ∈ s.clients.values, sockets.Closed client then E .increment
      else Q true (checked sockets s.clients.nodes s) := by
  have hmem : (∃ client ∈ s.clients.values, sockets.Closed client) ↔
      ∃ x ∈ s.clients.nodes, sockets.Closed x.2 := by
    rw [NodeSet.values]
    exact ⟨fun ⟨client, hmem, h⟩ => by
      obtain ⟨x, hx, rfl⟩ := List.mem_map.mp hmem
      exact ⟨x, hx, h⟩, fun ⟨x, hx, h⟩ => ⟨x.2, List.mem_map_of_mem hx, h⟩⟩
  rw [checkForMessages, wp_bind, wp_get, wp_bind, wp_onClients, NodeSet.wp_begin]
  simp only [hmem]
  exact wp_checkClients (List.nil_append _).symm (Nat.lt_succ_self _)

/-- The round makes the calls `calls`: each readable connection is handled once, in the order of the
sockets, `clientDisconnected` is called once for each closed one, and these have left `m_clients`. -/
structure PollsExactly (sockets : Sockets) (s s' : TcpServer) (calls : List PollCall) : Prop where
  calls_eq : s'.calls = s.calls ++ calls
  handled : calls.filterMap PollCall.handled? = s.clients.values.filter sockets.Readable
  disconnected : calls.filterMap PollCall.disconnected? = s.clients.values.filter sockets.Closed
  handled_once : (calls.filterMap PollCall.handled?).Nodup
  disconnected_once : (calls.filterMap PollCall.disconnected?).Nodup
  clients_eq : s'.clients.values = s.clients.values.filter fun client => ¬ sockets.Closed client

theorem handled?_callFor (client : ConnectionToClient) : (sockets.callFor client).bind PollCall.handled? =
    Option.guard sockets.Readable client := by
  unfold Sockets.callFor Option.guard Sockets.Readable
  grind [PollCall.handled?]

theorem disconnected?_callFor (client : ConnectionToClient) :
    (sockets.callFor client).bind PollCall.disconnected? = Option.guard sockets.Closed client := by
  unfold Sockets.callFor Option.guard Sockets.Closed
  grind [PollCall.disconnected?]

theorem pollsExactly_checked (hsorted : Sorted ConnectionToClient.sockFd s.clients.values)
    (hopen : ∀ client ∈ s.clients.values, ¬ sockets.Closed client) :
    PollsExactly sockets s (checked sockets s.clients.nodes s)
      (s.clients.values.filterMap sockets.callFor) := by
  have hnodup : s.clients.values.Nodup := by
    unfold Sorted at hsorted
    exact hsorted.imp fun hlt heq => hlt.ne (by rw [heq])
  have hhandled : (s.clients.values.filterMap sockets.callFor).filterMap PollCall.handled? =
      s.clients.values.filter sockets.Readable := by
    rw [List.filterMap_filterMap, funext handled?_callFor, List.filterMap_eq_filter]
  have hdisconnected : (s.clients.values.filterMap sockets.callFor).filterMap
      PollCall.disconnected? = s.clients.values.filter sockets.Closed := by
    rw [List.filterMap_filterMap, funext disconnected?_callFor, List.filterMap_eq_filter]
  refine ⟨?_, hhandled, hdisconnected, hhandled ▸ hnodup.filter _, hdisconnected ▸ hnodup.filter _, ?_⟩
  · rw [checked, NodeSet.values, List.filterMap_map]
    rfl
  · refine (List.filter_eq_self.mpr fun client hclient => ?_).symm
    exact decide_eq_true (hopen client hclient)

/-- **The poll round survives** exactly if none of the connections it finds readable is closed. -/
theorem checkForMessages_exact_iff (hsorted : Sorted ConnectionToClient.sockFd s.clients.values) :
    (∃ s' calls, checkForMessages sockets s = .ok (true, s') ∧ PollsExactly sockets s s' calls) ↔
      ∀ client ∈ s.clients.values, ¬ sockets.Closed client := by
  constructor
  · rintro ⟨s', calls, hround, -⟩ client hclient hclosed
    have hstop : wp (checkForMessages sockets) (fun _ _ => False) (fun _ => True) s := by
      rw [wp_checkForMessages, if_pos ⟨client, hclient, hclosed⟩]
      trivial
    exact hstop.of_ok hround
  · intro hopen
    have hround : wp (checkForMessages sockets)
        (fun ended s' => ended = true ∧ s' = checked sockets s.clients.nodes s) (fun _ => False) s := by
      rw [wp_checkForMessages, if_neg (by simpa using hopen)]
      exact ⟨rfl, rfl⟩
    obtain ⟨_, _, hok, rfl, rfl⟩ := hround.exists_ok
    exact ⟨_, _, hok, pollsExactly_checked hsorted hopen⟩

section ThreeClients

/-- A server with connections over the sockets 4 to 6. -/
def threeClients : TcpServer where
  clients := .ofList [⟨4⟩, ⟨5⟩, ⟨6⟩]
  clientSet := {4, 5, 6}
  calls := []

theorem threeClients_polled : ∃ s' calls,
    checkForMessages ⟨{4, 6}, fun _ => 4⟩ threeClients = .ok (true, s') ∧
      PollsExactly ⟨{4, 6}, fun _ => 4⟩ threeClients s' calls :=
  (checkForMessages_exact_iff (by unfold Sorted; decide)).mpr (by decide)

/-- The client in the middle goes. -/
theorem closedClient_not_polled :
    checkForMessages ⟨{5}, fun _ => 0⟩ threeClients = .error .increment := by
  have hstop : wp (checkForMessages ⟨{5}, fun _ => 0⟩) (fun _ _ => False) (· = .increment)
      threeClients := by
    rw [wp_checkForMessages, if_pos ⟨⟨5⟩, by decide, by decide⟩]
  obtain ⟨_, hstop, rfl⟩ := hstop.exists_error
  exact hstop

end ThreeClients

end TcpServer

end DecaFS
