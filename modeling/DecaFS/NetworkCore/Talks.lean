import DecaFS.NetworkCore.Sessions

/-!
# What is on its way on a connection

What is on its way on the connection of a client at any time is determined by the calls that it made and
the results that it got so far (`Talk`). Everything that happens keeps this: what happens on the
connection (`Talked.connects`, `Talked.calls`, `Talk.known`, `Talk.serves`, `Talked.returns`), and what
happens elsewhere, where the server may come to answer a call (`Talked.bystander`).

A client has one call at most that waits. So the server has answered all calls of a client before that
which it takes (`Talk.serves`), and what a client takes for the answer is the answer (`Talk.takes`).
-/

namespace DecaFS

open Code Barista Front

/-! ### What happened on a connection -/

namespace SessionEvent

/-- The call that the client makes. -/
def madeOn (k : ℕ) : SessionEvent → Option ClientCall
  | .calls j call => if j = k then some call else none
  | _ => none

/-- The call that the server serves. -/
def servedOn (k : ℕ) : SessionEvent → Option Input
  | .serves j _ (.message _ i) => if j = k then some i else none
  | _ => none

/-- The call that returns, with its result. -/
def returnedOn (k : ℕ) : SessionEvent → Option (ClientCall × ClientResult)
  | .returns j _ call result => if j = k then some (call, result) else none
  | _ => none

/-- What happens at the server. -/
def atServer : SessionEvent → Option ServerEvent
  | .connects k _ _ => some (.clientConnected k)
  | .serves _ _ e | .hears e => some e
  | .leaves k => some (.clientDisconnected k)
  | .calls _ _ | .returns _ _ _ _ => none

end SessionEvent

/-- The calls that the client made. -/
def madeOn (k : ℕ) (es : List SessionEvent) : List ClientCall := es.filterMap (·.madeOn k)

/-- The calls that the server served. -/
def servedOn (k : ℕ) (es : List SessionEvent) : List Input := es.filterMap (·.servedOn k)

/-- The calls that returned, with their results. -/
def returnedOn (k : ℕ) (es : List SessionEvent) : List (ClientCall × ClientResult) :=
  es.filterMap (·.returnedOn k)

/-- What happens at the server. -/
def serverEvents (es : List SessionEvent) : List ServerEvent := es.filterMap SessionEvent.atServer

/-- The message is the call. -/
def ClientCall.Asks (call : ClientCall) (i : Input) : Prop := ∃ script, i = call.input script

/-- The call returns the result. -/
def Brings (p : ClientCall × ClientResult) (reply : Reply) : Prop :=
  reply.kind = p.1.kind ∧ p.2 = reply.result

/-- The protocol between connections and server. -/
def connectionProtocol : CallProtocol Input Operation ConnectionPtr Reply := callProtocol.map Client.ctc

/-- The server as the connections see it. -/
def connections (w : World) : Front Operation ConnectionPtr Reply := (front w).map Client.ctc

/-- The client of a connection, as the server knows it. -/
def Session.client (k : ℕ) (t : Session) : Client := ⟨⟨t.addr⟩, (toUInt32 t.userId).toNat, some k⟩

/-- The server knows the client and is to hear the calls, or it is to hear first who the client is. -/
inductive Listens (k : ℕ) (calls : List ClientCall) (server : BaristaServer) (t : Session) : Prop
  | known (entry : server.decafsClients.lookup k = some (t.client k))
      (carries : Carries ClientCall.Written calls t.toServer)
  | unknown {junk : ℕ → UInt8} {rest : List UInt8} (entry : k ∈ server.pendingClients)
      (bytes : t.toServer = (DecafsClientInit.create junk t.userId).packet ++ rest)
      (carries : Carries ClientCall.Written calls rest)

/-- What is known of a connection when the server has served the calls `heard`, as the messages `served`,
and not yet the calls `unheard`, and the client has taken the results `taken`, for the calls `returned`,
and not yet the results `untaken`; its call `pending` waits. -/
structure Talk (k : ℕ) (heard unheard pending : List ClientCall) (taken untaken : List Reply)
    (served : List Input) (returned : List (ClientCall × ClientResult)) (s : Sessions) : Prop where
  asks : List.Forall₂ ClientCall.Asks heard served
  inOrder : ∃ is : List Input, is.map Input.kind = heard.map (fun call => some call.kind) ∧
    InOrder connectionProtocol (some k) is.reverse (connections s.server.world)
  replies : repliesTo k s.server.world = taken ++ untaken
  brings : List.Forall₂ Brings returned taken
  made : heard ++ unheard = returned.map Prod.fst ++ pending
  pending_le : pending.length ≤ 1
  here : ∀ t, s.session k = some t → t.closed = false → t.pending.toList = pending ∧
    Carries Reply.Written untaken t.toClient ∧ Listens k unheard s.server t
  new : s.session k = none → heard ++ unheard = []

/-- What is known of a connection on which this happened. -/
def Talked (k : ℕ) (made : List ClientCall) (served : List Input) (returned : List (ClientCall × ClientResult))
    (s : Sessions) : Prop :=
  ∃ heard unheard pending taken untaken, heard ++ unheard = made ∧
    Talk k heard unheard pending taken untaken served returned s

section

variable {R : Runtime} {k : ℕ} {heard unheard pending made : List ClientCall} {taken untaken : List Reply}
  {served is : List Input} {returned : List (ClientCall × ClientResult)} {s s' : Sessions} {w w' : World}
  {e : SessionEvent} {es : List SessionEvent}

theorem reverse_repliesTo (k : ℕ) (w : World) :
    (repliesTo k w).reverse = (connections w).answersTo (some k) := by
  rw [repliesTo, List.reverse_reverse, connections, front, Front.map, answersTo]
  simp only [List.filter_map, List.map_map]
  rfl

/-- Results are only added. -/
theorem repliesTo_isPrefix (h : (front w).answers <:+ (front w').answers) (k : ℕ) :
    repliesTo k w <+: repliesTo k w' := by
  have hsuffix : (connections w).answersTo (some k) <:+ (connections w').answersTo (some k) :=
    ((h.map _).filter _).map _
  rw [← reverse_repliesTo, ← reverse_repliesTo] at hsuffix
  exact List.reverse_suffix.mp hsuffix

/-! ### Calls and answers -/

/-- **The results** that were sent are to the first calls, and bring what they count. -/
theorem Talk.answers (h : Talk k heard unheard pending taken untaken served returned s) :
    (taken ++ untaken).length ≤ heard.length ∧ (taken ++ untaken).map Reply.kind =
      (heard.take (taken ++ untaken).length).map ClientCall.kind ∧ ∀ reply ∈ taken ++ untaken, reply.Full := by
  obtain ⟨is, hkinds, hinOrder⟩ := h.inOrder
  obtain ⟨answered, hcalls, hawaits⟩ := hinOrder.answered
  rw [← reverse_repliesTo, h.replies, ← List.reverse_reverse answered] at hawaits
  have hcalls : answered.reverse <+: is := by rwa [← List.reverse_suffix, List.reverse_reverse]
  have hawaits : List.Forall₂ (flip fun (reply : Reply) (i : Input) => reply.Full ∧ some reply.kind = i.kind)
      answered.reverse (taken ++ untaken) :=
    (List.forall₂_reverse_iff.mp hawaits).imp fun _ _ hawait => ⟨hawait.2, hawait.1.symm⟩
  obtain ⟨hfull, hawaits⟩ := (List.forall₂_and_left _ _).mp hawaits.flip
  have hlength := hawaits.length_eq
  have hkind : (taken ++ untaken).map (some ∘ Reply.kind) = answered.reverse.map Input.kind := by
    rw [← List.forall₂_eq_eq_eq, List.forall₂_map_left_iff, List.forall₂_map_right_iff]
    exact hawaits
  have hcount := congrArg List.length hkinds
  rw [List.length_map, List.length_map] at hcount
  refine ⟨by rw [hlength, ← hcount]; exact hcalls.length_le, ?_, hfull⟩
  refine List.map_injective_iff.mpr (Option.some_injective _) ?_
  rw [List.map_map, hkind, List.prefix_iff_eq_take.mp hcalls, ← hlength, List.map_take, hkinds, List.map_take,
    List.map_take, List.map_map]
  rfl

/-- The results that were sent are no more than the calls that were heard. -/
theorem Talk.length_le (h : Talk k heard unheard pending taken untaken served returned s) :
    taken.length + untaken.length ≤ heard.length ∧ returned.length = taken.length ∧
      heard.length + unheard.length = returned.length + pending.length := by
  have hmade := congrArg List.length h.made
  simp only [List.length_append, List.length_map] at hmade
  refine ⟨?_, h.brings.length_eq, hmade⟩
  rw [← List.length_append]
  exact h.answers.1

/-- **What a client takes is the answer.** -/
theorem Talk.takes {call : ClientCall} {reply : Reply} {behind : List Reply}
    (h : Talk k heard unheard [call] taken (reply :: behind) served returned s) :
    unheard = [] ∧ behind = [] ∧ reply.kind = call.kind ∧ reply.Full := by
  obtain ⟨hle, htaken, hmade⟩ := h.length_le
  simp only [List.length_cons, List.length_nil] at hle hmade
  have hunheard : unheard = [] := List.length_eq_zero_iff.mp (by omega)
  have hbehind : behind = [] := List.length_eq_zero_iff.mp (by omega)
  subst hunheard hbehind
  obtain ⟨-, hkinds, hfull⟩ := h.answers
  -- all calls are answered, and the last by the last
  have hheard : heard = returned.map Prod.fst ++ [call] := by rw [← h.made, List.append_nil]
  have hall : (taken ++ [reply]).length = heard.length := by
    rw [List.length_append, List.length_singleton]
    rw [List.length_nil] at hmade
    omega
  rw [hall, List.take_length, hheard, List.map_append, List.map_append] at hkinds
  refine ⟨rfl, rfl, ?_, hfull reply (List.mem_append_right _ List.mem_cons_self)⟩
  have hlast := (List.append_inj' hkinds rfl).2
  exact (List.cons.inj hlast).1

/-! ### Events on other connections -/

/-- The server is asked nothing over the connection, over which it can only send results. -/
structure NoCall (k : ℕ) (w w' : World) : Prop where
  inOrder : ∀ is, InOrder connectionProtocol (some k) is (connections w) →
    InOrder connectionProtocol (some k) is (connections w')
  replies : repliesTo k w <+: repliesTo k w'

/-- Nothing happens on the connection, but results may be sent to its client, unless it has left. -/
structure Bystander (k : ℕ) (s s' : Sessions) : Prop where
  noCall : NoCall k s.server.world s'.server.world
  here : ∀ t', s'.session k = some t' → t'.closed = false → ∃ t bytes, s.session k = some t ∧
    t' = { t with toClient := t.toClient ++ bytes } ∧ Carries Reply.Written
      ((repliesTo k s'.server.world).drop (repliesTo k s.server.world).length) bytes ∧
    BaristaServer.KeepsEntry k s.server s'.server
  new : s'.session k = none → s.session k = none

theorem repliesTo_congr (h : front w' = front w) (k : ℕ) : repliesTo k w' = repliesTo k w := by
  rw [← List.reverse_inj, reverse_repliesTo, reverse_repliesTo, connections, h, connections]

theorem NoCall.of_front (h : front w' = front w) (k : ℕ) : NoCall k w w' where
  inOrder is his := by rwa [connections, h]
  replies := by rw [repliesTo_congr h]

theorem NoCall.of_finishes (h : Finishes callProtocol (front w) (front w')) (k : ℕ) : NoCall k w w' where
  inOrder _ his := InOrder.finishes his (Finishes.map Client.ctc h)
  replies := repliesTo_isPrefix h.answers_suffix k

theorem NoCall.of_serves {i : Input} (h : Serves callProtocol (front w) i (front w'))
    (hother : i.caller.map Client.ctc ≠ some (some k)) : NoCall k w w' where
  inOrder is his := by
    have hcallsOf : callsOf connectionProtocol (some k) [i] = [] :=
      List.filter_eq_nil_iff.mpr fun j hj => by
        rw [List.mem_singleton.mp hj]
        exact decide_eq_true_iff.not.mpr hother
    have hserved := InOrder.serves his (Serves.map Client.ctc h) fun hcaller => absurd hcaller hother
    rwa [hcallsOf] at hserved
  replies := repliesTo_isPrefix h.answers_suffix k

variable {server : BaristaServer} {session : ℕ → Option Session} {bytes : ℕ → List UInt8}

/-- What goes on elsewhere. -/
theorem Bystander.sends (hcall : NoCall k s.server.world server.world)
    (hsends : Sends s.server.world server.world bytes) (hsession : session k = s.session k)
    (hserver : s.session k ≠ none → BaristaServer.KeepsEntry k s.server server) :
    Bystander k s ⟨server, forwarded session bytes⟩ where
  noCall := hcall
  here t' ht' _ := by
    obtain ⟨t, ht, rfl⟩ := Option.map_eq_some_iff.mp ht'
    rw [hsession] at ht
    exact ⟨t, bytes k, ht, rfl, hsends k, hserver (by simp [ht])⟩
  new hnone := hsession ▸ Option.map_eq_none_iff.mp hnone

theorem Bystander.quiet (hfront : front server.world = front s.server.world) (hsession : session k = s.session k)
    (hserver : BaristaServer.KeepsEntry k s.server server) : Bystander k s ⟨server, session⟩ where
  noCall := .of_front hfront k
  here t' ht' _ := by
    refine ⟨t', [], hsession ▸ ht', by simp, ?_, hserver⟩
    rw [repliesTo_congr hfront, List.drop_length]
    exact carries_nil_iff.mpr rfl
  new hnone := hsession ▸ hnone

theorem Listens.congr {server server' : BaristaServer} {calls : List ClientCall} {t t' : Session}
    (h : Listens k calls server t) (hserver : BaristaServer.KeepsEntry k server server') (haddr : t'.addr = t.addr)
    (huser : t'.userId = t.userId) (hbytes : t'.toServer = t.toServer) : Listens k calls server' t' := by
  cases h with
  | known entry carries =>
    refine .known ?_ (hbytes ▸ carries)
    rw [hserver.known, entry, Session.client, Session.client, haddr, huser]
  | unknown entry bytes carries =>
    exact .unknown (hserver.pending entry) (by rw [hbytes, bytes, huser]) carries

theorem Talk.bystander (h : Talk k heard unheard pending taken untaken served returned s)
    (hs : Bystander k s s') : ∃ untaken', Talk k heard unheard pending taken untaken' served returned s' := by
  obtain ⟨new, hreplies⟩ := hs.noCall.replies
  rw [h.replies] at hreplies
  obtain ⟨is, hkinds, hinOrder⟩ := h.inOrder
  refine ⟨untaken ++ new, h.asks, ⟨is, hkinds, hs.noCall.inOrder _ hinOrder⟩, ?_, h.brings, h.made, h.pending_le,
    fun t' ht' hopen => ?_, fun hnone => h.new (hs.new hnone)⟩
  · rw [← hreplies, List.append_assoc]
  · obtain ⟨t, bytes, ht, rfl, hbytes, hserver⟩ := hs.here t' ht' hopen
    obtain ⟨hpending, hcarries, hlistens⟩ := h.here t ht hopen
    rw [← hreplies, h.replies, List.drop_left] at hbytes
    exact ⟨hpending, hcarries.append hbytes, hlistens.congr hserver rfl rfl rfl⟩

theorem Talked.bystander (h : Talked k made served returned s) (hs : Bystander k s s') :
    Talked k made served returned s' := by
  obtain ⟨heard, unheard, pending, taken, untaken, hmade, htalk⟩ := h
  obtain ⟨untaken', htalk⟩ := htalk.bystander hs
  exact ⟨heard, unheard, pending, taken, untaken', hmade, htalk⟩

/-! ### Events on the connection -/

/-- **The packet that the server takes** says who the client is, or is its next call. -/
theorem Listens.takes {t : Session} {cut : Cut} {flag : PacketFlag} {buffer rest : List UInt8}
    {script : List SendOutcome} {ev : ServerEvent} {calls : List ClientCall} (h : Listens k calls server t)
    (hfits : cut.Fits t.toServer) (hreceived : cut.Received t.toServer)
    (htaken : handleMessageFromClient cut t.toServer = some ((some flag, buffer), rest))
    (hdecoded : BaristaServer.received k t.addr script buffer flag = some ev) :
    (∃ userId, ev = .decafsClientInit k t.addr userId ∧ toUInt32 userId = toUInt32 t.userId ∧
      k ∈ server.pendingClients ∧ Carries ClientCall.Written calls rest) ∨
    ∃ call calls', calls = call :: calls' ∧ ev = .message k (call.input script) ∧
      server.decafsClients.lookup k = some (t.client k) ∧ Carries ClientCall.Written calls' rest := by
  cases h with
  | known entry carries =>
    have hbytes : t.toServer ≠ [] := by
      intro hnil
      have hpeeked := hfits.1
      rw [hnil] at hpeeked
      simp only [List.length_nil] at hpeeked
      omega
    obtain ⟨call, calls', rfl⟩ := carries.exists_cons hbytes
    obtain ⟨p, behind, ⟨junk, rfl⟩, hstream, hbehind⟩ := carries_cons_iff.mp carries
    obtain ⟨q, fields, tail, hq, hlaid⟩ := call.exists_laid junk
    rw [hstream] at hfits hreceived htaken
    obtain ⟨hwf, hcase, rfl⟩ := handleMessage_received (hq ▸ hlaid.sized) hfits hreceived htaken
    rw [call.dispatched_packet] at hcase
    obtain ⟨rfl, rfl⟩ : flag = call.flag ∧ buffer = call.packet junk := by
      simpa only [Prod.mk.injEq, Option.some.injEq] using hcase
    rw [received_packet hwf] at hdecoded
    exact .inr ⟨call, calls', rfl, (Option.some.inj hdecoded).symm, entry, hbehind⟩
  | @unknown junk behind entry bytes carries =>
    have hlaid : (DecafsClientInit.create junk t.userId).Laid 0 PacketFlag.decafsClientInit.ctorIdx
        [toUInt32 t.userId] [] := WordPacket.create_laid toUInt32 .decafsClientInit junk t.userId
    rw [bytes] at hfits hreceived htaken
    obtain ⟨-, hcase, rfl⟩ := handleMessage_received hlaid.sized hfits hreceived htaken
    rw [hlaid.dispatched] at hcase
    obtain ⟨rfl, rfl⟩ : flag = .decafsClientInit ∧
        buffer = (DecafsClientInit.create junk t.userId).packet := by
      have hfind : BaristaServer.cases.find? (fun flag' =>
          (flag'.ctorIdx : ℤ) = PacketFlag.decafsClientInit.ctorIdx) = some .decafsClientInit := rfl
      rw [hfind] at hcase
      simpa only [Prod.mk.injEq, Option.some.injEq] using hcase
    have hobject : DecafsClientInit.ofBuffer (DecafsClientInit.create junk t.userId).packet =
        DecafsClientInit.create junk t.userId :=
      (WordPacket.roundTrips fun v => by rw [toUInt32_toUInt32, toUInt32_toUInt32]).ofBuffer_eq junk
    refine .inl ⟨_, (Option.some.inj hdecoded).symm, ?_, entry, carries⟩
    rw [hobject]
    exact toUInt32_toUInt32 t.userId

theorem session_update (k : ℕ) (t : Session) (session : ℕ → Option Session) :
    Function.update session k (some t) k = some t := Function.update_self k _ session

theorem session_forwarded (k : ℕ) (t : Session) (session : ℕ → Option Session) (bytes : ℕ → List UInt8) :
    forwarded (Function.update session k (some t)) bytes k =
      some { t with toClient := t.toClient ++ bytes k } := by
  rw [forwarded, session_update, Option.map_some]

/-- The client connects. -/
theorem Talked.connects (h : Talked k made served returned s) (hnew : s.session k = none)
    (hfront : front server.world = front s.server.world) (hpending : k ∈ server.pendingClients)
    (addr : String) (userId : ℤ) (junk : ℕ → UInt8) :
    Talked k made served returned ⟨server, Function.update s.session k
      (some { addr, userId, toServer := (DecafsClientInit.create junk userId).packet })⟩ := by
  obtain ⟨heard, unheard, pending, taken, untaken, hmade, htalk⟩ := h
  obtain ⟨rfl, rfl⟩ := List.append_eq_nil_iff.mp (htalk.new hnew)
  obtain ⟨hle, -, hlength⟩ := htalk.length_le
  simp only [List.length_nil] at hle hlength
  obtain rfl : untaken = [] := List.length_eq_zero_iff.mp (by omega)
  obtain rfl : pending = [] := List.length_eq_zero_iff.mp (by omega)
  obtain ⟨is, hkinds, hinOrder⟩ := htalk.inOrder
  have hcall := NoCall.of_front hfront k
  refine ⟨[], [], [], taken, [], hmade, htalk.asks, ⟨is, hkinds, hcall.inOrder _ hinOrder⟩, ?_, htalk.brings,
    htalk.made, htalk.pending_le, fun t ht _ => ?_, fun hnone => ?_⟩
  · rw [repliesTo_congr hfront, htalk.replies]
  · obtain rfl := Option.some.inj ((session_update k _ _).symm.trans ht)
    exact ⟨rfl, carries_nil_iff.mpr rfl, .unknown hpending (List.append_nil _).symm (carries_nil_iff.mpr rfl)⟩
  · exact absurd ((session_update k _ _).symm.trans hnone) (by simp)

theorem Listens.calls {t : Session} {calls : List ClientCall} (h : Listens k calls server t) (call : ClientCall)
    (junk : ℕ → UInt8) : Listens k (calls ++ [call]) server
      { t with toServer := t.toServer ++ call.packet junk, pending := some call } := by
  have hone : Carries ClientCall.Written [call] (call.packet junk) := carries_singleton ⟨junk, rfl⟩
  cases h with
  | known entry carries => exact .known entry (carries.append hone)
  | @unknown junk' rest entry bytes carries =>
    have hbytes : t.toServer ++ call.packet junk =
        (DecafsClientInit.create junk' t.userId).packet ++ (rest ++ call.packet junk) := by
      rw [bytes, List.append_assoc]
    exact .unknown entry hbytes (carries.append hone)

/-- The client makes a call. -/
theorem Talked.calls (h : Talked k made served returned s) {t : Session} (ht : s.session k = some t)
    (hopen : t.closed = false) (hfree : t.pending = none) (call : ClientCall) (junk : ℕ → UInt8) :
    Talked k (made ++ [call]) served returned ⟨s.server, Function.update s.session k
      (some { t with toServer := t.toServer ++ call.packet junk, pending := some call })⟩ := by
  obtain ⟨heard, unheard, pending, taken, untaken, rfl, htalk⟩ := h
  obtain ⟨hpending, hcarries, hlistens⟩ := htalk.here t ht hopen
  obtain rfl : pending = [] := by rw [← hpending, hfree, Option.toList_none]
  refine ⟨heard, unheard ++ [call], [call], taken, untaken, (List.append_assoc _ _ _).symm, htalk.asks,
    htalk.inOrder, htalk.replies, htalk.brings, ?_, Nat.le_refl _, fun t' ht' _ => ?_, fun hnone => ?_⟩
  · rw [← List.append_assoc, htalk.made, List.append_nil]
  · obtain rfl := Option.some.inj ((session_update k _ _).symm.trans ht')
    exact ⟨rfl, hcarries, hlistens.calls call junk⟩
  · exact absurd ((session_update k _ _).symm.trans hnone) (by simp)

/-- The server learns who the client is. -/
theorem Talk.known (h : Talk k heard unheard pending taken untaken served returned s) {t : Session}
    {rest : List UInt8} (ht : s.session k = some t) (hopen : t.closed = false)
    (hworld : server.world = s.server.world) (hentry : server.decafsClients.lookup k = some (t.client k))
    (hcarries : Carries ClientCall.Written unheard rest) (hsends : Sends s.server.world server.world bytes) :
    Talk k heard unheard pending taken untaken served returned
      ⟨server, forwarded (Function.update s.session k (some { t with toServer := rest })) bytes⟩ := by
  obtain ⟨hpending, huntaken, -⟩ := h.here t ht hopen
  have hbytes : bytes k = [] := by
    have hnothing := hsends k
    rw [hworld, List.drop_length] at hnothing
    exact carries_nil_iff.mp hnothing
  have hinOrder := h.inOrder
  have hreplies := h.replies
  rw [← hworld] at hinOrder hreplies
  refine ⟨h.asks, hinOrder, hreplies, h.brings, h.made, h.pending_le, fun t' ht' _ => ?_, fun hnone => ?_⟩
  · obtain rfl := Option.some.inj ((session_forwarded k _ _ _).symm.trans ht')
    refine ⟨hpending, ?_, .known hentry hcarries⟩
    rw [hbytes, List.append_nil]
    exact huntaken
  · exact absurd ((session_forwarded k _ _ _).symm.trans hnone) (by simp)

/-- **The server serves a call.** All the calls before it are answered. -/
theorem Talk.serves {call : ClientCall} {i : Input} {c : Client}
    (h : Talk k heard (call :: unheard) pending taken untaken served returned s) {t : Session}
    {rest : List UInt8} (ht : s.session k = some t) (hopen : t.closed = false) (hasks : call.Asks i)
    (hserves : Serves callProtocol (front s.server.world) (i.calledBy c) (front server.world))
    (hctc : c.ctc = some k) (hentry : server.decafsClients.lookup k = some (t.client k))
    (hcarries : Carries ClientCall.Written unheard rest) (hsends : Sends s.server.world server.world bytes) :
    ∃ untaken', Talk k (heard ++ [call]) unheard pending taken untaken' (served ++ [i]) returned
      ⟨server, forwarded (Function.update s.session k (some { t with toServer := rest })) bytes⟩ := by
  obtain ⟨hpending, huntaken, -⟩ := h.here t ht hopen
  obtain ⟨script, rfl⟩ := hasks
  obtain ⟨is, hkinds, hinOrder⟩ := h.inOrder
  have hcaller : connectionProtocol.caller ((call.input script).calledBy c) = some (some k) := by
    rw [← hctc]
    cases call <;> rfl
  have hkind : ((call.input script).calledBy c).kind = some call.kind := by
    cases call <;> rfl
  have hanswered : ((connections s.server.world).answersTo (some k)).length = is.reverse.length := by
    obtain ⟨hle, htaken, hmade⟩ := h.length_le
    have hone := h.pending_le
    have hcount := congrArg List.length hkinds
    rw [List.length_map, List.length_map] at hcount
    rw [← reverse_repliesTo, h.replies, List.length_reverse, List.length_append, List.length_reverse, hcount]
    rw [List.length_cons] at hmade
    omega
  have hnow := InOrder.serves hinOrder (Serves.map Client.ctc hserves) fun _ => hanswered
  have hcallsOf : callsOf connectionProtocol (some k) [(call.input script).calledBy c] =
      [(call.input script).calledBy c] := List.filter_eq_self.mpr fun j hj => by
    rw [List.mem_singleton.mp hj]
    exact decide_eq_true hcaller
  obtain ⟨new, hreplies⟩ := repliesTo_isPrefix hserves.answers_suffix k
  have hnew := hsends k
  rw [← hreplies, List.drop_left] at hnew
  refine ⟨untaken ++ new, List.rel_append h.asks (.cons ⟨script, rfl⟩ .nil),
    ⟨is ++ [(call.input script).calledBy c], ?_, ?_⟩, ?_, h.brings, ?_, h.pending_le, fun t' ht' _ => ?_,
    fun hnone => ?_⟩
  · rw [List.map_append, List.map_append, hkinds, List.map_singleton, List.map_singleton, hkind]
  · rw [List.reverse_append, List.reverse_singleton]
    rwa [hcallsOf] at hnow
  · rw [← hreplies, h.replies, List.append_assoc]
  · rw [List.append_assoc, List.singleton_append, h.made]
  · obtain rfl := Option.some.inj ((session_forwarded k _ _ _).symm.trans ht')
    exact ⟨hpending, huntaken.append hnew, .known hentry hcarries⟩
  · exact absurd ((session_forwarded k _ _ _).symm.trans hnone) (by simp)

/-- **A call returns** what the packet in front says. -/
theorem Talked.returns (h : Talked k made served returned s) {t : Session} {cut : Cut} {call : ClientCall}
    {flag : Option PacketFlag} {buffer rest : List UInt8} (ht : s.session k = some t)
    (hopen : t.closed = false) (hwaits : t.pending = some call) (hfits : cut.Fits t.toClient)
    (hreceived : cut.Received t.toClient)
    (htaken : DecafsClient.waitForPacket cut t.toClient = some ((flag, buffer), rest)) :
    Talked k made served (returned ++ [(call, call.result buffer)]) ⟨s.server,
      Function.update s.session k (some { t with toClient := rest, pending := none })⟩ := by
  obtain ⟨heard, unheard, pending, taken, untaken, hmade, htalk⟩ := h
  obtain ⟨hpending, hcarries, hlistens⟩ := htalk.here t ht hopen
  obtain rfl : pending = [call] := by rw [← hpending, hwaits, Option.toList_some]
  have hbytes : t.toClient ≠ [] := by
    intro hnil
    have hpeeked := hfits.1
    rw [hnil] at hpeeked
    simp only [List.length_nil] at hpeeked
    omega
  obtain ⟨reply, behind, rfl⟩ := hcarries.exists_cons hbytes
  obtain ⟨rfl, rfl, hkind, hfull⟩ := htalk.takes
  obtain ⟨p, nothing, ⟨junk, rfl⟩, hstream, hnothing⟩ := carries_cons_iff.mp hcarries
  obtain ⟨q, n, fields, tail, hq, hlaid⟩ := Reply.exists_laid junk hfull
  rw [hstream] at hfits hreceived htaken
  obtain ⟨hwf, hcase, rfl⟩ := handleMessage_received (hq ▸ hlaid.sized) hfits hreceived htaken
  obtain rfl : buffer = reply.packet junk := congrArg Prod.snd hcase
  refine ⟨heard, [], [], taken ++ [reply], [], hmade, htalk.asks, htalk.inOrder, ?_, ?_, ?_, Nat.zero_le _,
    fun t' ht' _ => ?_, fun hnone => ?_⟩
  · rw [htalk.replies, List.append_nil]
  · exact List.rel_append htalk.brings (.cons ⟨hkind, result_packet hkind hfull hwf⟩ .nil)
  · rw [htalk.made, List.map_append, List.append_nil]
    rfl
  · obtain rfl := Option.some.inj ((session_update k _ _).symm.trans ht')
    exact ⟨rfl, hnothing, hlistens.congr ⟨fun hmem => hmem, rfl⟩ rfl rfl rfl⟩
  · exact absurd ((session_update k _ _).symm.trans hnone) (by simp)

end

end DecaFS
