import DecaFS.NetworkCore.Talks

/-!
# A call over a connection is a call of the Barista

Whatever clients do and in whatever order the server gets to it, the server serves the calls of each
client as they were made, as calls of the user that connected, and each call returns what the Barista
answered to it. This is how the bytes and the tables of the connections vanish: a run of clients and
server is one of the server, with the same calls (`remoteCalls_run`).

An event is one of a connection at most. There the lemmas of `Talks` say what becomes of what is on its
way, and every other connection is a bystander (`Sessions.Step.relays`).
-/

namespace DecaFS

open Code Barista Front

/-- The connection of the client that it is about. -/
def SessionEvent.connection : SessionEvent → Option ℕ
  | .connects k _ _ | .calls k _ | .serves k _ _ | .returns k _ _ _ | .leaves k => some k
  | .hears _ => none

/-- After the event, the server goes on, having served it if it is one of the server, and what is on its
way on each connection is known. -/
structure Relays (R : Runtime) (made : ℕ → List ClientCall) (served : ℕ → List Input)
    (returned : ℕ → List (ClientCall × ClientResult)) (s : Sessions) (e : SessionEvent) (s' : Sessions) :
    Prop where
  running : Running s'.server.world
  requestId : s'.server.world.volatile.requestId ≤ s.server.world.volatile.requestId + 2
  server : Steps (BaristaServer.serves R) s.server e.atServer.toList s'.server
  talked : ∀ k, Talked k (made k ++ (e.madeOn k).toList) (served k ++ (e.servedOn k).toList)
    (returned k ++ (e.returnedOn k).toList) s'

/-- What a client sees of its calls `made`, of which the server served `served`. -/
structure Relayed (made : List ClientCall) (served : List Input) (returned : List (ClientCall × ClientResult))
    (replies : List Reply) : Prop where
  /-- They are served as they were made. -/
  asked : List.Forall₂ ClientCall.Asks (made.take served.length) served
  /-- The server sends results for them in this order. -/
  length_le : replies.length ≤ served.length
  kinds : replies.map Reply.kind = (made.take replies.length).map ClientCall.kind
  /-- They return in this order, with these results. -/
  calls : returned.map Prod.fst = made.take returned.length
  results : List.Forall₂ Brings returned (replies.take returned.length)
  /-- The client makes a call when those before it have returned. -/
  waits : made.length ≤ returned.length + 1

section

variable {R : Runtime} {made : ℕ → List ClientCall} {served : ℕ → List Input}
  {returned : ℕ → List (ClientCall × ClientResult)} {s s₀ s' : Sessions} {e : SessionEvent}
  {es : List SessionEvent} {k : ℕ}

theorem SessionEvent.elsewhere (h : e.connection ≠ some k) :
    e.madeOn k = none ∧ e.servedOn k = none ∧ e.returnedOn k = none := by
  have hne : ∀ j, some j ≠ some k → ¬ j = k := fun j hj hjk => hj (congrArg some hjk)
  cases e with
  | calls j call => exact ⟨if_neg (hne j h), rfl, rfl⟩
  | returns j cut call result => exact ⟨rfl, rfl, if_neg (hne j h)⟩
  | serves j cut ev =>
    refine ⟨rfl, ?_, rfl⟩
    cases ev with
    | message client i => exact if_neg (hne j h)
    | _ => rfl
  | _ => exact ⟨rfl, rfl, rfl⟩

/-- What is to be said of an event: what becomes of its connection, and that it is none of the others'. -/
theorem talked_of_event (htalk : ∀ k, Talked k (made k) (served k) (returned k) s)
    (hothers : ∀ k, e.connection ≠ some k → Bystander k s s')
    (hself : ∀ k, e.connection = some k → Talked k (made k ++ (e.madeOn k).toList)
      (served k ++ (e.servedOn k).toList) (returned k ++ (e.returnedOn k).toList) s') (k : ℕ) :
    Talked k (made k ++ (e.madeOn k).toList) (served k ++ (e.servedOn k).toList)
      (returned k ++ (e.returnedOn k).toList) s' := by
  by_cases hconnection : e.connection = some k
  · exact hself k hconnection
  · obtain ⟨hmade, hserved, hreturned⟩ := SessionEvent.elsewhere hconnection
    rw [hmade, hserved, hreturned]
    simp only [Option.toList_none, List.append_nil]
    exact (htalk k).bystander (hothers k hconnection)

/-- **A packet of a client.** -/
theorem relays_serves {server : BaristaServer} {j : ℕ} {t : Session} {cut : Cut} {flag : PacketFlag}
    {buffer rest : List UInt8} {script : List SendOutcome} {ev : ServerEvent} {bytes : ℕ → List UInt8}
    (hw : Running s.server.world) (hid : s.server.world.volatile.requestId + 2 < 4294967296)
    (htalk : ∀ k, Talked k (made k) (served k) (returned k) s) (ht : s.session j = some t)
    (hopen : t.closed = false) (hfits : cut.Fits t.toServer) (hreceived : cut.Received t.toServer)
    (htaken : handleMessageFromClient cut t.toServer = some ((some flag, buffer), rest))
    (hdecoded : BaristaServer.received j t.addr script buffer flag = some ev)
    (hhandled : BaristaServer.step R s.server ev server) (hsends : Sends s.server.world server.world bytes) :
    Relays R made served returned s (.serves j cut ev)
      ⟨server, forwarded (Function.update s.session j (some { t with toServer := rest })) bytes⟩ := by
  obtain ⟨heard, unheard, pending, taken, untaken, hmade, htalkj⟩ := htalk j
  obtain ⟨-, -, hlistens⟩ := htalkj.here t ht hopen
  have hsession : ∀ k, some j ≠ some k →
      Function.update s.session j (some { t with toServer := rest }) k = s.session k :=
    fun k hne => Function.update_of_ne (fun hkj => hne (by rw [hkj])) _ _
  rcases hlistens.takes hfits hreceived htaken hdecoded with ⟨userId, rfl, huser, hpending, hcarries⟩ |
    ⟨call, calls', rfl, rfl, hentry, hcarries⟩
  · obtain ⟨hworld, hkeeps, hentry⟩ := BaristaServer.init_of_step hpending hhandled
    refine ⟨hworld ▸ hw, by rw [hworld]; omega, .single ⟨trivial, hhandled⟩,
      talked_of_event htalk (fun k hne => ?_) fun k hk => ?_⟩
    · exact .sends (.of_front (by rw [hworld]) k) hsends (hsession k hne) fun _ =>
        hkeeps k fun hkj => hne (congrArg some hkj.symm)
    · obtain rfl : j = k := Option.some.inj hk
      rw [huser] at hentry
      simp only [SessionEvent.madeOn, SessionEvent.servedOn, SessionEvent.returnedOn, Option.toList_none,
        List.append_nil]
      exact ⟨heard, unheard, pending, taken, untaken, hmade,
        htalkj.known ht hopen hworld hentry hcarries hsends⟩
  · have hcall : (call.input script).isCall = true := by
      cases call <;> rfl
    have hcaller : ((call.input script).calledBy (t.client j)).caller.map Client.ctc = some (some j) := by
      cases call <;> rfl
    have hcalled := BaristaServer.called_of_step hw hid hentry hcall hhandled
    refine ⟨hcalled.running, hcalled.requestId, .single ⟨fun _ => ?_, hhandled⟩,
      talked_of_event htalk (fun k hne => ?_) fun k hk => ?_⟩
    · exact Finmap.mem_iff.mpr ⟨_, hentry⟩
    · refine .sends (.of_serves hcalled.serves ?_) hsends (hsession k hne) fun _ => ⟨?_, ?_⟩
      · rw [hcaller]
        exact fun hjk => hne (Option.some.inj hjk)
      · rw [hcalled.pendingClients]
        exact fun hmem => hmem
      · rw [hcalled.decafsClients]
    · obtain rfl : j = k := Option.some.inj hk
      obtain ⟨untaken', hserved⟩ := htalkj.serves ht hopen ⟨script, rfl⟩ hcalled.serves rfl
        (by rw [hcalled.decafsClients, hentry]) hcarries hsends
      simp only [SessionEvent.madeOn, SessionEvent.servedOn, SessionEvent.returnedOn, if_true,
        Option.toList_none, Option.toList_some, List.append_nil]
      exact ⟨heard ++ [call], calls', pending, taken, untaken', by rw [List.append_assoc]; exact hmade, hserved⟩

/-- **The step lemma.** -/
theorem Sessions.Step.relays (h : Sessions.Step R s e s') (hwhole : s.Whole e)
    (hw : Running s.server.world) (hid : s.server.world.volatile.requestId + 2 < 4294967296)
    (htalk : ∀ k, Talked k (made k) (served k) (returned k) s) : Relays R made served returned s e s' := by
  have hnow : s.server.world.volatile.requestId < 4294967296 := by omega
  have helse : ∀ {j k : ℕ} (t : Session), some j ≠ some k →
      Function.update s.session j (some t) k = s.session k :=
    fun t hne => Function.update_of_ne (fun hkj => hne (by rw [hkj])) _ _
  cases h with
  | @connects server j addr userId junk new accepted =>
    obtain ⟨hidles, hkeeps⟩ := BaristaServer.idles_of_step (e := .clientConnected j) hw hnow trivial accepted
    have hfront := BaristaServer.front_of_step (.inl rfl) accepted
    refine ⟨hidles.running, by rw [hidles.requestId]; omega, .single ⟨trivial, accepted⟩,
      talked_of_event htalk (fun k hne => ?_) fun k hk => ?_⟩
    · exact .quiet hfront (helse _ hne) (hkeeps k fun hkj => hne (congrArg some hkj.symm))
    · obtain rfl : j = k := Option.some.inj hk
      simp only [SessionEvent.madeOn, SessionEvent.servedOn, SessionEvent.returnedOn, Option.toList_none,
        List.append_nil]
      exact (htalk j).connects new hfront (BaristaServer.pending_of_step accepted) addr userId junk
  | @calls j t call junk here there free =>
    refine ⟨hw, Nat.le_add_right _ 2, .refl _, talked_of_event htalk (fun k hne => ?_) fun k hk => ?_⟩
    · exact .quiet rfl (helse _ hne) ⟨fun hmem => hmem, rfl⟩
    · obtain rfl : j = k := Option.some.inj hk
      simp only [SessionEvent.madeOn, SessionEvent.servedOn, SessionEvent.returnedOn, if_true,
        Option.toList_none, Option.toList_some, List.append_nil]
      exact (htalk j).calls here there free call junk
  | @serves server j t cut flag buffer rest script ev bytes here there fits taken decoded handled sends =>
    exact relays_serves hw hid htalk here there fits (hwhole t here) taken decoded handled sends
  | @returns j t cut call flag buffer rest here there waits fits taken =>
    refine ⟨hw, Nat.le_add_right _ 2, .refl _, talked_of_event htalk (fun k hne => ?_) fun k hk => ?_⟩
    · exact .quiet rfl (helse _ hne) ⟨fun hmem => hmem, rfl⟩
    · obtain rfl : j = k := Option.some.inj hk
      simp only [SessionEvent.madeOn, SessionEvent.servedOn, SessionEvent.returnedOn, if_true,
        Option.toList_none, Option.toList_some, List.append_nil]
      exact (htalk j).returns here there waits fits (hwhole t here) taken
  | @leaves server j t here there handled =>
    obtain ⟨hidles, hkeeps⟩ := BaristaServer.idles_of_step (e := .clientDisconnected j) hw hnow trivial handled
    have hfront := BaristaServer.front_of_step (.inr rfl) handled
    refine ⟨hidles.running, by rw [hidles.requestId]; omega, .single ⟨trivial, handled⟩,
      talked_of_event htalk (fun k hne => ?_) fun k hk => ?_⟩
    · exact .quiet hfront (helse _ hne) (hkeeps k fun hkj => hne (congrArg some hkj.symm))
    · obtain rfl : j = k := Option.some.inj hk
      simp only [SessionEvent.madeOn, SessionEvent.servedOn, SessionEvent.returnedOn, Option.toList_none,
        List.append_nil]
      -- what is on its way to a client that has left is not asked about
      refine (htalk j).bystander ⟨.of_front hfront j, fun t' ht' hopen => ?_, fun hnone => ?_⟩
      · obtain rfl := Option.some.inj ((session_update j _ _).symm.trans ht')
        exact absurd hopen (by simp)
      · exact absurd ((session_update j _ _).symm.trans hnone) (by simp)
  | @hears server ev bytes other kind handled sends =>
    obtain ⟨hidles, hkeeps⟩ := BaristaServer.idles_of_step hw hnow kind handled
    have hfrom : s.server.FromClient ev := by
      cases ev with
      | message j i =>
        have hkind : i.isCall = false := kind
        exact fun hcall => absurd hkind (by simp [hcall])
      | _ => trivial
    refine ⟨hidles.running, by rw [hidles.requestId]; omega, .single ⟨hfrom, handled⟩,
      talked_of_event htalk (fun k _ => ?_) fun k hk => absurd hk (by simp [SessionEvent.connection])⟩
    refine .sends (.of_finishes hidles.ends k) sends rfl fun hsome => hkeeps k ?_
    rintro rfl
    exact hsome other

/-! ### Runs -/

theorem toList_append_filterMap {α β : Type} (f : α → Option β) (a : α) (as : List α) (bs : List β) :
    (bs ++ (f a).toList) ++ as.filterMap f = bs ++ (a :: as).filterMap f := by
  rw [List.append_assoc, List.filterMap_cons]
  cases f a <;> rfl

/-- **The run lemma.** -/
theorem Sessions.steps_relay (hrun : Steps (Guarded Sessions.Whole (Sessions.Step R)) s es s')
    (hw : Running s.server.world) (hid : s.server.world.volatile.requestId + 2 * es.length < 4294967296)
    (htalk : ∀ k, Talked k (made k) (served k) (returned k) s) :
    Steps (BaristaServer.serves R) s.server (serverEvents es) s'.server ∧
      ∀ k, Talked k (made k ++ madeOn k es) (served k ++ servedOn k es) (returned k ++ returnedOn k es) s' := by
  induction hrun generalizing made served returned with
  | refl s =>
    simp only [madeOn, servedOn, returnedOn, List.filterMap_nil, List.append_nil]
    exact ⟨.refl _, htalk⟩
  | @cons s s₁ s' e es head _ ih =>
    rw [List.length_cons] at hid
    obtain ⟨hw₁, hid₁, hserver, htalk₁⟩ := head.2.relays head.1 hw (by omega) htalk
    obtain ⟨hrest, htalk'⟩ := ih hw₁ (by omega) htalk₁
    refine ⟨?_, fun k => ?_⟩
    · have hevents : serverEvents (e :: es) = e.atServer.toList ++ serverEvents es :=
        (toList_append_filterMap SessionEvent.atServer e es []).symm
      rw [hevents]
      exact hserver.trans hrest
    · have hlast := htalk' k
      simp only [madeOn, servedOn, returnedOn, toList_append_filterMap] at hlast ⊢
      exact hlast

/-- A new connection has nothing on its way. -/
theorem Sessions.Fresh.talked (h : s.Fresh) (k : ℕ) : Talked k [] [] [] s := by
  have hreplies : repliesTo k s.server.world = [] := by
    rw [repliesTo, h.server.started.log]
    rfl
  have hanswers : (connections s.server.world).answersTo (some k) = [] := by
    rw [← reverse_repliesTo, hreplies, List.reverse_nil]
  have haccounts : Accounts connectionProtocol (some k) [] [] (connections s.server.world) := by
    refine .nil (fun op => ?_) hanswers
    cases op <;> simp [connections, Front.map, front, h.server.started.requests, Requests.holder]
  refine ⟨[], [], [], [], [], rfl, .nil, ⟨[], rfl, [], [], haccounts, rfl, Nat.zero_le _⟩, hreplies, .nil, rfl,
    Nat.zero_le _, fun t ht => ?_, fun _ => rfl⟩
  rw [h.session k] at ht
  exact absurd ht (by simp)

theorem Talked.relayed {made : List ClientCall} {served : List Input}
    {returned : List (ClientCall × ClientResult)} (h : Talked k made served returned s) :
    Relayed made served returned (repliesTo k s.server.world) := by
  obtain ⟨heard, unheard, pending, taken, untaken, rfl, htalk⟩ := h
  obtain ⟨hle, hkinds, -⟩ := htalk.answers
  have hserved := htalk.asks.length_eq
  have hone := htalk.pending_le
  obtain ⟨-, hreturned, hlength⟩ := htalk.length_le
  rw [htalk.replies]
  refine ⟨?_, hserved ▸ hle, ?_, ?_, ?_, ?_⟩
  · rw [← hserved, List.take_left]
    exact htalk.asks
  · rw [hkinds, List.take_append_of_le_length hle]
  · rw [htalk.made, List.take_left' (List.length_map _)]
  · rw [hreturned, List.take_left]
    exact htalk.brings
  · rw [List.length_append]
    omega

/-- The bytes that go to each client, where the memory of each packet was zero. -/
def sentBytes (w w' : World) (k : ℕ) : List UInt8 :=
  ((repliesTo k w').drop (repliesTo k w).length).flatMap (Reply.packet fun _ => 0)

theorem sends_sentBytes (w w' : World) : Sends w w' (sentBytes w w') := by
  intro k
  refine ⟨((repliesTo k w').drop (repliesTo k w).length).map (Reply.packet fun _ => 0), ?_, rfl⟩
  rw [List.forall₂_map_right_iff]
  exact List.forall₂_same.mpr fun reply _ => ⟨fun _ => 0, rfl⟩

/-- A client closes a descriptor that it has not, and the server hears of both at once. -/
def sampleSession : List SessionEvent :=
  [.connects 1 "host" 7, .calls 1 (.close 1), .serves 1 (sampleCut 16) (.decafsClientInit 1 "host" 7),
    .serves 1 (sampleCut 16) (.message 1 (.closeFile 1 noClient)),
    .returns 1 (sampleCut 16) (.close 1) ⟨-1, []⟩]

/-- What the client sends. -/
def sampleToServer : List UInt8 :=
  (DecafsClientInit.create (fun _ => 0) 7).packet ++ (ClosePacket.create (fun _ => 0) 1).packet

/-- What the server sends. -/
def sampleToClient : List UInt8 := (CloseResponsePacket.create (fun _ => 0) (-1)).packet

theorem steps_sampleSession : ∃ s, Steps (Guarded Sessions.Whole (Sessions.Step sampleRuntime))
    ⟨BaristaServer.sampleBarista, fun _ => none⟩ sampleSession s := by
  obtain ⟨server₃, hserves, hreplies⟩ := BaristaServer.exists_steps (R := sampleRuntime)
    (s := BaristaServer.sampleBarista)
    [.clientConnected 1, .decafsClientInit 1 "host" 7, .message 1 (.closeFile 1 noClient)]
    (p := fun s => decide (repliesTo 1 s.world = [.closeResult (-1)])) (by decide +kernel)
  obtain ⟨server₁, hconnect, hserves⟩ := Steps.cons_iff.mp hserves
  obtain ⟨server₂, hinit, hserves⟩ := Steps.cons_iff.mp hserves
  obtain ⟨server₃', hclose, hend⟩ := Steps.cons_iff.mp hserves
  obtain rfl : server₃' = server₃ := Steps.nil_iff.mp hend
  have hreplies : repliesTo 1 server₃'.world = [.closeResult (-1)] := of_decide_eq_true hreplies
  have hworld : server₂.world = server₁.world :=
    (BaristaServer.init_of_step (BaristaServer.pending_of_step hconnect.2) hinit.2).1
  have hsilent : repliesTo 1 server₁.world = [] := by
    rw [repliesTo_congr (BaristaServer.front_of_step (.inl rfl) hconnect.2)]
    rfl
  have hanswer : [] ++ sentBytes server₁.world server₂.world 1 ++ sentBytes server₂.world server₃'.world 1 =
      sampleToClient := by
    rw [sentBytes, sentBytes, hworld, hsilent, hreplies]
    rfl
  have hfits : (sampleCut 16).Fits sampleToServer := by decide +kernel
  have hreceived : (sampleCut 16).Received sampleToServer :=
    ⟨by decide +kernel, by decide +kernel, by decide +kernel⟩
  have hfits' : (sampleCut 16).Fits (sampleToServer.drop 16) := by decide +kernel
  have hreceived' : (sampleCut 16).Received (sampleToServer.drop 16) :=
    ⟨by decide +kernel, by decide +kernel, by decide +kernel⟩
  -- the connection after each event
  obtain ⟨session₁, hconnects, hs₁⟩ : ∃ session, Sessions.Step sampleRuntime
      ⟨BaristaServer.sampleBarista, fun _ => none⟩ (.connects 1 "host" 7) ⟨server₁, session⟩ ∧
      session 1 = some ⟨"host", 7, sampleToServer.take 16, [], none, false⟩ :=
    ⟨_, @Sessions.Step.connects _ _ _ _ _ _ (fun _ => 0) rfl hconnect.2, rfl⟩
  obtain ⟨session₂, hcalls, hs₂⟩ : ∃ session, Sessions.Step sampleRuntime
      ⟨server₁, session₁⟩ (.calls 1 (.close 1)) ⟨server₁, session⟩ ∧
      session 1 = some ⟨"host", 7, sampleToServer, [], some (.close 1), false⟩ :=
    ⟨_, @Sessions.Step.calls _ ⟨server₁, session₁⟩ _ _ _ (fun _ => 0) hs₁ rfl rfl, session_update 1 _ _⟩
  have htaken : handleMessageFromClient (sampleCut 16) sampleToServer =
      some ((some .decafsClientInit, sampleToServer.take 16), sampleToServer.drop 16) := by decide +kernel
  have huser : BaristaServer.received 1 "host" [] (sampleToServer.take 16) .decafsClientInit =
      some (.decafsClientInit 1 "host" 7) :=
    congrArg (fun v => some (ServerEvent.decafsClientInit 1 "host" v))
      (by decide +kernel : (DecafsClientInit.ofBuffer (sampleToServer.take 16)).value = 7)
  obtain ⟨session₃, hinits, hs₃⟩ : ∃ session, Sessions.Step sampleRuntime
      ⟨server₁, session₂⟩ (.serves 1 (sampleCut 16) (.decafsClientInit 1 "host" 7)) ⟨server₂, session⟩ ∧
      session 1 = some ⟨"host", 7, sampleToServer.drop 16,
        [] ++ sentBytes server₁.world server₂.world 1, some (.close 1), false⟩ :=
    ⟨_, @Sessions.Step.serves _ ⟨server₁, session₂⟩ _ _ _ _ _ _ _ [] _ _ hs₂ rfl hfits htaken
      huser hinit.2 (sends_sentBytes _ _), session_forwarded 1 _ _ _⟩
  have htaken' : handleMessageFromClient (sampleCut 16) (sampleToServer.drop 16) =
      some ((some .close, sampleToServer.drop 16), []) := by decide +kernel
  have hfd : BaristaServer.received 1 "host" [] (sampleToServer.drop 16) .close =
      some (.message 1 (.closeFile 1 noClient)) :=
    congrArg (fun fd => some (ServerEvent.message 1 (.closeFile fd noClient)))
      (by decide +kernel : toInt32 (ClosePacket.ofBuffer (sampleToServer.drop 16)).value = 1)
  obtain ⟨session₄, hserves, hs₄⟩ : ∃ session, Sessions.Step sampleRuntime
      ⟨server₂, session₃⟩ (.serves 1 (sampleCut 16) (.message 1 (.closeFile 1 noClient)))
        ⟨server₃', session⟩ ∧
      session 1 = some ⟨"host", 7, [], sampleToClient, some (.close 1), false⟩ := by
    refine ⟨_, @Sessions.Step.serves _ ⟨server₂, session₃⟩ _ _ _ _ _ _ _ [] _ _ hs₃ rfl hfits' htaken'
      hfd hclose.2 (sends_sentBytes _ _), ?_⟩
    rw [session_forwarded, hanswer]
  have hfits'' : (sampleCut 16).Fits sampleToClient := by decide +kernel
  have htaken'' : DecafsClient.waitForPacket (sampleCut 16) sampleToClient =
      some ((none, sampleToClient), []) := by decide +kernel
  obtain ⟨session₅, hreturns⟩ : ∃ session, Sessions.Step sampleRuntime
      ⟨server₃', session₄⟩ (.returns 1 (sampleCut 16) (.close 1) ⟨-1, []⟩) ⟨server₃', session⟩ := by
    have hresult : (ClientCall.close 1).result sampleToClient = ⟨-1, []⟩ := by decide +kernel
    rw [← hresult]
    exact ⟨_, @Sessions.Step.returns _ ⟨server₃', session₄⟩ _ _ _ _ _ _ _ hs₄ rfl rfl hfits'' htaken''⟩
  have hreceived'' : (sampleCut 16).Received sampleToClient :=
    ⟨by decide +kernel, by decide +kernel, by decide +kernel⟩
  have hwhole₂ : Sessions.Whole ⟨server₁, session₂⟩
      (.serves 1 (sampleCut 16) (.decafsClientInit 1 "host" 7)) := by
    rintro t ht
    obtain rfl := Option.some.inj (hs₂.symm.trans ht)
    exact hreceived
  have hwhole₃ : Sessions.Whole ⟨server₂, session₃⟩
      (.serves 1 (sampleCut 16) (.message 1 (.closeFile 1 noClient))) := by
    rintro t ht
    obtain rfl := Option.some.inj (hs₃.symm.trans ht)
    exact hreceived'
  have hwhole₄ : Sessions.Whole ⟨server₃', session₄⟩
      (.returns 1 (sampleCut 16) (.close 1) ⟨-1, []⟩) := by
    rintro t ht
    obtain rfl := Option.some.inj (hs₄.symm.trans ht)
    exact hreceived''
  exact ⟨_, .cons ⟨trivial, hconnects⟩ (.cons ⟨trivial, hcalls⟩ (.cons ⟨hwhole₂, hinits⟩
    (.cons ⟨hwhole₃, hserves⟩ (.single ⟨hwhole₄, hreturns⟩))))⟩

end

end DecaFS
