import DecaFS.BaristaCore.Exchange
import DecaFS.ForMathlib.Calls
import DecaFS.ForMathlib.SearchFill
import DecaFS.Types.Keys

/-!
# Putting a read together

The responses to the packets of a read go into a `std::map` under their chunks, and the result lists
the map. `receiveRead` is a read from its registration on, with some responses during the sends and the
others after them. Whatever the order and the split, the result is the responses one after the other in
the order of their chunks, if `operator<` tells the stripes apart and their sizes add up to an `int`
(`reassembly_iff`); if it does not tell two stripes apart, some order of arrival mixes them up or loses
one.
-/

namespace DecaFS

open Code Barista Search

/-- A `ReadChunkResponse`, as far as `read_response_handler` reads it. -/
structure ReadResponse where
  chunk : FileChunk
  count : ℤ
  data : List UInt8

namespace ReadResponse

/-- The entry of the response in the map. -/
def packet (r : ReadResponse) : FileChunk × List UInt8 := (r.chunk, readBuffer r.count r.data)

/-- The sizes of the buffers together. -/
def total (rs : List ReadResponse) : ℕ := (rs.map fun r => r.packet.2.length).sum

/-- The buffers one after the other, by stripe and chunk. -/
def inOrder (rs : List ReadResponse) : List UInt8 :=
  ((rs.map packet).insertionSort fun e e' => e.1.rank ≤ e'.1.rank).flatMap Prod.snd

end ReadResponse

/-- Handle the responses to the read `id`, one after the other. -/
def Barista.readResponses (R : Runtime) (id : ℕ) : List ReadResponse → Barista PUnit
  | [] => return
  | r :: rs => do
    readResponseHandler R id r.chunk r.count r.data
    readResponses R id rs

/-- A read that was registered: the responses `early` come while its `n` packets are sent, and `late`
after that. -/
def Barista.receiveRead (R : Runtime) (id n : ℕ) (early late : List ReadResponse) : Barista PUnit := do
  readResponses R id early
  finishRead id n
  readResponses R id late

/-- In whatever order the responses come, the result has them in the order of their chunks and their
sizes added up. -/
def Reassembles (R : Runtime) (rs : List ReadResponse) : Prop :=
  ∀ (w : World) (id : ℕ) (a : ReadRequestInfo), w.requests.activeReadRequests.lookup id = some a →
    a.info.chunksExpected = 0 → a.info.chunksReceived = 0 → a.responsePackets = [] →
    ∀ early late, (early ++ late).Perm rs → ∃ w', receiveRead R id rs.length early late w = .ok (⟨⟩, w') ∧
      w'.network.log = .replied (.read id) a.info.client
        (.readResult a.fd (ReadResponse.total rs) (ReadResponse.inOrder rs)) :: w.network.log

section

variable {R : Runtime} {w : World} {id n : ℕ} {a : ReadRequestInfo} {rs : List ReadResponse}

/-- The entry of a read after more responses. -/
def ReadRequestInfo.heardAll (R : Runtime) (a : ReadRequestInfo) (rs : List ReadResponse) :
    ReadRequestInfo :=
  rs.foldl (fun a r => a.heard R r.chunk (readBuffer r.count r.data)) a

theorem heardAll_eq (rs : List ReadResponse) : a.heardAll R rs =
    { a with
      info := { a.info with chunksReceived := a.info.chunksReceived + rs.length }
      responsePackets := R.search.fill (rs.map ReadResponse.packet) a.responsePackets } := by
  induction rs generalizing a with
  | nil => rfl
  | cons r rs ih =>
    have hcons : a.heardAll R (r :: rs) =
        (a.heard R r.chunk (readBuffer r.count r.data)).heardAll R rs := rfl
    rw [hcons, ih, List.length_cons, Nat.add_comm rs.length 1, ← Nat.add_assoc]
    rfl

/-! ### Handling the responses -/

theorem wp_readResponseHandler {Q : PUnit → World → Prop} {E : Halt Site → Prop} {r : ReadResponse}
    (ha : w.requests.activeReadRequests.lookup id = some a) :
    wp (readResponseHandler R id r.chunk r.count r.data) Q E w ↔
      wp (checkReadComplete id) Q E { w with
        requests := w.requests.setRead id (a.heard R r.chunk (readBuffer r.count r.data)) } := by
  have hexists : w.requests.readRequestExists id = true :=
    decide_eq_true (Finmap.mem_of_lookup_eq_some ha)
  have hread : w.requests.readRequest id = a := by simp [Requests.readRequest, ha]
  simp only [readResponseHandler, wp_bind, wp_get, wp_assert, requests, wp_zoom, wp_modify, hexists,
    hread, true_implies, reduceCtorEq, false_implies, and_true]
  rfl

theorem readResponses_append (l l' : List ReadResponse) :
    readResponses R id (l ++ l') = (do readResponses R id l; readResponses R id l') := by
  induction l with
  | nil => rfl
  | cons r l ih => simp only [List.cons_append, readResponses, ih, bind_assoc]

/-- Responses of which the last is still to come. -/
theorem readResponses_pending (rs : List ReadResponse) (ha : w.requests.activeReadRequests.lookup id = some a)
    (hmore : a.info.chunksExpected = 0 ∨
      a.info.chunksReceived + rs.length < a.info.chunksExpected) :
    ∃ w', readResponses R id rs w = .ok (⟨⟩, w') ∧
      w'.requests.activeReadRequests.lookup id = some (a.heardAll R rs) ∧
      w'.network.log = w.network.log := by
  induction rs generalizing a w with
  | nil => exact ⟨w, rfl, ha, rfl⟩
  | cons r rs ih =>
    let a' := a.heard R r.chunk (readBuffer r.count r.data)
    have hmore' : a'.info.chunksExpected = 0 ∨
        a'.info.chunksReceived + rs.length < a'.info.chunksExpected := by
      refine hmore.imp_right fun hlt => ?_
      change a.info.chunksReceived + 1 + rs.length < a.info.chunksExpected
      rw [List.length_cons] at hlt
      omega
    have hnot : ¬ (a'.info.chunksExpected ≠ 0 ∧ a'.info.chunksExpected = a'.info.chunksReceived) := by
      rintro ⟨h₀, h₁⟩
      have hlt := hmore'.resolve_left h₀
      omega
    have hr : readResponseHandler R id r.chunk r.count r.data w =
        .ok (⟨⟩, { w with requests := w.requests.setRead id a' }) := by
      refine eq_ok_iff_wp.mpr ((wp_readResponseHandler ha).mpr ?_)
      rw [wp_checkReadComplete (Finmap.lookup_insert _), if_neg hnot]
      exact ⟨rfl, rfl⟩
    obtain ⟨w', hrest, hlookup, hlog⟩ :=
      ih (w := { w with requests := w.requests.setRead id a' }) (Finmap.lookup_insert _) hmore'
    refine ⟨w', ?_, hlookup, hlog⟩
    rw [readResponses, bind_of_ok hr, hrest]

/-- The responses up to the last. -/
theorem readResponses_last (ha : w.requests.activeReadRequests.lookup id = some a) (hne : rs ≠ [])
    (hlast : a.info.chunksExpected = a.info.chunksReceived + rs.length) :
    ∃ w', readResponses R id rs w = .ok (⟨⟩, w') ∧
      w'.network.log = readReply id a (a.heardAll R rs).responsePackets :: w.network.log := by
  obtain ⟨init, r, rfl⟩ : ∃ init r, rs = init ++ [r] :=
    ⟨rs.dropLast, rs.getLast hne, (List.dropLast_append_getLast hne).symm⟩
  rw [List.length_append, List.length_singleton] at hlast
  obtain ⟨w₁, hinit, ha₁, hlog₁⟩ := readResponses_pending (R := R) init ha (.inr (by omega))
  let a₁ := a.heardAll R init
  have ha₁' : a₁ = _ := heardAll_eq init
  let a' := a₁.heard R r.chunk (readBuffer r.count r.data)
  have hdone : a'.info.chunksExpected ≠ 0 ∧ a'.info.chunksExpected = a'.info.chunksReceived := by
    have hexpected : a'.info.chunksExpected = a.info.chunksExpected := by
      change a₁.info.chunksExpected = _
      rw [ha₁']
    have hreceived : a'.info.chunksReceived = a.info.chunksReceived + init.length + 1 := by
      change a₁.info.chunksReceived + 1 = _
      rw [ha₁']
    omega
  have hall : a.heardAll R (init ++ [r]) = a' := List.foldl_append
  have hsame : a'.info.client = a.info.client ∧ a'.fd = a.fd := by
    change a₁.info.client = _ ∧ a₁.fd = _
    rw [ha₁']
    exact ⟨rfl, rfl⟩
  obtain ⟨w', hr, hlog⟩ : ∃ w', readResponseHandler R id r.chunk r.count r.data w₁ = .ok (⟨⟩, w') ∧
      w'.network.log = readReply id a' a'.responsePackets :: w₁.network.log := by
    refine ⟨reply (.read id) a'.info.client (.readResult a'.fd (packetCount a'.responsePackets)
      (a'.responsePackets.flatMap Prod.snd)) ((w₁.requests.setRead id a').eraseRead id)
      { w₁ with requests := w₁.requests.setRead id a' }, eq_ok_iff_wp.mpr ?_, rfl⟩
    rw [wp_readResponseHandler ha₁, wp_checkReadComplete (Finmap.lookup_insert _), if_pos hdone]
    exact ⟨rfl, rfl⟩
  refine ⟨w', ?_, ?_⟩
  · rw [readResponses_append, bind_of_ok hinit, readResponses, bind_of_ok hr]
    rfl
  · rw [hlog, hlog₁, hall, readReply, readReply, hsame.1, hsame.2]

theorem finishRead_eq (ha : w.requests.activeReadRequests.lookup id = some a) :
    finishRead id n w = checkReadComplete id { w with
      requests := w.requests.setRead id { a with info := { a.info with chunksExpected := n } } } := by
  have hexists : w.requests.readRequestExists id = true :=
    decide_eq_true (Finmap.mem_of_lookup_eq_some ha)
  have hread : w.requests.readRequest id = a := by simp [Requests.readRequest, ha]
  have hassert : (DecaFS.assert .readFileEnd (w.requests.readRequestExists id) : Barista PUnit) w =
      .ok (⟨⟩, w) := by
    rw [hexists]
    rfl
  have hget : finishRead id n w = ((DecaFS.assert .readFileEnd (w.requests.readRequestExists id) :
      Barista PUnit) >>= fun _ => do
        requests <| modify fun r =>
          let request := r.readRequest id
          r.setRead id { request with info := { request.info with chunksExpected := n } }
        checkReadComplete id) w := rfl
  rw [hget, bind_of_ok hassert, ← hread]
  rfl

/-- **What the client of a read gets**, whatever the responses and however they come. -/
theorem receiveRead_eq (ha : w.requests.activeReadRequests.lookup id = some a)
    (hexpected : a.info.chunksExpected = 0) (hreceived : a.info.chunksReceived = 0)
    (early late : List ReadResponse) (hne : early ++ late ≠ []) :
    ∃ w', receiveRead R id (early ++ late).length early late w = .ok (⟨⟩, w') ∧
      w'.network.log = readReply id a
        (R.search.fill ((early ++ late).map ReadResponse.packet) a.responsePackets) ::
          w.network.log := by
  obtain ⟨w₁, hearly, ha₁, hlog₁⟩ := readResponses_pending (R := R) early ha (.inl hexpected)
  have hheard := heardAll_eq (R := R) (a := a) early
  let n := (early ++ late).length
  let a₂ : ReadRequestInfo :=
    { a.heardAll R early with info := { (a.heardAll R early).info with chunksExpected := n } }
  let w₂ : World := { w₁ with requests := w₁.requests.setRead id a₂ }
  have ha₂ : w₂.requests.activeReadRequests.lookup id = some a₂ := Finmap.lookup_insert _
  have hreceived₂ : a₂.info.chunksReceived = early.length := by
    change (a.heardAll R early).info.chunksReceived = _
    rw [hheard, hreceived, Nat.zero_add]
  have hsame : a₂.info.client = a.info.client ∧ a₂.fd = a.fd := by
    change (a.heardAll R early).info.client = _ ∧ (a.heardAll R early).fd = _
    rw [hheard]
    exact ⟨rfl, rfl⟩
  have hpackets : a₂.responsePackets =
      R.search.fill (early.map ReadResponse.packet) a.responsePackets := by
    change (a.heardAll R early).responsePackets = _
    rw [hheard]
  have hn : n = early.length + late.length := List.length_append
  rcases eq_or_ne late [] with rfl | hlate₀
  · -- all responses are there when the packets are sent
    have hn₀ : n ≠ 0 := fun h => hne (List.eq_nil_of_length_eq_zero h)
    have hdone : a₂.info.chunksExpected ≠ 0 ∧ a₂.info.chunksExpected = a₂.info.chunksReceived :=
      ⟨hn₀, hn.trans hreceived₂.symm⟩
    let w' : World := reply (.read id) a₂.info.client (.readResult a₂.fd
      (packetCount a₂.responsePackets) (a₂.responsePackets.flatMap Prod.snd))
      (w₂.requests.eraseRead id) w₂
    have hfinish : finishRead id n w₁ = .ok (⟨⟩, w') := by
      rw [finishRead_eq ha₁]
      refine eq_ok_iff_wp.mpr ((wp_checkReadComplete ha₂).mpr ?_)
      rw [if_pos hdone]
      exact ⟨rfl, rfl⟩
    have hlog' : w'.network.log = readReply id a₂ a₂.responsePackets :: w₁.network.log := rfl
    refine ⟨w', ?_, ?_⟩
    · rw [receiveRead, bind_of_ok hearly, bind_of_ok hfinish]
      rfl
    · rw [hlog', hlog₁, readReply, readReply, hsame.1, hsame.2, hpackets, List.append_nil]
  · have hnot : ¬ (a₂.info.chunksExpected ≠ 0 ∧ a₂.info.chunksExpected = a₂.info.chunksReceived) := by
      rintro ⟨-, hall⟩
      have hlength : early.length + late.length = early.length :=
        hn.symm.trans (hall.trans hreceived₂)
      exact hlate₀ (List.eq_nil_of_length_eq_zero (by omega))
    have hfinish : finishRead id n w₁ = .ok (⟨⟩, w₂) := by
      rw [finishRead_eq ha₁]
      refine eq_ok_iff_wp.mpr ((wp_checkReadComplete ha₂).mpr ?_)
      rw [if_neg hnot]
      exact ⟨rfl, rfl⟩
    have hlast : a₂.info.chunksExpected = a₂.info.chunksReceived + late.length := by
      rw [hreceived₂]
      exact hn
    obtain ⟨w', hlate, hlog'⟩ := readResponses_last (R := R) ha₂ hlate₀ hlast
    refine ⟨w', ?_, ?_⟩
    · rw [receiveRead, bind_of_ok hearly, bind_of_ok hfinish, hlate]
    · rw [hlog', heardAll_eq, readReply, readReply, hsame.1, hsame.2, hpackets, List.map_append,
        fill_append]
      exact congrArg _ hlog₁

/-! ### The order of the chunks -/

/-- The count of a result: the sizes of its packets added up in an `int`. -/
theorem packetCount_eq (packets : List (FileChunk × List UInt8)) :
    packetCount packets = toInt32 ((packets.map fun p => p.2.length).sum : ℕ) := by
  have hfold : ∀ (packets : List (FileChunk × List UInt8)) (x : ℤ),
      packets.foldl (fun count p => toInt32 (count + p.2.length)) (toInt32 x) =
        toInt32 (x + (packets.map fun p => p.2.length).sum) := by
    intro packets
    induction packets with
    | nil => intro x; simp
    | cons p packets ih =>
      intro x
      rw [List.foldl_cons, toInt32_add, ih, List.map_cons, List.sum_cons, Int.natCast_add, add_assoc]
  have hzero := hfold packets 0
  rwa [zero_add] at hzero

theorem total_perm {rs' : List ReadResponse} (h : rs'.Perm rs) :
    ReadResponse.total rs' = ReadResponse.total rs :=
  (h.map _).sum_eq

/-- **The chunks whose stripes are told apart** come in the order of their ranks. -/
theorem fill_inOrder {rs' : List ReadResponse} (hperm : rs'.Perm rs)
    (honce : (rs.map ReadResponse.chunk).Nodup)
    (hapart : ∀ r ∈ rs, ∀ r' ∈ rs, r.chunk.StripesApart r'.chunk) :
    R.search.fill (rs'.map ReadResponse.packet) [] =
      (rs.map ReadResponse.packet).insertionSort fun e e' => e.1.rank ≤ e'.1.rank := by
  refine fill_eq_insertionSort (hperm.map _) ?_ ?_
  · intro e he e' he'
    obtain ⟨r, hr, rfl⟩ := List.mem_map.mp he
    obtain ⟨r', hr', rfl⟩ := List.mem_map.mp he'
    exact FileChunk.less_iff_rank_lt (hapart r hr r' hr') (hapart r' hr' r hr)
  · refine List.pairwise_map.mpr ((List.pairwise_map.mp honce).imp fun hne heq => ?_)
    exact hne (FileChunk.rank_injective heq)

theorem reassembles_iff_total (hne : rs ≠ []) (honce : (rs.map ReadResponse.chunk).Nodup)
    (hapart : ∀ r ∈ rs, ∀ r' ∈ rs, r.chunk.StripesApart r'.chunk) :
    Reassembles R rs ↔ (ReadResponse.total rs : ℤ) ≤ intMax := by
  -- the result of a read, up to its count
  have hresult : ∀ (w : World) (id : ℕ) (a : ReadRequestInfo),
      w.requests.activeReadRequests.lookup id = some a → a.info.chunksExpected = 0 →
      a.info.chunksReceived = 0 → a.responsePackets = [] → ∀ early late, (early ++ late).Perm rs →
      ∃ w', receiveRead R id rs.length early late w = .ok (⟨⟩, w') ∧
        w'.network.log = .replied (.read id) a.info.client (.readResult a.fd
          (toInt32 (ReadResponse.total rs)) (ReadResponse.inOrder rs)) :: w.network.log := by
    intro w id a ha hexpected hreceived hpackets early late hperm
    have hne' : early ++ late ≠ [] := fun hnil => hne (List.nil_perm.mp (hnil ▸ hperm))
    obtain ⟨w', hrun, hlog⟩ := receiveRead_eq (R := R) ha hexpected hreceived early late hne'
    have hsum : packetCount (R.search.fill ((early ++ late).map ReadResponse.packet) []) =
        toInt32 (ReadResponse.total rs) := by
      rw [fill_inOrder hperm honce hapart, packetCount_eq]
      refine congrArg (fun n : ℕ => toInt32 n) ?_
      rw [((List.perm_insertionSort _ (rs.map ReadResponse.packet)).map _).sum_eq, List.map_map]
      rfl
    refine ⟨w', hperm.length_eq ▸ hrun, ?_⟩
    rw [hlog, hpackets, readReply, hsum, fill_inOrder hperm honce hapart]
    rfl
  constructor
  · intro h
    let a : ReadRequestInfo := {}
    let w : World := { volatile := .justStarted, requests := ({} : Requests).setRead 0 a }
    have ha : w.requests.activeReadRequests.lookup 0 = some a := Finmap.lookup_insert _
    obtain ⟨w₁, hrun₁, hlog₁⟩ := h w 0 a ha rfl rfl rfl rs [] (by simp)
    obtain ⟨w₂, hrun₂, hlog₂⟩ := hresult w 0 a ha rfl rfl rfl rs [] (by simp)
    obtain rfl : w₁ = w₂ := by
      rw [hrun₁] at hrun₂
      exact congrArg Prod.snd (Except.ok.inj hrun₂)
    have hcount : (ReadResponse.total rs : ℤ) = toInt32 (ReadResponse.total rs) := by
      have heq := List.head_eq_of_cons_eq (hlog₁.symm.trans hlog₂)
      simpa using heq
    exact hcount ▸ (toInt32_mem _).2
  · intro htotal
    have hcount : toInt32 (ReadResponse.total rs) = ReadResponse.total rs :=
      toInt32_eq (by omega) htotal
    rw [Reassembles]
    simpa only [hcount] using hresult

/-! ### Stripes that are not told apart -/

section

variable {ks : List FileChunk} {k k' : FileChunk}

/-- A response to the packet of `x` that brings one byte if `x` is `k` or `k'`. -/
def marked (k k' x : FileChunk) : ReadResponse :=
  if x = k then ⟨x, 1, [0]⟩ else if x = k' then ⟨x, 1, [1]⟩ else ⟨x, 0, []⟩

theorem chunk_marked (k k' x : FileChunk) : (marked k k' x).chunk = x := by
  unfold marked
  split_ifs <;> rfl

theorem packet_marked_left (k k' : FileChunk) : (marked k k' k).packet = (k, [0]) := by
  rw [marked, if_pos rfl]
  rfl

theorem packet_marked_right (hne : k ≠ k') : (marked k k' k').packet = (k', [1]) := by
  rw [marked, if_neg hne.symm, if_pos rfl]
  rfl

theorem packet_marked_of_ne {x : FileChunk} (hk : x ≠ k) (hk' : x ≠ k') :
    (marked k k' x).packet.2 = [] := by
  rw [marked, if_neg hk, if_neg hk']
  rfl

/-- The marked chunks and those without content. -/
theorem exists_perm_marked (honce : ks.Nodup) (hk : k ∈ ks) (hk' : k' ∈ ks) (hne : k ≠ k') :
    ∃ rest : List ReadResponse, (marked k k' k :: marked k k' k' :: rest).Perm (ks.map (marked k k')) ∧
      ∀ r ∈ rest, r.packet.2 = [] := by
  refine ⟨((ks.erase k).erase k').map (marked k k'), ?_, ?_⟩
  · have hmem : k' ∈ ks.erase k := (honce.mem_erase_iff).mpr ⟨hne.symm, hk'⟩
    have hperm := (List.perm_cons_erase hk).trans ((List.perm_cons_erase hmem).cons k)
    exact (hperm.map (marked k k')).symm
  · intro r hr
    obtain ⟨x, hx, rfl⟩ := List.mem_map.mp hr
    obtain ⟨hxk', hx⟩ := ((honce.erase k).mem_erase_iff).mp hx
    exact packet_marked_of_ne (honce.mem_erase_iff.mp hx).1 hxk'

theorem total_marked (honce : ks.Nodup) (hk : k ∈ ks) (hk' : k' ∈ ks) (hne : k ≠ k') :
    ReadResponse.total (ks.map (marked k k')) = 2 := by
  obtain ⟨rest, hperm, hrest⟩ := exists_perm_marked honce hk hk' hne
  have hzero : (rest.map fun r => r.packet.2.length).sum = 0 := by
    rw [List.sum_eq_zero]
    intro n hn
    obtain ⟨r, hr, rfl⟩ := List.mem_map.mp hn
    rw [hrest r hr]
    rfl
  rw [← total_perm hperm]
  simp [ReadResponse.total, packet_marked_left, packet_marked_right hne, hzero]

/-- In the order of the chunks the smaller of the marked ones comes first. -/
theorem sublist_inOrder_marked (hk : k ∈ ks) (hk' : k' ∈ ks) (hne : k ≠ k')
    (hlt : k.rank < k'.rank) :
    ([0, 1] : List UInt8).Sublist (ReadResponse.inOrder (ks.map (marked k k'))) := by
  let r : FileChunk × List UInt8 → FileChunk × List UInt8 → Prop := fun e e' => e.1.rank ≤ e'.1.rank
  have htotal : Std.Total r := ⟨fun _ _ => le_total _ _⟩
  have htrans : IsTrans (FileChunk × List UInt8) r := ⟨fun _ _ _ => le_trans⟩
  let packets := (ks.map (marked k k')).map ReadResponse.packet
  have hmem : ∀ x ∈ ks, (marked k k' x).packet ∈ packets.insertionSort r := fun x hx =>
    (List.mem_insertionSort r).mpr (List.mem_map_of_mem (List.mem_map_of_mem hx))
  have hmem_k := hmem k hk
  have hmem_k' := hmem k' hk'
  rw [packet_marked_left] at hmem_k
  rw [packet_marked_right hne] at hmem_k'
  obtain ⟨front, back, hsplit⟩ := List.append_of_mem hmem_k
  have hsorted := List.pairwise_insertionSort r packets
  rw [hsplit] at hsorted hmem_k'
  have hback : (k', [1]) ∈ back := by
    rcases List.mem_append.mp hmem_k' with hfront | hmem
    · have hle : k'.rank ≤ k.rank :=
        (List.pairwise_append.mp hsorted).2.2 _ hfront _ List.mem_cons_self
      exact absurd hlt (not_lt.mpr hle)
    · refine (List.mem_cons.mp hmem).resolve_left fun heq => hne ?_
      exact (congrArg Prod.fst heq).symm
  have hinOrder : ReadResponse.inOrder (ks.map (marked k k')) =
      front.flatMap Prod.snd ++ ([0] ++ back.flatMap Prod.snd) := by
    rw [ReadResponse.inOrder]
    change (packets.insertionSort r).flatMap Prod.snd = _
    rw [hsplit, List.flatMap_append, List.flatMap_cons]
  have hone : ([1] : List UInt8).Sublist (back.flatMap Prod.snd) :=
    List.singleton_sublist.mpr (List.mem_flatMap.mpr ⟨_, hback, List.mem_singleton_self _⟩)
  rw [hinOrder]
  exact List.sublist_append_of_sublist_right ((List.Sublist.refl [0]).append hone)

/-- **Two stripes that are not told apart** come out wrong in some order of arrival. -/
theorem not_reassembles_marked (honce : ks.Nodup) (hk : k ∈ ks) (hk' : k' ∈ ks)
    (hnot : ¬ k.StripesApart k') : ¬ Reassembles R (ks.map (marked k k')) := by
  intro h
  obtain ⟨hne, hboth⟩ := FileChunk.not_stripesApart hnot
  have hlt : k.rank < k'.rank := by
    unfold FileChunk.StripesApart at hnot
    push Not at hnot
    exact FileChunk.rank_lt_iff.mpr (.inr ⟨hnot.1, .inl hnot.2.1⟩)
  have hsub := sublist_inOrder_marked hk hk' hne hlt
  obtain ⟨rest, hperm, hrest⟩ := exists_perm_marked honce hk hk' hne
  -- what the client gets if the responses come in the order `l`
  have hbuf : ∀ l : List ReadResponse, l.Perm (ks.map (marked k k')) →
      ReadResponse.inOrder (ks.map (marked k k')) =
        (R.search.fill (l.map ReadResponse.packet) []).flatMap Prod.snd := by
    intro l hl
    let a : ReadRequestInfo := {}
    let w : World := { volatile := .justStarted, requests := ({} : Requests).setRead 0 a }
    have ha : w.requests.activeReadRequests.lookup 0 = some a := Finmap.lookup_insert _
    have hl₀ : l ++ [] ≠ [] := by
      rw [List.append_nil]
      rintro rfl
      exact absurd (List.nil_perm.mp hl) (by simpa using List.ne_nil_of_mem hk)
    obtain ⟨w₁, hrun₁, hlog₁⟩ := h w 0 a ha rfl rfl rfl l [] (by simpa using hl)
    obtain ⟨w₂, hrun₂, hlog₂⟩ := receiveRead_eq (R := R) ha rfl rfl l [] hl₀
    rw [List.append_nil, hl.length_eq] at hrun₂
    obtain rfl : w₁ = w₂ := by
      rw [hrun₁] at hrun₂
      exact congrArg Prod.snd (Except.ok.inj hrun₂)
    have heq := List.head_eq_of_cons_eq (hlog₁.symm.trans hlog₂)
    simp only [readReply, Event.replied.injEq, Reply.readResult.injEq, List.append_nil] at heq
    exact heq.2.2.2.2
  have hnil : ∀ e ∈ rest.map ReadResponse.packet, e.2 = [] := by
    intro e he
    obtain ⟨r, hr, rfl⟩ := List.mem_map.mp he
    exact hrest r hr
  cases hless : k.less k' with
  | true =>
    -- each is less than the other: the one that comes first stays first
    have hswap := (List.Perm.swap (marked k k' k) (marked k k' k') rest).trans hperm
    have hset : R.search.fill ((marked k k' k' :: marked k k' k :: rest).map ReadResponse.packet) [] =
        R.search.fill (rest.map ReadResponse.packet) [(k', [1]), (k, [0])] := by
      rw [List.map_cons, List.map_cons, packet_marked_left, packet_marked_right hne, fill_cons,
        fill_cons, set_nil, set_pair, if_pos (hboth.mp hless)]
    rw [hbuf _ hswap, hset] at hsub
    have hpair : ([0, 1] : List UInt8).Sublist [1, 0] :=
      hsub.trans (flatMap_fill_sublist (S := R.search) hnil)
    exact absurd hpair (by decide)
  | false =>
    -- none is less: the second takes the place of the first
    have hless' : k'.less k = false := Bool.eq_false_iff.mpr fun hgt => by simp [hboth.mpr hgt] at hless
    have hset : R.search.fill ((marked k k' k :: marked k k' k' :: rest).map ReadResponse.packet) [] =
        R.search.fill (rest.map ReadResponse.packet) [(k, [1])] := by
      rw [List.map_cons, List.map_cons, packet_marked_left, packet_marked_right hne, fill_cons,
        fill_cons, set_nil, set_pair, hless, hless']
      rfl
    rw [hbuf _ hperm, hset] at hsub
    have hsingle : ([0, 1] : List UInt8).Sublist [1] :=
      hsub.trans (flatMap_fill_sublist (S := R.search) hnil)
    exact absurd hsingle (by decide)

end

end

end DecaFS
