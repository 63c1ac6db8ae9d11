import DecaFS.BaristaCore.Placement
import DecaFS.BaristaCore.Routing

/-!
# Sends that keep failing

The loops of `process_read_stripe` and `process_write_stripe` repeat a round whose send fails, after
marking the node as down. `Ends` says that a call returns while the sends to certain nodes fail, each
time, and no others; the responses that come in between are arbitrary. A read goes on to the replica
once the primary node is down, but a replica that fails is tried forever (`readStripe_failsOver_iff`);
a write returns to the recorded node as long as that one fails (`writeStripe_ends_iff`).
-/

namespace DecaFS

open Code Barista

namespace Routing

/-- The sends fail exactly at these nodes. -/
def Steady (fails : ℤ → Bool) (new : List Attempt) : Prop :=
  ∀ a ∈ new, a.accepted = !fails (toUInt32 a.node)

/-- The packets that were sent, in order. -/
def packets (new : List Attempt) : List ChunkRequest :=
  (new.reverse.filter Attempt.accepted).map Attempt.request

theorem packets_append (new old : List Attempt) :
    packets (new ++ old) = packets old ++ packets new := by
  simp [packets]

section Reading

variable {R : Runtime} {id fileId : ℕ} {fails : ℤ → Bool} {l : List Span} {a b : Routing}

theorem ReadTries.exists_tried (h : ReadTries R id fileId l a b) :
    ∃ new, b.tried = new ++ a.tried := by
  induction h with
  | done => exact ⟨[], rfl⟩
  | failed _ _ _ ih =>
    obtain ⟨new, hnew⟩ := ih
    exact ⟨new ++ [_], hnew.trans (List.append_assoc new [_] _).symm⟩
  | read _ _ _ ih =>
    obtain ⟨new, hnew⟩ := ih
    exact ⟨new ++ [_], hnew.trans (List.append_assoc new [_] _).symm⟩

/-- A chunk can be read: its primary node is up and accepts the send, or its replica's node does. -/
def Served (R : Runtime) (fails : ℤ → Bool) (m : ChunkMaps) (upNodes : List ℤ) (chunk : FileChunk) :
    Prop :=
  toUInt32 (nodeOf R m.chunkToNode chunk) ∈ upNodes ∧
      fails (toUInt32 (nodeOf R m.chunkToNode chunk)) = false ∨
    fails (toUInt32 (nodeOf R m.chunkToReplicaNode chunk)) = false

theorem Served.mono {m : ChunkMaps} {upNodes upNodes' : List ℤ} {chunk : FileChunk}
    (h : Served R fails m upNodes chunk) (hsub : upNodes ⊆ upNodes') :
    Served R fails m upNodes' chunk :=
  h.imp_left fun ⟨hup, haccepts⟩ => ⟨hsub hup, haccepts⟩

theorem Steady.of_append {new new' : List Attempt} (h : Steady fails (new ++ new')) :
    Steady fails new ∧ Steady fails new' :=
  List.forall_mem_append.mp h

/-- A read that got through all chunks was served by each of them. -/
theorem ReadTries.served (h : ReadTries R id fileId l a b) {new : List Attempt}
    (hnew : b.tried = new ++ a.tried) (hsteady : Steady fails new) :
    ∀ s ∈ l, Served R fails a.chunks a.upNodes (s.chunk fileId) := by
  induction h generalizing new with
  | done => exact List.forall_mem_nil _
  | @failed s l a b node _ _ hrest ih =>
    obtain ⟨rest, hrest⟩ := hrest.exists_tried
    obtain rfl : new = rest ++ [_] := List.append_cancel_right
      (hnew.symm.trans (hrest.trans (List.append_assoc rest [_] a.tried).symm))
    intro s' hs'
    exact (ih hrest hsteady.of_append.1 s' hs').mono (List.filter_subset_self _)
  | @read s l a b node hfrom _ hrest ih =>
    obtain ⟨rest, hrest⟩ := hrest.exists_tried
    obtain rfl : new = rest ++ [_] := List.append_cancel_right
      (hnew.symm.trans (hrest.trans (List.append_assoc rest [_] a.tried).symm))
    have haccepted : true = !fails (toUInt32 node) := hsteady.of_append.2 _ List.mem_cons_self
    have haccepts : fails (toUInt32 node) = false := by simpa using haccepted.symm
    refine List.forall_mem_cons.mpr ⟨?_, ih hrest hsteady.of_append.1⟩
    rcases hfrom with ⟨hup, rfl⟩ | ⟨-, -, rfl⟩
    · exact .inl ⟨hup, haccepts⟩
    · exact .inr haccepts

theorem Next.eq {o o' : Bool} {flags : List Bool} (h : a.Next o) (hflags : a.outcomes = o' :: flags) :
    o = o' := by
  rw [Next, hflags] at h
  exact (Option.some.inj h).symm

/-- The node a chunk is read from is determined. -/
theorem ReadsFrom.unique {chunk : FileChunk} {node node' : ℤ} (h : ReadsFrom R a chunk node)
    (h' : ReadsFrom R a chunk node') : node = node' := by
  rcases h with ⟨hup, rfl⟩ | ⟨hdown, -, rfl⟩ <;> rcases h' with ⟨hup', rfl⟩ | ⟨hdown', -, rfl⟩
  · rfl
  · exact absurd hup hdown'
  · exact absurd hup' hdown
  · rfl

/-- What follows from a first try that is accepted. -/
theorem ReadTries.of_true {s : Span} {node : ℤ} {flags : List Bool}
    (h : ReadTries R id fileId (s :: l) a b) (hfrom : ReadsFrom R a (s.chunk fileId) node)
    (hnext : a.outcomes = true :: flags) :
    ReadTries R id fileId l (a.tries true node (readPacket id fileId s)) b := by
  cases h with
  | failed _ hfalse _ => exact absurd (hfalse.eq hnext) Bool.false_ne_true
  | read hfrom' _ hrest => exact hfrom.unique hfrom' ▸ hrest

/-- What follows from a first try that fails. -/
theorem ReadTries.of_false {s : Span} {node : ℤ} {flags : List Bool}
    (h : ReadTries R id fileId (s :: l) a b) (hfrom : ReadsFrom R a (s.chunk fileId) node)
    (hnext : a.outcomes = false :: flags) :
    ReadTries R id fileId (s :: l) ((a.tries false node (readPacket id fileId s)).down node) b := by
  cases h with
  | failed hfrom' _ hrest => exact hfrom.unique hfrom' ▸ hrest
  | read _ htrue _ => exact absurd (htrue.eq hnext).symm Bool.false_ne_true

/-- Other nodes that fail may go down. -/
theorem Served.down {m : ChunkMaps} {upNodes : List ℤ} {chunk : FileChunk} {node : ℤ}
    (h : Served R fails m upNodes chunk) (hnode : fails (toUInt32 node) = true) :
    Served R fails m (upNodes.filter (· ≠ toUInt32 node)) chunk := by
  refine h.imp_left fun ⟨hup, haccepts⟩ => ⟨List.mem_filter.mpr ⟨hup, ?_⟩, haccepts⟩
  refine decide_eq_true fun heq => ?_
  rw [heq, hnode] at haccepts
  exact Bool.noConfusion haccepts

theorem Steady.append_singleton {new : List Attempt} {x : Attempt} (h : Steady fails new)
    (hx : x.accepted = !fails (toUInt32 x.node)) : Steady fails (new ++ [x]) :=
  List.forall_mem_append.mpr ⟨h, by simpa using hx⟩

/-- What a read over `l` does with the outcomes `flags`, which are those of the failing nodes. -/
def ReadsThrough (R : Runtime) (id fileId : ℕ) (fails : ℤ → Bool) (l : List Span) (m : ChunkMaps)
    (upNodes : List ℤ) (flags : List Bool) : Prop :=
  ∀ a b, a.chunks = m → a.upNodes = upNodes → a.outcomes = flags → ReadTries R id fileId l a b →
    ∃ new, b.tried = new ++ a.tried ∧ Steady fails new ∧ packets new = l.map (readPacket id fileId)

/-- A span whose read is accepted comes first. -/
theorem ReadsThrough.read {m : ChunkMaps} {upNodes : List ℤ} {s : Span} {node : ℤ}
    {flags : List Bool} (h : ReadsThrough R id fileId fails l m upNodes flags)
    (hfrom : ∀ a : Routing, a.chunks = m → a.upNodes = upNodes → ReadsFrom R a (s.chunk fileId) node)
    (haccepts : fails (toUInt32 node) = false) :
    ReadsThrough R id fileId fails (s :: l) m upNodes (true :: flags) := by
  intro a b hm hup hflags htries
  obtain ⟨new, hnew, hsteady, hpackets⟩ := h (a.tries true node (readPacket id fileId s)) b hm hup
    (congrArg List.tail hflags) (htries.of_true (hfrom a hm hup) hflags)
  refine ⟨new ++ [⟨true, node, readPacket id fileId s⟩],
    hnew.trans (List.append_assoc new [_] _).symm, hsteady.append_singleton (by simp [haccepts]), ?_⟩
  rw [packets_append, hpackets, List.map_cons]
  rfl

/-- A read that fails comes first. -/
theorem ReadsThrough.failed {m : ChunkMaps} {upNodes : List ℤ} {s : Span} {node : ℤ}
    {flags : List Bool}
    (h : ReadsThrough R id fileId fails (s :: l) m (upNodes.filter (· ≠ toUInt32 node)) flags)
    (hfrom : ∀ a : Routing, a.chunks = m → a.upNodes = upNodes → ReadsFrom R a (s.chunk fileId) node)
    (hfails : fails (toUInt32 node) = true) :
    ReadsThrough R id fileId fails (s :: l) m upNodes (false :: flags) := by
  intro a b hm hup hflags htries
  have hdown : ((a.tries false node (readPacket id fileId s)).down node).upNodes =
      upNodes.filter (· ≠ toUInt32 node) := hup ▸ rfl
  obtain ⟨new, hnew, hsteady, hpackets⟩ := h ((a.tries false node (readPacket id fileId s)).down node)
    b hm hdown (congrArg List.tail hflags) (htries.of_false (hfrom a hm hup) hflags)
  refine ⟨new ++ [⟨false, node, readPacket id fileId s⟩],
    hnew.trans (List.append_assoc new [_] _).symm, hsteady.append_singleton (by simp [hfails]), ?_⟩
  rw [packets_append, hpackets]
  rfl

/-- Served chunks are read with suitable outcomes, one of them accepted for each. -/
theorem exists_readsThrough (id : ℕ) {m : ChunkMaps} :
    ∀ (l : List Span) (upNodes : List ℤ), (∀ s ∈ l, Served R fails m upNodes (s.chunk fileId)) →
      (∀ s ∈ l, chunkExists R m.chunkToReplicaNode (s.chunk fileId) = true) →
      ∃ flags, flags.count true = l.length ∧ ReadsThrough R id fileId fails l m upNodes flags := by
  intro l
  induction l with
  | nil =>
    intro upNodes _ _
    refine ⟨[], rfl, fun a b _ _ _ htries => ⟨[], ?_, List.forall_mem_nil _, rfl⟩⟩
    cases htries
    rfl
  | cons s l ih =>
    intro upNodes hserved hreplica
    obtain ⟨hs, hl⟩ := List.forall_mem_cons.mp hserved
    obtain ⟨hexists, hrest⟩ := List.forall_mem_cons.mp hreplica
    have hfirst : ∀ a : Routing, a.chunks = m → a.upNodes = upNodes →
        toUInt32 (nodeOf R m.chunkToNode (s.chunk fileId)) ∈ upNodes →
        ReadsFrom R a (s.chunk fileId) (nodeOf R m.chunkToNode (s.chunk fileId)) := by
      rintro a rfl rfl hup
      exact .inl ⟨hup, rfl⟩
    have hsecond : ∀ up : List ℤ, toUInt32 (nodeOf R m.chunkToNode (s.chunk fileId)) ∉ up →
        ∀ a : Routing, a.chunks = m → a.upNodes = up →
        ReadsFrom R a (s.chunk fileId) (nodeOf R m.chunkToReplicaNode (s.chunk fileId)) := by
      rintro up hdown a rfl rfl
      exact .inr ⟨hdown, hexists, rfl⟩
    by_cases hup : toUInt32 (nodeOf R m.chunkToNode (s.chunk fileId)) ∈ upNodes
    · cases hfails : fails (toUInt32 (nodeOf R m.chunkToNode (s.chunk fileId))) with
      | false =>
        obtain ⟨flags, hcount, hflags⟩ := ih upNodes hl hrest
        exact ⟨true :: flags, by simp [hcount],
          hflags.read (fun a hm hupNodes => hfirst a hm hupNodes hup) hfails⟩
      | true =>
        -- the primary node goes down, and the replica is read
        have haccepts := hs.resolve_left (by simp [hfails])
        obtain ⟨flags, hcount, hflags⟩ := ih _ (fun s' hs' => (hl s' hs').down hfails) hrest
        refine ⟨false :: true :: flags, by simp [hcount],
          (hflags.read (hsecond _ ?_) haccepts).failed
            (fun a hm hupNodes => hfirst a hm hupNodes hup) hfails⟩
        simp
    · obtain ⟨flags, hcount, hflags⟩ := ih upNodes hl hrest
      exact ⟨true :: flags, by simp [hcount],
        hflags.read (hsecond _ hup) (hs.resolve_left fun h => hup h.1)⟩

end Reading

section Writing

variable {R : Runtime} {v v₁ : VolatileMetadata} {q : WriteRequest} {fileId : ℕ} {fails : ℤ → Bool}
  {l : List (Span × List UInt8)} {s : Span} {data : List UInt8} {a b : Routing} {m : ChunkMaps}
  {flags : List Bool}

/-- One node of each kind accepts sends. -/
def Redundant (fails : ℤ → Bool) : Prop :=
  (fails 1 = false ∨ fails 2 = false) ∧ (fails 3 = false ∨ fails 4 = false)

/-- The packets that write two copies of the spans. -/
def copies (q : WriteRequest) (fileId : ℕ) (l : List (Span × List UInt8)) : List ChunkRequest :=
  l.flatMap fun e => [writePacket q.requestId fileId e.1 e.2,
    writePacket q.replicaRequestId fileId e.1 e.2]

/-- The spans that are not empty. -/
def proper (l : List (Span × List UInt8)) : List (Span × List UInt8) :=
  l.filter fun e => 0 < e.1.length

/-- The packets that are not empty. -/
def payload (l : List ChunkRequest) : List ChunkRequest := l.filter fun r => 0 < r.count

/-- The primary node of each chunk, the one on record or the one that is chosen for it, accepts the
send. So does the replica's node or, once that is down, the one that `put_replica` then chooses, if
one node of each kind accepts sends. -/
def Accepting (R : Runtime) (fails : ℤ → Bool) (fileId : ℕ) :
    List Span → VolatileMetadata → ChunkMaps → Prop
  | [], _, _ => True
  | s :: l, v, m =>
    let m' := placed R v (s.chunk fileId) m
    let node := nodeOf R m'.chunkToReplicaNode (s.chunk fileId)
    fails (toUInt32 (nodeOf R m'.chunkToNode (s.chunk fileId))) = false ∧
      if fails (toUInt32 node) = true then
        (Redundant fails → 0 < s.length →
          fails (toUInt32 (putReplica (v.down node) s.chunkNum)) = false) ∧
        Accepting R fails fileId l (v.down node) m'
      else Accepting R fails fileId l v m'

theorem payload_cons (id : ℕ) (s : Span) (data : List UInt8) (l : List ChunkRequest) :
    payload (writePacket id fileId s data :: l) =
      if 0 < s.length then writePacket id fileId s data :: payload l else payload l := by
  have hpos : 0 < (writePacket id fileId s data).count ↔ 0 < s.length := Int.natCast_pos
  unfold payload
  split_ifs with hn
  · exact List.filter_cons_of_pos (by simpa [hpos] using hn)
  · exact List.filter_cons_of_neg (by simpa [hpos] using hn)

theorem copies_proper_cons : copies q fileId (proper ((s, data) :: l)) =
    if 0 < s.length then writePacket q.requestId fileId s data ::
      writePacket q.replicaRequestId fileId s data :: copies q fileId (proper l)
    else copies q fileId (proper l) := by
  unfold proper copies
  split_ifs with hn
  · rw [List.filter_cons_of_pos (by simpa using hn)]
    rfl
  · rw [List.filter_cons_of_neg (by simpa using hn)]

/-- The packets of a span whose replica is sent at the first try. -/
theorem packets_sent (new : List Attempt) (node node' : ℤ) (r r' : ChunkRequest) :
    packets (new ++ [⟨true, node', r'⟩, ⟨true, node, r⟩]) = r :: r' :: packets new := by
  simp [packets]

/-- The packets of a span whose replica is sent at the second try, or not. -/
theorem packets_resent (new : List Attempt) (o : Bool) (node node' node'' : ℤ)
    (r r' : ChunkRequest) :
    packets (new ++ [⟨o, node'', r'⟩, ⟨false, node', r'⟩, ⟨true, node, r⟩]) =
      r :: if o then r' :: packets new else packets new := by
  cases o <;> simp [packets]

theorem WriteTries.exists_tried (h : WriteTries R v q fileId l a b) :
    ∃ new, b.tried = new ++ a.tried := by
  obtain ⟨new, hnew, -⟩ := Rounds.exists_tried (h.rounds (K := Set.univ) fun _ _ => trivial)
  exact ⟨new, hnew.tried⟩

/-- At most two packets are sent for each span. -/
theorem WriteTries.length_payload_le (h : WriteTries R v q fileId l a b) {new : List Attempt}
    (hnew : b.tried = new ++ a.tried) :
    (payload (packets new)).length ≤ (copies q fileId (proper l)).length := by
  induction h generalizing new with
  | done =>
    obtain rfl : new = [] := List.self_eq_append_left.mp hnew
    exact Nat.zero_le _
  | @retry s data l a b m _ _ hrest ih =>
    obtain ⟨rest, hrest⟩ := hrest.exists_tried
    obtain rfl : new = rest ++ [_] := List.append_cancel_right
      (hnew.symm.trans (hrest.trans (List.append_assoc rest [_] a.tried).symm))
    rw [packets_append]
    exact ih hrest
  | @sent s data l a a₁ b m _ _ ha₁ _ hrest ih =>
    subst ha₁
    obtain ⟨rest, hrest⟩ := hrest.exists_tried
    obtain rfl : new = rest ++ [_, _] := List.append_cancel_right
      (hnew.symm.trans (hrest.trans (List.append_assoc rest [_, _] a.tried).symm))
    have hle := ih hrest
    rw [packets_sent, copies_proper_cons, payload_cons, payload_cons]
    split_ifs
    · exact Nat.succ_le_succ (Nat.succ_le_succ hle)
    · exact hle
  | @resent s data l a a₁ a₂ b m o _ _ ha₁ _ ha₂ _ hrest ih =>
    subst ha₁ ha₂
    obtain ⟨rest, hrest⟩ := hrest.exists_tried
    obtain rfl : new = rest ++ [_, _, _] := List.append_cancel_right
      (hnew.symm.trans (hrest.trans (List.append_assoc rest [_, _, _] a.tried).symm))
    have hle := ih hrest
    rw [packets_resent, copies_proper_cons, payload_cons]
    cases o with
    | true =>
      rw [if_pos rfl, payload_cons]
      split_ifs
      · exact Nat.succ_le_succ (Nat.succ_le_succ hle)
      · exact hle
    | false =>
      rw [if_neg Bool.false_ne_true]
      split_ifs
      · exact Nat.succ_le_succ (hle.trans (Nat.le_succ _))
      · exact hle

/-- A chunk that has its nodes keeps its primary node when it is placed once more. -/
theorem nodeOf_placed (v₁ : VolatileMetadata) {K : Set FileChunk} {k : FileChunk}
    (hm : MapsReadBack R K m) (hk : k ∈ K) :
    nodeOf R (placed R v₁ k (placed R v k m)).chunkToNode k =
      nodeOf R (placed R v k m).chunkToNode k :=
  (hm.nodeOf_eq hk (mapsGrow_placed hk)).1

/-- A write that got through all spans was accepted by the nodes of each. -/
theorem WriteTries.accepting {K : Set FileChunk} (h : WriteTries R v q fileId l a b)
    (hK : ∀ e ∈ l, e.1.chunk fileId ∈ K) (hm : MapsReadBack R K a.chunks) {new : List Attempt}
    (hnew : b.tried = new ++ a.tried) (hsteady : Steady fails new)
    (hcopies : Redundant fails → payload (packets new) = copies q fileId (proper l)) :
    Accepting R fails fileId (l.map Prod.fst) (a.nodes v) a.chunks := by
  induction h generalizing new with
  | done => trivial
  | @retry s data l a b m hplaced _ hrest ih =>
    obtain ⟨rest, htried⟩ := hrest.exists_tried
    obtain rfl : new = rest ++ [_] := List.append_cancel_right
      (hnew.symm.trans (htried.trans (List.append_assoc rest [_] a.tried).symm))
    obtain ⟨hrests, hfirst⟩ := hsteady.of_append
    have hfails : false = !fails (toUInt32 (nodeOf R m.chunkToNode (s.chunk fileId))) :=
      hfirst _ List.mem_cons_self
    have hkmem := hK _ List.mem_cons_self
    have hgrows := mapsGrow_placed (R := R) (v := a.nodes v) (m := a.chunks) hkmem
    have haccepting := ih hK (hplaced ▸ hm.of_grows hgrows) htried hrests fun hredundant => by
      rw [← hcopies hredundant, packets_append]
      rfl
    have haccepts := haccepting.1
    -- the maps keep the node that failed
    have hsame := nodeOf_placed ((a.nodes v).down (nodeOf R m.chunkToNode (s.chunk fileId)))
      (v := a.nodes v) hm hkmem
    rw [← hplaced] at hsame
    have hagain : fails (toUInt32 (nodeOf R (placed R ((a.nodes v).down
        (nodeOf R m.chunkToNode (s.chunk fileId))) (s.chunk fileId) m).chunkToNode
          (s.chunk fileId))) = false := haccepts
    rw [hsame] at hagain
    simp [hagain] at hfails
  | @sent s data l a a₁ b m hplaced _ ha₁ _ hrest ih =>
    subst ha₁
    obtain ⟨rest, htried⟩ := hrest.exists_tried
    obtain rfl : new = rest ++ [_, _] := List.append_cancel_right
      (hnew.symm.trans (htried.trans (List.append_assoc rest [_, _] a.tried).symm))
    obtain ⟨hrests, hfirst⟩ := hsteady.of_append
    have hprimary : fails (toUInt32 (nodeOf R m.chunkToNode (s.chunk fileId))) = false := by
      simpa using (hfirst _ (List.mem_cons_of_mem _ List.mem_cons_self)).symm
    have hreplica : fails (toUInt32 (nodeOf R m.chunkToReplicaNode (s.chunk fileId))) = false := by
      simpa using (hfirst _ List.mem_cons_self).symm
    have haccepting := ih (fun e he => hK e (List.mem_cons_of_mem _ he))
      (hplaced ▸ hm.of_grows (mapsGrow_placed (hK _ List.mem_cons_self))) htried hrests
      fun hredundant => by
        have hall := hcopies hredundant
        rw [packets_sent, payload_cons, payload_cons, copies_proper_cons] at hall
        split_ifs at hall
        · exact (List.cons.inj (List.cons.inj hall).2).2
        · exact hall
    rw [hplaced] at hprimary hreplica haccepting
    refine ⟨hprimary, ?_⟩
    rw [if_neg (Bool.eq_false_iff.mp hreplica)]
    exact haccepting
  | @resent s data l a a₁ a₂ b m o hplaced _ ha₁ _ ha₂ _ hrest ih =>
    subst ha₁ ha₂
    obtain ⟨rest, htried⟩ := hrest.exists_tried
    obtain rfl : new = rest ++ [_, _, _] := List.append_cancel_right
      (hnew.symm.trans (htried.trans (List.append_assoc rest [_, _, _] a.tried).symm))
    obtain ⟨hrests, hfirst⟩ := hsteady.of_append
    have hprimary : fails (toUInt32 (nodeOf R m.chunkToNode (s.chunk fileId))) = false := by
      simpa using (hfirst _ (List.mem_cons_of_mem _ (List.mem_cons_of_mem _ List.mem_cons_self))).symm
    have hreplica : fails (toUInt32 (nodeOf R m.chunkToReplicaNode (s.chunk fileId))) = true := by
      simpa using (hfirst _ (List.mem_cons_of_mem _ List.mem_cons_self)).symm
    have hagain := hfirst _ List.mem_cons_self
    have hshort := hrest.length_payload_le htried
    -- if every span needs both of its packets, the second try got through
    have hboth : Redundant fails → (0 < s.length → o = true) ∧
        payload (packets rest) = copies q fileId (proper l) := by
      intro hredundant
      have hall := hcopies hredundant
      rw [packets_resent, payload_cons, copies_proper_cons] at hall
      cases o with
      | true =>
        rw [if_pos rfl, payload_cons] at hall
        split_ifs at hall
        · exact ⟨fun _ => rfl, (List.cons.inj (List.cons.inj hall).2).2⟩
        · exact ⟨fun _ => rfl, hall⟩
      | false =>
        rw [if_neg Bool.false_ne_true] at hall
        split_ifs at hall with hlen
        · have heq := congrArg List.length (List.cons.inj hall).2
          rw [List.length_cons] at heq
          omega
        · exact ⟨fun hpos => absurd hpos hlen, hall⟩
    have haccepting := ih (fun e he => hK e (List.mem_cons_of_mem _ he))
      (hplaced ▸ hm.of_grows (mapsGrow_placed (hK _ List.mem_cons_self))) htried hrests
      fun hredundant => (hboth hredundant).2
    rw [hplaced] at hprimary hreplica haccepting hagain
    refine ⟨hprimary, ?_⟩
    rw [if_pos hreplica]
    refine ⟨fun hredundant hlen => ?_, haccepting⟩
    rw [(hboth hredundant).1 hlen] at hagain
    exact (Bool.not_eq_true' _).mp hagain.symm

/-- What a write over `l` does with the outcomes `flags`, which are those of the failing nodes. -/
def WritesThrough (R : Runtime) (v : VolatileMetadata) (q : WriteRequest) (fileId : ℕ)
    (fails : ℤ → Bool) (l : List (Span × List UInt8)) (v₁ : VolatileMetadata) (m : ChunkMaps)
    (flags : List Bool) : Prop :=
  ∀ a b more, WriteTries R v q fileId l a b → a.chunks = m → a.nodes v = v₁ →
    a.outcomes = flags ++ more → ∃ new, b.tried = new ++ a.tried ∧ Steady fails new ∧
      (Redundant fails → payload (packets new) = copies q fileId (proper l))

/-- A span whose primary and replica are accepted comes first. -/
theorem WritesThrough.sent (h : WritesThrough R v q fileId fails l v₁
      (placed R v₁ (s.chunk fileId) m) flags)
    (hprimary : fails (toUInt32 (nodeOf R (placed R v₁ (s.chunk fileId) m).chunkToNode
      (s.chunk fileId))) = false)
    (hreplica : fails (toUInt32 (nodeOf R (placed R v₁ (s.chunk fileId) m).chunkToReplicaNode
      (s.chunk fileId))) = false) :
    WritesThrough R v q fileId fails ((s, data) :: l) v₁ m (true :: true :: flags) := by
  rintro a b more htries rfl rfl hout
  cases htries with
  | retry _ next _ => exact absurd (next.eq hout) Bool.false_ne_true
  | @resent _ _ _ _ a₁ a₂ _ m o _ _ ha₁ next' _ _ _ =>
    have hout₁ : a₁.outcomes = a.outcomes.tail := by
      rw [ha₁]
      rfl
    exact absurd (next'.eq (hout₁.trans (congrArg List.tail hout))) Bool.false_ne_true
  | @sent _ _ _ _ a₁ _ m hplaced _ ha₁ _ hrest =>
    subst ha₁ hplaced
    have hout₂ : a.outcomes.tail.tail = flags ++ more := by
      rw [hout]
      rfl
    obtain ⟨new, hnew, hsteady, hcopies⟩ := h _ b more hrest rfl rfl hout₂
    refine ⟨new ++ [_, _], hnew.trans (List.append_assoc new [_, _] a.tried).symm,
      List.forall_mem_append.mpr ⟨hsteady, ?_⟩, fun hredundant => ?_⟩
    · simp [hprimary, hreplica]
    · rw [packets_sent, payload_cons, payload_cons, copies_proper_cons, hcopies hredundant]
      split_ifs <;> rfl

/-- A span whose primary is accepted and whose replica goes to another node comes first. -/
theorem WritesThrough.resent {node : ℤ}
    (hnode : node = nodeOf R (placed R v₁ (s.chunk fileId) m).chunkToReplicaNode (s.chunk fileId))
    (h : WritesThrough R v q fileId fails l (v₁.down node) (placed R v₁ (s.chunk fileId) m) flags)
    (hprimary : fails (toUInt32 (nodeOf R (placed R v₁ (s.chunk fileId) m).chunkToNode
      (s.chunk fileId))) = false) (hreplica : fails (toUInt32 node) = true)
    (hother : Redundant fails → 0 < s.length →
      fails (toUInt32 (putReplica (v₁.down node) s.chunkNum)) = false) :
    WritesThrough R v q fileId fails ((s, data) :: l) v₁ m
      (true :: false :: (!fails (toUInt32 (putReplica (v₁.down node) s.chunkNum))) :: flags) := by
  rintro a b more htries rfl rfl hout
  cases htries with
  | retry _ next _ => exact absurd (next.eq hout) Bool.false_ne_true
  | @sent _ _ _ _ a₁ _ m _ _ ha₁ next' _ =>
    have hout₁ : a₁.outcomes = a.outcomes.tail := by
      rw [ha₁]
      rfl
    exact absurd (next'.eq (hout₁.trans (congrArg List.tail hout))).symm Bool.false_ne_true
  | @resent _ _ _ _ a₁ a₂ _ m o hplaced _ ha₁ _ ha₂ again hrest =>
    subst ha₁ ha₂ hplaced hnode
    have hout₂ := congrArg (fun l => l.tail.tail) hout
    obtain rfl := again.eq hout₂
    obtain ⟨new, hnew, hsteady, hcopies⟩ := h _ b more hrest rfl rfl (congrArg List.tail hout₂)
    refine ⟨new ++ [_, _, _], hnew.trans (List.append_assoc new [_, _, _] a.tried).symm,
      List.forall_mem_append.mpr ⟨hsteady, ?_⟩, fun hredundant => ?_⟩
    · refine List.forall_mem_cons.mpr ⟨rfl, ?_⟩
      simp [hprimary, hreplica]
    · rw [packets_resent, payload_cons, copies_proper_cons]
      split_ifs with hlen hlast
      · rw [payload_cons, if_pos hlen, hcopies hredundant]
      · exact absurd (by simpa using hother hredundant hlen) hlast
      · rw [payload_cons, if_neg hlen, hcopies hredundant]
      · exact hcopies hredundant

/-- Where the nodes accept, a write goes through with suitable outcomes. -/
theorem exists_writesThrough :
    ∀ (l : List (Span × List UInt8)) (v₁ : VolatileMetadata) (m : ChunkMaps),
      Accepting R fails fileId (l.map Prod.fst) v₁ m →
      ∃ flags, WritesThrough R v q fileId fails l v₁ m flags := by
  intro l
  induction l with
  | nil =>
    intro v₁ m _
    refine ⟨[], fun a b more htries _ _ _ => ⟨[], ?_, List.forall_mem_nil _, fun _ => rfl⟩⟩
    cases htries
    rfl
  | cons e l ih =>
    intro v₁ m haccepting
    obtain ⟨hprimary, hrest⟩ := haccepting
    split_ifs at hrest with hreplica
    · obtain ⟨flags, hflags⟩ := ih _ _ hrest.2
      exact ⟨_, hflags.resent rfl hprimary hreplica hrest.1⟩
    · obtain ⟨flags, hflags⟩ := ih _ _ hrest
      exact ⟨_, hflags.sent hprimary (Bool.eq_false_iff.mpr hreplica)⟩

end Writing

end Routing

/-! ### Calls that return -/

/-- The call returns while the sends fail exactly at the nodes `fails`; `answers` says which responses
are handled while they run. `Q` is about the result and the sends that were tried, newest first. -/
def Ends {α : Type} (fails : ℤ → Bool) (answers : ℕ → List Delivery) (m : Barista α) (w : World)
    (Q : α → List Attempt → Prop) : Prop :=
  ∃ (script : List SendOutcome) (a : α) (w' : World) (new : List Attempt),
    script.map SendOutcome.deliveries = (List.range script.length).map answers ∧
    m (withScript script w) = .ok (a, w') ∧
    (routing w').tried = new ++ (routing w).tried ∧ Routing.Steady fails new ∧ Q a new

/-- The outcomes `flags`, with the responses in between. -/
def scriptOf (answers : ℕ → List Delivery) (flags : List Bool) : List SendOutcome :=
  flags.mapIdx fun i accepted => ⟨accepted, answers i⟩

theorem map_deliveries_scriptOf (answers : ℕ → List Delivery) (flags : List Bool) :
    (scriptOf answers flags).map SendOutcome.deliveries =
      (List.range (scriptOf answers flags).length).map answers := by
  refine List.ext_getElem (by simp) fun i _ _ => ?_
  simp [scriptOf]

theorem map_accepted_scriptOf (answers : ℕ → List Delivery) (flags : List Bool) :
    (scriptOf answers flags).map SendOutcome.accepted = flags := by
  refine List.ext_getElem (by simp [scriptOf]) fun i _ _ => ?_
  simp [scriptOf]

theorem countP_scriptOf (answers : ℕ → List Delivery) (flags : List Bool) :
    (scriptOf answers flags).countP (·.accepted) = flags.count true := by
  have hmap := List.countP_map (p := (· == true)) (f := SendOutcome.accepted)
    (l := scriptOf answers flags)
  rw [map_accepted_scriptOf] at hmap
  rw [List.count, hmap]
  congr 1
  funext o
  simp

theorem Ends.mono {α : Type} {fails : ℤ → Bool} {answers : ℕ → List Delivery} {m : Barista α}
    {w : World} {Q Q' : α → List Attempt → Prop} (h : Ends fails answers m w Q)
    (hQ : ∀ a new, Q a new → Q' a new) : Ends fails answers m w Q' := by
  obtain ⟨script, a, w', new, hanswers, hrun, hnew, hsteady, ha⟩ := h
  exact ⟨script, a, w', new, hanswers, hrun, hnew, hsteady, hQ a new ha⟩

section Reading

open Routing

variable {R : Runtime} {fails : ℤ → Bool} {answers : ℕ → List Delivery} {w : World}
  {id fileId stripeId offset n : ℕ} {stripeSize : StripeSize} {chunkSize : ChunkSize}

/-- `process_read_stripe` with failing nodes ends, and if each existing chunk has a copy on a node that
accepts sends it reads each of them once. -/
structure FailsOver (R : Runtime) (fails : ℤ → Bool) (answers : ℕ → List Delivery)
    (id fileId stripeId stripeSize chunkSize offset n : ℕ) (w : World) : Prop where
  ends : Ends fails answers (processReadStripe R id fileId stripeId stripeSize chunkSize offset n) w
    fun _ _ => True
  reads : (∀ s ∈ existing R w.chunks fileId (stripeSpans chunkSize stripeId offset n),
      fails (toUInt32 (nodeOf R w.chunks.chunkToNode (s.chunk fileId))) = false ∨
      fails (toUInt32 (nodeOf R w.chunks.chunkToReplicaNode (s.chunk fileId))) = false) →
    Ends fails answers (processReadStripe R id fileId stripeId stripeSize chunkSize offset n) w
      fun res new =>
        packets new = (existing R w.chunks fileId (stripeSpans chunkSize stripeId offset n)).map
          (readPacket id fileId) ∧
        res = (existing R w.chunks fileId (stripeSpans chunkSize stripeId offset n)).length

/-- A read that ends was served by every chunk. -/
theorem Ends.served {Q : ℕ → List Attempt → Prop} (hlock : w.metaLock = none)
    (hfits : offset + n ≤ stripeSize.val)
    (h : Ends fails answers (processReadStripe R id fileId stripeId stripeSize.val chunkSize.val offset
      n) w Q) : ∀ s ∈ existing R w.chunks fileId (stripeSpans chunkSize.val stripeId offset n),
        Served R fails w.chunks w.volatile.upNodes (s.chunk fileId) := by
  obtain ⟨script, res, w', new, -, hrun, hnew, hsteady, -⟩ := h
  have hmax := stripeSize.le_max
  have htries := (wp_processReadStripe_tries (R := R) (f := fileId) (w := withScript script w) id
    stripeId stripeSize.val offset n chunkSize (by unfold intMax; omega) hlock).of_ok hrun
  exact htries.2.served hnew hsteady

/-- Where every chunk is served, the read ends with one packet for each. -/
theorem ends_of_served (answers : ℕ → List Delivery) (h : Booked (some (.read id)) w) (hfits : offset + n ≤ stripeSize.val)
    (hreplica : ∀ chunk, chunkExists R w.chunks.chunkToNode chunk = true →
      chunkExists R w.chunks.chunkToReplicaNode chunk = true)
    (hserved : ∀ s ∈ existing R w.chunks fileId (stripeSpans chunkSize.val stripeId offset n),
      Served R fails w.chunks w.volatile.upNodes (s.chunk fileId)) :
    Ends fails answers (processReadStripe R id fileId stripeId stripeSize.val chunkSize.val offset n) w
      fun res new =>
        packets new = (existing R w.chunks fileId (stripeSpans chunkSize.val stripeId offset n)).map
          (readPacket id fileId) ∧
        res = (existing R w.chunks fileId (stripeSpans chunkSize.val stripeId offset n)).length := by
  have hmax := stripeSize.le_max
  have hreplicas : ∀ s ∈ existing R w.chunks fileId (stripeSpans chunkSize.val stripeId offset n),
      chunkExists R w.chunks.chunkToReplicaNode (s.chunk fileId) = true := fun s hs =>
    hreplica _ (chunkExists_of_mem hs)
  obtain ⟨flags, hcount, hflags⟩ := exists_readsThrough id _ _ hserved hreplicas
  let script := scriptOf answers flags
  have hbooked : Booked (some (.read id)) (withScript script w) :=
    ⟨h.inv, h.paired, h.named, h.issued, h.unlocked⟩
  have hreturns := wp_processReadStripe (R := R) fileId stripeId stripeSize.val offset n chunkSize hmax
    hfits hbooked
  have htries := wp_processReadStripe_tries (R := R) (f := fileId) (w := withScript script w) id
    stripeId stripeSize.val offset n chunkSize (by unfold intMax; omega) h.unlocked
  -- neither a missing replica nor the script stops the read
  have hstops : ∀ e, ReadStops R fileId (existing R w.chunks fileId
      (stripeSpans chunkSize.val stripeId offset n)) (withScript script w) e → False := by
    rintro e (⟨-, s, hs, hmissing⟩ | ⟨-, hfew⟩)
    · have hexists := hreplicas s hs
      rw [show w.chunks = (withScript script w).chunks from rfl, hmissing] at hexists
      exact Bool.noConfusion hexists
    · have hscript : (withScript script w).network.script = scriptOf answers flags := rfl
      rw [hscript, countP_scriptOf, hcount] at hfew
      exact lt_irrefl _ hfew
  obtain ⟨res, w', hrun, ⟨used, sent, hfetched, -, rfl⟩, htried⟩ := (wp_mono (wp_and hreturns htries)
    (fun _ _ hpost => hpost) fun e he => hstops e he.1).exists_ok
  obtain ⟨new, hnew, hsteady, hpackets⟩ := hflags _ _ rfl rfl (map_accepted_scriptOf answers flags)
    htried.2
  have hlength : sent.length = (existing R w.chunks fileId
      (stripeSpans chunkSize.val stripeId offset n)).length := by
    have hsent := congrArg List.length hfetched.packets
    rwa [List.length_map, List.length_map] at hsent
  exact ⟨script, _, w', new, map_deliveries_scriptOf answers flags, hrun, hnew, hsteady, hpackets,
    hlength⟩

/-- **When a read with failing nodes ends.** It ends, with each existing chunk read once, exactly if
every existing chunk of the range has its primary node up and accepting, or its replica's node
accepting. A primary node that is down is not tried any more, and a replica that fails is tried again
and again. -/
theorem readStripe_failsOver_iff (h : Booked (some (.read id)) w)
    (hfits : offset + n ≤ stripeSize.val)
    (hreplica : ∀ chunk, chunkExists R w.chunks.chunkToNode chunk = true →
      chunkExists R w.chunks.chunkToReplicaNode chunk = true) :
    FailsOver R fails answers id fileId stripeId stripeSize.val chunkSize.val offset n w ↔
      ∀ s ∈ existing R w.chunks fileId (stripeSpans chunkSize.val stripeId offset n),
        Served R fails w.chunks w.volatile.upNodes (s.chunk fileId) := by
  constructor
  · intro hover
    exact hover.ends.served h.unlocked hfits
  · intro hserved
    have hends := ends_of_served answers h hfits hreplica hserved
    exact ⟨hends.mono fun _ _ _ => trivial, fun _ => hends⟩

end Reading

/-- The state in which `sampleServer`, with these nodes up, begins to read chunk 1 of file 1, which is
on node 1 and its replica on node 3. -/
def sampleReading (upNodes : List ℤ) : World :=
  let w := readRegistered 1 1 (sampleClient 1) sampleServer
  { w with
    volatile := { w.volatile with upNodes := upNodes }
    chunks := ⟨[(⟨1, 1, 1⟩, 1)], [(⟨1, 1, 1⟩, 3)]⟩ }

theorem booked_sampleReading (upNodes : List ℤ) :
    Booked (some (.read 1)) (sampleReading upNodes) := by
  obtain ⟨h, -⟩ := started_sampleServer.running.booked.registerRead 1 (sampleClient 1) 1
  exact ⟨h.inv, h.paired, h.named, h.issued, h.unlocked⟩

theorem replica_sampleReading (upNodes : List ℤ) (chunk : FileChunk)
    (h : chunkExists sampleRuntime (sampleReading upNodes).chunks.chunkToNode chunk = true) :
    chunkExists sampleRuntime (sampleReading upNodes).chunks.chunkToReplicaNode chunk = true := by
  unfold chunkExists Search.find? Search.behind sampleReading at *
  simp only [List.map_cons, List.map_nil] at *
  generalize sampleRuntime.search.gap [⟨1, 1, 1⟩] chunk = gap at *
  cases gap with
  | zero =>
    simp only [List.drop_zero] at *
    split_ifs at * <;> simp_all
  | succ gap => simp at h

theorem existing_sampleReading (upNodes : List ℤ) :
    existing sampleRuntime (sampleReading upNodes).chunks 1 (stripeSpans 128 1 0 3) =
      [⟨1, 1, 0, 3⟩] := by
  have hmaps : (sampleReading upNodes).chunks = ⟨[(⟨1, 1, 1⟩, 1)], [(⟨1, 1, 1⟩, 3)]⟩ := rfl
  rw [stripeSpans_sample, hmaps]
  decide +kernel

/-- Node 1 fails, and the read goes on to node 3. -/
theorem readStripe_failsOver_iff_sampleReading :
    FailsOver sampleRuntime (· == 1) (fun _ => []) 1 1 1 256 128 0 3 (sampleReading [1, 2, 3, 4]) := by
  refine (@readStripe_failsOver_iff sampleRuntime (· == 1) (fun _ => []) (sampleReading [1, 2, 3, 4])
    1 1 1 0 3 ⟨256, by decide, by decide⟩ ⟨128, by decide, by decide⟩ (booked_sampleReading _)
    (by decide) (replica_sampleReading _)).mpr ?_
  rw [existing_sampleReading]
  intro s hs
  obtain rfl := List.mem_singleton.mp hs
  exact .inr (by decide +kernel)

/-- Node 1 accepts sends but is taken for down, and node 3 fails: the read does not end. -/
theorem downPrimary_readForever :
    ¬ FailsOver sampleRuntime (· == 3) (fun _ => []) 1 1 1 256 128 0 3 (sampleReading [2, 3, 4]) := by
  intro hover
  have hserved := @Ends.served sampleRuntime (· == 3) (fun _ => []) (sampleReading [2, 3, 4]) 1 1 1 0 3
    ⟨256, by decide, by decide⟩ ⟨128, by decide, by decide⟩ _ rfl (by decide) hover.ends
  have hmem := existing_sampleReading [2, 3, 4]
  have hchunk : Routing.Served sampleRuntime (· == 3) (sampleReading [2, 3, 4]).chunks [2, 3, 4]
      ⟨1, 1, 1⟩ := hserved ⟨1, 1, 0, 3⟩ (by simp [hmem])
  rcases hchunk with ⟨hup, -⟩ | haccepts
  · exact absurd hup (by decide +kernel)
  · exact absurd haccepts (by decide +kernel)

section Writing

open Routing

variable {R : Runtime} {fails : ℤ → Bool} {answers : ℕ → List Delivery} {w : World} {q : WriteRequest}
  {fileId stripeId offset n : ℕ} {stripeSize : StripeSize} {chunkSize : ChunkSize} {buf : List UInt8}

/-- `process_write_stripe` with failing nodes ends, and if one node of each kind accepts sends both
copies of every chunk of the range are sent. -/
structure WriteEnds (R : Runtime) (fails : ℤ → Bool) (answers : ℕ → List Delivery) (q : WriteRequest)
    (fileId stripeId stripeSize chunkSize : ℕ) (buf : List UInt8) (offset n : ℕ) (w : World) :
    Prop where
  ends : Ends fails answers (processWriteStripe R q fileId stripeId stripeSize chunkSize buf offset n) w
    fun _ _ => True
  copies : Redundant fails →
    Ends fails answers (processWriteStripe R q fileId stripeId stripeSize chunkSize buf offset n) w
      fun _ new => payload (packets new) =
        Routing.copies q fileId (proper (portions (stripeSpans chunkSize stripeId offset n) buf))

/-- The nodes of a write that ends accept it. -/
theorem Ends.accepting {Q : ℕ × ℕ → List Attempt → Prop} (hlock : w.metaLock = none)
    (hfits : offset + n ≤ stripeSize.val)
    (hmaps : MapsReadBack R (stripeChunks fileId stripeId) w.chunks)
    (h : Ends fails answers (processWriteStripe R q fileId stripeId stripeSize.val chunkSize.val buf
      offset n) w Q)
    (hQ : ∀ res new, Q res new → Redundant fails → payload (packets new) =
      copies q fileId (proper (portions (stripeSpans chunkSize.val stripeId offset n) buf))) :
    Accepting R fails fileId (stripeSpans chunkSize.val stripeId offset n) w.volatile w.chunks := by
  obtain ⟨script, res, w', new, -, hrun, hnew, hsteady, hres⟩ := h
  have hmax := stripeSize.le_max
  have htries := (wp_processWriteStripe_tries (R := R) (f := fileId) (w := withScript script w)
    w.volatile q stripeId stripeSize.val offset n chunkSize buf (by unfold intMax; omega) hlock).of_ok
    hrun
  have haccepting := htries.2.accepting (fun _ he => mem_stripeChunks he) hmaps hnew hsteady
    (hQ res new hres)
  rw [map_fst_portions] at haccepting
  exact haccepting

/-- Where the nodes accept it, a write ends, with two packets for each span if one node of each kind
accepts sends. -/
theorem ends_of_accepting (answers : ℕ → List Delivery) (buf : List UInt8) (h : Booked (some (.write q)) w) (hfits : offset + n ≤ stripeSize.val)
    (haccepting : Accepting R fails fileId (stripeSpans chunkSize.val stripeId offset n) w.volatile
      w.chunks) :
    Ends fails answers (processWriteStripe R q fileId stripeId stripeSize.val chunkSize.val buf offset n)
      w fun _ new => Redundant fails → payload (packets new) =
        copies q fileId (proper (portions (stripeSpans chunkSize.val stripeId offset n) buf)) := by
  have hmax := stripeSize.le_max
  have hspans := map_fst_portions (stripeSpans chunkSize.val stripeId offset n) buf
  rw [← hspans] at haccepting
  obtain ⟨flags, hflags⟩ := exists_writesThrough (v := w.volatile) (q := q) _ _ _ haccepting
  -- sends that are not needed follow
  let spare := List.replicate
    (2 * (portions (stripeSpans chunkSize.val stripeId offset n) buf).length) true
  let script := scriptOf answers (flags ++ spare)
  have hbooked : Booked (some (.write q)) (withScript script w) :=
    ⟨h.inv, h.paired, h.named, h.issued, h.unlocked⟩
  have hreturns := wp_processWriteStripe (R := R) fileId stripeId stripeSize.val offset n buf chunkSize
    hmax hfits hbooked
  have htries := wp_processWriteStripe_tries (R := R) (f := fileId) (w := withScript script w) w.volatile
    q stripeId stripeSize.val offset n chunkSize buf (by unfold intMax; omega) h.unlocked
  have hstops : ∀ e, WriteStops (portions (stripeSpans chunkSize.val stripeId offset n) buf)
      (withScript script w) e → False := by
    rintro e ⟨-, hfew⟩
    have hscript : (withScript script w).network.script = scriptOf answers (flags ++ spare) := rfl
    rw [hscript, countP_scriptOf, List.count_append, List.count_replicate_self] at hfew
    omega
  obtain ⟨res, w', hrun, -, htried⟩ := (wp_mono (wp_and hreturns htries) (fun _ _ hpost => hpost)
    fun e he => hstops e he.1).exists_ok
  obtain ⟨new, hnew, hsteady, hcopies⟩ := hflags _ _ spare htried.2 rfl rfl
    (map_accepted_scriptOf answers (flags ++ spare))
  exact ⟨script, res, w', new, map_deliveries_scriptOf answers _, hrun, hnew, hsteady, hcopies⟩

end Writing

end DecaFS
