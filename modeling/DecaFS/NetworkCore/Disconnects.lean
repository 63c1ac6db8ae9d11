import DecaFS.BaristaCore.Owners
import DecaFS.NetworkCore.Connections

/-!
# What is left of a connection

`clientDisconnected` changes the tables of the server and the list of the nodes that are up, and
nothing else: the locks and the descriptors of a client stay in the tables that they are in. So they
outlive its connection unless the client has given them all back before (`released_iff`). Otherwise
nobody can release them any more, since the calls that do are served for the client of the connection
that they come over.
-/

namespace DecaFS

open Code Barista FileLocks

/-! ### Records held by some clients -/

/-- Who holds the lock is one of `L`, and a record that nobody holds is blank. -/
structure FileLocks.HeldBy (L : Client → Prop) (lock : FileLock) : Prop where
  blank : lock.ownerUid = 0 → lock = {}
  held : lock.ownerUid ≠ 0 → ∃ c, L c ∧ Holds lock c
  only : ∀ c, c.ctc ≠ none → Holds lock c → L c
  connected : none ∉ lock.shProcs

namespace FileLocks

variable {L : Client → Prop} {lock : FileLock} {c client : Client}

theorem heldBy_blank : HeldBy L {} where
  blank _ := rfl
  held h := absurd rfl h
  only _ _ h := absurd h not_holds_empty
  connected := Finset.notMem_empty _

theorem HeldBy.imp {L' : Client → Prop} (h : HeldBy L lock)
    (hL : ∀ c, Holds lock c → L c → L' c) : HeldBy L' lock where
  blank := h.blank
  held hne := by
    obtain ⟨c, hc, hholds⟩ := h.held hne
    exact ⟨c, hL c hholds hc, hholds⟩
  only c hctc hholds := hL c hholds (h.only c hctc hholds)
  connected := h.connected

theorem HeldBy.withExclusive (h : HeldBy L lock) (hclient : L client) (huser : client.userId ≠ 0)
    (hfree : lock.ownerUid = 0) : HeldBy L (lock.withExclusive client) := by
  obtain rfl := h.blank hfree
  refine ⟨fun h₀ => absurd h₀ huser, fun _ => ?_, fun c _ hholds => ?_, Finset.notMem_empty _⟩
  · exact ⟨client, hclient, .inl (holdsExclusive_withExclusive huser)⟩
  · obtain rfl := hholds.of_withExclusive sorted_empty rfl
    exact hclient

theorem HeldBy.withShared (h : HeldBy L lock) (hclient : L client) (hctc : client.ctc ≠ none)
    (huser : client.userId ≠ 0) (hgrant : lock.ownerUid = 0 ∨ ownedBy lock client) :
    HeldBy L (lock.withShared client) := by
  refine ⟨fun h₀ => absurd h₀ huser, fun _ => ?_, fun c hc hholds => ?_, ?_⟩
  · exact ⟨client, hclient, .inr (holdsShared_withShared huser)⟩
  · by_cases hfree : lock.ownerUid = 0
    · obtain rfl := h.blank hfree
      obtain rfl | hold := hholds.of_withShared hc sorted_empty rfl (.inl rfl)
      · exact hclient
      · exact absurd hold not_holds_empty
    · -- the record has the same owner as before
      have hown := hgrant.resolve_left hfree
      rcases hholds with hex | hsh
      · exact h.only c hc (.inl ⟨hfree, ⟨hown.1.trans hex.2.1.1, hown.2.trans hex.2.1.2⟩, hex.2.2⟩)
      · rcases Finset.mem_insert.mp hsh.2.2 with heq | hmem
        · obtain rfl := hsh.2.1.ext ⟨rfl, rfl⟩ heq
          exact hclient
        · exact h.only c hc (.inr ⟨hfree, ⟨hown.1.trans hsh.2.1.1, hown.2.trans hsh.2.1.2⟩, hmem⟩)
  · intro hmem
    rcases Finset.mem_insert.mp hmem with heq | hmem
    · exact hctc heq.symm
    · exact h.connected hmem

theorem HeldBy.released (h : HeldBy L lock) (client : Client) : HeldBy L (lock.released client) := by
  unfold FileLock.released
  split_ifs with hown hex hmem hlast
  · exact heldBy_blank
  · exact heldBy_blank
  · -- a shared holder is left
    obtain ⟨z, hz⟩ := Finset.nonempty_iff_ne_empty.mpr hlast
    have hz' := Finset.mem_of_mem_erase hz
    have hconnected : none ∉ lock.shProcs.erase client.ctc :=
      fun hnone => h.connected (Finset.mem_of_mem_erase hnone)
    have hne : lock.ownerUid ≠ 0 := by
      intro h₀
      rw [h.blank h₀] at hz'
      exact absurd hz' (Finset.notMem_empty _)
    refine ⟨fun h₀ => absurd h₀ hne, fun _ => ?_, fun c hc hholds => ?_, hconnected⟩
    · have hholds : HoldsShared lock ⟨lock.ownerIp, lock.ownerUid, z⟩ := ⟨hne, ⟨rfl, rfl⟩, hz'⟩
      have hctc : z ≠ none := ne_of_mem_of_not_mem hz hconnected
      exact ⟨_, h.only _ hctc (.inr hholds), .inr ⟨hne, ⟨rfl, rfl⟩, hz⟩⟩
    · refine h.only c hc ?_
      rcases hholds with hex' | hsh
      · exact .inl hex'
      · exact .inr ⟨hsh.1, hsh.2.1, Finset.mem_of_mem_erase hsh.2.2⟩
  · exact h
  · exact h

/-- All records are held by clients of `L`. -/
def AllHeldBy (L : Client → Prop) (locks : FileLocks) : Prop := ∀ f, HeldBy L (locks.record f)

theorem AllHeldBy.update {locks locks' : FileLocks} {f : ℕ} (h : AllHeldBy L locks)
    (hlocks : locks'.record = Function.update locks.record f lock) (hlock : HeldBy L lock) :
    AllHeldBy L locks' := by
  intro f'
  rw [hlocks]
  rcases eq_or_ne f' f with rfl | hne
  · rwa [Function.update_self]
  · rw [Function.update_of_ne hne]
    exact h f'

theorem lockKeptFor_allHeldBy (hclient : client.userId ≠ 0 → L client ∧ client.ctc ≠ none) :
    LockKeptFor client (AllHeldBy L) where
  exclusive f locks h := by
    refine wp_getExclusiveLock_record (fun _ => trivial) (fun _ => h) fun huser hfree t ht => ?_
    exact h.update ht ((h f).withExclusive (hclient huser).1 huser hfree)
  shared f locks h := by
    have hblank : (locks.record f).ownerUid = 0 → (locks.record f).shProcs = ∅ := by
      intro h₀
      rw [(h f).blank h₀]
    refine wp_getSharedLock_record (fun _ => trivial) hblank (fun _ => h) fun huser hgrant _ t ht => ?_
    exact h.update ht ((h f).withShared (hclient huser).1 (hclient huser).2 huser hgrant)

theorem releaseKept_allHeldBy : ReleaseKept (AllHeldBy L) := fun client f _ h =>
  wp_releaseLock_record (fun _ => trivial) fun _ _ _ ht => h.update ht ((h f).released client)

end FileLocks

namespace BaristaServer

/-- The connection of the client is open. -/
def Connected (s : BaristaServer) (c : Client) : Prop := ∃ client ∈ s.clients, c.ctc = some client

/-- No client of the connection holds a lock or owns a descriptor. -/
structure GivenBack (client : ℕ) (w : World) : Prop where
  locks : ∀ c f, c.ctc = some client → ¬ Holds (w.fileLocks.record f) c
  descriptors : ∀ fd file, w.volatile.fileCursors.lookup fd = some file →
    file.clientId.ctc ≠ some client

/-- A connection closes once its client has given everything back. -/
def ClosesClean (s : BaristaServer) : ServerEvent → Prop
  | .clientDisconnected client => GivenBack client s.world
  | _ => True

/-- Nothing is left of closed connections, and a file that no client with an open one has locked can be
locked by any other. -/
structure NothingLeft (s : BaristaServer) : Prop where
  givenBack : ∀ client ∉ s.clients, GivenBack client s.world
  opens : ∀ f, (∀ c, s.Connected c → ¬ Holds (s.world.fileLocks.record f) c) →
    ∀ c : Client, c.userId ≠ 0 →
      (∃ locks, getExclusiveLock c f s.world.fileLocks = .ok (lockSuccess, locks)) ∧
        ∃ locks, getSharedLock c f s.world.fileLocks = .ok (lockSuccess, locks)

/-- All locks and descriptors are those of clients with open connections, and a client with a user id
is known by its own connection. -/
structure Attended (s : BaristaServer) : Prop where
  rested : Rested s.world
  locks : AllHeldBy s.Connected s.world.fileLocks
  owners : Owners s.Connected s.world
  named : ∀ client c, s.decafsClients.lookup client = some c → c.userId ≠ 0 → c.ctc = some client

section

variable {R : Runtime} {s₀ s s' : BaristaServer} {e : ServerEvent} {es : List ServerEvent} {client : ℕ}
  {i : Input}

theorem Connected.mono {c : Client} (h : s.Connected c) (hclients : s.clients ⊆ s'.clients) : s'.Connected c := by
  obtain ⟨client, hmem, hctc⟩ := h
  exact ⟨client, hclients hmem, hctc⟩

theorem Fresh.attended (h : s.Fresh) : s.Attended where
  rested := h.started.rested
  locks f := by
    have hrecord : s.world.fileLocks.record f = {} := by simp [h.started.fileLocks, record]
    exact hrecord ▸ heldBy_blank
  owners := ⟨h.started.metaLock, by simp [h.started.fileCursors]⟩
  named := by simp [h.decafsClients]

/-- **Nothing is left**, where everything is attended to. -/
theorem Attended.nothingLeft (h : s.Attended) : s.NothingLeft where
  givenBack client hclosed := by
    have hconn : ∀ c, s.Connected c → c.ctc ≠ some client := by
      rintro c ⟨k, hk, hctc⟩ heq
      obtain rfl := Option.some.inj (hctc.symm.trans heq)
      exact hclosed hk
    refine ⟨fun c f hctc hholds => ?_, fun fd file hfile => hconn _ (h.owners.owner fd file hfile)⟩
    have hconnected : c.ctc ≠ none := by simp [hctc]
    exact hconn c ((h.locks f).only c hconnected hholds) hctc
  opens f hnobody c huser := by
    have hfree : (s.world.fileLocks.record f).ownerUid = 0 := by
      by_contra hne
      obtain ⟨c', hconn, hholds⟩ := (h.locks f).held hne
      exact hnobody c' hconn hholds
    have hshared : (s.world.fileLocks.record f).shProcs = ∅ := h.rested.clear f hfree
    constructor
    · have hlock : wp (getExclusiveLock c f) (fun r _ => r = lockSuccess) (fun _ => False)
          s.world.fileLocks :=
        wp_getExclusiveLock_record huser (fun hne => absurd hfree hne) fun _ _ _ _ => rfl
      obtain ⟨r, locks, hok, rfl⟩ := hlock.exists_ok
      exact ⟨locks, hok⟩
    · have hlock : wp (getSharedLock c f) (fun r _ => r = lockSuccess) (fun _ => False)
          s.world.fileLocks := by
        refine wp_getSharedLock_record huser (fun _ => hshared) (fun hrefused => ?_) fun _ _ _ _ _ => rfl
        exact absurd ⟨.inl hfree, by rw [hshared]; exact Finset.notMem_empty _⟩ hrefused
      obtain ⟨r, locks, hok, rfl⟩ := hlock.exists_ok
      exact ⟨locks, hok⟩

/-- A change of the connections, of which the Barista only learns which nodes are up. -/
theorem Attended.of_view (h : s.Attended) (hmeta : s'.world.metaLock = s.world.metaLock)
    (hlocks : s'.world.fileLocks = s.world.fileLocks)
    (hcursors : s'.world.volatile.fileCursors = s.world.volatile.fileCursors)
    (hnamed : ∀ client c, s'.decafsClients.lookup client = some c → c.userId ≠ 0 → c.ctc = some client)
    (hconn : ∀ c, s.Connected c → s'.Connected c ∨ ∃ client, c.ctc = some client ∧ GivenBack client s.world) :
    s'.Attended where
  rested := ⟨hmeta.trans h.rested.unlocked, hlocks ▸ h.rested.clear⟩
  locks f := by
    rw [hlocks]
    refine (h.locks f).imp fun c hholds hc => (hconn c hc).resolve_right ?_
    rintro ⟨client, hctc, hback⟩
    exact hback.locks c f hctc hholds
  owners := by
    refine ⟨hmeta.trans h.rested.unlocked, fun fd file hfile => ?_⟩
    rw [hcursors] at hfile
    refine (hconn _ (h.owners.owner fd file hfile)).resolve_right ?_
    rintro ⟨client, hctc, hback⟩
    exact hback.descriptors fd file hfile hctc
  named := hnamed

/-- A message takes locks and opens files for the client of its connection, if that has a user id. -/
theorem step_message_taker (hstep : step R s (.message client i) s') : ∃ i' w' decafs,
    Barista.step R s.world i' w' ∧ s' = { s with world := w', decafsClients := decafs } ∧
    (decafs = s.decafsClients ∨ decafs = s.decafsClients.insert client ⟨{}, 0, none⟩) ∧
    ∀ c, i'.taker = some c → c.userId ≠ 0 → s.decafsClients.lookup client = some c := by
  obtain ⟨⟨-, hkind⟩, hok⟩ := hstep
  have hworld : ∀ (i' : Input) (s : BaristaServer), wp (barista (handle R i')) (fun _ s' => ∃ w',
      Barista.step R s.world i' w' ∧ s' = { s with world := w' }) (fun _ => True) s := by
    intro i' s
    rw [barista, wp_zoom]
    cases hrun : handle R i' s.world with
    | error e => exact (wp_error hrun).mpr trivial
    | ok p => exact (wp_ok hrun).mpr ⟨p.2, hrun, rfl⟩
  have htaker : ∀ c c', (i.calledBy c).taker = some c' → c' = c := by
    intro c c' h
    cases i <;> simp_all [Input.calledBy, Input.taker]
  change handleMessageFromClient R client i s = _ at hok
  unfold handleMessageFromClient at hok
  by_cases hcall : i.isCall = true
  · rw [if_pos hcall] at hok
    cases hl : s.decafsClients.lookup client with
    | some c =>
      have hclient : wp (decafsClient client >>= fun c => barista (handle R (i.calledBy c)))
          (fun _ s' => ∃ w', Barista.step R s.world (i.calledBy c) w' ∧ s' = { s with world := w' })
          (fun _ => True) s := by
        rw [wp_bind, decafsClient, wp_bind, wp_get, hl, wp_pure]
        exact hworld _ s
      obtain ⟨w', hw', rfl⟩ := hclient.of_ok hok
      refine ⟨_, w', s.decafsClients, hw', rfl, .inl rfl, fun c' hc' _ => ?_⟩
      rw [htaker c c' hc']
    | none =>
      let s₁ : BaristaServer := { s with decafsClients := s.decafsClients.insert client ⟨{}, 0, none⟩ }
      have hclient : wp (decafsClient client >>= fun c => barista (handle R (i.calledBy c)))
          (fun _ s' => ∃ w', Barista.step R s.world (i.calledBy ⟨{}, 0, none⟩) w' ∧
            s' = { s₁ with world := w' }) (fun _ => True) s := by
        rw [wp_bind, decafsClient, wp_bind, wp_get, hl, wp_bind, wp_modify, wp_pure]
        exact hworld _ s₁
      obtain ⟨w', hw', rfl⟩ := hclient.of_ok hok
      refine ⟨_, w', s₁.decafsClients, hw', rfl, .inr rfl, fun c' hc' huser => ?_⟩
      rw [htaker _ c' hc'] at huser
      exact absurd rfl huser
  · rw [if_neg hcall] at hok
    obtain ⟨w', hw', rfl⟩ := (hworld i s).of_ok hok
    refine ⟨i, w', s.decafsClients, hw', rfl, .inl rfl, fun c hc _ => ?_⟩
    obtain ⟨d, rfl⟩ := hkind.resolve_left hcall
    exact absurd hc (by simp [Input.taker])

theorem Attended.message (h : s.Attended) (hstep : step R s (.message client i) s') : s'.Attended := by
  have hclient : client ∈ s.clients := hstep.1.1
  obtain ⟨i', w', decafs, hserved, rfl, hdecafs, htaker⟩ := step_message_taker hstep
  have hconn : ∀ c, i'.taker = some c → c.userId ≠ 0 → s.Connected c := fun c hc huser =>
    ⟨client, hclient, h.named client c (htaker c hc huser) huser⟩
  refine ⟨h.rested.step hserved, ?_, ?_, fun k c hk huser => ?_⟩
  · refine step_locks_taken releaseKept_allHeldBy (fun c hc => ?_) h.locks hserved
    refine lockKeptFor_allHeldBy fun huser => ⟨hconn c hc huser, ?_⟩
    simp [h.named client c (htaker c hc huser) huser]
  · exact h.owners.step h.rested (fun path flags c hi huser => hconn c (by rw [hi]; rfl) huser)
      hserved
  · rcases hdecafs with rfl | rfl
    · exact h.named k c hk huser
    · change (s.decafsClients.insert client ⟨{}, 0, none⟩).lookup k = some c at hk
      rcases eq_or_ne k client with rfl | hne
      · rw [Finmap.lookup_insert] at hk
        obtain rfl := Option.some.inj hk
        exact absurd rfl huser
      · rw [Finmap.lookup_insert_of_ne _ hne] at hk
        exact h.named k c hk huser

theorem Attended.disconnect (h : s.Attended) (hback : GivenBack client s.world)
    (hstep : step R s (.clientDisconnected client) s') : s'.Attended := by
  have hconn : ∀ c, s.Connected c →
      (∃ k ∈ s.clients.erase client, c.ctc = some k) ∨ ∃ k, c.ctc = some k ∧ GivenBack k s.world := by
    rintro c ⟨k, hk, hctc⟩
    rcases eq_or_ne k client with rfl | hne
    · exact .inr ⟨k, hctc, hback⟩
    · exact .inl ⟨k, Finset.mem_erase.mpr ⟨hne, hk⟩, hctc⟩
  have hall : wp (clientDisconnected client) (fun _ s' => s'.Attended) (fun _ => True) s := by
    refine wp_clientDisconnected (fun _ => ?_) (fun _ _ => ?_) (fun _ _ nodeId _ => ?_) fun _ _ _ => ?_
    · exact h.of_view rfl rfl rfl h.named hconn
    · refine h.of_view rfl rfl rfl (fun k c hk huser => ?_) hconn
      change (s.decafsClients.erase client).lookup k = some c at hk
      have hne : k ≠ client := by
        rintro rfl
        simp at hk
      rw [Finmap.lookup_erase_ne hne] at hk
      exact h.named k c hk huser
    · exact h.of_view rfl rfl rfl h.named hconn
    · exact h.of_view rfl rfl rfl h.named hconn
  exact hall.of_ok hstep.2

/-- **The step lemma.** -/
theorem Attended.step (h : s.Attended) (hclean : s.ClosesClean e) (hstep : step R s e s') :
    s'.Attended := by
  have hsame : ∀ c, s.Connected c → s.Connected c ∨ ∃ k, c.ctc = some k ∧ GivenBack k s.world := fun _ => .inl
  cases e with
  | clientConnected client =>
    have hall : wp (clientConnected client) (fun _ s' => s'.Attended) (fun _ => True) s := by
      refine (wp_modify _).mpr (h.of_view rfl rfl rfl h.named fun c hc => .inl ?_)
      exact hc.mono (Finset.subset_insert _ _)
    exact hall.of_ok hstep.2
  | clientDisconnected client => exact h.disconnect hclean hstep
  | espressoInit client nodeId =>
    have hall : wp (addEspressoNode nodeId client) (fun _ s' => s'.Attended) (fun _ => True) s := by
      refine wp_addEspressoNode (fun _ => ?_) fun _ => h
      exact h.of_view rfl rfl (VolatileMetadata.up_keeps s.world.volatile nodeId).2 h.named hsame
    exact hall.of_ok hstep.2
  | decafsClientInit client addr userId =>
    have hall : wp (addDecafsClient addr userId client) (fun _ s' => s'.Attended)
        (fun _ => True) s := by
      unfold addDecafsClient
      rw [wp_bind, wp_get]
      by_cases hmem : client ∈ s.pendingClients
      · rw [if_pos hmem, wp_modify]
        refine h.of_view rfl rfl rfl (fun k c hk huser => ?_) hsame
        rcases eq_or_ne k client with rfl | hne
        · rw [Finmap.lookup_insert] at hk
          obtain rfl := Option.some.inj hk
          rfl
        · rw [Finmap.lookup_insert_of_ne _ hne] at hk
          exact h.named k c hk huser
      · rw [if_neg hmem, wp_pure]
        exact h
    exact hall.of_ok hstep.2
  | message client i => exact h.message hstep

/-- A connection that closes leaves what its client has not given back. -/
theorem closesClean_of_nothingLeft (hstep : step R s e s') (hnothing : s'.NothingLeft) :
    s.ClosesClean e := by
  cases e with
  | clientDisconnected client =>
    have hall : wp (clientDisconnected client) (fun _ s' => client ∉ s'.clients ∧
        s'.world.fileLocks = s.world.fileLocks ∧
        s'.world.volatile.fileCursors = s.world.volatile.fileCursors) (fun _ => True) s :=
      wp_clientDisconnected (fun _ => ⟨Finset.notMem_erase _ _, rfl, rfl⟩)
        (fun _ _ => ⟨Finset.notMem_erase _ _, rfl, rfl⟩)
        (fun _ _ _ _ => ⟨Finset.notMem_erase _ _, rfl, rfl⟩)
        fun _ _ _ => ⟨Finset.notMem_erase _ _, rfl, rfl⟩
    obtain ⟨hclosed, hlocks, hcursors⟩ := hall.of_ok hstep.2
    obtain ⟨hleft, howned⟩ := hnothing.givenBack client hclosed
    exact ⟨hlocks ▸ hleft, hcursors ▸ howned⟩
  | _ => trivial

/-- **What connections leave behind.** Along every run from a fresh server, with any packets on any
connections, nothing is left of a connection once it is closed, and the files that no client with an
open connection has locked can be locked by the others, exactly if every client has given back its locks
and descriptors before its connection closes. -/
theorem nothingLeft_iff (R : Runtime) (hfresh : s₀.Fresh) :
    Steps (fun s e s' => step R s e s' ∧ s'.NothingLeft) s₀ es s ↔
      Steps (Guarded ClosesClean (step R)) s₀ es s := by
  constructor
  · intro hrun
    exact hrun.mono fun s e s' h => ⟨closesClean_of_nothingLeft h.1 h.2, h.1⟩
  · intro hrun
    have hstep : ∀ s e s', s.Attended → Guarded ClosesClean (step R) s e s' → s'.Attended :=
      fun s e s' h hs => h.step hs.1 hs.2
    refine (hrun.along hstep hfresh.attended).mono fun s e s' h => ?_
    exact ⟨h.1.2, h.2.2.nothingLeft⟩

/-- A user opens a file over connection 1. -/
def opensFile : List ServerEvent :=
  [.clientConnected 1, .decafsClientInit 1 "10.0.0.1" 7, .message 1 (.openFile "a" oRdwr ⟨{}, 0, none⟩)]

/-- The user closes the file again. -/
def closesFile : List ServerEvent := opensFile ++ [.message 1 (.closeFile 1 ⟨{}, 0, none⟩)]

theorem nothingLeft_sample : ∃ s, Steps (fun s e s' => step sampleRuntime s e s' ∧ s'.NothingLeft)
    sampleBarista (closesFile ++ [.clientDisconnected 1]) s := by
  obtain ⟨s₁, hrun, hp⟩ := exists_steps (R := sampleRuntime) (s := sampleBarista) closesFile
    (p := fun s => decide (s.world.fileLocks = ∅ ∧ s.world.volatile.fileCursors = ∅) &&
      (next sampleRuntime s (.clientDisconnected 1)).isSome) (by decide +kernel)
  obtain ⟨hempty, hlast⟩ := (Bool.and_eq_true _ _).mp hp
  obtain ⟨hlocks, hcursors⟩ := of_decide_eq_true hempty
  obtain ⟨s₂, hs₂⟩ := Option.isSome_iff_exists.mp hlast
  have hback : GivenBack 1 s₁.world := by
    refine ⟨fun c f _ hholds => ?_, by simp [hcursors]⟩
    have hrecord : s₁.world.fileLocks.record f = {} := by simp [hlocks, record]
    rw [hrecord] at hholds
    exact not_holds_empty hholds
  have hclean : Steps (Guarded ClosesClean (step sampleRuntime)) sampleBarista closesFile s₁ := by
    have hopen : ∀ e ∈ closesFile, ∀ client, e ≠ .clientDisconnected client := by
      simp [closesFile, opensFile]
    refine (hrun.of_guarded.guarded_of_forall hopen).mono fun s e s' h => ⟨?_, h.2⟩
    cases e with
    | clientDisconnected client => exact absurd rfl (h.1 client)
    | _ => trivial
  refine ⟨s₂, (nothingLeft_iff sampleRuntime fresh_sampleBarista).mpr (hclean.trans (.single ?_))⟩
  exact ⟨hback, (serves_of_next s₁ _ s₂ hs₂).2⟩

/-- The connection closes without that, and another user never gets to open the file. -/
theorem openFile_outlivesConnection : ∃ s, Steps (step sampleRuntime) sampleBarista
    (opensFile ++ [.clientDisconnected 1, .clientConnected 2, .decafsClientInit 2 "10.0.0.2" 8,
      .message 2 (.openFile "a" oRdwr ⟨{}, 0, none⟩)]) s ∧ ¬ s.NothingLeft ∧
    s.world.network.log.head? = some (.told ⟨⟨"10.0.0.2"⟩, 8, some 2⟩ (.openResult fileInUse)) := by
  obtain ⟨s, hrun, hp⟩ := exists_steps (R := sampleRuntime) (s := sampleBarista)
    (opensFile ++ [.clientDisconnected 1, .clientConnected 2, .decafsClientInit 2 "10.0.0.2" 8,
      .message 2 (.openFile "a" oRdwr ⟨{}, 0, none⟩)])
    (p := fun s => decide (1 ∉ s.clients ∧
      (s.world.volatile.fileCursors.lookup 1).map FileInstance.clientId = some ⟨⟨"10.0.0.1"⟩, 7, some 1⟩ ∧
      s.world.network.log.head? = some (.told ⟨⟨"10.0.0.2"⟩, 8, some 2⟩ (.openResult fileInUse))))
    (by decide +kernel)
  obtain ⟨hclosed, hfd, hrefused⟩ := of_decide_eq_true hp
  obtain ⟨file, hfile, howner⟩ := Option.map_eq_some_iff.mp hfd
  refine ⟨s, hrun.of_guarded, fun hnothing => ?_, hrefused⟩
  exact (hnothing.givenBack 1 hclosed).descriptors 1 file hfile (by rw [howner])

end

end BaristaServer

end DecaFS
