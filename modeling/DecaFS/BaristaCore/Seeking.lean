import DecaFS.BaristaCore.Owners

/-!
# Seeking

The offset of an `LseekPacket` is an `int32_t` and that of `file_seek` a `uint32_t`, so that a sum with
a negative offset wraps around, once or twice, before `set_file_cursor` clips it at the size of the
file. From the start of the file and from the cursor the sums that are not negative come out right all
the same; `SEEK_END` moves to the end, as it is documented to, whatever the offset is.
-/

namespace DecaFS

open Code Barista

/-- Where an offset counts from, with the cursor at `c` in a file of size `s`. -/
def Barista.Whence.base (c s : ℕ) : Whence → ℤ
  | .seekSet => 0
  | .seekCur => c
  | .seekEnd => s

/-- The client that seeks by `o` is told `reply`, with the cursor at `offset`. -/
def Seeks (R : Runtime) (w : World) (fd o : ℤ) (whence : Whence) (client : Client) (reply : ℤ)
    (offset : ℕ) : Prop :=
  ∃ w', step R w (.fileSeek fd (toUInt32 o).toNat whence client) w' ∧
    w'.network.log = .told client (.seekResult reply) :: w.network.log ∧
    (w'.volatile.fileCursors.lookup (fdKey fd)).map FileInstance.offset = some offset

/-- The metadata lock is free, and no descriptor is open for a client without a user id. -/
structure OwnersNamed (w : World) : Prop where
  unlocked : w.metaLock = none
  userId_ne : ∀ fd file, w.volatile.fileCursors.lookup fd = some file → file.clientId.userId ≠ 0

section

variable {R : Runtime} {w₀ w w' : World} {is : List Input} {i : Input} {fd o offset : ℤ}
  {client : Client} {f c : ℕ} {info : PersistentMetadataInfo} {whence : Whence}

/-! ### Owners -/

theorem ownersNamed_iff : OwnersNamed w ↔ Owners (fun c => c.userId ≠ 0) w := by
  constructor
  · intro h
    exact ⟨h.unlocked, h.userId_ne⟩
  · intro h
    exact ⟨h.unlocked, h.owner⟩

theorem OwnersNamed.step (h : OwnersNamed w) (hrested : Rested w) (hstep : Barista.step R w i w') :
    OwnersNamed w' := by
  have howners := (ownersNamed_iff.mp h).step hrested (fun _ _ _ _ hclient => hclient) hstep
  exact ownersNamed_iff.mpr howners

/-- **The run lemma.** -/
theorem OwnersNamed.run (h : OwnersNamed w) (hrested : Rested w) (hrun : Steps (Barista.step R) w is w') :
    OwnersNamed w' := by
  have hboth : OwnersNamed w' ∧ Rested w' := hrun.invariant (I := fun w => OwnersNamed w ∧ Rested w)
    (fun _ _ _ hs hstep => ⟨hs.1.step hs.2 hstep, hs.2.step hstep⟩) ⟨h, hrested⟩
  exact hboth.1

theorem Started.ownersNamed (h : Started w) : OwnersNamed w :=
  ⟨h.metaLock, by simp [h.fileCursors]⟩

/-! ### The new cursor -/

theorem toUInt32_add_toNat_toUInt32 (x o : ℤ) :
    toUInt32 (x + (toUInt32 o).toNat) = toUInt32 (x + o) := by
  unfold toUInt32
  omega

/-- Where `set_file_cursor` leaves the cursor of the caller. -/
theorem lookup_moved (hfile : w.volatile.fileCursors.lookup (fdKey fd) = some ⟨client, f, c⟩)
    (hinfo : w.persistent.metadata.lookup f = some info) :
    (moved R fd offset client w).volatile.fileCursors.lookup (fdKey fd) =
      some ⟨client, f, min (toUInt32 offset).toNat info.size⟩ := by
  have hsize : w.persistent.sizeOf R f = info.size := by
    rw [PersistentMetadata.sizeOf, hinfo]
    rfl
  simp only [moved, moveCursor, hfile, if_true, Finmap.lookup_insert, hsize]

variable (R o) in
/-- Where a move by `o` from the cursor leaves it. -/
theorem lookup_sought_seekCur (hfile : w.volatile.fileCursors.lookup (fdKey fd) = some ⟨client, f, c⟩)
    (hinfo : w.persistent.metadata.lookup f = some info) (hc : (c : ℤ) ≤ intMax) :
    (sought R fd (toUInt32 o).toNat .seekCur client w).volatile.fileCursors.lookup (fdKey fd) =
      some ⟨client, f, min (toUInt32 (c + o)).toNat info.size⟩ := by
  have hcursor : w.volatile.getFileCursor (fdKey fd) = c := by
    simp only [VolatileMetadata.getFileCursor, hfile]
    exact toInt32_eq (by omega) hc
  have hpos : (c : ℤ) ≥ 0 := Int.natCast_nonneg c
  simp only [sought, reduceCtorEq, if_false, hcursor, hpos, if_true]
  rw [lookup_moved hfile hinfo, toUInt32_add_toNat_toUInt32]

variable (R o whence) in
/-- Where `file_seek` leaves the cursor. -/
theorem lookup_sought (hfile : w.volatile.fileCursors.lookup (fdKey fd) = some ⟨client, f, c⟩)
    (hinfo : w.persistent.metadata.lookup f = some info) (hc : c ≤ info.size)
    (hsize : info.size < 2147483648) :
    (sought R fd (toUInt32 o).toNat whence client w).volatile.fileCursors.lookup (fdKey fd) =
      some ⟨client, f, if whence = .seekEnd then info.size
        else min (toUInt32 (whence.base c info.size + o)).toNat info.size⟩ := by
  have hint : (c : ℤ) ≤ intMax := by
    unfold intMax
    omega
  cases whence with
  | seekEnd =>
    have hend : min (toUInt32 4294967295).toNat info.size = info.size := by
      unfold toUInt32
      omega
    simp only [sought, if_true]
    rw [lookup_moved hfile hinfo, hend]
  | seekSet =>
    have hzero : min (toUInt32 0).toNat info.size = 0 := by simp [toUInt32]
    have hset : (moved R fd 0 client w).volatile.fileCursors.lookup (fdKey fd) =
        some ⟨client, f, 0⟩ := by rw [lookup_moved hfile hinfo, hzero]
    have hseek := lookup_sought_seekCur R o hset hinfo (by decide)
    simp only [sought, reduceCtorEq, if_false, if_true] at hseek ⊢
    exact hseek
  | seekCur =>
    simp only [reduceCtorEq, if_false]
    exact lookup_sought_seekCur R o hfile hinfo hint

/-- The server does one thing. -/
theorem Seeks.unique {reply reply' : ℤ} {n n' : ℕ} (h : Seeks R w fd o whence client reply n)
    (h' : Seeks R w fd o whence client reply' n') : reply = reply' ∧ n = n' := by
  obtain ⟨w₁, hstep, hlog, hoffset⟩ := h
  obtain ⟨w₂, hstep', hlog', hoffset'⟩ := h'
  obtain rfl : w₁ = w₂ := congrArg Prod.snd (Except.ok.inj (hstep.symm.trans hstep'))
  have hreply := (List.cons.inj (hlog.symm.trans hlog')).1
  simp only [Event.told.injEq, Reply.seekResult.injEq, true_and] at hreply
  exact ⟨hreply, Option.some.inj (hoffset.symm.trans hoffset')⟩

/-- What a client that seeks with its own descriptor is told. -/
theorem seeks_sought (hrested : Rested w) (hclient : client.userId ≠ 0) {n : ℕ}
    (hsought : (sought R fd (toUInt32 o).toNat whence client w).volatile.fileCursors.lookup (fdKey fd) =
      some ⟨client, f, n⟩) (hn : (n : ℤ) ≤ intMax) : Seeks R w fd o whence client n n := by
  have hcursor : (sought R fd (toUInt32 o).toNat whence client w).volatile.getFileCursor (fdKey fd) = n := by
    simp only [VolatileMetadata.getFileCursor, hsought]
    exact toInt32_eq (by omega) hn
  have hwp : wp (handle R (.fileSeek fd (toUInt32 o).toNat whence client))
      (fun _ w' => w'.network.log = .told client (.seekResult n) :: w.network.log ∧
        (w'.volatile.fileCursors.lookup (fdKey fd)).map FileInstance.offset = some n)
      (fun _ => False) w := by
    refine wp_fileSeek hrested.unlocked (fun h₀ => hclient h₀) ⟨?_, ?_⟩
    · have hlog : (sought R fd (toUInt32 o).toNat whence client w).network.log = w.network.log :=
        sought_induction (P := fun w' => w'.network.log = w.network.log) rfl fun _ _ h => h
      rw [hcursor]
      exact congrArg _ hlog
    · exact congrArg (Option.map FileInstance.offset) hsought
  obtain ⟨_, w', hstep, hw'⟩ := hwp.exists_ok
  exact ⟨w', hstep, hw'⟩

/-! ### Base plus offset -/

/-- **`file_seek`.** In every state of every run, the owner of a descriptor with its cursor inside the
file, of less than `2^31` bytes, that seeks by any `int32_t`: `SEEK_END` leaves the cursor at the end of
the file; otherwise, where the base plus the offset is not negative, it leaves the cursor there or at the
end of the file if that comes first. The client is told the new cursor. -/
theorem fileSeek_moves (hstart : Started w₀) (hrun : Steps (step R) w₀ is w)
    (hfile : w.volatile.fileCursors.lookup (fdKey fd) = some ⟨client, f, c⟩)
    (hinfo : w.persistent.metadata.lookup f = some info) (hc : c ≤ info.size)
    (hsize : info.size < 2147483648) (ho : o < 2147483648) :
    Seeks R w fd o .seekEnd client info.size info.size ∧
    ∀ whence, whence ≠ .seekEnd → 0 ≤ whence.base c info.size + o →
      Seeks R w fd o whence client (min (whence.base c info.size + o) info.size)
        (min (whence.base c info.size + o).toNat info.size) := by
  have hrested := hstart.rested.run hrun
  have hclient := (hstart.ownersNamed.run hstart.rested hrun).userId_ne (fdKey fd) _ hfile
  refine ⟨?_, fun whence hwhence hpos => ?_⟩
  · have hsought := lookup_sought R o .seekEnd hfile hinfo hc hsize
    rw [if_pos rfl] at hsought
    exact seeks_sought hrested hclient hsought (by unfold intMax; omega)
  · have hsought := lookup_sought R o whence hfile hinfo hc hsize
    have hbase : whence.base c info.size ≤ intMax := by
      cases whence with
      | seekSet => exact show (0 : ℤ) ≤ intMax by decide
      | seekCur =>
        have hbound : (c : ℤ) ≤ intMax := by unfold intMax; omega
        exact hbound
      | seekEnd => exact absurd rfl hwhence
    rw [if_neg hwhence, toUInt32_eq hpos (by unfold intMax at hbase; omega)] at hsought
    have hreply : ((min (whence.base c info.size + o).toNat info.size : ℕ) : ℤ) =
        min (whence.base c info.size + o) info.size := by omega
    exact hreply ▸ seeks_sought hrested hclient hsought (by unfold intMax; omega)

/-- The run in which a client opens the new file "a" and writes ten bytes to it. -/
def sampleWritten : List Input :=
  [.openFile "a" oRdwr (sampleClient 1),
    .writeFile 1 [0, 1, 2, 3, 4, 5, 6, 7, 8, 9] 10 (sampleClient 1) [⟨true, []⟩, ⟨true, []⟩]]

theorem fileSeek_moves_sampleWritten : ∃ w, Steps (step sampleRuntime) sampleServer sampleWritten w ∧
    Seeks sampleRuntime w 1 (-4) .seekCur (sampleClient 1) 6 6 := by
  obtain ⟨w, hrun, hend⟩ := exists_steps (R := sampleRuntime) (w := sampleServer) sampleWritten
    (p := fun w => w.volatile.fileCursors.lookup (fdKey 1) = some ⟨sampleClient 1, 1, 10⟩ ∧
      w.persistent.metadata.lookup 1 =
        some ⟨1, 10, ⟨256, by decide, by decide⟩, ⟨128, by decide, by decide⟩, 128, "a", {}⟩)
    (by decide +kernel)
  obtain ⟨hfile, hinfo⟩ := of_decide_eq_true hend
  exact ⟨w, hrun, (fileSeek_moves started_sampleServer hrun hfile hinfo (by decide) (by decide)
    (by decide)).2 .seekCur (by decide) (by decide)⟩

/-- From the end of a file of ten bytes, the cursor does not go back by four. -/
theorem seekEnd_ignoresOffset : ∃ w, Steps (step sampleRuntime) sampleServer sampleWritten w ∧
    w.volatile.fileCursors.lookup (fdKey 1) = some ⟨sampleClient 1, 1, 10⟩ ∧
    (w.persistent.metadata.lookup 1).map PersistentMetadataInfo.size = some 10 ∧
    0 ≤ Whence.seekEnd.base 10 10 + -4 ∧
    ¬ Seeks sampleRuntime w 1 (-4) .seekEnd (sampleClient 1) (min (Whence.seekEnd.base 10 10 + -4) 10)
      (min (Whence.seekEnd.base 10 10 + -4).toNat 10) := by
  obtain ⟨w, hrun, hend⟩ := exists_steps (R := sampleRuntime) (w := sampleServer) sampleWritten
    (p := fun w => w.volatile.fileCursors.lookup (fdKey 1) = some ⟨sampleClient 1, 1, 10⟩ ∧
      w.persistent.metadata.lookup 1 =
        some ⟨1, 10, ⟨256, by decide, by decide⟩, ⟨128, by decide, by decide⟩, 128, "a", {}⟩)
    (by decide +kernel)
  obtain ⟨hfile, hinfo⟩ := of_decide_eq_true hend
  refine ⟨w, hrun, hfile, by rw [hinfo]; rfl, by decide, ?_⟩
  intro hseeks
  have hrested := started_sampleServer.rested.run hrun
  have hsought := lookup_sought sampleRuntime (-4) .seekEnd hfile hinfo (by decide) (by decide)
  exact absurd (hseeks.unique (seeks_sought hrested (by decide) hsought (by decide))).2 (by decide)

end

end DecaFS
