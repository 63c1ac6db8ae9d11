import DecaFS.BaristaCore.Results
import DecaFS.Cluster.Serving

/-!
# Every request is answered

As long as a packet or an answer is under way on an open connection, the node can serve the packet or the
server can take the answer: no packet is one that a node cannot handle, and no answer makes an assertion
of the server fail. Each such step leaves less to do. So when the clients are quiet everything that is
under way is answered after finitely many steps, in whatever order nodes and answers come, and by then
each read and each write has its result, if it was one that gets a result at all (`requests_answered`).
-/

namespace DecaFS

open Code Barista Links

/-! ### Requests that get a result -/

section

variable {R : Runtime} {w w' : World} {fd count : ℤ} {buf : List UInt8} {client : Client}
  {script : List SendOutcome}

/-- A read that is refused or has a chunk to send for gets its result. -/
theorem Running.read_settles (hw : Running w) (hroom : w.volatile.requestId + 1 < 4294967296)
    (hstep : step R w (.readFile fd count client script) w')
    (hconcludes : ReadConcludes R fd count client w) :
    SettlesWhenAnswered R (.read (w.volatile.requestId + 1)) client w' := by
  have hhandled := hw.handled (i := .readFile fd count client script) hroom hstep
  have hbooked := hw.booked.withScript script
  have hserved := (wp_scripted.mpr (wp_readFile_served (R := R) fd count client hbooked hroom)).of_ok hstep
  rcases hserved with ⟨-, -, reply, -, rfl⟩ | ⟨hpass, info, used, sent, w₂, hs⟩
  · exact (hhandled.running hw).settles_of_replied List.mem_cons_self
  · have hroom' : w'.volatile.requestId < 4294967296 := by
      rw [hhandled.requestId]
      exact hroom
    refine (hs.settles_iff hbooked (hhandled.running hw) hroom').mpr ?_
    obtain ⟨info', hinfo', hspans⟩ := hconcludes.resolve_left fun h => h hpass
    obtain rfl : info = info' := Option.some.inj (hs.file.symm.trans hinfo')
    exact hspans

/-- A write that is refused, or whose count is positive and whose sends lose no replica, gets its
result. -/
theorem Running.write_settles (hw : Running w) (hroom : w.volatile.requestId + 2 < 4294967296)
    (hstep : step R w (.writeFile fd buf count client script) w')
    (hconcludes : WriteConcludes fd count client script w) :
    SettlesWhenAnswered R (.write (nextWrite w)) client w' := by
  have hhandled := hw.handled (i := .writeFile fd buf count client script) hroom hstep
  have hbooked := hw.booked.withScript script
  have hserved :=
    (wp_scripted.mpr (wp_writeFile_served (R := R) fd count buf client hbooked hroom)).of_ok hstep
  rcases hserved with ⟨-, -, reply, -, rfl⟩ | ⟨hpass, info, used, sent, w₂, hs⟩
  · exact (hhandled.running hw).settles_of_replied List.mem_cons_self
  · have hroom' : w'.volatile.requestId < 4294967296 := by
      rw [hhandled.requestId]
      exact hroom
    refine (hs.settles_iff hbooked (hhandled.running hw) hroom').mpr ?_
    obtain ⟨hpos, info', hinfo', hlost⟩ := hconcludes.resolve_left fun h => h hpass
    obtain rfl : info = info' := Option.some.inj (hs.file.symm.trans hinfo')
    exact ⟨hpos, hlost⟩

end

/-! ### What is under way goes on -/

/-- A node serves a packet, or the server takes an answer. -/
def Action.OnLinks : Action → Prop
  | .serve .. | .deliver .. => True
  | _ => False

theorem Links.transit_eq_nil_of_load {ν ρ α σ : Type} {s : Links ν ρ α σ} (h : s.load = 0) :
    s.transit = [] :=
  List.eq_nil_of_length_eq_zero (Nat.eq_zero_of_add_eq_zero_right h)

namespace Cluster

variable {R : Runtime} {c₀ c c₁ c₂ c' : Cluster} {a : Action} {as bs : List Action} {i : Input} {maxSize : ℕ}

theorem Step.load (h : Step R c a c') (ha : a.OnLinks) :
    c'.links.load + 1 = c.links.load ∧ c'.links.closed = c.links.closed := by
  cases h with
  | call quiet stays opened handled posted => exact ha.elim
  | serve served =>
    refine ⟨served.load_serve, ?_⟩
    cases served
    rfl
  | deliver taken handled =>
    refine ⟨taken.load_take, ?_⟩
    cases taken
    rfl
  | disconnect closed handled => exact ha.elim

theorem inputs_onLinks (ha : a.OnLinks) : idsOf (inputs [a]) = 0 ∧ ∀ i ∈ inputs [a], i.Whole := by
  cases a with
  | call i => exact ha.elim
  | serve node r ans => exact ⟨rfl, fun i hi => absurd hi List.not_mem_nil⟩
  | deliver k node r ans =>
    refine ⟨rfl, fun i hi => ?_⟩
    obtain rfl := List.mem_singleton.mp hi
    trivial
  | disconnect node => exact ha.elim

/-- **While something is under way, a node or the server can go on.** -/
theorem Started.exists_onLinks (hstart : Started maxSize c₀) (hpos : 0 < maxSize)
    (hmax : (maxSize : ℤ) ≤ intMax) (hrun : Steps (Step R) c₀ as c)
    (hids : idsOf (inputs as) < 4294967296) (hwhole : ∀ i ∈ inputs as, i.Whole)
    (hopen : c.links.closed = ∅) (hload : c.links.load ≠ 0) : ∃ a c', a.OnLinks ∧ Step R c a c' := by
  have hroom : c₀.barista.volatile.requestId + idsOf (inputs as) < 4294967296 := by
    rwa [hstart.barista.requestId, Nat.zero_add]
  obtain ⟨hsound, -, hsteps, -⟩ := hstart.sound.run hroom hrun
  obtain ⟨takes, -, hserving⟩ := hstart.serving hpos hmax hrun hids hwhole
  obtain ⟨p, hp⟩ : ∃ p, p ∈ c.links.transit := by
    refine List.exists_mem_of_ne_nil _ fun hnil => hload ?_
    simp [Links.load, hnil]
  have hqueue : c.links.queue p.node ≠ [] :=
    List.ne_nil_of_mem (List.mem_filter.mpr ⟨hp, by simp⟩)
  have hclosed : p.node ∉ c.links.closed := by
    rw [hopen]
    exact Finset.notMem_empty _
  have hready : ∃ r, (∃ before behind, c.links.transit = before ++ ⟨p.node, r, none⟩ :: behind ∧
      ∀ q ∈ before, q.node ≠ p.node) ∨ ∃ k ans links, Links.Step Espresso.Serves c.links
        (.take k p.node r ans) links := Links.exists_ready hclosed hqueue
  obtain ⟨r, ⟨before, behind, htransit, hfirst⟩ | ⟨k, ans, links, htake⟩⟩ := hready
  · obtain ⟨answers, waiting, hnode⟩ := hserving p.node
    -- the packet was sent to the node
    have hsent : r ∈ about p.node (sends c.barista.network.log) := by
      have hmem : (⟨p.node, r, none⟩ : Parcel ℤ ChunkRequest Answer) ∈ c.links.queue p.node := by
        refine List.mem_filter.mpr ⟨?_, by simp⟩
        rw [htransit]
        exact List.mem_append_right _ List.mem_cons_self
      rw [hnode.queue, List.mem_append] at hmem
      rw [hnode.sent]
      rcases hmem with hmem | hmem
      · obtain ⟨q, -, hq⟩ := List.mem_map.mp hmem
        exact absurd (Parcel.mk.inj hq).2.2 (by simp)
      · obtain ⟨r', hr', hq⟩ := List.mem_map.mp hmem
        obtain rfl := (Parcel.mk.inj hq).2.1
        exact List.mem_append_right _ hr'
    obtain ⟨e, he, heq⟩ := List.mem_map.mp hsent
    have hin := hstart.barista.packets_inChunk hsteps hids hwhole e (List.mem_of_mem_filter he)
    rw [heq] at hin
    obtain ⟨ans, store, hserves⟩ := hnode.well.stores.exists_serves hmax hin
    exact ⟨.serve p.node r ans, _, trivial,
      .serve (.serve htransit (fun q hq hnodeq => absurd hnodeq (hfirst q hq)) hclosed hserves)⟩
  · have hreceive : wp (receive R ⟨k, ans.1, ans.2⟩) _ (fun _ => False) c.barista :=
      wp_receive (R := R) hsound.running.booked _
    obtain ⟨_, w, hhandled, -⟩ := hreceive.exists_ok
    exact ⟨.deliver k p.node r ans, _, trivial, .deliver htake hhandled⟩

/-- **Everything under way is answered**, in whatever order this happens. -/
theorem Started.inevitably_drained (hstart : Started maxSize c₀) (hpos : 0 < maxSize)
    (hmax : (maxSize : ℤ) ≤ intMax) (hrun : Steps (Step R) c₀ as c)
    (hids : idsOf (inputs as) < 4294967296) (hwhole : ∀ i ∈ inputs as, i.Whole)
    (hopen : c.links.closed = ∅) :
    Inevitably (Step R) Action.OnLinks (fun c' => c'.links.transit = [] ∧
      ∃ bs, Steps (Step R) c bs c' ∧ idsOf (inputs bs) = 0) c := by
  let I : Cluster → Prop := fun c' => c'.links.closed = ∅ ∧ ∃ bs, Steps (Step R) c bs c' ∧
    idsOf (inputs bs) = 0 ∧ ∀ i ∈ inputs bs, i.Whole
  have hI : I c := ⟨hopen, [], .refl c, rfl, fun i hi => absurd hi List.not_mem_nil⟩
  refine Inevitably.of_measure (I := I) (fun c' => c'.links.load) (fun s a t hs ha hstep => ?_)
    (fun s hs => ?_) hI
  · obtain ⟨hclosed, bs, hbs, hzero, hall⟩ := hs
    obtain ⟨hload, hsame⟩ := hstep.load ha
    obtain ⟨hids₁, hwhole₁⟩ := inputs_onLinks ha
    refine ⟨⟨hsame.trans hclosed, bs ++ [a], hbs.trans (.single hstep), ?_, ?_⟩, by omega⟩
    · rw [inputs_append, idsOf_append, hzero, hids₁]
    · rw [inputs_append]
      exact fun i hi => (List.mem_append.mp hi).elim (hall i) (hwhole₁ i)
  · obtain ⟨hclosed, bs, hbs, hzero, hall⟩ := hs
    by_cases hload : s.links.load = 0
    · exact .inl ⟨transit_eq_nil_of_load hload, bs, hbs, hzero⟩
    · refine .inr ?_
      have hids' : idsOf (inputs (as ++ bs)) < 4294967296 := by
        rw [inputs_append, idsOf_append]
        omega
      have hwhole' : ∀ i ∈ inputs (as ++ bs), i.Whole := by
        rw [inputs_append]
        exact fun i hi => (List.mem_append.mp hi).elim (hwhole i) (hall i)
      exact hstart.exists_onLinks hpos hmax (hrun.trans hbs) hids' hwhole' hclosed hload

end Cluster

end DecaFS
