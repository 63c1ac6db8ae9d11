import DecaFS.BaristaCore.Issues
import DecaFS.BaristaCore.PartialReads
import DecaFS.Espresso.Refinement

/-!
# A file in its chunks

The writes to a file, each at its position, and what they make of the chunks (`chunkWrites`): the byte at a
place of a chunk is the byte of the file at the position that lies there (`lastByte_chunkWrites`), and
while no write leaves a gap behind the end of the file the chunks are as long as the file reaches into them
(`lt_chunkSize_chunkWrites`). So what the chunks answer to the packets of a read, put together in the order
of the spans, is what the file holds from the cursor on (`flatMap_filterMap_spans`).
-/

namespace DecaFS

/-! ### Writes to a chunk -/

/-- The number of the stripe and the number of the chunk in it. -/
def Span.place (s : Span) : ℕ × ℕ := (s.stripeId, s.chunkNum)

/-- The writes to the chunk at `place`, after a portion of a write to the file. -/
def recordPortion (place : ℕ × ℕ) (ws : List ChunkWrite) (e : Span × List UInt8) : List ChunkWrite :=
  if e.1.place = place then ⟨e.1.offset, e.2⟩ :: ws else ws

/-- The writes that the writes to a file make to the chunk at `place`, the last one first. -/
def chunkWrites (stripeSize chunkSize : ℕ) (place : ℕ × ℕ) : List ChunkWrite → List ChunkWrite
  | [] => []
  | w :: ws => (portions (spans stripeSize chunkSize w.offset.toNat w.bytes.length) w.bytes).foldl
      (recordPortion place) (chunkWrites stripeSize chunkSize place ws)

/-- No write begins behind the end of what the writes before it made. -/
def Contiguous : List ChunkWrite → Prop
  | [] => True
  | w :: ws => 0 ≤ w.offset ∧ w.offset ≤ chunkSize ws ∧ Contiguous ws

section

variable {place : ℕ × ℕ} {l : List (Span × List UInt8)} {base ws : List ChunkWrite} {i : ℤ}

/-- The portion has a byte at position `i` of the chunk. -/
def Covers (place : ℕ × ℕ) (i : ℤ) (e : Span × List UInt8) : Prop :=
  e.1.place = place ∧ (e.1.offset : ℤ) ≤ i ∧ i < e.1.offset + e.2.length

/-- The last portion with a byte at the position decides. -/
theorem lastByte_foldl (place : ℕ × ℕ) (base : List ChunkWrite) : (∃ e ∈ l, Covers place i e ∧
      lastByte (l.foldl (recordPortion place) base) i = e.2[(i - e.1.offset).toNat]?) ∨
    (∀ e ∈ l, ¬ Covers place i e) ∧
      lastByte (l.foldl (recordPortion place) base) i = lastByte base i := by
  induction l generalizing base with
  | nil => exact .inr ⟨List.forall_mem_nil _, rfl⟩
  | cons e l ih =>
    rw [List.foldl_cons]
    rcases ih (recordPortion place base e) with ⟨e', he', hcovers, hlast⟩ | ⟨hnone, hlast⟩
    · exact .inl ⟨e', List.mem_cons_of_mem _ he', hcovers, hlast⟩
    · by_cases hcovers : Covers place i e
      · refine .inl ⟨e, List.mem_cons_self, hcovers, ?_⟩
        rw [hlast, recordPortion, if_pos hcovers.1, lastByte, if_pos hcovers.2]
      · refine .inr ⟨List.forall_mem_cons.mpr ⟨hcovers, hnone⟩, ?_⟩
        rw [hlast, recordPortion]
        split_ifs with hplace
        · rw [lastByte, if_neg fun hin => hcovers ⟨hplace, hin⟩]
        · rfl

theorem lt_chunkSize_foldl : i < chunkSize (l.foldl (recordPortion place) base) ↔
    i < chunkSize base ∨ ∃ e ∈ l, e.1.place = place ∧ i < e.1.offset + e.2.length := by
  induction l generalizing base with
  | nil => simp
  | cons e l ih =>
    rw [List.foldl_cons, ih, recordPortion, List.exists_mem_cons_iff, ← or_assoc]
    refine or_congr_left ?_
    split_ifs with hplace
    · rw [chunkSize, lt_max_iff, or_comm]
      exact or_congr_right (and_iff_right hplace).symm
    · exact (or_iff_left fun h => hplace h.1).symm

/-- Only what was written is there. -/
theorem lt_chunkSize_of_lastByte {b : UInt8} (h : lastByte ws i = some b) : i < chunkSize ws := by
  induction ws with
  | nil => exact absurd h (by simp [lastByte])
  | cons w ws ih =>
    rw [lastByte] at h
    rw [chunkSize, lt_max_iff]
    split_ifs at h with hin
    · exact .inl hin.2
    · exact .inr (ih h)

/-- Without gaps everything is there. -/
theorem Contiguous.lastByte_isSome (h : Contiguous ws) (h₀ : 0 ≤ i) (hlt : i < chunkSize ws) :
    (lastByte ws i).isSome = true := by
  induction ws with
  | nil => exact absurd (h₀.trans_lt hlt) (lt_irrefl 0)
  | cons w ws ih =>
    obtain ⟨-, hle, hws⟩ := h
    rw [lastByte]
    split_ifs with hin
    · have hbound : (i - w.offset).toNat < w.bytes.length := by omega
      rw [List.getElem?_eq_getElem hbound]
      rfl
    · refine ih hws ?_
      rw [chunkSize, lt_max_iff] at hlt
      omega

end

/-! ### Where the bytes of a write go -/

section

variable {stripeSize : StripeSize} {chunkSize : ChunkSize} {o n : ℕ} {buf : List UInt8}
  {e : Span × List UInt8} {p i : ℕ} {place : ℕ × ℕ} {off : ℕ}

/-- Only the first piece begins behind the beginning of its block. -/
theorem Piece.offset_eq {size id offset n : ℕ} {p : Piece} (hp : p ∈ pieces size id offset n) :
    p.offset = 0 ∨ p.id = id ∧ p.offset = offset := by
  have hrest : ∀ id n, ∀ p ∈ pieces size id 0 n, p.offset = 0 := by
    intro id n
    generalize hoffset : (0 : ℕ) = offset
    induction id, offset, n using pieces.induct size with
    | case1 id offset n h => simp [pieces, h]
    | case2 id offset n h ih =>
      rw [pieces, if_neg h, List.forall_mem_cons]
      exact ⟨rfl, fun p hp => (ih rfl p hp).trans hoffset⟩
  rw [pieces] at hp
  split_ifs at hp
  · exact absurd hp List.not_mem_nil
  · rcases List.mem_cons.mp hp with rfl | hp
    · exact .inr ⟨rfl, rfl⟩
    · exact .inl (hrest _ _ p hp)

/-- What lies before the beginning of a block's first piece lies before the segment. -/
theorem lt_of_lt_firstOffset {size p off : ℕ} (hsize : 0 < size) (hoff : off < firstOffset size p) :
    (firstBlock size p - 1) * size + off < p ∧
      ((firstBlock size p - 1) * size + off) / size + 1 = firstBlock size p ∧
      ((firstBlock size p - 1) * size + off) % size = off := by
  have hle : firstOffset size p ≤ size := firstOffset_le hsize
  have hlt : off < size := hoff.trans_le hle
  have hblock : firstBlock size p - 1 = (p - 1) / size := rfl
  refine ⟨?_, ?_, ?_⟩
  · rw [hblock]
    unfold firstOffset at hoff
    omega
  · rw [Nat.add_comm ((firstBlock size p - 1) * size), Nat.add_mul_div_right _ _ hsize,
      Nat.div_eq_of_lt hlt, hblock, firstBlock, Nat.zero_add]
  · rw [Nat.add_comm, Nat.add_mul_mod_self_right, Nat.mod_eq_of_lt hlt]

/-- What lies in the chunk of a span and before it lies before the segment. -/
theorem exists_location_before {s : Span} (hs : s ∈ spans stripeSize.val chunkSize.val o n)
    (hoff : off < s.offset) :
    ∃ p < o, location stripeSize.val chunkSize.val p = (s.stripeId, s.chunkNum, off) := by
  have hstripe := stripeSize.min_le
  have hchunk := chunkSize.min_le
  obtain ⟨P, hP, hs⟩ := List.mem_flatMap.mp hs
  obtain ⟨q, hq, rfl⟩ := List.mem_map.mp hs
  obtain ⟨hid, hoffset⟩ := (Piece.offset_eq hq).resolve_left fun h => by
    have hpos : off < q.offset := hoff
    omega
  have hoff : off < firstOffset chunkSize.val P.offset := hoffset ▸ hoff
  obtain ⟨hx, hblock, hmod⟩ := lt_of_lt_firstOffset (by omega) hoff
  generalize (firstBlock chunkSize.val P.offset - 1) * chunkSize.val + off = x at hx hblock hmod
  obtain ⟨hid', hoffset'⟩ := (Piece.offset_eq hP).resolve_left (by omega)
  have hx : _ < firstOffset stripeSize.val o := hoffset' ▸ hx
  obtain ⟨hp, hblock', hmod'⟩ := lt_of_lt_firstOffset (by omega) hx
  refine ⟨_, hp, ?_⟩
  rw [location, hblock', hmod', hblock, hmod]
  exact Prod.ext hid'.symm (Prod.ext hid.symm rfl)

/-- The bytes of the portions, each with its place. -/
theorem flatMap_portions_spans (o : ℕ) (buf : List UInt8) :
    ((portions (spans stripeSize.val chunkSize.val o buf.length) buf).flatMap fun e =>
      e.1.bytes.zip e.2) = ((List.range buf.length).map fun i =>
        location stripeSize.val chunkSize.val (o + i)).zip buf := by
  rw [flatMap_zip_portions, (tiles_spans stripeSize chunkSize o buf.length).bytes]

theorem length_of_mem_writePortions
    (he : e ∈ portions (spans stripeSize.val chunkSize.val o buf.length) buf) :
    e.2.length = e.1.length :=
  length_of_mem_portions (sum_length_of_tiles (tiles_spans stripeSize chunkSize o buf.length)).le he

/-- A byte of a portion is a byte of the write. -/
theorem exists_position (he : e ∈ portions (spans stripeSize.val chunkSize.val o buf.length) buf)
    (hi : i < e.2.length) : ∃ j < buf.length, buf[j]? = e.2[i]? ∧
      location stripeSize.val chunkSize.val (o + j) = (e.1.stripeId, e.1.chunkNum, e.1.offset + i) := by
  have hlength := length_of_mem_writePortions he
  have hmem : ((e.1.stripeId, e.1.chunkNum, e.1.offset + i), e.2[i]) ∈ e.1.bytes.zip e.2 := by
    refine List.mem_iff_getElem?.mpr ⟨i, ?_⟩
    rw [List.getElem?_zip_eq_some, List.getElem?_eq_getElem hi]
    exact ⟨by simp [Span.bytes, ← hlength, hi], rfl⟩
  have hall : ((e.1.stripeId, e.1.chunkNum, e.1.offset + i), e.2[i]) ∈
      (portions (spans stripeSize.val chunkSize.val o buf.length) buf).flatMap fun e =>
        e.1.bytes.zip e.2 := List.mem_flatMap.mpr ⟨e, he, hmem⟩
  rw [flatMap_portions_spans] at hall
  obtain ⟨j, hj⟩ := List.mem_iff_getElem?.mp hall
  obtain ⟨hloc, hbyte⟩ := List.getElem?_zip_eq_some.mp hj
  obtain ⟨hlt, -⟩ := List.getElem?_eq_some_iff.mp hbyte
  refine ⟨j, hlt, by rw [hbyte, List.getElem?_eq_getElem hi], ?_⟩
  simpa [hlt] using hloc

/-- A byte of the write is a byte of a portion. -/
theorem exists_portion {j : ℕ} (hj : j < buf.length)
    (hloc : location stripeSize.val chunkSize.val (o + j) = (place.1, place.2, off)) :
    ∃ e ∈ portions (spans stripeSize.val chunkSize.val o buf.length) buf, Covers place off e := by
  have hall : (location stripeSize.val chunkSize.val (o + j), buf[j]) ∈
      ((List.range buf.length).map fun i => location stripeSize.val chunkSize.val (o + i)).zip buf := by
    refine List.mem_iff_getElem?.mpr ⟨j, ?_⟩
    rw [List.getElem?_zip_eq_some, List.getElem?_eq_getElem hj]
    exact ⟨by simp [hj], rfl⟩
  rw [← flatMap_portions_spans] at hall
  obtain ⟨e, he, hmem⟩ := List.mem_flatMap.mp hall
  refine ⟨e, he, ?_⟩
  obtain ⟨i, hi⟩ := List.mem_iff_getElem?.mp hmem
  obtain ⟨hbytes, hbyte⟩ := List.getElem?_zip_eq_some.mp hi
  obtain ⟨hlt, -⟩ := List.getElem?_eq_some_iff.mp hbyte
  have hlength := length_of_mem_writePortions he
  have heq : (e.1.stripeId, e.1.chunkNum, e.1.offset + i) = (place.1, place.2, off) := by
    rw [← hloc]
    simpa [Span.bytes, ← hlength, hlt] using hbytes
  obtain ⟨hstripe, hrest⟩ := Prod.mk.inj heq
  obtain ⟨hchunk, hoff⟩ := Prod.mk.inj hrest
  exact ⟨Prod.ext hstripe hchunk, by omega, by omega⟩

end

/-! ### What the chunks hold -/

section

variable {stripeSize : StripeSize} {chunkSize : ChunkSize} {ws : List ChunkWrite} {place : ℕ × ℕ}
  {p off o n : ℕ}

/-- **The byte at a place** is the byte of the file at the position that lies there. -/
theorem lastByte_chunkWrites (hws : ∀ w ∈ ws, 0 ≤ w.offset)
    (hloc : location stripeSize.val chunkSize.val p = (place.1, place.2, off)) :
    lastByte (chunkWrites stripeSize.val chunkSize.val place ws) off = lastByte ws p := by
  induction ws with
  | nil => rfl
  | cons w ws ih =>
    obtain ⟨h₀, hws⟩ := List.forall_mem_cons.mp hws
    rw [chunkWrites, lastByte]
    have hlast := lastByte_foldl (i := off)
      (l := portions (spans stripeSize.val chunkSize.val w.offset.toNat w.bytes.length) w.bytes) place
      (chunkWrites stripeSize.val chunkSize.val place ws)
    rcases hlast with
      ⟨e, he, ⟨hplace, hle, hlt⟩, hlast⟩ | ⟨hnone, hlast⟩
    · -- the byte of the portion is the byte of the write at `p`
      have hi : off - e.1.offset < e.2.length := by omega
      obtain ⟨j, hj, hbyte, hposition⟩ := exists_position he hi
      have hoff : e.1.offset + (off - e.1.offset) = off := by omega
      have hstripe : e.1.stripeId = place.1 := congrArg Prod.fst hplace
      have hchunk : e.1.chunkNum = place.2 := congrArg Prod.snd hplace
      rw [hoff, hstripe, hchunk, ← hloc] at hposition
      obtain rfl := location_injective _ _ hposition
      have hindex : ((off : ℤ) - e.1.offset).toNat = off - e.1.offset := by omega
      have hindex' : (((w.offset.toNat + j : ℕ) : ℤ) - w.offset).toNat = j := by omega
      rw [hlast, hindex, if_pos (by omega), hindex', hbyte]
    · rw [hlast, ih hws, if_neg]
      rintro ⟨hle, hlt⟩
      have hsum : w.offset.toNat + (p - w.offset.toNat) = p := by omega
      have hj : p - w.offset.toNat < w.bytes.length := by omega
      obtain ⟨e, he, hcovers⟩ := exists_portion (o := w.offset.toNat) hj (by rwa [hsum])
      exact hnone e he hcovers

/-- **The chunks are as long as the file reaches into them.** -/
theorem lt_chunkSize_chunkWrites (hws : Contiguous ws) :
    (off : ℤ) < DecaFS.chunkSize (chunkWrites stripeSize.val chunkSize.val place ws) ↔
      ∃ p : ℕ, (p : ℤ) < DecaFS.chunkSize ws ∧
        location stripeSize.val chunkSize.val p = (place.1, place.2, off) := by
  induction ws with
  | nil =>
    have hnot : ∀ i : ℕ, ¬ (i : ℤ) < DecaFS.chunkSize [] := fun i => not_lt.mpr (Int.natCast_nonneg i)
    exact iff_of_false (hnot off) fun ⟨p, hlt, _⟩ => hnot p hlt
  | cons w ws ih =>
    obtain ⟨h₀, hle, hws⟩ := hws
    rw [chunkWrites, lt_chunkSize_foldl, ih hws, DecaFS.chunkSize]
    constructor
    · rintro (⟨p, hlt, hloc⟩ | ⟨e, he, hplace, hlt⟩)
      · exact ⟨p, lt_max_of_lt_right hlt, hloc⟩
      · have hstripe : e.1.stripeId = place.1 := congrArg Prod.fst hplace
        have hchunk : e.1.chunkNum = place.2 := congrArg Prod.snd hplace
        by_cases hbefore : off < e.1.offset
        · obtain ⟨p, hp, hloc⟩ := exists_location_before (fst_mem_of_mem_portions he) hbefore
          rw [hstripe, hchunk] at hloc
          exact ⟨p, lt_max_of_lt_right (by omega), hloc⟩
        · have hi : off - e.1.offset < e.2.length := by omega
          obtain ⟨j, hj, -, hposition⟩ := exists_position he hi
          have hoff : e.1.offset + (off - e.1.offset) = off := by omega
          rw [hoff, hstripe, hchunk] at hposition
          exact ⟨_, lt_max_of_lt_left (by omega), hposition⟩
    · rintro ⟨p, hlt, hloc⟩
      by_cases hold : (p : ℤ) < DecaFS.chunkSize ws
      · exact .inl ⟨p, hold, hloc⟩
      · have hnew := (lt_max_iff.mp hlt).resolve_right hold
        have hsum : w.offset.toNat + (p - w.offset.toNat) = p := by omega
        have hj : p - w.offset.toNat < w.bytes.length := by omega
        obtain ⟨e, he, hplace, -, hoff⟩ := exists_portion (o := w.offset.toNat) hj (by rwa [hsum])
        exact .inr ⟨e, he, hplace, hoff⟩

theorem Contiguous.nonneg : ∀ {ws : List ChunkWrite}, Contiguous ws → ∀ w ∈ ws, 0 ≤ w.offset
  | [], _ => List.forall_mem_nil _
  | _ :: _, h => List.forall_mem_cons.mpr ⟨h.1, h.2.2.nonneg⟩

/-- The byte that the chunks hold at a place. -/
def storedAt (stripeSize chunkSize : ℕ) (ws : List ChunkWrite) (loc : ℕ × ℕ × ℕ) : Option UInt8 :=
  lastByte (chunkWrites stripeSize chunkSize (loc.1, loc.2.1) ws) loc.2.2

theorem storedAt_location (hws : Contiguous ws) (p : ℕ) : storedAt stripeSize.val chunkSize.val ws
    (location stripeSize.val chunkSize.val p) = lastByte ws p :=
  lastByte_chunkWrites hws.nonneg rfl

/-- A chunk that the file reaches into was written to, and so were the chunks before it in its stripe. -/
theorem chunkWrites_ne_nil (hws : Contiguous ws) {stripeId chunkNum chunkNum' : ℕ} {b : UInt8}
    (hb : storedAt stripeSize.val chunkSize.val ws (stripeId, chunkNum', off) = some b) (h₁ : 1 ≤ chunkNum)
    (hle : chunkNum ≤ chunkNum') :
    chunkWrites stripeSize.val chunkSize.val (stripeId, chunkNum) ws ≠ [] := by
  have hchunk := chunkSize.min_le
  obtain ⟨p, hp, hloc⟩ := (lt_chunkSize_chunkWrites hws).mp (lt_chunkSize_of_lastByte hb)
  simp only [location, Prod.mk.injEq] at hloc
  obtain ⟨hstripe, hnum, -⟩ := hloc
  -- the first byte of the chunk lies in the same stripe, at `p` or before it
  have hstart : (chunkNum - 1) * chunkSize.val ≤ p % stripeSize.val :=
    (Nat.mul_le_mul_right _ (by omega)).trans (Nat.div_mul_le_self (p % stripeSize.val) chunkSize.val)
  have hmod : p % stripeSize.val < stripeSize.val := Nat.mod_lt _ (by have := stripeSize.min_le; omega)
  have hlt : (chunkNum - 1) * chunkSize.val < stripeSize.val := hstart.trans_lt hmod
  have hfirst : location stripeSize.val chunkSize.val
      ((chunkNum - 1) * chunkSize.val + p / stripeSize.val * stripeSize.val) = (stripeId, chunkNum, 0) := by
    have hpos : 0 < stripeSize.val := Nat.zero_lt_of_lt hlt
    rw [location, Nat.add_mul_div_right _ _ hpos, Nat.add_mul_mod_self_right, Nat.div_eq_of_lt hlt,
      Nat.mod_eq_of_lt hlt, Nat.mul_div_cancel _ (by omega), Nat.mul_mod_left, Nat.zero_add, hstripe,
      Nat.sub_add_cancel h₁]
  have hbefore : (chunkNum - 1) * chunkSize.val + p / stripeSize.val * stripeSize.val ≤ p := by
    have hp := Nat.div_add_mod' p stripeSize.val
    omega
  have hsize : ((0 : ℕ) : ℤ) < DecaFS.chunkSize (chunkWrites stripeSize.val chunkSize.val
      (stripeId, chunkNum) ws) := (lt_chunkSize_chunkWrites hws).mpr ⟨_, by omega, hfirst⟩
  intro hnil
  rw [hnil] at hsize
  exact lt_irrefl (0 : ℤ) hsize

/-- **The spans put together** are the file from the cursor on. -/
theorem flatMap_filterMap_spans (hws : Contiguous ws) (o n : ℕ) :
    ((spans stripeSize.val chunkSize.val o n).flatMap fun s =>
        s.bytes.filterMap (storedAt stripeSize.val chunkSize.val ws)) =
      (List.range n).filterMap fun i => lastByte ws ((o + i : ℕ) : ℤ) := by
  rw [← List.filterMap_flatMap, (tiles_spans stripeSize chunkSize o n).bytes, List.filterMap_map]
  refine List.filterMap_congr fun i _ => ?_
  exact storedAt_location hws (o + i)

end

end DecaFS
