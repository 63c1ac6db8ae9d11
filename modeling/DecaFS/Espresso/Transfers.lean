import DecaFS.ForMathlib.Logged
import DecaFS.Espresso.Growth
import DecaFS.Espresso.Iterators

/-!
# The transfers of the chunk store

`read_data` and `write_data` move bytes between a buffer and the data file. They are modelled once more
with a log of the transfers, each with the extent of the chunk, the position of `lseek`, the count that
`read` or `write` is given, the bytes moved and the length of the buffer; forgetting the log gives the
model without it (`erases_writeChunk`).

A transfer may leave its chunk at either end: the only test of the offset is the one it fails when it is
past the end of a write, and a growing `write_chunk` writes the copy of the chunk back with the new size
out of a buffer of the old one.
-/

namespace DecaFS

open OrderedList EspressoData Code

/-- A `read` or `write` on the data file, for a chunk with the extent `chunk`. -/
structure Transfer where
  chunk : DataAddress
  /-- where `lseek` has gone -/
  pos : ℤ
  /-- the count passed -/
  count : ℤ
  /-- the bytes moved -/
  moved : ℕ
  /-- the length of the buffer -/
  room : ℤ

/-- The transfer stays inside the chunk and the buffer. -/
structure Transfer.Inside (t : Transfer) : Prop where
  count_nonneg : 0 ≤ t.count
  moved_le : t.moved ≤ t.room
  has : ∀ x, t.pos ≤ x → x < t.pos + t.moved → t.chunk.Has x

namespace Espresso.Transfers

/-- Code of the chunk store that notes its transfers. -/
abbrev Tracked (α : Type) : Type := Code EspressoSite (Logged EspressoData Transfer) α

/-- `read_data` -/
def readData (d : DataDescriptor) (offset count : ℤ) : Tracked (ℤ × List UInt8) := do
  let u ← get
  if count < 0 then return (-1, []) else
  match u.state.metadata.lookup d with
  | none => return (-1, [])
  | some a =>
    let left := toInt32 (a.size - offset)
    let length := if count > left then left else count
    let pos := toInt32 (a.offset + offset)
    -- a negative position fails in `lseek`
    if pos < 0 then return (-1, []) else
    let bytes := slice u.state.file pos.toNat length.toNat
    note ⟨a, pos, length, bytes.length, count⟩
    -- a negative count fails in `read`
    if length < 0 then return (-1, []) else
    return (bytes.length, bytes)

/-- `write_data` out of a buffer of `room` bytes -/
def writeData (d : DataDescriptor) (offset : ℤ) (buf : List UInt8) (count room : ℤ) : Tracked ℤ := do
  let u ← get
  if count < 0 then return -1 else
  match u.state.metadata.lookup d with
  | none => return -1
  | some a =>
    if count > toInt32 (a.size - offset) then return -1 else
    let pos := toInt32 (a.offset + offset)
    if pos < 0 then return -1 else
    note ⟨a, pos, count, count.toNat, room⟩
    quietly (set { u.state with file := patch u.state.file pos.toNat (buf.take count.toNat) })
    return count

/-- `write_chunk` -/
def writeChunk (d : DataDescriptor) (offset : ℤ) (buf : List UInt8) (count : ℤ)
    (overread : ℕ → UInt8) : Tracked ℤ := do
  if count < 0 then return -1 else
  let size := toInt32 (offset + count)
  match (← get).state.metadata.lookup d with
  | none =>
    match ← quietly (allocateChunk size) with
    | none => return -1
    | some newA =>
      quietly (modify fun s => { s with metadata := s.metadata.insert d newA })
      writeData d offset buf count count
  | some a =>
    if size > a.size then
      if a.size < 0 then throw .badArrayNewLength else
      let (r, oldChunk) ← readData d 0 a.size
      if r = -1 then return -1 else
      if (← quietly (reallocateChunk d a size)) = -1 then return -1 else
      let newSize := ((← get).state.metadata.lookup d).elim 0 DataAddress.size
      let behind := (List.range (newSize - a.size).toNat).map overread
      -- the buffer has the old size
      if (← writeData d 0 (oldChunk ++ behind) newSize a.size) = -1 then return -1 else
      writeData d offset buf count count
    else
      writeData d offset buf count count

/-! ### Without the log -/

section

variable (d : DataDescriptor) (offset : ℤ) (buf : List UInt8) (count room : ℤ) (overread : ℕ → UInt8)

theorem erases_readData : Erases (readData d offset count) (Espresso.readData d offset count) := by
  refine erases_get_bind fun u => .ite (erases_pure _) ?_
  cases u.state.metadata.lookup d with
  | none => exact erases_pure _
  | some a =>
    intro v
    by_cases hpos : toInt32 (a.offset + offset) < 0
    · simp only [hpos, true_or, if_true]
      rfl
    · simp only [hpos, false_or, if_false]
      split_ifs <;> rfl

theorem erases_writeData : Erases (writeData d offset buf count room)
    (Espresso.writeData d offset buf count) := by
  refine erases_get_bind fun u => .ite (erases_pure _) ?_
  cases u.state.metadata.lookup d with
  | none => exact erases_pure _
  | some a =>
    exact .ite (erases_pure _) (.ite (erases_pure _) (.note_bind _ (.bind (erases_quietly _) fun _ =>
      erases_pure _)))

/-- **Without its log**, `write_chunk` is the one of the store. -/
theorem erases_writeChunk : Erases (writeChunk d offset buf count overread)
    (Espresso.writeChunk d offset buf count overread) := by
  refine .ite (erases_pure _) (erases_get_bind fun u => ?_)
  cases u.state.metadata.lookup d with
  | none =>
    refine .bind (erases_quietly _) fun newA => ?_
    cases newA with
    | none => exact erases_pure _
    | some newA => exact .bind (erases_quietly _) fun _ => erases_writeData _ _ _ _ _
  | some a =>
    refine .ite (.ite (erases_throw _) (.bind (erases_readData _ _ _) fun r => .ite (erases_pure _) ?_))
      (erases_writeData _ _ _ _ _)
    exact .bind (erases_quietly _) fun _ => .ite (erases_pure _) (erases_get_bind fun v =>
      .bind (erases_writeData _ _ _ _ _) fun _ => .ite (erases_pure _) (erases_writeData _ _ _ _ _))

end

/-! ### Calls -/

/-- A call that moves bytes. -/
inductive DataCall : Type
  | readChunk (d : DataDescriptor) (offset count : ℤ)
  | writeChunk (d : DataDescriptor) (offset : ℤ) (buf : List UInt8) (count : ℤ) (overread : ℕ → UInt8)

/-- `x` is an `int`. -/
def IsInt (x : ℤ) : Prop := -2147483648 ≤ x ∧ x ≤ intMax

namespace DataCall

/-- The function called. -/
def code : DataCall → Tracked ℤ
  | readChunk d offset count => Prod.fst <$> readData d offset count
  | writeChunk d offset buf count overread => Transfers.writeChunk d offset buf count overread

/-- The offset and the count are an `int`. -/
def Ints : DataCall → Prop
  | readChunk _ offset count => IsInt offset ∧ IsInt count
  | writeChunk _ offset _ count _ => IsInt offset ∧ IsInt count

/-- The range of the call is not one of the chunk: of the chunk there is for a read, and of any for a
write, which may create or grow it. -/
def OutOfReach (s : EspressoData) : DataCall → Prop
  | readChunk d offset count =>
    count < 0 ∨ ∀ a, s.metadata.lookup d = some a → 0 < count ∧ ¬ (0 ≤ offset ∧ offset ≤ a.size)
  | writeChunk _ offset _ count _ => count < 0 ∨ 0 < count ∧ ¬ (0 ≤ offset ∧ offset + count ≤ intMax)

end DataCall

/-- What the claim about a call asks of its result and its transfers. -/
def Contained (s : EspressoData) (call : DataCall) (r : ℤ) (u : Logged EspressoData Transfer) : Prop :=
  (∀ t ∈ u.log, t.Inside) ∧ (r = -1 → u.state = s) ∧ (call.OutOfReach s → r = -1)

/-- The call returns; all its transfers stay inside the chunk and the buffer, it changes nothing when it
fails, and it fails when it is out of reach. -/
def StaysInside (s : EspressoData) (call : DataCall) : Prop :=
  ∃ r u, call.code ⟨s, []⟩ = .ok (r, u) ∧ Contained s call r u

/-! ### The condition -/

/-- Where `lseek` goes. -/
def position (a : DataAddress) (offset : ℤ) : ℤ := toInt32 (a.offset + offset)

/-- `lseek` fails; or the offset is not past the end of the chunk, nor before its beginning if bytes are
asked for, and the position is none that overflowed, unless there is nothing to read. -/
def ReadsInside (s : EspressoData) (a : DataAddress) (offset count : ℤ) : Prop :=
  position a offset < 0 ∨ (0 < count → 0 ≤ offset ∧ offset ≤ a.size) ∧ 0 ≤ toInt32 (a.size - offset) ∧
    (count = 0 ∨ offset = a.size ∨ position a offset = a.offset + offset ∨
      s.file.length ≤ position a offset)

/-- The write is refused, or empty, or in the chunk. -/
def WritesInside (a : DataAddress) (offset count : ℤ) : Prop :=
  toInt32 (a.size - offset) < count ∨ position a offset < 0 ∨ count = 0 ∨
    0 ≤ offset ∧ offset + count ≤ a.size ∧ position a offset = a.offset + offset

/-- `reallocate_chunk` can take back the deallocation of `a`. -/
def Undoable (s : EspressoData) (a : DataAddress) : Prop :=
  ∀ it ∈ (atLeast DataAddress.offset a.offset s.freeExtents).head?, (it.offset = a.offset → a.size = 0) ∧
    (it.offset = a.offset + a.size → 0 < it.size ∧ (0 < a.size ∨
      ∃ b ∈ (below DataAddress.offset a.offset s.freeExtents).getLast?, b.offset + b.size = a.offset))

/-- A read stays inside as far as it is read from; a write does in a chunk that is there or created, and
in one that it would have to grow only if it fails to. -/
def DataCall.Harmless (s : EspressoData) : DataCall → Prop
  | readChunk d offset count => 0 ≤ count → ∀ a, s.metadata.lookup d = some a → ReadsInside s a offset count
  | writeChunk d offset _ count _ => 0 ≤ count →
    match s.metadata.lookup d with
    | none => ∀ it, s.freeExtents.find? (fun it => toInt32 (offset + count) ≤ it.size) = some it →
      0 ≤ position ⟨it.offset, toInt32 (offset + count)⟩ offset ∧
        WritesInside ⟨it.offset, toInt32 (offset + count)⟩ offset count
    | some a => if a.size < toInt32 (offset + count) then
        0 ≤ a.size ∧ (position a 0 < 0 ∨ ReadsInside s a 0 a.size ∧
          s.NoExtent d (toInt32 (offset + count)) ∧ Undoable s a)
      else WritesInside a offset count

section

variable {s : EspressoData} {u : Logged EspressoData Transfer} {d : DataDescriptor} {a : DataAddress}
  {offset count room : ℤ} {buf : List UInt8} {overread : ℕ → UInt8} {call : DataCall}
  {E : EspressoSite → Prop}

theorem staysInside_iff : StaysInside s call ↔
    wp call.code (Contained s call) (fun _ => False) ⟨s, []⟩ := by
  constructor
  · rintro ⟨r, u, hok, h⟩
    exact (wp_ok hok).mpr h
  · exact fun h => h.exists_ok

/-! ### Single transfers -/

theorem forall_has_iff {lo : ℤ} {n : ℕ} : (∀ x, lo ≤ x → x < lo + n → a.Has x) ↔
    n = 0 ∨ a.offset ≤ lo ∧ lo + n ≤ a.offset + a.size := by
  constructor
  · intro h
    rcases Nat.eq_zero_or_pos n with hn | hn
    · exact .inl hn
    · have hfirst := h lo le_rfl (by omega)
      have hlast := h (lo + n - 1) (by omega) (by omega)
      exact .inr ⟨hfirst.1, by have := hlast.2; omega⟩
  · rintro (rfl | ⟨hlo, hhi⟩) x hx hx'
    · omega
    · exact ⟨by omega, by omega⟩

theorem inside_iff {t : Transfer} : t.Inside ↔ 0 ≤ t.count ∧ t.moved ≤ t.room ∧
    (t.moved = 0 ∨ t.chunk.offset ≤ t.pos ∧ t.pos + t.moved ≤ t.chunk.offset + t.chunk.size) := by
  rw [← forall_has_iff]
  exact ⟨fun h => ⟨h.1, h.2, h.3⟩, fun h => ⟨h.1, h.2.1, h.2.2⟩⟩

/-- An `int` position is right, or off by the number of `int`s. -/
theorem position_eq (a : DataAddress) (offset : ℤ) : IsInt (position a offset) ∧
    ∃ k, position a offset = a.offset + offset + 4294967296 * k := by
  refine ⟨toInt32_mem _, ?_⟩
  unfold position toInt32
  exact ⟨-((a.offset + offset + 2147483648) / 4294967296), by omega⟩

/-- The transfer of a read, and that it is right to return something. -/
theorem read_inside_iff (hsize : IsInt a.size) (hoffset : IsInt offset) (hcount : IsInt count)
    (h₀ : 0 ≤ count) (hpos : ¬ position a offset < 0) {n : ℕ}
    (hn : n = min (min count (toInt32 (a.size - offset))).toNat
      (s.file.length - (position a offset).toNat)) :
    (Transfer.Inside ⟨a, position a offset, min count (toInt32 (a.size - offset)), n, count⟩ ∧
      ¬ (0 < count ∧ ¬ (0 ≤ offset ∧ offset ≤ a.size))) ↔ ReadsInside s a offset count := by
  obtain ⟨-, k, hk⟩ := position_eq a offset
  unfold IsInt intMax at *
  rw [inside_iff]
  simp only [ReadsInside]
  have hleft : 0 ≤ offset → offset ≤ a.size → toInt32 (a.size - offset) = a.size - offset :=
    fun _ _ => toInt32_eq (by omega) (by unfold intMax; omega)
  generalize position a offset = pos at *
  generalize toInt32 (a.size - offset) = left at *
  rcases eq_or_lt_of_le h₀ with rfl | hlt
  · omega
  · by_cases hin : 0 ≤ offset ∧ offset ≤ a.size
    · have := hleft hin.1 hin.2
      omega
    · omega

/-- The same for a write out of a buffer of `count` bytes. -/
theorem write_inside_iff (hsize : IsInt a.size) (hoffset : IsInt offset) (hcount : IsInt count)
    (h₀ : 0 ≤ count) (hleft : ¬ toInt32 (a.size - offset) < count) (hpos : ¬ position a offset < 0) :
    (Transfer.Inside ⟨a, position a offset, count, count.toNat, count⟩ ∧
      ¬ (0 < count ∧ ¬ (0 ≤ offset ∧ offset + count ≤ intMax))) ↔ WritesInside a offset count := by
  obtain ⟨-, k, hk⟩ := position_eq a offset
  have hl := toInt32_mem (a.size - offset)
  have hleft' : toInt32 (a.size - offset) ≤ a.size - offset ∨ a.size < 0 := by
    unfold toInt32 IsInt intMax at *
    omega
  have hwide : 0 ≤ offset → a.size < 0 → toInt32 (a.size - offset) = a.size - offset ∨
      a.size - offset < -2147483648 := by
    intro _ _
    unfold toInt32 IsInt intMax at *
    omega
  rw [inside_iff]
  simp only [WritesInside]
  unfold IsInt intMax at *
  generalize position a offset = pos at *
  generalize toInt32 (a.size - offset) = left at *
  omega

theorem wp_readData (hd : u.state.metadata.lookup d = some a) (h₀ : 0 ≤ count)
    {Q : ℤ × List UInt8 → Logged EspressoData Transfer → Prop} {bytes : List UInt8}
    (hbytes : bytes = slice u.state.file (position a offset).toNat
      (min count (toInt32 (a.size - offset))).toNat) :
    wp (readData d offset count) Q E u ↔ if position a offset < 0 then Q (-1, []) u else
      Q (if min count (toInt32 (a.size - offset)) < 0 then (-1, []) else (bytes.length, bytes))
        { u with log := ⟨a, position a offset, min count (toInt32 (a.size - offset)), bytes.length,
          count⟩ :: u.log } := by
  have hmin : (if count > toInt32 (a.size - offset) then toInt32 (a.size - offset) else count) =
      min count (toInt32 (a.size - offset)) := by
    rw [min_def]
    split_ifs <;> omega
  subst hbytes
  simp only [readData, wp_bind, wp_get, if_neg (not_lt.mpr h₀), hd, hmin, wp_ite, wp_pure, wp_note]
  unfold position
  split_ifs <;> rfl

theorem wp_writeData (hd : u.state.metadata.lookup d = some a) (h₀ : 0 ≤ count)
    {Q : ℤ → Logged EspressoData Transfer → Prop} :
    wp (writeData d offset buf count room) Q E u ↔
      if toInt32 (a.size - offset) < count ∨ position a offset < 0 then Q (-1) u else
      Q count ⟨{ u.state with
          file := patch u.state.file (position a offset).toNat (buf.take count.toNat) },
        ⟨a, position a offset, count, count.toNat, room⟩ :: u.log⟩ := by
  simp only [writeData, wp_bind, wp_get, if_neg (not_lt.mpr h₀), hd, wp_ite, wp_pure, wp_note,
    wp_quietly, wp_set]
  unfold position
  by_cases hleft : toInt32 (a.size - offset) < count
  · simp [hleft]
  · by_cases hpos : toInt32 (a.offset + offset) < 0
    · simp [hpos]
    · simp [hleft, hpos]

/-- A write keeps the transfers made before. -/
theorem wp_writeData_log (d : DataDescriptor) (offset : ℤ) (buf : List UInt8) (count room : ℤ) :
    wp (writeData d offset buf count room) (fun _ v => ∀ t ∈ u.log, t ∈ v.log) E u := by
  by_cases h₀ : count < 0
  · simp [writeData, h₀]
  cases hd : u.state.metadata.lookup d with
  | none => simp [writeData, h₀, hd]
  | some a =>
    rw [wp_writeData hd (not_lt.mp h₀)]
    split_ifs
    · exact fun _ ht => ht
    · exact fun _ ht => List.mem_cons_of_mem _ ht

/-! ### Reads -/

/-- **A read stays inside** exactly if it is harmless. -/
theorem readChunk_inside_iff (hsize : ∀ a, s.metadata.lookup d = some a → IsInt a.size)
    (hoffset : IsInt offset) (hcount : IsInt count) :
    StaysInside s (.readChunk d offset count) ↔ DataCall.Harmless s (.readChunk d offset count) := by
  rw [staysInside_iff]
  simp only [DataCall.code, wp_map, DataCall.Harmless]
  by_cases h₀ : count < 0
  · simp [readData, h₀, Contained]
  · cases hd : s.metadata.lookup d with
    | none => simp [readData, h₀, hd, Contained]
    | some a =>
      rw [wp_readData (u := ⟨s, []⟩) hd (not_lt.mp h₀) rfl]
      simp only [Option.some.injEq, forall_eq', not_lt.mp h₀, forall_const]
      split_ifs with hpos hneg
      · exact iff_of_true ⟨by simp, fun _ => rfl, fun _ => rfl⟩ (.inl hpos)
      · -- a negative count is passed
        refine iff_of_false (fun h => ?_) ?_
        · have hlast := (h.1 _ List.mem_cons_self).count_nonneg
          exact absurd hlast (not_le.mpr hneg)
        · rintro (h | ⟨-, h, -⟩)
          · exact hpos h
          · omega
      · rw [← read_inside_iff (hsize a hd) hoffset hcount (not_lt.mp h₀) hpos length_slice]
        simp only [Contained, List.mem_singleton, forall_eq, DataCall.OutOfReach, hd, Option.some.injEq,
          forall_eq', h₀, false_or]
        constructor
        · exact fun h => ⟨h.1, fun hout => absurd (h.2.2 hout) (by omega)⟩
        · exact fun h => ⟨h.1, fun _ => trivial, fun hout => absurd hout h.2⟩

/-! ### Writes -/

/-- The last `write_data` of a call, after the store has become `t`. -/
theorem writeData_contained_iff {t : EspressoData} (hd : t.metadata.lookup d = some a) (hsize : IsInt a.size)
    (hoffset : IsInt offset) (hcount : IsInt count) (h₀ : 0 ≤ count) :
    wp (writeData d offset buf count count) (Contained s (.writeChunk d offset buf count overread))
      (fun _ => False) ⟨t, []⟩ ↔ WritesInside a offset count ∧
        (toInt32 (a.size - offset) < count ∨ position a offset < 0 → t = s) := by
  rw [wp_writeData (u := ⟨t, []⟩) hd h₀]
  by_cases hrefused : toInt32 (a.size - offset) < count ∨ position a offset < 0
  · rw [if_pos hrefused]
    have hinside : WritesInside a offset count := hrefused.elim .inl fun h => .inr (.inl h)
    constructor
    · exact fun h => ⟨hinside, fun _ => h.2.1 rfl⟩
    · exact fun h => ⟨by simp, fun _ => h.2 hrefused, fun _ => rfl⟩
  · rw [if_neg hrefused]
    obtain ⟨hleft, hpos⟩ := not_or.mp hrefused
    rw [← write_inside_iff hsize hoffset hcount h₀ hleft hpos]
    simp only [Contained, List.mem_singleton, forall_eq, DataCall.OutOfReach, not_lt.mpr h₀, false_or,
      hrefused, false_imp_iff, and_true]
    constructor
    · exact fun h => ⟨h.1, fun hout => absurd (h.2.2 hout) (by omega)⟩
    · exact fun h => ⟨h.1, fun heq => absurd heq (by omega), fun hout => absurd hout h.2⟩

theorem allocateChunk_none {size : ℤ} (h : s.freeExtents.find? (fun it => size ≤ it.size) = none) :
    allocateChunk size s = .ok (none, s) := by
  rw [eq_ok_iff_wp]
  simp only [allocateChunk, wp_bind, wp_get, h]
  exact (wp_pure _).mpr ⟨rfl, rfl⟩

theorem allocateChunk_some {size : ℤ} {it : DataAddress}
    (h : s.freeExtents.find? (fun it => size ≤ it.size) = some it) :
    ∃ t, allocateChunk size s = .ok (some ⟨it.offset, size⟩, t) ∧ t.metadata = s.metadata := by
  have hwp : wp (allocateChunk size) (fun r t => r = some ⟨it.offset, size⟩ ∧ t.metadata = s.metadata)
      (fun _ => False) s := by
    simp only [allocateChunk, wp_bind, wp_get, h]
    split_ifs
    · simp [insertExtent, eraseExtent]
    · simp [eraseExtent]
  obtain ⟨r, t, hok, rfl, hmeta⟩ := hwp.exists_ok
  exact ⟨t, hok, hmeta⟩

/-- A write to a chunk that does not exist. -/
theorem writeChunk_new_inside_iff (hd : s.metadata.lookup d = none) (hoffset : IsInt offset)
    (hcount : IsInt count) (h₀ : 0 ≤ count) :
    wp (writeChunk d offset buf count overread) (Contained s (.writeChunk d offset buf count overread))
      (fun _ => False) ⟨s, []⟩ ↔
      ∀ it, s.freeExtents.find? (fun it => toInt32 (offset + count) ≤ it.size) = some it →
        0 ≤ position ⟨it.offset, toInt32 (offset + count)⟩ offset ∧
          WritesInside ⟨it.offset, toInt32 (offset + count)⟩ offset count := by
  simp only [writeChunk, if_neg (not_lt.mpr h₀), wp_bind, wp_get, hd]
  rw [wp_quietly]
  cases hfind : s.freeExtents.find? (fun it => toInt32 (offset + count) ≤ it.size) with
  | none =>
    rw [wp_ok (allocateChunk_none hfind)]
    exact iff_of_true ((wp_pure _).mpr ⟨by simp, fun _ => rfl, fun _ => rfl⟩) (by simp)
  | some it =>
    obtain ⟨t, hok, hmeta⟩ := allocateChunk_some hfind
    rw [wp_ok hok, wp_bind, wp_quietly, wp_modify]
    have hlookup : (t.metadata.insert d ⟨it.offset, toInt32 (offset + count)⟩).lookup d =
        some ⟨it.offset, toInt32 (offset + count)⟩ := Finmap.lookup_insert _
    -- the chunk has been created, so the store is not what it was
    have hne : { t with metadata := t.metadata.insert d ⟨it.offset, toInt32 (offset + count)⟩ } ≠ s := by
      intro heq
      rw [← heq, hlookup] at hd
      exact absurd hd (by simp)
    have hleft : ¬ toInt32 (toInt32 (offset + count) - offset) < count := by
      have hwrap : toInt32 (toInt32 (offset + count) - offset) = toInt32 count := by
        unfold toInt32
        omega
      rw [hwrap, toInt32_eq hcount.1 hcount.2]
      omega
    have hint : IsInt (toInt32 (offset + count)) := toInt32_mem _
    refine (writeData_contained_iff hlookup hint hoffset hcount h₀).trans ?_
    simp only [Option.some.injEq, forall_eq', hleft, false_or, hne, imp_false, not_lt, and_comm]

/-- The neighbours of `a` decide whether its deallocation can be taken back. -/
theorem undoable_iff {Lk Rk : List DataAddress} {Ll Rl : Option DataAddress} (h : Beside Lk Ll a Rl Rk)
    (hs : s.freeExtents = Lk ++ Ll.toList ++ (Rl.toList ++ Rk)) :
    Undoable s a ↔ TakesBack Ll a Rl Rk := by
  unfold Undoable
  rw [hs, h.lowerBound_eq, h.beforeLowerBound_eq]
  cases Rl with
  | none =>
    simp only [Option.toList_none, List.nil_append, TakesBack]
    refine forall₂_congr fun c hc => ?_
    have hne := h.right_ne rfl c hc
    constructor
    · intro hc' heq
      have := hc'.1 heq
      omega
    · exact fun hc' => ⟨fun heq => absurd heq hc', fun heq => absurd heq hne⟩
  | some c =>
    have hc := h.right_eq c rfl
    have hleft : (∃ b ∈ (Lk ++ Ll.toList).getLast?, b.offset + b.size = a.offset) ↔ Ll.isSome := by
      cases Ll with
      | none => exact iff_of_false (fun ⟨b, hb, heq⟩ => h.left_ne rfl b hb heq) (by simp)
      | some b => exact iff_of_true ⟨b, by simp, h.left_eq b rfl⟩ rfl
    simp only [Option.toList_some, List.singleton_append, List.head?_cons, Option.mem_some_iff,
      forall_eq', hleft, hc, TakesBack, true_imp_iff]
    refine and_iff_right ?_
    omega

/-- **A write that would have to grow its chunk** stays inside only if it fails to. -/
theorem writeChunk_grow_inside_iff (hsorted : Iterators.InOrder s) (hd : s.metadata.lookup d = some a)
    (hsize : IsInt a.size) (h₀ : 0 ≤ count) (hgrow : a.size < toInt32 (offset + count)) :
    wp (writeChunk d offset buf count overread) (Contained s (.writeChunk d offset buf count overread))
      (fun _ => False) ⟨s, []⟩ ↔ 0 ≤ a.size ∧ (position a 0 < 0 ∨ ReadsInside s a 0 a.size ∧
        s.NoExtent d (toInt32 (offset + count)) ∧ Undoable s a) := by
  obtain ⟨size, hint⟩ : ∃ size, toInt32 (offset + count) = size := ⟨_, rfl⟩
  have hsizeInt : IsInt size := hint ▸ toInt32_mem _
  rw [hint] at hgrow ⊢
  simp only [writeChunk, if_neg (not_lt.mpr h₀), wp_bind, wp_get, hd, hint, gt_iff_lt, if_pos hgrow]
  by_cases hneg : a.size < 0
  · rw [if_pos hneg]
    exact iff_of_false (fun h => (wp_throw _).mp h) fun h => absurd h.1 (not_le.mpr hneg)
  have hpos := not_lt.mp hneg
  have hmin : min a.size (toInt32 (a.size - 0)) = a.size := by
    rw [sub_zero, toInt32_eq hsize.1 hsize.2, min_self]
  rw [if_neg hneg, wp_bind, wp_readData (u := ⟨s, []⟩) hd hpos rfl, hmin, and_iff_right hpos]
  by_cases hseek : position a 0 < 0
  · simp only [if_pos hseek, if_true]
    exact iff_of_true ((wp_pure _).mpr ⟨by simp, fun _ => rfl, fun _ => rfl⟩) (.inl hseek)
  simp only [if_neg hseek, if_neg hneg, or_iff_right hseek]
  obtain ⟨bytes, hbytes⟩ : ∃ bytes, slice s.file (position a 0).toNat a.size.toNat = bytes := ⟨_, rfl⟩
  have hread := read_inside_iff (s := s) hsize (by unfold IsInt intMax; omega) hsize hpos hseek
    (n := bytes.length) (by rw [hmin, ← hbytes, length_slice])
  rw [and_iff_left (fun h => h.2 ⟨le_rfl, hpos⟩), hmin] at hread
  rw [hbytes, if_neg (by omega), ← hread, wp_bind, wp_quietly, reallocateChunk, wp_bind]
  -- the extent of the chunk is given back
  obtain ⟨Lk, Ll, Rl, Rk, hs, hbeside⟩ := exists_beside hsorted a
  obtain ⟨t, ht⟩ : ∃ t, { s with
    freeExtents := insertKey DataAddress.offset (joined Ll a Rl) (Lk ++ Rk) } = t := ⟨_, rfl⟩
  have hdealloc : Espresso.deallocateChunk a s = .ok (⟨⟩, t) :=
    eq_ok_iff_wp.mpr (wp_deallocateChunk_beside hbeside hs ⟨rfl, ht⟩)
  have hnone : s.NoExtent d size ↔ t.freeExtents.find? (fun it => size ≤ it.size) = none := by
    rw [List.find?_eq_none]
    simp only [NoExtent, hd, decide_eq_true_eq, not_le]
    constructor
    · rintro ⟨-, t', ht', h⟩
      obtain rfl : t' = t := congrArg Prod.snd (Except.ok.inj (ht'.symm.trans hdealloc))
      exact h
    · exact fun h => ⟨hgrow, t, hdealloc, h⟩
  rw [wp_ok hdealloc, wp_bind, hnone]
  cases hfind : t.freeExtents.find? (fun it => size ≤ it.size) with
  | none =>
    -- and taken back
    have hundo : wp (undoDeallocate a) (fun _ v => v = s) (fun _ => False) t ↔ Undoable s a := by
      have hiff := wp_undoDeallocate_iff (s := t) hbeside hpos (by rw [← ht])
      rw [← hs] at hiff
      rw [undoable_iff hbeside hs, ← hiff]
      subst ht
      rfl
    rw [wp_ok (allocateChunk_none hfind), wp_bind, ← hundo]
    constructor
    · intro h
      obtain ⟨⟨⟩, v, hok, hrest⟩ := h.exists_ok
      rw [wp_pure, if_pos rfl, wp_pure] at hrest
      exact ⟨hrest.1 _ List.mem_cons_self, rfl, (wp_ok hok).mpr (hrest.2.1 rfl)⟩
    · rintro ⟨hinside, -, h⟩
      refine wp_mono h (fun _ v hv => ?_) fun _ he => he
      rw [wp_pure, if_pos rfl, wp_pure]
      exact ⟨by simpa using hinside, fun _ => hv, fun _ => rfl⟩
  | some it =>
    refine iff_of_false (fun h => ?_) (by simp)
    obtain ⟨v, hok, -⟩ := allocateChunk_some hfind
    rw [wp_ok hok] at h
    simp only [wp_bind, wp_modify, wp_pure] at h
    rw [if_neg (by decide), wp_bind, wp_get, Finmap.lookup_insert] at h
    simp only [Option.elim_some] at h
    have hlookup : (v.metadata.insert d ⟨it.offset, size⟩).lookup d = some ⟨it.offset, size⟩ :=
      Finmap.lookup_insert _
    rw [wp_bind, wp_writeData hlookup (by omega), sub_zero, toInt32_eq hsizeInt.1 hsizeInt.2] at h
    by_cases hrefused : size < size ∨ position ⟨it.offset, size⟩ 0 < 0
    · -- the position of the new extent is refused, and the chunk has it
      rw [if_pos hrefused, if_pos rfl] at h
      have heq := ((wp_pure _).mp h).2.1 rfl
      have hcon := hlookup.symm.trans ((congrArg (fun s => s.metadata.lookup d) heq).trans hd)
      have := congrArg DataAddress.size (Option.some.inj hcon)
      simp only at this
      omega
    · -- the copy is written back with more bytes than it has
      rw [if_neg hrefused, if_neg (by omega)] at h
      have hboth := wp_and h (wp_writeData_log (E := fun _ => False) d offset buf count count)
      obtain ⟨r, w, -, hcontained, hlog⟩ := (wp_mono hboth (fun _ _ h => h) fun _ he => he.1).exists_ok
      have hover := (hcontained.1 _ (hlog _ List.mem_cons_self)).moved_le
      simp only at hover
      omega

/-- **A write stays inside** exactly if it is harmless. -/
theorem writeChunk_inside_iff (hsorted : Iterators.InOrder s)
    (hsize : ∀ a, s.metadata.lookup d = some a → IsInt a.size) (hoffset : IsInt offset)
    (hcount : IsInt count) : StaysInside s (.writeChunk d offset buf count overread) ↔
      DataCall.Harmless s (.writeChunk d offset buf count overread) := by
  rw [staysInside_iff]
  simp only [DataCall.code, DataCall.Harmless]
  by_cases h₀ : count < 0
  · simp [writeChunk, h₀, Contained]
  · simp only [not_lt.mp h₀, forall_const]
    cases hd : s.metadata.lookup d with
    | none => exact writeChunk_new_inside_iff hd hoffset hcount (not_lt.mp h₀)
    | some a =>
      simp only
      split_ifs with hgrow
      · exact writeChunk_grow_inside_iff hsorted hd (hsize a hd) (not_lt.mp h₀) hgrow
      · simp only [writeChunk, if_neg h₀, wp_bind, wp_get, hd, gt_iff_lt, if_neg hgrow]
        refine (writeData_contained_iff hd (hsize a hd) hoffset hcount (not_lt.mp h₀)).trans ?_
        exact and_iff_left fun _ => rfl

/-! ### Reachable states -/

/-- The sizes of the chunks are `int`s. -/
def IntSizes (s : EspressoData) : Prop := ∀ d a, s.metadata.lookup d = some a → IsInt a.size

theorem storing_intSizes : Storing IntSizes where
  insert _ _ h := h
  erase _ _ h := h
  write _ _ h := h
  place s d offset size h := by
    intro d' a ha
    change (s.metadata.insert d ⟨offset, toInt32 size⟩).lookup d' = some a at ha
    rcases eq_or_ne d' d with rfl | hne
    · rw [Finmap.lookup_insert] at ha
      rw [← Option.some.inj ha]
      exact toInt32_mem size
    · rw [Finmap.lookup_insert_of_ne _ hne] at ha
      exact h d' a ha
  remove s d h := by
    intro d' a ha
    change (s.metadata.erase d).lookup d' = some a at ha
    rcases eq_or_ne d' d with rfl | hne
    · simp at ha
    · rw [Finmap.lookup_erase_ne hne] at ha
      exact h d' a ha

variable {maxSize : ℕ} {tr : List (StorageCall × ℤ)}

theorem intSizes_of_run (hrun : Steps storageStep (espressoGlobalDataInit maxSize) tr s) : IntSizes s := by
  refine storing_intSizes.run ?_ hrun
  intro d a ha
  exact absurd ha (by simp [espressoGlobalDataInit])

end

end Espresso.Transfers

end DecaFS
