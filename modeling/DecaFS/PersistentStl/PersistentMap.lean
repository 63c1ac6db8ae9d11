import DecaFS.PersistentStl.Container

/-!
# PersistentMap and PersistentSet

The two containers as instances of the common text. The key bytes of a map's entry are those
of its first component; all bytes of a set's entry are its key. `order` is the class of a key
under its `operator<`.
-/

namespace DecaFS

/-- What `PersistentMap<Key, T>` takes from its type arguments. -/
structure MapTypes (Key T K : Type) where
  order : Key → K
  /-- the key whose bytes are all zero -/
  zeroKey : Key
  /-- the value whose bytes are all zero -/
  zeroValue : T
  /-- `T()` -/
  defaultValue : T
  /-- `sizeof(std::pair<Key, T>)` -/
  pairSize : ℕ
  pairSize_pos : 0 < pairSize

namespace PersistentMap

variable {Key T K : Type} [DecidableEq Key] [DecidableEq K] (M : MapTypes Key T K)

/-- The entries of a `PersistentMap`. -/
def layout : Layout (Key × T) K where
  key e := M.order e.1
  isZero e := e.1 = M.zeroKey
  zero e := (M.zeroKey, e.2)
  blank := (M.zeroKey, M.zeroValue)
  size := M.pairSize
  size_pos := M.pairSize_pos
  isZero_blank := by simp
  zero_of_isZero := by rintro ⟨k, v⟩ h; simpa using (of_decide_eq_true h).symm

/-- `open` -/
def openFile (c : Container (Key × T) K) : ℤ × Container (Key × T) K := (layout M).openFile c

/-- `insert` -/
def insert (value : Key × T) (c : Container (Key × T) K) :
    Option (ℕ × Bool × Container (Key × T) K) :=
  (layout M).emplace value c

/-- `operator[]`: the slot the reference points to. -/
def subscript (key : Key) (c : Container (Key × T) K) :
    Option (ℕ × Bool × Container (Key × T) K) :=
  (layout M).emplace (key, M.defaultValue) c

/-- `map[key] = value` -/
def assign (key : Key) (value : T) (c : Container (Key × T) K) :
    Option (Container (Key × T) K) :=
  (subscript M key c).map fun r =>
    { r.2.2 with slots := r.2.2.slots.modify r.1 fun e => (e.1, value) }

/-- `erase(key)` -/
def erase (key : Key) (c : Container (Key × T) K) : ℕ × Container (Key × T) K :=
  c.erase (M.order key)

/-- `close` -/
def close (c : Container (Key × T) K) : Container (Key × T) K := c.close

/-- `find(key)` -/
def find? (key : Key) (c : Container (Key × T) K) : Option (Key × T) :=
  c.find? (M.order key)

/-- The calls of the public interface. -/
inductive Call (Key T : Type) : Type
  | openFile
  | insert (value : Key × T)
  | subscript (key : Key)
  | assign (key : Key) (value : T)
  | erase (key : Key)
  | close

/-- The container after a call. -/
def apply (call : Call Key T) (c : Container (Key × T) K) : Option (Container (Key × T) K) :=
  match call with
  | .openFile => some (openFile M c).2
  | .insert value => (insert M value c).map (·.2.2)
  | .subscript key => (subscript M key c).map (·.2.2)
  | .assign key value => assign M key value c
  | .erase key => some (erase M key c).2
  | .close => some (close c)

/-- The call carries no key whose bytes are all zero. -/
def Call.KeyNonzero : Call Key T → Prop
  | .insert value => value.1 ≠ M.zeroKey
  | .subscript key => key ≠ M.zeroKey
  | .assign key _ => key ≠ M.zeroKey
  | _ => True

/-- A call as one of the common text. -/
def Call.toLayout : Call Key T → Layout.Call (Key × T) K
  | .openFile => .openFile
  | .insert value => .emplace value id
  | .subscript key => .emplace (key, M.defaultValue) id
  | .assign key value => .emplace (key, M.defaultValue) fun e => (e.1, value)
  | .erase key => .erase (M.order key)
  | .close => .close

theorem apply_eq (call : Call Key T) (c : Container (Key × T) K) :
    apply M call c = (layout M).apply (call.toLayout M) c := by
  cases call <;> simp [apply, Layout.apply, Call.toLayout, openFile, insert, subscript, assign,
    erase, close]

omit [DecidableEq K] in
theorem keyNonzero_toLayout {call : Call Key T} (h : call.KeyNonzero M) :
    (layout M).KeyNonzero (call.toLayout M) := by
  cases call <;> simp_all [Call.KeyNonzero, Call.toLayout, Layout.KeyNonzero, layout]

/-- The step of a run. -/
def step (c : Container (Key × T) K) (call : Call Key T) (c' : Container (Key × T) K) : Prop :=
  apply M call c = some c'

end PersistentMap

/-- What `PersistentSet<Entry>` takes from its type argument. -/
structure SetTypes (Entry K : Type) where
  order : Entry → K
  /-- the entry whose bytes are all zero -/
  zeroEntry : Entry
  /-- `sizeof(Entry)` -/
  entrySize : ℕ
  entrySize_pos : 0 < entrySize

namespace PersistentSet

variable {Entry K : Type} [DecidableEq Entry] [DecidableEq K] (S : SetTypes Entry K)

/-- The entries of a `PersistentSet`. -/
def layout : Layout Entry K where
  key := S.order
  isZero e := e = S.zeroEntry
  zero _ := S.zeroEntry
  blank := S.zeroEntry
  size := S.entrySize
  size_pos := S.entrySize_pos
  isZero_blank := by simp
  zero_of_isZero := fun e h => (of_decide_eq_true h).symm

/-- `open` -/
def openFile (c : Container Entry K) : ℤ × Container Entry K := (layout S).openFile c

/-- `insert` -/
def insert (value : Entry) (c : Container Entry K) : Option (ℕ × Bool × Container Entry K) :=
  (layout S).emplace value c

/-- `erase(key)` -/
def erase (key : Entry) (c : Container Entry K) : ℕ × Container Entry K :=
  c.erase (S.order key)

/-- `close` -/
def close (c : Container Entry K) : Container Entry K := c.close

/-- `find(key)` -/
def find? (key : Entry) (c : Container Entry K) : Option Entry := c.find? (S.order key)

/-- The calls of the public interface. -/
inductive Call (Entry : Type) : Type
  | openFile
  | insert (value : Entry)
  | erase (key : Entry)
  | close

/-- The container after a call. -/
def apply (call : Call Entry) (c : Container Entry K) : Option (Container Entry K) :=
  match call with
  | .openFile => some (openFile S c).2
  | .insert value => (insert S value c).map (·.2.2)
  | .erase key => some (erase S key c).2
  | .close => some (close c)

/-- The call carries no entry whose bytes are all zero. -/
def Call.KeyNonzero : Call Entry → Prop
  | .insert value => value ≠ S.zeroEntry
  | _ => True

/-- A call as one of the common text. -/
def Call.toLayout : Call Entry → Layout.Call Entry K
  | .openFile => .openFile
  | .insert value => .emplace value id
  | .erase key => .erase (S.order key)
  | .close => .close

theorem apply_eq (call : Call Entry) (c : Container Entry K) :
    apply S call c = (layout S).apply (call.toLayout S) c := by
  cases call <;> simp [apply, Layout.apply, Call.toLayout, openFile, insert, erase, close]

omit [DecidableEq K] in
theorem keyNonzero_toLayout {call : Call Entry} (h : call.KeyNonzero S) :
    (layout S).KeyNonzero (call.toLayout S) := by
  cases call <;> simp_all [Call.KeyNonzero, Call.toLayout, Layout.KeyNonzero, layout]

/-- The step of a run. -/
def step (c : Container Entry K) (call : Call Entry) (c' : Container Entry K) : Prop :=
  apply S call c = some c'

end PersistentSet

end DecaFS
