import DecaFS.ForMathlib.WeakestPre
import DecaFS.Types.Machine

/-!
# Clients

`decafs_types/ip_address.h`: a client is an address, a user id and the connection it speaks
over. Two addresses are equal when `strcmp` says so, hence an address is its string; a
connection is known by its pointer, `none` being `NULL`.

`Site` names the assertions of the Barista, and `assert` is the macro that stops there.
-/

namespace DecaFS

/-- `struct ip_address`, compared by `strcmp`. -/
structure IpAddress where
  addr : String := ""
  deriving DecidableEq, Repr

/-- A `ConnectionToClient *`. -/
abbrev ConnectionPtr : Type := Option ℕ

/-- `struct client`. -/
structure Client where
  ip : IpAddress
  userId : ℕ
  ctc : ConnectionPtr
  deriving DecidableEq, Repr

/-- The assertions of the Barista. -/
inductive Site : Type
  /-- `assert(client.user_id != 0)` in the locking strategy -/
  | lockUser
  /-- `assert (fd > 0)` in `read_file` -/
  | readFd
  /-- `assert (fd > 0)` in `write_file` -/
  | writeFd
  /-- the stripe bound at the head of `process_read_stripe` -/
  | readStripeBound
  /-- the stripe bound at the head of `process_write_stripe` -/
  | writeStripeBound
  /-- `assert (chunk_replica_exists (cur_chunk))` in `process_read_stripe` -/
  | readReplicaExists
  /-- the request is registered at the end of `read_file` -/
  | readFileEnd
  /-- the request is registered at the end of `write_file` -/
  | writeFileEnd
  /-- the request is registered at the end of `delete_file` -/
  | deleteFileEnd
  /-- the head of `check_read_complete` -/
  | checkRead
  /-- the head of `check_write_complete` -/
  | checkWrite
  /-- the head of `check_delete_complete` -/
  | checkDelete
  /-- the head of `read_response_handler` -/
  | readResponse
  /-- the head of `write_response_handler` -/
  | writeResponse
  /-- the head of `delete_response_handler` -/
  | deleteResponse
  deriving DecidableEq, Repr

variable {σ : Type}

/-- The `assert` macro. -/
def assert (site : Site) (c : Bool) : Code (Halt Site) σ PUnit :=
  if c then pure ⟨⟩ else throw (.assertion site)

open Code in
@[simp]
theorem wp_assert {site : Site} {c : Bool} {Q : PUnit → σ → Prop} {E : Halt Site → Prop} {s : σ} :
    wp (assert site c) Q E s ↔ (c = true → Q ⟨⟩ s) ∧ (c = false → E (.assertion site)) := by
  cases c <;> simp [assert]

end DecaFS
