import Mathlib.Data.List.Sort
import DecaFS.ForMathlib.Transition
import DecaFS.ForMathlib.WeakestPre
import DecaFS.Metadata.Volatile

/-!
# The active nodes

`get_active_nodes` sorts the list of the nodes that are up and copies it to an array of
`NUM_ESPRESSO` slots, with no bound of its own. The list never holds a node twice, and the report is
exact as long as no more nodes are up than there are slots (`activeNodes_exact_iff`). The node numbers
come from the packets of the nodes, so nothing else keeps them few.
-/

namespace DecaFS

open Code

/-- `NUM_ESPRESSO` -/
def numEspresso : ℕ := 4

/-- `struct active_nodes` -/
structure ActiveNodes where
  nodeNumbers : Vector ℤ numEspresso
  activeNodeCount : ℕ

/-- The node numbers that are filled in. -/
def ActiveNodes.listed (nodes : ActiveNodes) : List ℤ :=
  nodes.nodeNumbers.toList.take nodes.activeNodeCount

/-- The loop of `get_active_nodes`. It stops at a store outside `node_numbers`. -/
def copyNodes (nodeNumbers : Vector ℤ numEspresso) (count : ℕ) : List ℤ → Option ActiveNodes
  | [] => some ⟨nodeNumbers, count⟩
  | node :: it =>
    if h : count < numEspresso then copyNodes (nodeNumbers.set count node h) (count + 1) it
    else none

namespace VolatileMetadata

/-- `get_active_node_count` -/
def getActiveNodeCount (v : VolatileMetadata) : ℤ := toInt32 v.upNodes.length

/-- `get_active_nodes`, with what is on the stack before. -/
def getActiveNodes (stack : Vector ℤ numEspresso) (v : VolatileMetadata) :
    Option (ActiveNodes × VolatileMetadata) :=
  let v := { v with upNodes := v.upNodes.mergeSort }
  (copyNodes stack 0 v.upNodes).map fun nodes => (nodes, v)

/-- The calls about the state of the nodes. -/
inductive NodeCall : Type
  | setNodeUp (node : ℤ)
  | setNodeDown (node : ℤ)
  | getActiveNodes

/-- A call returns. -/
def Runs (v : VolatileMetadata) (call : NodeCall) (v' : VolatileMetadata) : Prop :=
  match call with
  | .setNodeUp node => ∃ res, setNodeUp node v = .ok (res, v')
  | .setNodeDown node => ∃ res, setNodeDown node v = .ok (res, v')
  | .getActiveNodes => ∃ stack nodes, getActiveNodes stack v = some (nodes, v')

/-- What the call sets `node` to. -/
def NodeCall.sets (node : ℤ) : NodeCall → Option Bool
  | .setNodeUp n => if toUInt32 n = toUInt32 node then some true else none
  | .setNodeDown n => if toUInt32 n = toUInt32 node then some false else none
  | .getActiveNodes => none

/-- What the last call for `node` sets it to. -/
def lastSet (calls : List NodeCall) (node : ℤ) : Option Bool :=
  calls.reverse.findSome? (NodeCall.sets node)

/-- The report lists the nodes that are up, in increasing order and within the array. -/
structure Reports (v : VolatileMetadata) (nodes : ActiveNodes) : Prop where
  count_eq : (nodes.activeNodeCount : ℤ) = v.getActiveNodeCount
  count_le : nodes.activeNodeCount ≤ numEspresso
  increasing : nodes.listed.Pairwise (· < ·)
  mem_iff : ∀ node, node ∈ nodes.listed ↔ node ∈ v.upNodes

end VolatileMetadata

/-! ### The copy -/

/-- The loop stays in bounds if it has room for the rest of the list, and appends it. -/
theorem copyNodes_eq_some_iff {it : List ℤ} : ∀ {nodeNumbers : Vector ℤ numEspresso} {count : ℕ}
    {nodes : ActiveNodes}, count ≤ numEspresso → copyNodes nodeNumbers count it = some nodes →
      nodes.activeNodeCount = count + it.length ∧ nodes.activeNodeCount ≤ numEspresso ∧
        nodes.listed = nodeNumbers.toList.take count ++ it := by
  induction it with
  | nil =>
    intro nodeNumbers count nodes hcount h
    obtain rfl := Option.some.inj h
    exact ⟨rfl, hcount, (List.append_nil _).symm⟩
  | cons node it ih =>
    intro nodeNumbers count nodes hcount h
    rw [copyNodes] at h
    split_ifs at h with hlt
    obtain ⟨hlen, hle, hlisted⟩ := ih hlt h
    refine ⟨by rw [hlen, List.length_cons]; omega, hle, ?_⟩
    have hlength : count < nodeNumbers.toList.length := by
      rw [Vector.length_toList]
      exact hlt
    have htake : (nodeNumbers.toList.take count).length = count := List.length_take_of_le hlength.le
    have hone : count.succ - count = 1 := by omega
    rw [hlisted, Vector.toList_set, List.set_eq_take_append_cons_drop, if_pos hlength,
      List.take_append, htake, List.take_of_length_le (by omega), hone, List.take_succ_cons,
      List.take_zero, List.append_assoc, List.singleton_append]

theorem isSome_copyNodes_iff {it : List ℤ} : ∀ {nodeNumbers : Vector ℤ numEspresso} {count : ℕ},
    count ≤ numEspresso →
      ((copyNodes nodeNumbers count it).isSome = true ↔ count + it.length ≤ numEspresso) := by
  induction it with
  | nil => exact fun hcount => iff_of_true rfl hcount
  | cons node it ih =>
    intro nodeNumbers count hcount
    rw [copyNodes]
    split_ifs with hlt
    · rw [ih hlt, List.length_cons]
      omega
    · simp only [Option.isSome_none, Bool.false_eq_true, List.length_cons, false_iff]
      omega

namespace VolatileMetadata

variable {v v' : VolatileMetadata} {calls : List NodeCall}

/-! ### The nodes that are up -/

theorem lastSet_cons (call : NodeCall) (calls : List NodeCall) (node : ℤ) :
    lastSet (call :: calls) node = (lastSet calls node).or (call.sets node) := by
  simp [lastSet, List.findSome?_append]

theorem isNodeUp_iff (node : ℤ) : v.isNodeUp node = true ↔ toUInt32 node ∈ v.upNodes := decide_eq_true_iff

theorem upNodes_of_setNodeUp {node res : ℤ} (h : setNodeUp node v = .ok (res, v')) :
    v'.upNodes = if toUInt32 node ∈ v.upNodes then v.upNodes else v.upNodes ++ [toUInt32 node] := by
  have hwp : wp (setNodeUp node) (fun _ v' => v'.upNodes =
      if toUInt32 node ∈ v.upNodes then v.upNodes else v.upNodes ++ [toUInt32 node])
      (fun _ => False) v := by
    simp only [setNodeUp, wp_bind, wp_get, wp_ite, wp_modify, wp_pure, isNodeUp_iff]
    split_ifs <;> rfl
  exact hwp.of_ok h

theorem upNodes_of_setNodeDown {node res : ℤ} (h : setNodeDown node v = .ok (res, v')) :
    v'.upNodes = v.upNodes.filter (· ≠ toUInt32 node) := by
  have hwp : wp (setNodeDown node) (fun _ v' => v'.upNodes = v.upNodes.filter (· ≠ toUInt32 node))
      (fun _ => False) v := by
    simp only [setNodeDown, wp_bind, wp_get, wp_ite, wp_modify, wp_pure, isNodeUp_iff]
    split_ifs with hup
    -- a node that is not up is nowhere to filter out
    have hall : ∀ n ∈ v.upNodes, n ≠ toUInt32 node := by
      rintro n hn rfl
      exact hup hn
    exact (List.filter_eq_self.mpr fun n hn => decide_eq_true (hall n hn)).symm
  exact hwp.of_ok h

/-- **One call.** -/
theorem Runs.upNodes {call : NodeCall} (h : Runs v call v') (hnodup : v.upNodes.Nodup) :
    v'.upNodes.Nodup ∧
      ∀ node, v'.isNodeUp node = ((call.sets node).getD (v.isNodeUp node)) := by
  cases call with
  | setNodeUp n =>
    obtain ⟨res, hres⟩ := h
    have hup := upNodes_of_setNodeUp hres
    refine ⟨?_, fun node => Bool.eq_iff_iff.mpr ?_⟩
    · rw [hup]
      split_ifs with hmem
      · exact hnodup
      · exact List.nodup_append.mpr ⟨hnodup, List.nodup_singleton _, by grind⟩
    · rw [isNodeUp_iff, hup, NodeCall.sets]
      have hv := @isNodeUp_iff v node
      grind
  | setNodeDown n =>
    obtain ⟨res, hres⟩ := h
    have hdown := upNodes_of_setNodeDown hres
    refine ⟨hdown ▸ hnodup.filter _, fun node => Bool.eq_iff_iff.mpr ?_⟩
    rw [isNodeUp_iff, hdown, NodeCall.sets]
    have hv := @isNodeUp_iff v node
    grind
  | getActiveNodes =>
    obtain ⟨stack, nodes, hnodes⟩ := h
    obtain ⟨_, -, heq⟩ := Option.map_eq_some_iff.mp hnodes
    obtain rfl := (Prod.mk.inj heq).2
    have hperm := List.mergeSort_perm v.upNodes (fun a b => decide (a ≤ b))
    refine ⟨hperm.nodup_iff.mpr hnodup, fun node => ?_⟩
    exact decide_eq_decide.mpr hperm.mem_iff

/-- **Runs.** -/
theorem upNodes_of_steps (hrun : Steps Runs v calls v') (hnodup : v.upNodes.Nodup) :
    v'.upNodes.Nodup ∧
      ∀ node, v'.isNodeUp node = ((lastSet calls node).getD (v.isNodeUp node)) := by
  induction hrun with
  | refl v => exact ⟨hnodup, fun node => rfl⟩
  | @cons v v₁ v' call calls head _ ih =>
    obtain ⟨hnodup₁, hup₁⟩ := head.upNodes hnodup
    obtain ⟨hnodup', hup'⟩ := ih hnodup₁
    refine ⟨hnodup', fun node => ?_⟩
    rw [hup', hup₁, lastSet_cons]
    cases lastSet calls node <;> rfl

/-! ### The report -/

/-- **The report** is made, and exact, exactly if there is a slot for each node. -/
theorem reports_iff (hnodup : v.upNodes.Nodup) (stack : Vector ℤ numEspresso) :
    (∃ nodes v', getActiveNodes stack v = some (nodes, v') ∧ Reports v nodes) ↔
      v.upNodes.length ≤ numEspresso := by
  have hperm := List.mergeSort_perm v.upNodes (fun a b => decide (a ≤ b))
  constructor
  · rintro ⟨nodes, v', hnodes, -⟩
    obtain ⟨_, hcopy, -⟩ := Option.map_eq_some_iff.mp hnodes
    have hroom := (isSome_copyNodes_iff (Nat.zero_le _)).mp (Option.isSome_of_eq_some hcopy)
    rwa [Nat.zero_add, hperm.length_eq] at hroom
  · intro hroom
    have hsome : (copyNodes stack 0 v.upNodes.mergeSort).isSome = true := by
      rw [isSome_copyNodes_iff (Nat.zero_le _), Nat.zero_add, hperm.length_eq]
      exact hroom
    obtain ⟨nodes, hcopy⟩ := Option.isSome_iff_exists.mp hsome
    obtain ⟨hcount, hle, hlisted⟩ := copyNodes_eq_some_iff (Nat.zero_le _) hcopy
    rw [List.take_zero, List.nil_append] at hlisted
    rw [Nat.zero_add, hperm.length_eq] at hcount
    refine ⟨nodes, _, Option.map_eq_some_iff.mpr ⟨nodes, hcopy, rfl⟩, ?_, hle, ?_, fun node => ?_⟩
    · rw [hcount, getActiveNodeCount, toInt32_eq (by omega)]
      unfold intMax numEspresso at *
      omega
    · rw [hlisted]
      have hsorted : v.upNodes.mergeSort.Pairwise (· ≤ ·) := List.pairwise_mergeSort' _ _
      have hdistinct : v.upNodes.mergeSort.Pairwise (· ≠ ·) := hperm.nodup_iff.mpr hnodup
      exact (hsorted.and hdistinct).imp fun hab => lt_of_le_of_ne hab.1 hab.2
    · rw [hlisted]
      exact hperm.mem_iff

/-- **The active nodes.** In every run from a server that knows of no node, the list of the nodes that
are up holds none twice, a node is up exactly if the last call for it set it up, and the next report
is exact, if and only if at most `NUM_ESPRESSO` nodes are up. -/
theorem activeNodes_exact_iff (hnone : v.upNodes = []) (hrun : Steps Runs v calls v') :
    (v'.upNodes.Nodup ∧ (∀ node, v'.isNodeUp node = true ↔ lastSet calls node = some true) ∧
      ∀ stack, ∃ nodes v'', getActiveNodes stack v' = some (nodes, v'') ∧ Reports v' nodes) ↔
      v'.upNodes.length ≤ numEspresso := by
  obtain ⟨hnodup, hup⟩ := upNodes_of_steps hrun (hnone ▸ List.nodup_nil)
  constructor
  · rintro ⟨-, -, hreport⟩
    exact (reports_iff hnodup (Vector.replicate numEspresso 0)).mp (hreport _)
  · intro hroom
    refine ⟨hnodup, fun node => ?_, fun stack => (reports_iff hnodup stack).mpr hroom⟩
    have hdown : v.isNodeUp node = false := by
      rw [isNodeUp, hnone]
      rfl
    rw [hup, hdown]
    cases lastSet calls node <;> simp

section JustStarted

/-- Two nodes come up, one of them twice, and one goes down. -/
def fewNodes : List NodeCall :=
  [.setNodeUp 2, .setNodeUp 1, .setNodeUp 2, .setNodeDown 1, .setNodeDown 3]

/-- One node more than there are slots. -/
def fiveNodes : List NodeCall :=
  [.setNodeUp 1, .setNodeUp 2, .setNodeUp 3, .setNodeUp 4, .setNodeUp 5]

theorem activeNodes_exact_fewNodes : ∃ v, Steps Runs justStarted fewNodes v ∧
    ∀ stack, ∃ nodes v', getActiveNodes stack v = some (nodes, v') ∧ Reports v nodes := by
  obtain ⟨v, hrun, hlen⟩ : ∃ v, Steps Runs justStarted fewNodes v ∧ v.upNodes.length ≤ numEspresso :=
    ⟨_, .cons ⟨_, rfl⟩ (.cons ⟨_, rfl⟩ (.cons ⟨_, rfl⟩ (.cons ⟨_, rfl⟩ (.cons ⟨_, rfl⟩ (.refl _))))),
      by decide⟩
  exact ⟨v, hrun, ((activeNodes_exact_iff rfl hrun).mpr hlen).2.2⟩

/-- The fifth node is stored behind the array. -/
theorem fiveNodes_out_of_bounds : ∃ v, Steps Runs justStarted fiveNodes v ∧
    ∀ stack, getActiveNodes stack v = none := by
  obtain ⟨v, hrun, hlen⟩ : ∃ v, Steps Runs justStarted fiveNodes v ∧ numEspresso < v.upNodes.length :=
    ⟨_, .cons ⟨_, rfl⟩ (.cons ⟨_, rfl⟩ (.cons ⟨_, rfl⟩ (.cons ⟨_, rfl⟩ (.cons ⟨_, rfl⟩ (.refl _))))),
      by decide⟩
  refine ⟨v, hrun, fun stack => ?_⟩
  have hperm := List.mergeSort_perm v.upNodes (fun a b => decide (a ≤ b))
  have hcopy : copyNodes stack 0 v.upNodes.mergeSort = none := by
    refine Option.not_isSome_iff_eq_none.mp fun hsome => ?_
    have hroom := (isSome_copyNodes_iff (Nat.zero_le _)).mp hsome
    rw [Nat.zero_add, hperm.length_eq] at hroom
    omega
  exact Option.map_eq_none_iff.mpr hcopy

end JustStarted

end VolatileMetadata

end DecaFS
