import BlueSwat.Fsm.Install
import BlueSwat.Mynewt.PolicyList

/-!
# The registry in memory, store by store

A policy is installed by a thread, and a packet hook may interrupt it: the link layer runs in an
interrupt on Zephyr and in a task of higher priority on Mynewt. `run_fsm_check_policy` then reads
the registry between two stores of `ifw_install_policy`. Here the registry is what lies in memory
(`Cells`), and an installation is the list of its stores, in the order of the C text. A store to a
field of a slot or of a list node is one step; what a thread does to memory that nothing points to
yet (`memcpy` to the new block) is none.

The two ports differ in `register_policy`. Behind a list that is not empty, the Zephyr one links the
block that `ebpf_malloc` returns and fills it in afterwards; the Mynewt one fills it in and links
it with its last store. A new block holds whatever the memory held.
-/

set_option autoImplicit false

namespace BlueSwat.Preempt

open Fsm LinkedList
open Mynewt (Addr PolicyLists)
open Ebpf (Mem ifwVerifyPolicy)

abbrev PolicyNode := Node Addr Int

/-- The lists of policy numbers, the two arrays of policies and `runtime_policy_count`. -/
structure Cells extends PolicyLists where
  policyArr : Nat → PolicyCache
  runtimePolicyArr : Nat → PolicyCache
  runtimePolicyCount : Nat

/-! ## Stores -/

inductive Store where
  | clearHeads
  | setInit
  | slotSize (i : Nat) (size : Int)
  | slotCode (i : Nat) (code : Nat → BitVec 8)
  | slotJit (i : Nat) (jit : Bool)
  | count (n : Nat)
  | block (a : Addr) (node : PolicyNode)
  | index (a : Addr) (pid : Int)
  | next (a : Addr) (p : Option Addr)
  | head (e : Nat) (p : Option Addr)

namespace Cells

/-- `runtime_policy_arr[i]` with a field changed. -/
def setSlot (c : Cells) (i : Nat) (f : PolicyCache → PolicyCache) : Cells :=
  { c with runtimePolicyArr := Function.update c.runtimePolicyArr i (f (c.runtimePolicyArr i)) }

/-- The node at `a` with a field changed. -/
def setNode (c : Cells) (a : Addr) (f : PolicyNode → PolicyNode) : Cells :=
  { c with heap := Function.update c.heap a ((c.heap a).map f) }

def store (c : Cells) : Store → Cells
  | .clearHeads => { c with policy := fun _ => none }
  | .setInit => { c with policyMgrInit := true }
  | .slotSize i size => c.setSlot i ({ · with size := size })
  | .slotCode i code => c.setSlot i ({ · with code := code })
  | .slotJit i jit => c.setSlot i ({ · with jit := jit })
  | .count n => { c with runtimePolicyCount := n }
  | .block a node => { c with heap := Function.update c.heap a (some node) }
  | .index a pid => c.setNode a ({ · with value := pid })
  | .next a p => c.setNode a ({ · with next := p })
  | .head e p => { c with policy := Function.update c.policy e p }

def run (c : Cells) (stores : List Store) : Cells := stores.foldl store c

end Cells

/-! ## Registration -/

/-- `if (!policy_mgr_init) init_policy_manager();`. -/
def initStores (c : Cells) : List Store :=
  if c.policyMgrInit then [] else [.clearHeads, .setInit]

section
variable (port : Port) (fuel : Nat) (cls : StateClass) (type : Nat) (pid : Int)

/-- `register_policy` of the Zephyr port; `a` is the block that `ebpf_malloc` returns. The loop to
the last node is followed for `fuel` nodes, as in `PolicyLists.lastNode`. -/
def zephyrRegisterPolicy (a : Addr) (node : PolicyNode) (c : Cells) : Option (List Store) :=
  let init := initStores c
  let c := c.run init
  match c.policy (port.entry cls type) with
  | none =>
    some (init ++ [.block a node, .index a pid, .next a none,
      .head (port.entry cls type) (some a)])
  | some policy =>
    (PolicyLists.lastNode c.heap fuel policy).map fun last =>
      init ++ [.block a node, .next last (some a), .index a pid, .next a none]

/-- `register_policy` of the Mynewt port; `ebpf_malloc` may return `NULL`. -/
def mynewtRegisterPolicy (block : Option (Addr × PolicyNode)) (c : Cells) :
    Option (List Store) :=
  let init := initStores c
  let c := c.run init
  match c.policy (port.entry cls type) with
  | none => match block with
    | none => some init
    | some (a, node) =>
      some (init ++ [.block a node, .index a pid, .next a none,
        .head (port.entry cls type) (some a)])
  | some policy =>
    (PolicyLists.lastNode c.heap fuel policy).map fun last => match block with
      | none => init
      | some (a, node) =>
        init ++ [.block a node, .index a pid, .next a none, .next last (some a)]

end

/-! ## Installation -/

/-- The stores to the next runtime slot. -/
def fillStores (slot : PolicyCache) (rtIdx : Nat) : List Store :=
  [.slotSize rtIdx slot.size, .slotCode rtIdx slot.code, .slotJit rtIdx slot.jit,
    .count (rtIdx + 1)]

/-- `ifw_install_policy`: its stores and its result, with the stores of `register_policy`. -/
def installStores (port : Port) (stateSize : Nat)
    (register : StateClass → Nat → Int → Cells → Option (List Store))
    (copy : Option (Nat → BitVec 8)) (call : InstallCall) (c : Cells) :
    Option (List Store × Int) :=
  match call.code with
  | none => some ([], -1)
  | some code =>
    if call.len = 0 ∨ call.len.toNat % 8 ≠ 0 then some ([], -1)
    else match StateClass.ofInt call.cls with
      | none => some ([], -2)
      | some cls =>
        if call.type < 0 ∨ call.type ≥ port.dcParamNum then some ([], -2)
        else if c.runtimePolicyCount ≥ ifwMaxRuntimePolicies then some ([], -3)
        else
          let verr := ifwVerifyPolicy (some code) call.len stateSize
          if verr ≠ 0 then some ([], verr)
          else match copy with
            | none => some ([], -4)
            | some block =>
              let rtIdx := c.runtimePolicyCount
              let fill :=
                fillStores ⟨call.len.toInt, memcpy block code call.len.toNat, false⟩ rtIdx
              (register cls call.type.toNat (port.pidNum + rtIdx) (c.run fill)).map fun stores =>
                (fill ++ stores, 0)

/-! ## The dispatcher on nodes -/

/-- The arrays of policies, for `get_policy_slot`. -/
def Cells.arrays (c : Cells) : Registry :=
  ⟨c.policyMgrInit, fun _ => [], c.policyArr, c.runtimePolicyArr⟩

section
variable {size : Nat} (port : Port) (c : Cells) (E : Env size)

/-- The loop of `run_fsm_check_policy` along the nodes from `p`. `none` is a loop that goes on after
`fuel` nodes, an access to a node that is not allocated or a policy that does not return. -/
def runPolicyNodes : Nat → Option Addr → Mem → Option (Verdict × Mem)
  | _, none, M => some (.pass, M)
  | 0, some _, _ => none
  | fuel + 1, some a, M =>
    (c.heap a).bind fun node =>
      (runFsmEbpfPolicy port c.arrays E node.value M).bind fun p =>
        if p.1 = Verdict.reject.code then some (.reject, p.2)
        else runPolicyNodes fuel node.next p.2

end

/-- `run_fsm_check_policy` on the registry in memory. -/
def Cells.runFsmCheckPolicy {ι : Type} [DecidableEq ι] (L : Record.Layout ι) (port : Port)
    (fuel : Nat) (c : Cells) (E : Env L.size) (type : Nat) (cls : StateClass)
    (s : ι → BitVec 32) : Option (Verdict × (ι → BitVec 32)) :=
  (runPolicyNodes port c E fuel (c.policy (port.entry cls type))
    (L.image E.around E.place.mem s)).map fun p => (p.1, L.readBack p.2 E.place.mem)

end BlueSwat.Preempt
