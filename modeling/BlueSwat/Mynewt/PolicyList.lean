import BlueSwat.Lib.LinkedList
import BlueSwat.Mynewt.State

/-!
# The policy lists (`fsm_policy_cache.c` of the Mynewt port)

`register_policy` and `remove_policy` on the nodes of the lists. `Fsm.Registry` has the list of a
slot as a sequence of policy numbers; here it is what its C text makes of it, a chain of nodes that
are allocated and freed one by one. The table of heads is indexed as there, by `Port.entry`.

A loop over a list is followed for `fuel` nodes. `none` is a loop that goes on, or an access to a
node that is not allocated.
-/

set_option autoImplicit false

namespace BlueSwat.Mynewt

open Fsm LinkedList

abbrev Addr := BitVec 32

/-- `policy_mgr_init`, the heads in `policy_manager`, and the nodes (`struct fsm_policy_list`). -/
structure PolicyLists where
  policyMgrInit : Bool
  policy : Nat → Option Addr
  heap : Heap Addr Int

namespace PolicyLists

def boot : PolicyLists := ⟨false, fun _ => none, fun _ => none⟩

def initPolicyManager (s : PolicyLists) : PolicyLists :=
  { s with policy := fun _ => none, policyMgrInit := true }

/-- `while (policy->policy_next != NULL) policy = policy->policy_next;`. -/
def lastNode (heap : Heap Addr Int) : Nat → Addr → Option Addr
  | 0, _ => none
  | fuel + 1, policy =>
    (heap policy).bind fun node => match node.next with
      | none => some policy
      | some next => lastNode heap fuel next

/-- The part of `register_policy` for a list with the head `policy`; `newNode` is what
`ebpf_malloc` returns. -/
def appendNode (fuel : Nat) (policy : Addr) (newNode : Option Addr) (pid : Int)
    (heap : Heap Addr Int) : Option (Heap Addr Int) :=
  (lastNode heap fuel policy).bind fun last => match newNode with
    | none => some heap
    | some a =>
      let heap := Function.update heap a (some ⟨none, pid⟩)
      (heap last).map fun node => Function.update heap last (some { node with next := some a })

/-- `register_policy`. -/
def registerPolicy (fuel : Nat) (cls : StateClass) (type : Nat) (pid : Int)
    (newNode : Option Addr) (s : PolicyLists) : Option PolicyLists :=
  let s := if s.policyMgrInit then s else s.initPolicyManager
  let e := port.entry cls type
  match s.policy e with
  | none => match newNode with
    | none => some s
    | some a =>
      some { s with
        heap := Function.update s.heap a (some ⟨none, pid⟩)
        policy := Function.update s.policy e (some a) }
  | some policy =>
    (appendNode fuel policy newNode pid s.heap).map fun heap => { s with heap }

/-- The loop of `remove_policy`. -/
def unlinkNode (pid : Int) (heap : Heap Addr Int) : Nat → Addr → Option (Heap Addr Int)
  | 0, _ => none
  | fuel + 1, policy =>
    (heap policy).bind fun node => match node.next with
      | none => some heap
      | some tmp =>
        (heap tmp).bind fun next =>
          if next.value = pid then
            let heap := Function.update heap policy (some { node with next := next.next })
            some (Function.update heap tmp none)
          else unlinkNode pid heap fuel tmp

/-- `remove_policy`. -/
def removePolicy (fuel : Nat) (cls : StateClass) (type : Nat) (pid : Int) (s : PolicyLists) :
    Option PolicyLists :=
  let e := port.entry cls type
  match s.policy e with
  | none => some s
  | some policy =>
    (s.heap policy).bind fun node =>
      if node.value = pid then
        some { s with
          policy := Function.update s.policy e node.next
          heap := Function.update s.heap policy none }
      else (unlinkNode pid s.heap fuel policy).map fun heap => { s with heap }

end PolicyLists

/-! ## Calls -/

/-- A call for a slot inside its row of the table; a registration with the node it is given. -/
inductive PolicyCall where
  | register (cls : StateClass) (type : Fin port.dcParamNum) (pid : Int) (newNode : Addr)
  | remove (cls : StateClass) (type : Fin port.dcParamNum) (pid : Int)

def PolicyCall.exec (fuel : Nat) (c : PolicyCall) (s : PolicyLists) : Option PolicyLists :=
  match c with
  | .register cls type pid a => s.registerPolicy fuel cls type pid (some a)
  | .remove cls type pid => s.removePolicy fuel cls type pid

def runCalls (fuel : Nat) : List PolicyCall → PolicyLists → Option PolicyLists
  | [], s => some s
  | c :: cs, s => (c.exec fuel s).bind (runCalls fuel cs)

/-- Every node that is handed out is one that is not in use. -/
def AllocsFresh (fuel : Nat) : List PolicyCall → PolicyLists → Prop
  | [], _ => True
  | c :: cs, s =>
    (∀ cls type pid a, c = .register cls type pid a → s.heap a = none) ∧
      ∀ s', c.exec fuel s = some s' → AllocsFresh fuel cs s'

/-! ## Sequences -/

/-- The policy numbers of each slot. -/
abbrev Sequences := StateClass × Fin port.dcParamNum → List Int

/-- What a call is for: `register_policy` appends, `remove_policy` takes out the first
occurrence. -/
def PolicyCall.apply (c : PolicyCall) (L : Sequences) : Sequences :=
  match c with
  | .register cls type pid _ => Function.update L (cls, type) (L (cls, type) ++ [pid])
  | .remove cls type pid => Function.update L (cls, type) ((L (cls, type)).erase pid)

/-- The lists are the sequences `L`: each ends in `NULL` and has no node twice, and no node is in
two lists. -/
def Holds (s : PolicyLists) (L : Sequences) : Prop :=
  ∃ nodes : StateClass × Fin port.dcParamNum → List (Addr × Int),
    (∀ slot, Chain s.heap (s.policy (port.entry slot.1 slot.2)) (nodes slot) ∧
      (addrs (nodes slot)).Nodup ∧ (nodes slot).map Prod.snd = L slot) ∧
    ∀ slot slot', slot ≠ slot' → ∀ a ∈ addrs (nodes slot), a ∉ addrs (nodes slot')

end BlueSwat.Mynewt
