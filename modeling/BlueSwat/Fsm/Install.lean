import BlueSwat.Fsm.PolicyCache

/-!
# Runtime policies (`ifw_install_policy`)

A policy is installed in two steps, each with an allocation: its bytecode is copied to a runtime
slot, then `register_policy` adds a list node for it. Both ports carry the same text of
`ifw_install_policy` and differ in `register_policy`: the Zephyr one does not look at the result of
the allocation, the Mynewt one returns without a word when it fails.

An allocation is the block it returns, with whatever the block and the memory behind it hold, or
`none`.
-/

set_option autoImplicit false

namespace BlueSwat.Fsm

open Ebpf

/-- The arguments of `ifw_install_policy`; `code` is `none` for `NULL`. -/
structure InstallCall where
  cls : Int
  type : Int
  code : Option (Nat → BitVec 8)
  len : BitVec 32

/-- The registry and `runtime_policy_count`, a static that starts at 0 and is only counted up. -/
structure PolicyStore extends Registry where
  runtimePolicyCount : Nat

def StateClass.ofInt : Int → Option StateClass
  | 0 => some .shared
  | 1 => some .core
  | 2 => some .conn
  | 3 => some .dc
  | 4 => some .spi
  | 5 => some .hci
  | _ => none

/-- `memcpy(copy, code, len)`. -/
def memcpy (block code : Nat → BitVec 8) (len : Nat) : Nat → BitVec 8 := fun i =>
  if i < len then code i else block i

/-- `register_policy` of the Mynewt port; `node` tells whether the list node can be allocated. -/
def Registry.registerPolicyIf (node : Bool) (port : Port) (cls : StateClass) (type : Nat)
    (pid : Int) (reg : Registry) : Registry :=
  let reg := if reg.policyMgrInit then reg else reg.initPolicyManager
  if node then reg.registerPolicy port cls type pid else reg

section
variable (port : Port) (stateSize : Nat)
  (register : StateClass → Nat → Int → Registry → Registry)

/-- The last part of `ifw_install_policy`: fill the next runtime slot and register it. -/
def installSlot (cls : StateClass) (type : Nat) (slot : PolicyCache) (store : PolicyStore) :
    PolicyStore :=
  let rtIdx := store.runtimePolicyCount
  let reg := { store.toRegistry with
    runtimePolicyArr := fun i => if i = rtIdx then slot else store.runtimePolicyArr i }
  ⟨register cls type (port.pidNum + rtIdx) reg, rtIdx + 1⟩

/-- `ifw_install_policy`; `stateSize` is `sizeof(struct FsmState)` and `copy` the allocation for the
bytecode. -/
def ifwInstallPolicy (copy : Option (Nat → BitVec 8)) (call : InstallCall) (store : PolicyStore) :
    PolicyStore × Int :=
  match call.code with
  | none => (store, -1)
  | some code =>
    if call.len = 0 ∨ call.len.toNat % 8 ≠ 0 then (store, -1)
    else match StateClass.ofInt call.cls with
      | none => (store, -2)
      | some cls =>
        if call.type < 0 ∨ call.type ≥ port.dcParamNum then (store, -2)
        else if store.runtimePolicyCount ≥ ifwMaxRuntimePolicies then (store, -3)
        else
          let verr := ifwVerifyPolicy (some code) call.len stateSize
          if verr ≠ 0 then (store, verr)
          else match copy with
            | none => (store, -4)
            | some block =>
              let slot := ⟨call.len.toInt, memcpy block code call.len.toNat, false⟩
              (installSlot port register cls call.type.toNat slot store, 0)

end

end BlueSwat.Fsm
