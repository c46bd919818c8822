import BlueSwat.Ebpf.Verifier
import BlueSwat.Fsm.Core
import BlueSwat.Lib.Record

/-!
# The policy cache (`fsm_policy_cache.c`)

The registry of compiled-in and runtime policies, and the dispatcher that runs the policies of a
slot. Both ports share this code; they differ in the number of compiled-in policies and in
`IFW_DC_PARAM_NUM`, the row length of the policy table (`Port`).

The table `policy_manager.policy[class][type]` is one block of memory, so it is modelled by the
position `class * IFW_DC_PARAM_NUM + type`: with a `type` beyond the row the position is one of the
next row, as in the C text. A list of `struct fsm_policy_list` is the list of its indices. The
`*_policy_mask` words are written and never read, and left out.

A policy runs on byte memory. `none` is a run that does not return a value.
-/

set_option autoImplicit false

namespace BlueSwat.Fsm

open Ebpf

/-! ## The registry -/

structure PolicyCache where
  size : Int
  code : Nat → BitVec 8
  jit : Bool

def PolicyCache.empty : PolicyCache := ⟨0, fun _ => 0, false⟩

/-- The constants in which the two ports differ. -/
structure Port where
  pidNum : Nat
  dcParamNum : Nat

/-- The position of `policy[class][type]` in the table. -/
def Port.entry (port : Port) (cls : StateClass) (type : Nat) : Nat :=
  cls.ctorIdx * port.dcParamNum + type

def ifwMaxRuntimePolicies : Nat := 8

structure Registry where
  policyMgrInit : Bool
  policyManager : Nat → List Int
  policyArr : Nat → PolicyCache
  runtimePolicyArr : Nat → PolicyCache

def Registry.boot : Registry where
  policyMgrInit := false
  policyManager := fun _ => []
  policyArr := fun _ => .empty
  runtimePolicyArr := fun _ => .empty

namespace Registry

def initPolicyManager (reg : Registry) : Registry :=
  { reg with policyManager := fun _ => [], policyMgrInit := true }

/-- `register_policy(class, type, pid)`: append `pid` to the list of the slot. -/
def registerPolicy (port : Port) (cls : StateClass) (type : Nat) (pid : Int) (reg : Registry) :
    Registry :=
  let reg := if reg.policyMgrInit then reg else reg.initPolicyManager
  { reg with policyManager := fun e =>
      if e = port.entry cls type then reg.policyManager e ++ [pid] else reg.policyManager e }

/-- `ADD_POLICY`: `bytes` is the array of the policy, whose `sizeof` counts the final NUL. -/
def addPolicy (port : Port) (pid : Nat) (bytes : List (BitVec 8)) (rest : Nat → BitVec 8)
    (cls : StateClass) (type : Nat) (reg : Registry) : Registry :=
  let slot : PolicyCache := ⟨bytes.length + 1, codeBytes bytes rest, false⟩
  registerPolicy port cls type pid
    { reg with policyArr := fun i => if i = pid then slot else reg.policyArr i }

def getPolicySlot (port : Port) (reg : Registry) (pid : Int) : Option PolicyCache :=
  if pid < 0 then none
  else if pid < port.pidNum then some (reg.policyArr pid.toNat)
  else
    let rtIdx := pid - port.pidNum
    if rtIdx ≥ ifwMaxRuntimePolicies then none else some (reg.runtimePolicyArr rtIdx.toNat)

def setAllPolicyJitOn (port : Port) (reg : Registry) : Registry :=
  { reg with policyArr := fun i =>
      if i < port.pidNum then { reg.policyArr i with jit := true } else reg.policyArr i }

end Registry

/-! ## Running policies -/

/-- The surroundings of one call of the dispatcher, on a struct of `size` bytes: where the struct
and the interpreter's stack lie, the memory around them, what the code that the JIT made of a
policy does, and for how many instructions an interpreted policy is followed. -/
structure Env (size : Nat) where
  place : Placement size
  around : Mem
  jitFunc : PolicyCache → Mem → Option (BitVec 64 × Mem)
  fuel : Nat
  enough : ifwRuntimeMaxInsts ≤ fuel

section
variable {size : Nat} (port : Port) (reg : Registry) (E : Env size)

/-- `run_fsm_ebpf_policy(pid, newState, 64)`: the value and the memory after the run. -/
def runFsmEbpfPolicy (pid : Int) (M : Mem) : Option (BitVec 64 × Mem) :=
  match reg.getPolicySlot port pid with
  | none => some (0, M)
  | some slot =>
    if slot.size = 0 then some (0, M)
    else if slot.jit then E.jitFunc slot M
    else
      (ebpfVmExec E.place.host (defaultVm slot.code) E.fuel M E.place.mem 64).bind fun p =>
        p.2.value.map fun v => (v, p.1.mem)

/-- The loop of `run_fsm_check_policy` over a list of policies. -/
def runPolicyList : List Int → Mem → Option (Verdict × Mem)
  | [], M => some (.pass, M)
  | pid :: rest, M =>
    (runFsmEbpfPolicy port reg E pid M).bind fun p =>
      if p.1 = Verdict.reject.code then some (.reject, p.2) else runPolicyList rest p.2

end

/-- `run_fsm_check_policy(type, class, newState)` on the struct `s`: the verdict and the struct
after the run. What a policy writes outside the struct is dropped with the memory, so this is the
whole effect of a run only for policies that write nowhere else. -/
def runFsmCheckPolicy {ι : Type} [DecidableEq ι] (L : Record.Layout ι) (port : Port)
    (reg : Registry) (E : Env L.size) (type : Nat) (cls : StateClass) (s : ι → BitVec 32) :
    Option (Verdict × (ι → BitVec 32)) :=
  (runPolicyList port reg E (reg.policyManager (port.entry cls type))
    (L.image E.around E.place.mem s)).map fun p => (p.1, L.readBack p.2 E.place.mem)

end BlueSwat.Fsm
