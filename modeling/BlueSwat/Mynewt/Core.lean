import Mathlib.Logic.Function.Basic
import BlueSwat.Mynewt.Policies

/-!
# The Mynewt FSM core (`fsm_core.c`)

Unlike in the Zephyr port, `ifw_fsm_check_update` stages the update on a copy of the committed
state, runs the policies of the slot and commits. Class and type are checked against the arrays
(`slotAt`).
-/

set_option autoImplicit false

namespace BlueSwat.Mynewt

open Fsm

structure Core where
  curFSMState : FsmState
  newFSMState : FsmState

def Core.boot : Core := ⟨fun _ => 0, fun _ => 0⟩

/-- `ifw_fsm_init`; `ifw_fcb_init` returns 0. -/
def ifwFsmInit (_ : Core) : Core where
  curFSMState := fun
    | .core t => BitVec.ofNat 32 (ifwCoreStateNum t)
    | _ => 0
  newFSMState := fun _ => 0

def ifwStageRefresh (c : Core) : Core := { c with newFSMState := c.curFSMState }

def ifwFsmStateUpdate (state type cls : BitVec 16) (c : Core) : Core :=
  match slotAt cls type with
  | none => c
  | some slot => { c with curFSMState := Function.update c.curFSMState slot (state.setWidth 32) }

/-- The test of `ifw_fsm_check_update` on the value: only core states are bounded. -/
def inRange (state : BitVec 16) : Slot → Bool
  | .core t => state.toNat < ifwCoreStateNum t
  | _ => true

def ifwFsmCheckUpdate (reg : Registry) (E : Env layout.size) (state type cls : BitVec 16)
    (c : Core) : Option (Verdict × Core) :=
  let c := ifwStageRefresh c
  match slotAt cls type with
  | none => some (.reject, c)
  | some slot =>
    if inRange state slot = false then some (.reject, c)
    else
      (runFsmCheckPolicy layout port reg E slot.type slot.cls
        (Function.update c.newFSMState slot (state.setWidth 32))).map fun p =>
          let c := { c with newFSMState := p.2 }
          match p.1 with
          | .reject => (.reject, c)
          | .pass => (.pass, ifwFsmStateUpdate state type cls c)

/-! ## Boot -/

/-- The `ADD_POLICY` lines of `load_all_policies`. -/
def shipped : List (Policy × Slot) :=
  [(.connChanMap, .conn .channelMap), (.keysizeConfusion, .dc .smpMaxEncSize),
    (.keyEntropyDowngrade, .dc .smpMaxEncSize)]

/-- `load_all_policies`; `flash p` are the bytes behind the array of `p`. -/
def loadAllPolicies (flash : Policy → Nat → BitVec 8) (reg : Registry) : Registry :=
  shipped.foldl
    (fun reg q => reg.addPolicy port q.1.pid q.1.bytecode (flash q.1) q.2.cls q.2.type) reg

def ifwFsmEnable (flash : Policy → Nat → BitVec 8) (jit : Bool) (reg : Registry) : Registry :=
  let reg := loadAllPolicies flash reg
  if jit then reg.setAllPolicyJitOn port else reg

end BlueSwat.Mynewt
