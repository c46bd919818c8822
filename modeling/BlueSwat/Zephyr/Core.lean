import BlueSwat.Zephyr.Policies

/-!
# The Zephyr FSM core (`fsm_core.c`, `fsm_handle.c`)

The committed and the staged FSM state, the calls the packet hooks make on them, and the boot
sequence. `ifw_fsm_check_update` refreshes the staged state only under `fsm_new_init`, which no
statement outside that test sets: after boot the staged state is never refreshed.

The class and type of an update are those of a `Slot`. With any other class the C text returns
`IFW_UPDATE_ERROR`, with any other type it writes outside the array.
-/

set_option autoImplicit false

namespace BlueSwat.Zephyr

open Ebpf Fsm

structure Core where
  curFSMState : FsmState
  newFSMState : FsmState
  fsmNewInit : Bool

def Core.boot : Core := ⟨fun _ => 0, fun _ => 0, false⟩

/-- `state[type] = v`. -/
def FsmState.set (s : FsmState) (slot : Slot) (v : BitVec 16) : FsmState := fun i =>
  if i = slot then v.setWidth 32 else s i

@[simp] theorem FsmState.set_same (s : FsmState) (slot : Slot) (v : BitVec 16) :
    s.set slot v slot = v.setWidth 32 := if_pos rfl

theorem FsmState.set_ne (s : FsmState) {slot i : Slot} (v : BitVec 16) (h : i ≠ slot) :
    s.set slot v i = s i := if_neg h

/-- `ifw_fsm_init`: the staged state is left alone. -/
def ifwFsmInit (c : Core) : Core :=
  { c with curFSMState := fun
      | .core t => BitVec.ofNat 32 (ifwCoreStateNum t)
      | _ => 0 }

def ifwFsmStateUpdate (state : BitVec 16) (slot : Slot) (c : Core) : Core :=
  { c with curFSMState := c.curFSMState.set slot state, fsmNewInit := false }

def ifwFsmCheckUpdate (state : BitVec 16) (slot : Slot) (c : Core) : Core :=
  let c := if c.fsmNewInit then { c with newFSMState := c.curFSMState, fsmNewInit := true } else c
  { c with newFSMState := c.newFSMState.set slot state }

/-- `ifw_run_verifier`: the policies run on the staged state. -/
def ifwRunVerifier (reg : Registry) (E : Env layout.size) (slot : Slot) (c : Core) :
    Option (Verdict × Core) :=
  (runFsmCheckPolicy layout port reg E slot.type slot.cls c.newFSMState).map fun p =>
    (p.1, { c with newFSMState := p.2, fsmNewInit := false })

/-- The calls that the hooks make on the core. The registry and the surroundings of a verifier run
are those at the time of the call. -/
inductive CoreCall
  | stateUpdate (state : BitVec 16) (slot : Slot)
  | checkUpdate (state : BitVec 16) (slot : Slot)
  | runVerifier (reg : Registry) (E : Env layout.size) (slot : Slot)

def coreStep (c : Core) : CoreCall → Option (Core × Option Verdict)
  | .stateUpdate state slot => some (ifwFsmStateUpdate state slot c, none)
  | .checkUpdate state slot => some (ifwFsmCheckUpdate state slot c, none)
  | .runVerifier reg E slot => (ifwRunVerifier reg E slot c).map fun p => (p.2, some p.1)

/-! ## Boot -/

/-- `PID_*`; the two SPI policies have none. -/
def Policy.pid (p : Policy) : Nat := p.ctorIdx

/-- The `ADD_POLICY` lines of `load_all_policies`. -/
def shipped : List (Policy × Slot) :=
  [(.connChanMap, .conn .channelMap), (.connChanHop, .conn .channelHop),
    (.lllInterval, .conn .lllInterval), (.dcNesn, .dc .nesn), (.llcpLenReq, .dc .llcpLenReq),
    (.llcpConnParamReq, .dc .llcpConnParamReq), (.scanRspLen, .conn .scanRspLen),
    (.smpIdentCheck, .dc .smpKeys)]

/-- `load_all_policies`; `flash p` are the bytes behind the array of `p`. -/
def loadAllPolicies (flash : Policy → Nat → BitVec 8) (reg : Registry) : Registry :=
  shipped.foldl
    (fun reg q => reg.addPolicy port q.1.pid q.1.bytecode (flash q.1) q.2.cls q.2.type) reg

def ifwFsmEnable (flash : Policy → Nat → BitVec 8) (jit : Bool) (reg : Registry) : Registry :=
  let reg := loadAllPolicies flash reg
  if jit then reg.setAllPolicyJitOn port else reg

end BlueSwat.Zephyr
