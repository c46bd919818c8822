import BlueSwat.Fsm.PolicyCache
import BlueSwat.Jit.Layout

/-!
# Translation on demand (`gen_jit_code`, `load_ebpf_code`)

A policy that is marked for the JIT is translated each time it runs: `load_ebpf_code` hands its
instructions to the JIT's VM, `gen_jit_code` translates them and installs the result as `jit_func`,
and `run_fsm_ebpf_policy` calls that. What `build_inst` returned is not looked at on the way.
-/

set_option autoImplicit false

namespace BlueSwat.Jit

open Ebpf Fsm

/-- The fields of `ebpf_vm` that choose what runs. -/
structure PolicyVm where
  insts : Nat → BitVec 8
  numInsts : Nat
  useJit : Bool
  jitFunc : Option Code

/-- `ebpf_create` zeroes the VM. -/
def PolicyVm.create : PolicyVm := ⟨fun _ => 0, 0, false, none⟩

/-- `num_insts`: the length is cut to 16 bits before it is divided. -/
def instNumOf (codeLen : Int) : Nat := (BitVec.ofInt 16 codeLen).toNat / 8

def ebpfVmSetInst (code : Nat → BitVec 8) (codeLen : Int) (vm : PolicyVm) : PolicyVm :=
  { vm with insts := code, numInsts := instNumOf codeLen }

/-- What a translation reads besides the program: the helpers at the call base, what lies behind the
table of rows, and the bytes around the array of offsets. -/
structure JitEnv where
  helper : BitVec 32 → BitVec 32
  beyond : Row
  stray : Int → BitVec 8

def JitEnv.start (E : JitEnv) (code : Nat → BitVec 8) (instNum : Nat) : JitState :=
  genJitState (instAt code) instNum E.helper E.beyond E.stray

def genJitCode (E : JitEnv) (vm : PolicyVm) : PolicyVm :=
  { vm with jitFunc := some (jitCompile (E.start vm.insts vm.numInsts)).jitCode }

/-- `g_vm` and `g_jit_vm`. -/
structure DefaultVms where
  gVm : Option PolicyVm
  gJitVm : Option PolicyVm
  interprets : ∀ vm, gVm = some vm → vm.useJit = false
  translates : ∀ vm, gJitVm = some vm → vm.useJit = true

def DefaultVms.boot : DefaultVms := ⟨none, none, by simp, by simp⟩

def getDefaultVm (V : DefaultVms) (useJit : Bool) : PolicyVm :=
  if useJit then V.gJitVm.getD { PolicyVm.create with useJit := true } else V.gVm.getD .create

def loadEbpfCode (E : JitEnv) (V : DefaultVms) (slot : PolicyCache) : Option PolicyVm :=
  if slot.size = 0 then none
  else
    let vm := ebpfVmSetInst slot.code slot.size (getDefaultVm V slot.jit)
    some (if slot.jit then genJitCode E vm else vm)

/-- What `run_fsm_ebpf_policy` does. -/
inductive PolicyRun where
  | skipped
  | called (jitFunc : Option Code)
  | interpreted (insts : Nat → BitVec 8)

/-- `run_fsm_ebpf_policy`, up to the call. -/
def policyRun (port : Port) (reg : Registry) (E : JitEnv) (V : DefaultVms) (pid : Int) :
    PolicyRun :=
  match (reg.getPolicySlot port pid).bind (loadEbpfCode E V) with
  | none => .skipped
  | some vm => if vm.useJit then .called vm.jitFunc else .interpreted vm.insts

/-! ## Complete translations -/

/-- A pass that enters the body in `s` passes instruction `i` to `build_inst`, which succeeds. -/
def PassedIn (s : JitState) (i : Nat) : Prop :=
  ∃ t, (i, t) ∈ visits s.instNum 0 s ∧ 0 ≤ (buildInst t i).2

/-- Both passes do so with every instruction but the second slots of the `LDDW`s. -/
def Complete (E : JitEnv) (code : Nat → BitVec 8) (instNum : Nat) : Prop :=
  ∀ i < instNum, visited code i = true →
    PassedIn (preStart (E.start code instNum)) i ∧
      PassedIn (genStart (prePass (E.start code instNum))) i

end BlueSwat.Jit
