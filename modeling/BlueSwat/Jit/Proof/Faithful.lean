import BlueSwat.Jit.Proof.CallStandard
import BlueSwat.Jit.Proof.Dispatch
import BlueSwat.Mynewt.Proof.Parsers

/-!
# Generated code in the models of the ports

The models of the ports leave a call of generated code to their surroundings (`Env.jitFunc`) and ask
that it be faithful to the registered policies (`Env.JitFaithful`). Here the surroundings are the
machine: `OnMachine` says that `run_fsm_ebpf_policy` returns what the machine has in `r1:r0` and in
memory when the code that `policyRun` calls is back at the caller. `faithfulJit_of_onMachine`: for
the policies of Mynewt, whose `main` turns the JIT on, this is faithful. `machineEnv` are such
surroundings.
-/

set_option autoImplicit false

namespace BlueSwat.Jit

open Thumb Machine Bytes Record Fsm
open Ebpf (codeBytes Placement ifwRuntimeMaxInsts)

section
variable {ι : Type} [DecidableEq ι]

/-- A call of `code` on a struct at `mem`. The caller is cut off at the return address, where the
machine stops. -/
structure CalledAt (L : Layout ι) (code : Code) (mem : Ebpf.Addr) (fsm : ι → BitVec 32)
    (unpriv : Word → Bool) (s : State) : Prop where
  called : Called L code unpriv fsm s
  struct : s.reg 0 = mem
  stops : ∀ t, Reach (step unpriv) s t → t.pc = s.reg 14 &&& 0xfffffffe →
    ∃ r, step unpriv t = .done r

/-- Where `policyRun` calls generated code, `run_fsm_ebpf_policy` returns what the machine
leaves. -/
def OnMachine (L : Layout ι) (port : Port) (reg : Registry) (J : JitEnv) (V : DefaultVms)
    (E : Env L.size) : Prop :=
  ∀ pid code M fsm, policyRun port reg J V pid = .called (some code) →
    L.Holds M E.place.mem fsm → ∃ unpriv s, CalledAt L code E.place.mem fsm unpriv s ∧
      ∀ n t r, run (step unpriv) n s = some (t, r) →
        runFsmEbpfPolicy port reg E pid M = some (pair (t.reg 1) (t.reg 0), t.mem)

variable {L : Layout ι} {unpriv : Word → Bool} {fsm : ι → BitVec 32} {s : State}
  {bytes : List (BitVec 8)}

/-- The machine stops at the caller, with the value of the interpreter and the struct as it was. -/
theorem CalledAt.result {rest : Nat → BitVec 8} {J : JitEnv} {P : Placement L.size} {M : Mem}
    (hsz : L.size ≤ 2 ^ 15) (hv : validated bytes (L.slots.map L.offset) = true)
    (h : CalledAt L (jitCompile (J.start (codeBytes bytes rest) (bytes.length / 8))).jitCode
      P.mem fsm
      unpriv s)
    (hM : L.Holds M P.mem fsm) (memLen : BitVec 32) :
    ∃ st v n t r, Ebpf.ebpfVmExec P.host (Ebpf.defaultVm (codeBytes bytes rest))
        ifwRuntimeMaxInsts M P.mem memLen = some (st, .exit v) ∧
      run (step unpriv) n s = some (t, r) ∧ pair (t.reg 1) (t.reg 0) = v ∧
      L.Holds t.mem P.mem fsm := by
  obtain ⟨st, v, t, hvm, hreach, hpc, hval⟩ := jitAgrees_of_validated hsz hv rest J.helper J.beyond
    J.stray P M memLen fsm unpriv s hM h.called
  obtain ⟨t', hback⟩ := keepsStandard_of_validated hsz hv rest J.helper J.beyond J.stray fsm
    unpriv s
    h.called
  obtain ⟨r, hr⟩ := h.stops t hreach hpc
  obtain ⟨r', hr'⟩ := h.stops t' hback.path.reach hback.pc
  obtain ⟨n, hn⟩ := reach_run hreach hr
  -- the machine has one end
  obtain ⟨rfl, -⟩ := Prod.mk.inj (run_unique hn hback.path.reach hr')
  refine ⟨st, v, n, t, r, hvm, hn, hval, ?_⟩
  rw [← h.struct]
  exact h.called.struct.congr hback.kept.2

variable {port : Port} {reg : Registry} {J : JitEnv} {V : DefaultVms} {E : Env L.size}

/-- **A policy that passes the check is faithful on the machine.** -/
theorem jitFaithful_of_onMachine {pid : Int} {slot : PolicyCache} {rest : Nat → BitVec 8}
    (hsz : L.size ≤ 2 ^ 15) (hv : validated bytes (L.slots.map L.offset) = true)
    (h : OnMachine L port reg J V E) (hslot : reg.getPolicySlot port pid = some slot)
    (hsize : slot.size ≠ 0) (hjit : slot.jit = true) (hcode : slot.code = codeBytes bytes rest)
    (hnum : instNumOf slot.size = bytes.length / 8) : E.JitFaithful L slot := by
  intro f himp M fsm hM
  have hcall := policyRun_jit port reg J V hslot hsize hjit
  -- `run_fsm_ebpf_policy` is the call of the generated code
  obtain ⟨slot', hslot', -, hrun⟩ := runFsmEbpfPolicy_called port reg J V E hcall M
  obtain rfl : slot' = slot := Option.some.inj (hslot'.symm.trans hslot)
  obtain ⟨unpriv, s, hc, hres⟩ := h pid _ M fsm hcall hM
  rw [hcode, hnum] at hc
  obtain ⟨st, v, n, t, r, hvm, hn, hval, hstruct⟩ := hc.result hsz hv hM 64
  -- the interpreter returns one value
  obtain ⟨st', hst', -⟩ := himp E.place M 64 fsm hM
  rw [hcode] at hst'
  obtain ⟨-, hexit⟩ := Prod.mk.inj (Option.some.inj (hvm.symm.trans hst'))
  refine ⟨t.mem, ?_, hstruct⟩
  rw [← hrun, hres n t r hn, hval, Ebpf.Ret.exit.inj hexit]

end

/-- Every policy of Mynewt is registered. -/
theorem policy_validated (p : Mynewt.Policy) :
    validated p.bytecode (Mynewt.layout.slots.map Mynewt.layout.offset) = true := by
  cases p
  · exact shipped_validated.2 (.connChanMap, .conn .channelMap) (by decide)
  · exact shipped_validated.2 (.keysizeConfusion, .dc .smpMaxEncSize) (by decide)
  · exact shipped_validated.2 (.keyEntropyDowngrade, .dc .smpMaxEncSize) (by decide)

/-- The final NUL that `sizeof` counts is no instruction. -/
theorem instNumOf_policy (p : Mynewt.Policy) :
    instNumOf (p.bytecode.length + 1) = p.bytecode.length / 8 := by cases p <;> decide

/-- **The JIT of Mynewt is faithful on the machine**, for every policy that is compiled in. -/
theorem faithfulJit_of_onMachine {flash : Mynewt.Policy → Nat → BitVec 8} {J : JitEnv}
    {V : DefaultVms} {E : Env Mynewt.layout.size}
    (h : OnMachine Mynewt.layout Mynewt.port (Mynewt.ifwFsmEnable flash true .boot) J V E) :
    Mynewt.FaithfulJit flash true E := by
  intro _ p
  have hslot : (Mynewt.ifwFsmEnable flash true .boot).getPolicySlot Mynewt.port p.pid =
      some (p.slot flash true) := by cases p <;> rfl
  refine jitFaithful_of_onMachine (by decide) (policy_validated p) h hslot ?_ rfl rfl
    (instNumOf_policy p)
  show (p.bytecode.length + 1 : Int) ≠ 0
  omega

/-! ## The machine as surroundings -/

/-- A call with code in flash, the struct of `M` and the stack in RAM, and `BKPT` at the return
address, which the decoder does not know. -/
def callOn (code : Code) (M : Mem) : State :=
  { callState code with mem := placeCode (placeCode M 0x08010000 [0xbe00]) 0x08000000 code }

theorem called_callOn {ι : Type} [DecidableEq ι] {L : Layout ι} {code : Code} {M : Mem}
    {fsm : ι → BitVec 32} (hlen : code.length ≤ 0x1000) (hsz : L.size ≤ 0x1000)
    (hM : L.Holds M 0x20000000 fsm) :
    Called L code (fun _ => true) fsm (callOn code M) where
  __ := called_callState (L := L) hlen hsz
  placed := codeAt_placeCode (by omega)
  struct := hM.congr fun a ha => by
    have h1 : (0x20000000 : Word).toNat = 0x20000000 := rfl
    have h2 : (0x08000000 : Word).toNat = 0x08000000 := rfl
    have h3 : (0x08010000 : Word).toNat = 0x08010000 := rfl
    have := a.isLt
    change Within a 0x20000000 _ at ha
    change placeCode (placeCode M 0x08010000 [0xbe00]) 0x08000000 code a = M a
    simp only [Within, BitVec.toNat_sub, h1] at ha
    rw [placeCode_of_not_within, placeCode_of_not_within]
    · simp only [Within, BitVec.toNat_sub, h3, List.length_singleton]
      omega
    · simp only [Within, BitVec.toNat_sub, h2]
      omega

/-- The breakpoint stops the machine as long as it is in place. -/
theorem step_breakpoint {code : Code} {M : Mem} {u : State} (hlen : code.length ≤ 0x1000)
    (hpc : u.pc = 0x08010000)
    (hm : ∀ a, ¬ Within a (0x20002000 - 288) 288 → u.mem a = (callOn code M).mem a) :
    step (fun _ => true) u = .done () := by
  have hhalf : half u.mem 0x08010000 = 0xbe00 := by
    have hplaced : half (placeCode M 0x08010000 [0xbe00]) 0x08010000 = 0xbe00 :=
      codeAt_placeCode (by decide) 0 _ rfl
    rw [← hplaced]
    refine half_congr fun k hk => ?_
    have h2 : (0x08000000 : Word).toNat = 0x08000000 := rfl
    have h3 : (0x08010000 : Word).toNat = 0x08010000 := rfl
    have h4 : (0x20002000 - 288 : Word).toNat = 0x20001ee0 := rfl
    rw [hm]
    · refine placeCode_of_not_within ?_
      simp only [Within, BitVec.toNat_sub, BitVec.toNat_add, BitVec.toNat_ofNat, h2, h3]
      omega
    · simp only [Within, BitVec.toNat_sub (0x08010000 + _), BitVec.toNat_add,
        BitVec.toNat_ofNat, h3,
        h4]
      omega
  rw [step, hpc, hhalf]
  rfl

theorem callOn_return (code : Code) (M : Mem) :
    (callOn code M).reg 14 &&& 0xfffffffe = 0x08010000 := by
  change (0x08010001 : Word) &&& 0xfffffffe = 0x08010000
  decide

/-- The call comes back to the breakpoint, and the machine stops there only. -/
theorem calledAt_callOn {ι : Type} [DecidableEq ι] {L : Layout ι} {bytes : List (BitVec 8)}
    {rest : Nat → BitVec 8} {J : JitEnv} {M : Mem} {fsm : ι → BitVec 32} (hsz : L.size ≤ 0x1000)
    (hv : validated bytes (L.slots.map L.offset) = true)
    (hlen : (jitCodeOf (codeBytes bytes rest) (bytes.length / 8) J.helper J.beyond J.stray).length ≤
      0x1000)
    (hM : L.Holds M 0x20000000 fsm) :
    CalledAt L (jitCompile (J.start (codeBytes bytes rest) (bytes.length / 8))).jitCode
      0x20000000 fsm
      (fun _ => true)
      (callOn (jitCompile (J.start (codeBytes bytes rest) (bytes.length / 8))).jitCode M) := by
  have hc := called_callOn hlen hsz hM
  obtain ⟨t', hback⟩ := keepsStandard_of_validated (by omega) hv rest J.helper J.beyond J.stray fsm
    (fun _ => true) _ hc
  have hstop := step_breakpoint hlen (hback.pc.trans (callOn_return _ _)) hback.kept.1
  refine ⟨hc, rfl, fun t ht hpc => ?_⟩
  have hkept := hback.path.covers hstop ht ⟨fun _ _ => rfl, fun _ _ => rfl⟩
  exact ⟨(), step_breakpoint hlen (hpc.trans (callOn_return _ _)) hkept.1⟩

open Classical in
/-- What the machine has in `r1:r0` and in memory where it stops, if it does. -/
noncomputable def machineResult (s : State) : Option (BitVec 64 × Mem) :=
  if h : ∃ p : State × Unit, ∃ n, run (step fun _ => true) n s = some p then
    some (pair (h.choose.1.reg 1) (h.choose.1.reg 0), h.choose.1.mem)
  else none

theorem machineResult_of_run {s t : State} {n : Nat} {r : Unit}
    (h : run (step fun _ => true) n s = some (t, r)) :
    machineResult s = some (pair (t.reg 1) (t.reg 0), t.mem) := by
  have hex : ∃ p : State × Unit, ∃ n, run (step fun _ => true) n s = some p := ⟨_, n, h⟩
  obtain ⟨m, hm⟩ := hex.choose_spec
  obtain ⟨hreach, hdone⟩ := run_reach h
  rw [machineResult, dif_pos hex, run_unique hm hreach hdone]

/-- The surroundings of Mynewt in which generated code runs on the machine. -/
noncomputable def machineEnv (J : JitEnv) : Env Mynewt.layout.size :=
  { Mynewt.ramEnv with
    jitFunc slot M :=
      machineResult (callOn (jitCompile (J.start slot.code (instNumOf slot.size))).jitCode M) }

/-- After boot there is nothing but the policies that are compiled in. -/
theorem slot_of_getPolicySlot {flash : Mynewt.Policy → Nat → BitVec 8} {pid : Int}
    {slot : PolicyCache} (hsize : slot.size ≠ 0)
    (h : (Mynewt.ifwFsmEnable flash true .boot).getPolicySlot Mynewt.port pid = some slot) :
    ∃ p : Mynewt.Policy, slot = p.slot flash true := by
  unfold Registry.getPolicySlot at h
  split at h
  · cases h
  · split at h
    · rename_i h0 h3
      have : pid = 0 ∨ pid = 1 ∨ pid = 2 := by
        have : (Mynewt.port.pidNum : Int) = 3 := rfl
        omega
      rcases this with rfl | rfl | rfl
      · exact ⟨.connChanMap, (Option.some.inj h).symm⟩
      · exact ⟨.keysizeConfusion, (Option.some.inj h).symm⟩
      · exact ⟨.keyEntropyDowngrade, (Option.some.inj h).symm⟩
    · simp only at h
      split at h
      · cases h
      · cases h
        exact absurd rfl hsize

/-- **The machine is such surroundings.** -/
theorem onMachine_machineEnv (flash : Mynewt.Policy → Nat → BitVec 8) (J : JitEnv)
    (V : DefaultVms) :
    OnMachine Mynewt.layout Mynewt.port (Mynewt.ifwFsmEnable flash true .boot) J V
      (machineEnv J) := by
  intro pid code M fsm hcall hM
  obtain ⟨slot, hslot, hcode, hrun⟩ := runFsmEbpfPolicy_called _ _ J V (machineEnv J) hcall M
  obtain ⟨p, rfl⟩ := slot_of_getPolicySlot (size_ne_zero_of_called _ _ J V hslot hcall) hslot
  have hlen : (jitCodeOf (codeBytes p.bytecode (flash p)) (p.bytecode.length / 8) J.helper J.beyond
      J.stray).length ≤ 0x1000 := by
    rw [validated_jitCode (policy_validated p)]
    cases p <;> decide +kernel
  have hc := calledAt_callOn (J := J) (by decide) (policy_validated p) hlen hM
  rw [← instNumOf_policy p] at hc
  cases hcode
  refine ⟨_, _, hc, fun n t r hn => ?_⟩
  rw [hrun]
  exact machineResult_of_run hn

theorem faithfulJit_machineEnv (flash : Mynewt.Policy → Nat → BitVec 8) (J : JitEnv) :
    Mynewt.FaithfulJit flash true (machineEnv J) :=
  faithfulJit_of_onMachine (onMachine_machineEnv flash J .boot)

/-- **The dispatcher of Mynewt with the JIT on**, down to the generated code on the machine: the
verdict is that of the policies in C. -/
theorem runFsmCheckPolicy_machineEnv (flash : Mynewt.Policy → Nat → BitVec 8) (J : JitEnv)
    (slot : Mynewt.Slot) (s : Mynewt.FsmState) :
    runFsmCheckPolicy Mynewt.layout Mynewt.port (Mynewt.ifwFsmEnable flash true .boot)
        (machineEnv J) slot.type slot.cls s = some (Mynewt.shippedVerdict slot s, s) :=
  Mynewt.runFsmCheckPolicy_boot flash true (faithfulJit_machineEnv flash J) slot s

end BlueSwat.Jit
