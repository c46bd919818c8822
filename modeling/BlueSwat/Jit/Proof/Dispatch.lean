import BlueSwat.Ebpf.Proof.Verify
import BlueSwat.Jit.Dispatch
import BlueSwat.Jit.Proof.Layout
import BlueSwat.Zephyr.State

/-!
# Translations that are cut short

`build_body` stops at an instruction that `build_inst` refuses, `jit_compile` puts the epilogue
behind what there is, and the code is installed all the same. So the code that is called is complete
exactly for a program without a refused instruction (`called_complete_iff`).

The value `build_inst` returns depends on the instruction alone (`buildInst_ret`), for any registers
and in any state of a pass; the sizes of `Proof/EmitSize` are not needed here.
-/

set_option autoImplicit false

namespace BlueSwat.Jit

open Ebpf Fsm

theorem buildInst_ret (s : JitState) (pc : Nat) :
    (buildInst s pc).2 = opcodeRet (s.insts pc).imm (Op.ofCode (s.insts pc).opcode) := by
  unfold buildInst buildOp
  generalize Op.ofCode (s.insts pc).opcode = op
  rcases op with _ | op
  · rfl
  cases op with
  | alu32 op form =>
    cases op <;> cases form <;> try rfl
    -- the shifts by an immediate
    all_goals
      simp only [buildAlu32, buildShift32, opcodeRet, refusedOp, decide_eq_true_eq]
      split
      · rfl
      · split <;> rfl
  | _ => rfl

theorem buildInst_nonneg_iff (s : JitState) (pc : Nat) :
    0 ≤ (buildInst s pc).2 ↔ refused (s.insts pc) = false := by
  rw [buildInst_ret, opcodeRet, refused]
  cases refusedOp (s.insts pc).imm (Op.ofCode (s.insts pc).opcode) with
  | true => exact ⟨fun h => absurd h (show ¬ (0 : Int) ≤ -1 by decide), fun h => by cases h⟩
  | false =>
    rw [if_neg (by decide)]
    split <;> decide

theorem buildRound_next (s : JitState) (i : Nat) :
    (buildRound s i).2 = if refused (s.insts i) then none else some (nextInst s.insts i) := by
  have hret := buildInst_ret s i
  unfold buildRound
  generalize buildInst s i = r at hret
  obtain ⟨c, ret⟩ := r
  obtain rfl : ret = _ := hret
  unfold opcodeRet refused nextInst
  cases hx : refusedOp (s.insts i).imm (Op.ofCode (s.insts i).opcode) with
  | true => rfl
  | false =>
    simp only [Bool.false_eq_true, if_false]
    by_cases hl : Op.ofCode (s.insts i).opcode = some .lddw
    · simp [hl]
    · simp [hl]

theorem samePass_buildRound (s : JitState) (i : Nat) : SamePass s (buildRound s i).1 := by
  unfold buildRound
  simp only
  split
  · exact (samePass_emit _).trans (samePass_recordOffset _)
  · exact (samePass_emit _).trans (samePass_recordOffset _)

theorem samePass_buildFrom (fuel i : Nat) (s : JitState) : SamePass s (buildFrom fuel i s) := by
  induction fuel generalizing i s with
  | zero => exact .refl s
  | succ fuel ih =>
    by_cases hi : i < s.instNum
    · cases h : (buildRound s i).2 with
      | none =>
        rw [(buildFrom_stop hi h).1]
        exact samePass_buildRound s i
      | some i' =>
        rw [(buildFrom_cons hi h).1]
        exact (samePass_buildRound s i).trans (ih i' _)
    · rw [buildFrom, if_neg hi]
      exact .refl s

/-! ## The instructions of a pass -/

section
variable {code : Nat → BitVec 8} {s : JitState} {fuel i j : Nat}

theorem insts_of_mem_visits {t : JitState} (h : (j, t) ∈ visits fuel i s) : t.insts = s.insts := by
  induction fuel generalizing i s with
  | zero => simp [visits] at h
  | succ fuel ih =>
    by_cases hi : i < s.instNum
    · cases hn : (buildRound s i).2 with
      | none =>
        rw [(buildFrom_stop hi hn).2, List.mem_singleton] at h
        cases h
        rfl
      | some i' =>
        rw [(buildFrom_cons hi hn).2, List.mem_cons] at h
        rcases h with h | h
        · cases h
          rfl
        · exact (ih h).trans (samePass_buildRound s i).insts
    · simp [visits, hi] at h

/-- Without a refused instruction the loop comes to every one that is not a second slot. -/
theorem exists_visit (hs : s.insts = instAt code) (hfuel : s.instNum ≤ i + fuel)
    (hv : visited code i = true)
    (hr : ∀ k < s.instNum, visited code k = true → refused (instAt code k) = false)
    (hij : i ≤ j) (hj : j < s.instNum) (hvj : visited code j = true) :
    ∃ t, (j, t) ∈ visits fuel i s := by
  induction fuel generalizing i s with
  | zero => omega
  | succ fuel ih =>
    have hi : i < s.instNum := by omega
    have hn : (buildRound s i).2 = some (nextSlot code i) := by
      rw [buildRound_next, hs, hr i hi hv, nextInst_eq]
      rfl
    rw [(buildFrom_cons hi hn).2]
    rcases Nat.eq_or_lt_of_le hij with rfl | hlt
    · exact ⟨s, List.mem_cons_self⟩
    · have hsame := samePass_buildRound s i
      have hgt : i < nextSlot code i := by
        rw [← nextInst_eq]
        exact lt_nextInst _ i
      obtain ⟨t, ht⟩ := @ih (buildRound s i).1 (nextSlot code i) (hsame.insts.trans hs)
        (by rw [hsame.instNum]; omega) (visited_nextSlot hv) (by rwa [hsame.instNum])
        (nextSlot_le hv hvj hlt) (by rwa [hsame.instNum])
      exact ⟨t, List.mem_cons_of_mem _ ht⟩

/-- A pass over `code`: it passes every instruction iff it refuses none. -/
theorem passedIn_iff (hs : s.insts = instAt code) :
    (∀ i < s.instNum, visited code i = true → PassedIn s i) ↔
      ∀ i < s.instNum, visited code i = true → refused (instAt code i) = false := by
  constructor
  · intro h i hi hv
    obtain ⟨t, ht, hret⟩ := h i hi hv
    rwa [buildInst_nonneg_iff, insts_of_mem_visits ht, hs] at hret
  · intro h i hi hv
    obtain ⟨t, ht⟩ := exists_visit hs (Nat.le_add_left _ _) rfl h (Nat.zero_le i) hi hv
    refine ⟨t, ht, ?_⟩
    rw [buildInst_nonneg_iff, insts_of_mem_visits ht, hs]
    exact h i hi hv

end

theorem complete_iff (E : JitEnv) (code : Nat → BitVec 8) (instNum : Nat) :
    Complete E code instNum ↔
      ∀ i < instNum, visited code i = true → refused (instAt code i) = false := by
  have hpre := @passedIn_iff code (preStart (E.start code instNum)) rfl
  have hsame := samePass_buildFrom instNum 0 (preStart (E.start code instNum))
  have hgen := @passedIn_iff code (genStart (prePass (E.start code instNum))) hsame.insts
  have hnum : (genStart (prePass (E.start code instNum))).instNum = instNum := hsame.instNum
  rw [hnum] at hgen
  unfold Complete
  constructor
  · intro h
    exact hgen.1 fun i hi hv => (h i hi hv).2
  · intro h i hi hv
    exact ⟨hpre.2 h i hi hv, hgen.2 h i hi hv⟩

/-! ## The code that is called -/

section
variable (port : Port) (reg : Registry) (E : JitEnv) (V : DefaultVms)

/-- A policy for the JIT: its translation is called, whatever `build_inst` returned. -/
theorem policyRun_jit {pid : Int} {slot : PolicyCache}
    (hslot : reg.getPolicySlot port pid = some slot) (hsize : slot.size ≠ 0)
    (hjit : slot.jit = true) :
    policyRun port reg E V pid =
      .called (some (jitCompile (E.start slot.code (instNumOf slot.size))).jitCode) := by
  have huse : (getDefaultVm V true).useJit = true := by
    rw [getDefaultVm, if_pos rfl]
    cases h : V.gJitVm with
    | none => rfl
    | some vm => exact V.translates vm h
  rw [policyRun, hslot, Option.bind_some, loadEbpfCode, if_neg hsize, hjit]
  exact if_pos huse

theorem policyRun_interpreted {pid : Int} {slot : PolicyCache}
    (hslot : reg.getPolicySlot port pid = some slot) (hjit : slot.jit = false) :
    ∀ entry, policyRun port reg E V pid ≠ .called entry := by
  have huse : (getDefaultVm V false).useJit = false := by
    rw [getDefaultVm, if_neg (by decide)]
    cases h : V.gVm with
    | none => rfl
    | some vm => exact V.interprets vm h
  intro entry
  rw [policyRun, hslot, Option.bind_some, loadEbpfCode]
  by_cases hsize : slot.size = 0
  · rw [if_pos hsize]
    intro h
    cases h
  · rw [if_neg hsize, hjit]
    simp [ebpfVmSetInst, huse]

/-- An empty slot is skipped. -/
theorem size_ne_zero_of_called {pid : Int} {slot : PolicyCache} {entry : Option Code}
    (hslot : reg.getPolicySlot port pid = some slot)
    (h : policyRun port reg E V pid = .called entry) : slot.size ≠ 0 := fun hz => by
  simp [policyRun, hslot, loadEbpfCode, hz] at h

/-- `policyRun` calls the translation where `Fsm.runFsmEbpfPolicy` does. -/
theorem runFsmEbpfPolicy_called {size : Nat} (F : Env size) {pid : Int} {entry : Option Code}
    (h : policyRun port reg E V pid = .called entry) (M : Mem) :
    ∃ slot, reg.getPolicySlot port pid = some slot ∧
      entry = some (jitCompile (E.start slot.code (instNumOf slot.size))).jitCode ∧
      runFsmEbpfPolicy port reg F pid M = F.jitFunc slot M := by
  cases hslot : reg.getPolicySlot port pid with
  | none => simp [policyRun, hslot] at h
  | some slot =>
    have hsize := size_ne_zero_of_called port reg E V hslot h
    cases hjit : slot.jit with
    | false => exact absurd h (policyRun_interpreted port reg E V hslot hjit entry)
    | true =>
      rw [policyRun_jit port reg E V hslot hsize hjit] at h
      cases h
      refine ⟨slot, rfl, rfl, ?_⟩
      rw [runFsmEbpfPolicy, hslot]
      simp only [if_neg hsize, hjit, if_true]

/-- The code called for policy `pid`, if any, is the whole translation of its program. -/
def CallsComplete (pid : Int) : Prop :=
  ∀ entry slot, policyRun port reg E V pid = .called entry →
    reg.getPolicySlot port pid = some slot → Complete E slot.code (instNumOf slot.size)

/-- **The code that is called is complete** iff the policy is not translated at all, or none of its
instructions outside the second slots of the `LDDW`s is refused. -/
theorem called_complete_iff (pid : Int) :
    CallsComplete port reg E V pid ↔
      ∀ slot, reg.getPolicySlot port pid = some slot → slot.size ≠ 0 → slot.jit = true →
        ∀ i < instNumOf slot.size, visited slot.code i = true →
          refused (instAt slot.code i) = false := by
  constructor
  · intro h slot hslot hsize hjit
    exact (complete_iff E _ _).1 (h _ slot (policyRun_jit port reg E V hslot hsize hjit) hslot)
  · intro h entry slot hcall hslot
    have hsize := size_ne_zero_of_called port reg E V hslot hcall
    have hjit : slot.jit = true := by
      by_contra hn
      exact policyRun_interpreted port reg E V hslot (Bool.eq_false_iff.2 hn) entry hcall
    exact (complete_iff E _ _).2 (h slot hslot hsize hjit)

end

/-- A registry whose policy 0, `LE r0; EXIT`, is marked for the JIT. -/
def swapRegistry : Registry where
  policyMgrInit := true
  policyManager _ := []
  policyArr _ := ⟨16, codeBytes [0xd4, 0, 0, 0, 16, 0, 0, 0, 0x95] fun _ => 0, true⟩
  runtimePolicyArr _ := .empty

theorem called_truncated :
    ¬ CallsComplete Zephyr.port swapRegistry ⟨fun _ => 0, bpfR0, fun _ => 0⟩ .boot 0 := by
  intro h
  have hc := h _ _ (policyRun_jit Zephyr.port swapRegistry _ _ rfl (by decide) rfl) rfl
  exact absurd ((complete_iff _ _ _).1 hc 0 (by decide) rfl) (by decide)

end BlueSwat.Jit
