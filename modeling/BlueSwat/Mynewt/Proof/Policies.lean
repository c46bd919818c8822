import BlueSwat.Ebpf.Proof.Memory
import BlueSwat.Fsm.Proof.Bytecode
import BlueSwat.Mynewt.Policies

/-!
# What the Mynewt bytecode computes

The arrays were compiled for another `struct FsmState`: `conn_chan_map` reads the word where octet 3
of the peer address is kept, and the two key policies compare `dc_param[NESN]` with `dc_param[SN]`
(`policy_implements`). `policy_agrees_iff` says on which states the verdicts are still those of the
sources.
-/

set_option autoImplicit false

namespace BlueSwat.Mynewt

open Ebpf Fsm Record

/-- What the bytecode of a policy computes. -/
def Policy.compiledFilter : Policy → FsmState → Verdict
  | .connChanMap, fsm => .rejectIf ((fsm (.shared .bdAddr3)).toInt < 2)
  | .keysizeConfusion, fsm | .keyEntropyDowngrade, fsm =>
    .rejectIf (fsm (.dc .nesn) ≠ 0 ∧ fsm (.dc .nesn) ≠ fsm (.dc .sn))

/-- **Each bytecode array computes its `compiledFilter`**, whatever bytes follow it. -/
theorem policy_implements (p : Policy) (rest : Nat → BitVec 8) :
    Implements layout (codeBytes p.bytecode rest) p.compiledFilter := by
  cases p with
  | connChanMap =>
    exact implements_rejectBelow (.shared .bdAddr3) 2 0x20 2 (decodes_of (by decide))
      (by decide) (by decide) fun _ => rfl
  | keysizeConfusion | keyEntropyDowngrade =>
    exact implements_rejectUnequal (.dc .nesn) (.dc .sn) 0x50 0x4c (decodes_of (by decide))
      (by decide) (by decide) fun _ => rfl

/-- The slots that the bytecode reads say what the slots that the source reads say. -/
def Policy.Agrees : Policy → FsmState → Prop
  | .connChanMap, fsm =>
    (fsm (.shared .bdAddr3)).toInt < 2 ↔ (fsm (.conn .channelMap)).toInt < 2
  | .keysizeConfusion, fsm =>
    (fsm (.dc .nesn) ≠ 0 ∧ fsm (.dc .nesn) ≠ fsm (.dc .sn)) ↔
      (fsm (.dc .smpMaxEncSizePrev) ≠ 0 ∧
        (fsm (.dc .smpMaxEncSizePrev)).toInt > (fsm (.dc .smpMaxEncSize)).toInt)
  | .keyEntropyDowngrade, fsm =>
    (fsm (.dc .nesn) ≠ 0 ∧ fsm (.dc .nesn) ≠ fsm (.dc .sn)) ↔
      (fsm (.dc .smpMaxEncSizePrev) ≠ 0 ∧
        fsm (.dc .smpMaxEncSizePrev) ≠ fsm (.dc .smpMaxEncSize))

theorem compiledFilter_eq_iff (p : Policy) (fsm : FsmState) :
    p.compiledFilter fsm = p.zephyrFilter fsm ↔ p.Agrees fsm := by
  cases p with
  | connChanMap => exact Verdict.rejectIf_inj
  | keysizeConfusion =>
    rw [Policy.zephyrFilter, keysizeConfusion, Verdict.rejectIf_not_and]
    exact Verdict.rejectIf_inj
  | keyEntropyDowngrade =>
    rw [Policy.zephyrFilter, keyEntropyDowngrade, Verdict.rejectIf_not_and]
    exact Verdict.rejectIf_inj

section
variable (p : Policy) (rest : Nat → BitVec 8) (P : Placement layout.size) (M : Mem)
  (memLen : BitVec 32) (fsm : FsmState) (fuel : Nat)

theorem exec_compiledFilter :
    ∃ s, ebpfVmExec P.host (defaultVm (codeBytes p.bytecode rest)) (ifwRuntimeMaxInsts + fuel)
      (layout.image M P.mem fsm) P.mem memLen = some (s, .exit (p.compiledFilter fsm).code) := by
  obtain ⟨s, hs, -⟩ := (policy_implements p rest P _ memLen fsm
    (holds_image (by rw [layout_size]; decide))).mono (Nat.le_add_right _ fuel)
  exact ⟨s, hs⟩

/-- **Bytecode and source agree** on exactly these states: `ebpf_vm_exec` on the bytecode ends in an
`EXIT` with the value of the source's `zephyr_filter`. -/
theorem policy_agrees_iff :
    (∃ s, ebpfVmExec P.host (defaultVm (codeBytes p.bytecode rest)) (ifwRuntimeMaxInsts + fuel)
      (layout.image M P.mem fsm) P.mem memLen = some (s, .exit (p.zephyrFilter fsm).code)) ↔
      p.Agrees fsm := by
  obtain ⟨s, hs⟩ := exec_compiledFilter p rest P M memLen fsm fuel
  rw [← compiledFilter_eq_iff, hs]
  constructor
  · rintro ⟨s', h⟩
    exact Verdict.code_inj (Ret.exit.inj (Prod.mk.inj (Option.some.inj h)).2)
  · intro h
    exact ⟨s, by rw [h]⟩

end

/-- Two channels are enabled and the key size is to go from 16 to 7. -/
def staleState : FsmState
  | .conn .channelMap => 2
  | .dc .smpMaxEncSizePrev => 16
  | .dc .smpMaxEncSize => 7
  | _ => 0

/-- On one state all three policies disagree with their sources: the bytecode of `conn_chan_map`
rejects where the source passes, and that of the two key policies passes where the sources
reject. -/
theorem staleState_disagrees :
    (∃ s, ebpfVmExec (ramPlacement layout.size (by decide)).host
        (defaultVm (codeBytes connChanMapBytes fun _ => 0)) ifwRuntimeMaxInsts
        (layout.image (fun _ => 0) (ramPlacement layout.size (by decide)).mem staleState)
        (ramPlacement layout.size (by decide)).mem 64 = some (s, .exit 1)) ∧
      connChanMap staleState = .pass ∧
    (∃ s, ebpfVmExec (ramPlacement layout.size (by decide)).host
        (defaultVm (codeBytes keysizeConfusionBytes fun _ => 0)) ifwRuntimeMaxInsts
        (layout.image (fun _ => 0) (ramPlacement layout.size (by decide)).mem staleState)
        (ramPlacement layout.size (by decide)).mem 64 = some (s, .exit 0)) ∧
      keysizeConfusion staleState = .reject ∧
    (∃ s, ebpfVmExec (ramPlacement layout.size (by decide)).host
        (defaultVm (codeBytes keyEntropyDowngradeBytes fun _ => 0)) ifwRuntimeMaxInsts
        (layout.image (fun _ => 0) (ramPlacement layout.size (by decide)).mem staleState)
        (ramPlacement layout.size (by decide)).mem 64 = some (s, .exit 0)) ∧
      keyEntropyDowngrade staleState = .reject := by
  have h := fun p => exec_compiledFilter p (fun _ => 0) (ramPlacement layout.size (by decide))
    (fun _ => 0) 64 staleState 0
  exact ⟨h .connChanMap, by decide, h .keysizeConfusion, by decide, h .keyEntropyDowngrade,
    by decide⟩

end BlueSwat.Mynewt
