import BlueSwat.Zephyr.Proof.Policies
import BlueSwat.Zephyr.LinkLayer

/-!
# The verifier with the shipped policies

After boot every slot has at most one policy (`slotPolicy`), and `ifw_run_verifier` answers what
that policy's source says of the staged state and changes nothing (`runVerifier_booted`). The
hooks never leave such a state (`Booted`).
-/

set_option autoImplicit false

namespace BlueSwat.Zephyr

open Ebpf Fsm

/-- The policy `load_all_policies` registers for a slot. -/
def slotPolicy : Slot → Option Policy
  | .conn .channelMap => some .connChanMap
  | .conn .channelHop => some .connChanHop
  | .conn .lllInterval => some .lllInterval
  | .conn .scanRspLen => some .scanRspLen
  | .dc .nesn => some .dcNesn
  | .dc .llcpLenReq => some .llcpLenReq
  | .dc .llcpConnParamReq => some .llcpConnParamReq
  | .dc .smpKeys => some .smpIdentCheck
  | _ => none

/-- What the sources of the shipped policies say of a slot. -/
def shippedVerdict (slot : Slot) (s : FsmState) : Verdict :=
  match slotPolicy slot with
  | some p => p.zephyrFilter s
  | none => .pass

section
variable (flash : Policy → Nat → BitVec 8)

theorem policyManager_boot (slot : Slot) :
    (ifwFsmEnable flash false .boot).policyManager (port.entry slot.cls slot.type) =
      (slotPolicy slot).toList.map fun p => (p.pid : Int) := by
  cases slot <;> rename_i t <;> cases t <;> rfl

theorem answers_boot (E : Env layout.size) {slot : Slot} {p : Policy}
    (h : slotPolicy slot = some p) :
    Answers layout port (ifwFsmEnable flash false .boot) E p.pid p.zephyrFilter := by
  have hslot : (ifwFsmEnable flash false .boot).getPolicySlot port p.pid =
      some ⟨p.bytecode.length + 1, codeBytes p.bytecode (flash p), false⟩ := by
    cases p with
    | spiAclLen | spiEvtLen => cases slot <;> rename_i t <;> cases t <;> cases h
    | _ => rfl
  exact ⟨_, hslot, by show (p.bytecode.length + 1 : Int) ≠ 0; omega,
    fun hj => absurd hj Bool.false_ne_true, policy_implements p (flash p)⟩

/-- **The dispatcher after boot** answers what the sources say, and changes nothing. -/
theorem runFsmCheckPolicy_boot (E : Env layout.size) (slot : Slot) (s : FsmState) :
    runFsmCheckPolicy layout port (ifwFsmEnable flash false .boot) E slot.type slot.cls s =
      some (shippedVerdict slot s, s) := by
  have hsz : layout.size ≤ 2 ^ 32 := by rw [layout_size]; decide
  rw [runFsmCheckPolicy_answers hsz
    (show List.Forall₂ _ _ ((slotPolicy slot).toList.map Policy.zephyrFilter) from ?_)]
  · rw [shippedVerdict]
    cases slotPolicy slot with
    | none => rfl
    | some p => cases hv : p.zephyrFilter s <;> simp [hv, Verdict.rejectIf]
  · rw [policyManager_boot]
    cases hp : slotPolicy slot with
    | none => exact .nil
    | some p => exact .cons (answers_boot flash E hp) .nil

end

/-- The hooks have the shipped policies, and the staged state is not to be refreshed. -/
structure Booted (flash : Policy → Nat → BitVec 8) (h : Hook) : Prop where
  reg : h.reg = ifwFsmEnable flash false .boot
  fsmNewInit : h.core.fsmNewInit = false

theorem booted_boot (flash : Policy → Nat → BitVec 8) : Booted flash (.boot flash) := ⟨rfl, rfl⟩

section
variable {flash : Policy → Nat → BitVec 8} {h : Hook} (hb : Booted flash h)
include hb

/-- **The verifier after boot.** -/
theorem runVerifier_booted (E : Env layout.size) (slot : Slot) :
    h.runVerifier E slot = some (shippedVerdict slot h.core.newFSMState, h) := by
  have hcore : { h.core with fsmNewInit := false } = h.core := by rw [← hb.fsmNewInit]
  have hrun := runFsmCheckPolicy_boot flash E slot h.core.newFSMState
  rw [← hb.reg] at hrun
  rw [Hook.runVerifier, ifwRunVerifier, hrun, Option.map_some, Option.map_some, hcore]

theorem unlessRejected_booted (E : Env layout.size) (slot : Slot) (k : Hook → Option Hook) :
    h.unlessRejected E slot k =
      match shippedVerdict slot h.core.newFSMState with
      | .reject => some { h with result := .reject }
      | .pass => k h := by
  rw [Hook.unlessRejected, runVerifier_booted hb]
  rfl

theorem checkUpdate_booted (state : BitVec 16) (slot : Slot) :
    h.checkUpdate state slot =
      { h with core := { h.core with newFSMState := h.core.newFSMState.set slot state } } := by
  simp [Hook.checkUpdate, ifwFsmCheckUpdate, hb.fsmNewInit]

theorem Booted.checkUpdate (state : BitVec 16) (slot : Slot) :
    Booted flash (h.checkUpdate state slot) := by
  rw [checkUpdate_booted hb]
  exact ⟨hb.reg, hb.fsmNewInit⟩

theorem Booted.withLll (lll : LllConn) : Booted flash { h with lll := lll } :=
  ⟨hb.reg, hb.fsmNewInit⟩

/-- A check either ends the hook or lets it go on. -/
theorem unlessRejected_eq_some {E : Env layout.size} {slot : Slot} {k : Hook → Option Hook}
    {h' : Hook} (hr : h.unlessRejected E slot k = some h') :
    (shippedVerdict slot h.core.newFSMState = .reject ∧ h' = { h with result := .reject }) ∨
      (shippedVerdict slot h.core.newFSMState = .pass ∧ k h = some h') := by
  rw [unlessRejected_booted hb] at hr
  cases hv : shippedVerdict slot h.core.newFSMState with
  | reject => rw [hv] at hr; exact .inl ⟨rfl, (Option.some.inj hr).symm⟩
  | pass => rw [hv] at hr; exact .inr ⟨rfl, hr⟩

/-- An update of a slot, its check, and the rest of the hook. -/
theorem Booted.check {E : Env layout.size} {state : BitVec 16} {slot : Slot}
    {k : Hook → Option Hook} {h' : Hook}
    (hr : (h.checkUpdate state slot).unlessRejected E slot k = some h')
    (hk : ∀ h1, Booted flash h1 → k h1 = some h' → Booted flash h') : Booted flash h' := by
  have hb1 := hb.checkUpdate state slot
  rcases unlessRejected_eq_some hb1 hr with ⟨-, rfl⟩ | ⟨-, h1⟩
  · exact ⟨hb1.reg, hb1.fsmNewInit⟩
  · exact hk _ hb1 h1

theorem Booted.verify {E : Env layout.size} {state : BitVec 16} {slot : Slot} {h' : Hook}
    (hr : (h.checkUpdate state slot).unlessRejected E slot some = some h') : Booted flash h' :=
  hb.check hr fun _ hb1 h1 => Option.some.inj h1 ▸ hb1

/-! ## The hooks keep the shipped policies -/

theorem Booted.ifwCtrlRx {E : Env layout.size} {pdu : PduData} {h' : Hook}
    (hr : ifwCtrlRx E pdu h = some h') : Booted flash h' := by
  unfold Zephyr.ifwCtrlRx at hr
  generalize LlctrlType.ofOpcode pdu.opcode = type at hr
  cases type with
  | connUpdateInd => exact hb.verify hr
  | chanMapInd => exact hb.verify hr
  | lengthReq | connParamReq =>
    refine Booted.verify ?_ hr
    exact ⟨hb.reg, hb.fsmNewInit⟩
  | lengthRsp | connParamRsp =>
    cases hr
    split
    · exact ⟨hb.reg, hb.fsmNewInit⟩
    · exact hb
  | other => exact Option.some.inj hr ▸ hb

theorem Booted.ifwConnRx {E : Env layout.size} {pdu : PduData} {h' : Hook}
    (hr : ifwConnRx E pdu h = some h') : Booted flash h' := by
  have hb1 := (hb.checkUpdate (pdu.nesn.setWidth 16) (.dc .nesn)).checkUpdate
    (pdu.sn.setWidth 16) (.dc .sn)
  unfold Zephyr.ifwConnRx at hr
  rcases unlessRejected_eq_some hb1 hr with ⟨-, rfl⟩ | ⟨-, h1⟩
  · exact ⟨hb1.reg, hb1.fsmNewInit⟩
  · have hb2 := hb1.checkUpdate 0 (.dc .dcAnchorState)
    simp only at h1
    split at h1
    · exact hb2.ifwCtrlRx h1
    · exact Option.some.inj h1 ▸ hb2

theorem Booted.newConnection (lll : LllConn) (ind : ConnectInd) :
    Booted flash (newConnection lll ind h) :=
  have hb1 := Booted.checkUpdate (h := { h with
    lll := { lll with dataChanMap := ind.chanMap }, llcpLenReqPending := 0, llcpCprPending := 0 })
    ⟨hb.reg, hb.fsmNewInit⟩ 1 (.dc .dcAnchorState)
  ⟨hb1.reg, hb1.fsmNewInit⟩

theorem Booted.ifwPeripheralSetup {E : Env layout.size} {lll : LllConn} {ind : ConnectInd}
    {h' : Hook} (hr : ifwPeripheralSetup E lll ind h = some h') : Booted flash h' := by
  unfold Zephyr.ifwPeripheralSetup at hr
  refine (hb.newConnection lll ind).check hr fun h1 hb1 hr1 => ?_
  refine (hb1.withLll _).check hr1 fun h2 hb2 hr2 => ?_
  exact (hb2.withLll _).verify hr2

theorem Booted.ifwConnSetup {E : Env layout.size} {lll : LllConn} {ind : ConnectInd}
    {h' : Hook} (hr : ifwConnSetup E lll ind h = some h') : Booted flash h' := by
  unfold Zephyr.ifwConnSetup at hr
  split at hr
  · exact (hb.withLll lll).verify hr
  · obtain ⟨h1, h2, h3⟩ := Option.bind_eq_some_iff.1 hr
    exact (hb.ifwPeripheralSetup h2).verify h3

theorem Booted.llStep {call : Env layout.size × LlCall} {h' : Hook} {v : Verdict}
    (hr : llStep h call = some (h', v)) : Booted flash h' := by
  obtain ⟨E, call⟩ := call
  cases call with
  | rx node =>
    have hb0 : Booted flash { h with result := .pass } := ⟨hb.reg, hb.fsmNewInit⟩
    cases node with
    | eventDone | other => cases hr; exact hb0
    | connection lll ind =>
      obtain ⟨h1, h2, h3⟩ := Option.map_eq_some_iff.1 hr
      cases h3
      exact hb0.ifwConnSetup h2
    | dcPdu pdu =>
      obtain ⟨h1, h2, h3⟩ := Option.map_eq_some_iff.1 hr
      cases h3
      exact hb0.ifwConnRx h2
  | tx pdu =>
    cases pdu with
    | none => cases hr; exact hb
    | some pdu =>
      simp only [Zephyr.llStep, ifwLlPacketParserTx] at hr
      split at hr
      · rw [runVerifier_booted (hb.checkUpdate _ _)] at hr
        cases hr
        exact hb.checkUpdate _ _
      · cases hr
        exact hb

end

/-- **Every reached state has the shipped policies.** -/
theorem booted_of_reached {flash : Policy → Nat → BitVec 8} {h : Hook}
    (hr : Reactive.Reached llStep (.boot flash) h) : Booted flash h :=
  hr.inv (booted_boot flash) fun _ _ _ _ hb h1 => hb.llStep h1

end BlueSwat.Zephyr
