import BlueSwat.Fsm.Proof.Device
import BlueSwat.Fsm.Proof.PatchPorts
import BlueSwat.Zephyr.Proof.Refinement

/-!
# Uploads do not weaken the Zephyr firewall

The device of the Zephyr port: its link-layer hooks and its patch service. Policies may be uploaded
between any two packets, and an uploaded policy may return what it likes and write to the struct it
is given. The hooks stage a value right before they check it, and the compiled-in policy of the slot
is the first to see it: whatever the device passes, the firewall with the compiled-in policies alone
passes in the same state (`passed_by_shipped`).
-/

set_option autoImplicit false

namespace BlueSwat.Zephyr

open Ebpf Fsm Reactive

def hooks : Hooks Hook (Env layout.size × LlCall) where
  step := llStep
  reg := Hook.reg
  setReg := fun reg h => { h with reg }

/-! ## Checks with a registry that has grown -/

/-- The registry has grown from that of the boot, and the staged state is not to be refreshed. -/
structure Shielded (flash : Policy → Nat → BitVec 8) (h : Hook) : Prop where
  grown : (ifwFsmEnable flash false .boot).Grows h.reg
  fsmNewInit : h.core.fsmNewInit = false

/-- A part of a hook from `h` to `h'`: it leaves the registry alone, and passes only if `P`. -/
structure Guarded (h h' : Hook) (P : Prop) : Prop where
  reg : h'.reg = h.reg
  fsmNewInit : h'.core.fsmNewInit = false
  pass : h'.result = .pass → P

section
variable {flash : Policy → Nat → BitVec 8} {h h' : Hook} {E : Env layout.size} {slot : Slot}

theorem shippedVerdict_of_pass {reg : Registry} (hg : (ifwFsmEnable flash false .boot).Grows reg)
    {s s' : FsmState}
    (hr : runFsmCheckPolicy layout port reg E slot.type slot.cls s = some (.pass, s')) :
    shippedVerdict slot s = .pass := by
  cases hp : slotPolicy slot with
  | none => simp only [shippedVerdict, hp]
  | some p =>
    simp only [shippedVerdict, hp]
    cases hv : p.zephyrFilter s with
    | pass => rfl
    | reject =>
      have hlist := policyManager_boot flash slot
      rw [hp] at hlist
      have hlt : (p.pid : Int) < port.pidNum := by
        cases p with
        | spiAclLen | spiEvtLen => cases slot <;> rename_i t <;> cases t <;> cases hp
        | _ => decide
      have hrej := runFsmCheckPolicy_grown (by rw [layout_size]; decide) hg
        (by rw [hlist]; exact .cons (answers_boot flash E hp) .nil)
        (by rw [hlist]; simpa using hlt) List.mem_cons_self hv
      rw [hrej] at hr
      cases hr

variable (hs : Shielded flash h)
include hs

theorem checkUpdate_shielded (v : BitVec 16) (slot : Slot) :
    h.checkUpdate v slot =
      { h with core := { h.core with newFSMState := h.core.newFSMState.set slot v } } := by
  simp [Hook.checkUpdate, ifwFsmCheckUpdate, hs.fsmNewInit]

theorem Shielded.checkUpdate (v : BitVec 16) (slot : Slot) :
    Shielded flash (h.checkUpdate v slot) := by
  rw [checkUpdate_shielded hs]
  exact ⟨hs.grown, hs.fsmNewInit⟩

/-- A check ends the hook, or the compiled-in policy of the slot has passed the staged state. -/
theorem unlessRejected_cases {k : Hook → Option Hook}
    (hr : h.unlessRejected E slot k = some h') :
    (h'.reg = h.reg ∧ h'.core.fsmNewInit = false ∧ h'.result = .reject) ∨
      (shippedVerdict slot h.core.newFSMState = .pass ∧
        ∃ core, core.fsmNewInit = false ∧ k { h with core } = some h') := by
  obtain ⟨⟨v, h1⟩, h2, h3⟩ := Option.bind_eq_some_iff.1 hr
  obtain ⟨⟨w, core⟩, hrun, he⟩ := Option.map_eq_some_iff.1 h2
  cases he
  obtain ⟨⟨u, s'⟩, hcheck, he⟩ := Option.map_eq_some_iff.1 hrun
  cases he
  cases u with
  | reject =>
    cases h3
    exact .inl ⟨rfl, rfl, rfl⟩
  | pass => exact .inr ⟨shippedVerdict_of_pass hs.grown hcheck, _, rfl, h3⟩

/-- An update of a slot, its check, and the rest of the hook. -/
theorem Guarded.check {v : BitVec 16} {k : Hook → Option Hook} {b : Bool} {Q : Prop}
    (hv : ∀ s : FsmState, shippedVerdict slot (s.set slot v) = .rejectIf b)
    (hr : (h.checkUpdate v slot).unlessRejected E slot k = some h')
    (hk : ∀ core, core.fsmNewInit = false → k { h with core } = some h' →
      Guarded { h with core } h' Q) : Guarded h h' (b = false ∧ Q) := by
  rcases unlessRejected_cases (hs.checkUpdate v slot) hr with ⟨h1, h2, h3⟩ | ⟨h1, core, h2, h3⟩
  · rw [checkUpdate_shielded hs] at h1
    exact ⟨h1, h2, fun hp => by rw [h3] at hp; cases hp⟩
  · rw [checkUpdate_shielded hs] at h1 h3
    have hb : b = false := by
      cases b with
      | false => rfl
      | true => cases (hv h.core.newFSMState).symm.trans h1
    have hrest := hk core h2 h3
    exact ⟨hrest.reg, hrest.fsmNewInit, fun hp => ⟨hb, hrest.pass hp⟩⟩

/-- The last check of a hook. -/
theorem Guarded.verify {v : BitVec 16} {b : Bool}
    (hv : ∀ s : FsmState, shippedVerdict slot (s.set slot v) = .rejectIf b)
    (hr : (h.checkUpdate v slot).unlessRejected E slot some = some h') :
    Guarded h h' (b = false ∧ h.result = .pass) :=
  .check hs hv hr fun core hn he => by
    cases he
    exact ⟨rfl, hn, id⟩

end

/-! ## The hooks -/

section
variable {flash : Policy → Nat → BitVec 8} {h h' : Hook} {E : Env layout.size}

theorem Guarded.imp {P Q : Prop} (hg : Guarded h h' P) (hpq : P → Q) : Guarded h h' Q :=
  ⟨hg.reg, hg.fsmNewInit, fun hp => hpq (hg.pass hp)⟩

variable (hs : Shielded flash h)
include hs

theorem ifwCtrlRx_guarded {pdu : PduData} (hr : ifwCtrlRx E pdu h = some h') (t : Statics)
    (hlen : t.len = h.llcpLenReqPending) (hcpr : t.cpr = h.llcpCprPending) :
    Guarded h h' ((t.ctrl pdu).2 = .pass) := by
  unfold ifwCtrlRx at hr
  unfold Statics.ctrl
  cases ht : LlctrlType.ofOpcode pdu.opcode with
  | connUpdateInd =>
    rw [ht] at hr
    exact (Guarded.verify hs (fun s => shippedVerdict_lllInterval s _) hr).imp fun hp =>
      congrArg Verdict.rejectIf hp.1
  | chanMapInd =>
    rw [ht] at hr
    exact (Guarded.verify hs (fun s => shippedVerdict_newCount s _) hr).imp fun hp =>
      congrArg Verdict.rejectIf hp.1
  | lengthReq =>
    rw [ht] at hr
    have hs1 : Shielded flash { h with llcpLenReqPending := h.llcpLenReqPending + 1 } :=
      ⟨hs.grown, hs.fsmNewInit⟩
    have hv : ∀ s : FsmState, shippedVerdict (.dc .llcpLenReq) (s.set (.dc .llcpLenReq)
        ((h.llcpLenReqPending + 1).setWidth 16)) = .rejectIf
          (Statics.tooMany (h.llcpLenReqPending + 1)) :=
      fun s => rejectAbove_pending s _ _
    have hg := Guarded.verify hs1 hv hr
    rw [hlen]
    exact ⟨hg.reg, hg.fsmNewInit, fun hp => congrArg Verdict.rejectIf (hg.pass hp).1⟩
  | connParamReq =>
    rw [ht] at hr
    have hs1 : Shielded flash { h with llcpCprPending := h.llcpCprPending + 1 } :=
      ⟨hs.grown, hs.fsmNewInit⟩
    have hv : ∀ s : FsmState, shippedVerdict (.dc .llcpConnParamReq) (s.set (.dc .llcpConnParamReq)
        ((h.llcpCprPending + 1).setWidth 16)) = .rejectIf
          (Statics.tooMany (h.llcpCprPending + 1)) :=
      fun s => rejectAbove_pending s _ _
    have hg := Guarded.verify hs1 hv hr
    rw [hcpr]
    exact ⟨hg.reg, hg.fsmNewInit, fun hp => congrArg Verdict.rejectIf (hg.pass hp).1⟩
  | lengthRsp | connParamRsp =>
    rw [ht] at hr
    cases hr
    refine ⟨?_, ?_, fun _ => rfl⟩ <;> split <;> first | rfl | exact hs.fsmNewInit
  | other =>
    rw [ht] at hr
    cases hr
    exact ⟨rfl, hs.fsmNewInit, fun _ => rfl⟩

theorem ifwConnRx_guarded {pdu : PduData} (hr : ifwConnRx E pdu h = some h') :
    Guarded h h' ((h.statics.dcPdu pdu).2 = .pass) := by
  have hs1 := hs.checkUpdate (pdu.nesn.setWidth 16) (.dc .nesn)
  have hs2 := hs1.checkUpdate (pdu.sn.setWidth 16) (.dc .sn)
  unfold ifwConnRx at hr
  rcases unlessRejected_cases hs2 hr with ⟨h1, h2, h3⟩ | ⟨h1, core, h2, h3⟩
  · rw [checkUpdate_shielded hs1, checkUpdate_shielded hs] at h1
    exact ⟨h1, h2, fun hp => by rw [h3] at hp; cases hp⟩
  · rw [checkUpdate_shielded hs1, checkUpdate_shielded hs] at h1 h3
    rw [show shippedVerdict (.dc .nesn) _ = _ from shippedVerdict_nesn _ _ _] at h1
    have hno : ¬ (h.statics.anchor = true ∧ pdu.nesn = 1 ∧ pdu.sn = 1) := by
      rintro ⟨ha, hn, hsn⟩
      rw [Verdict.rejectIf_pos ⟨of_decide_eq_true ha, hn, hsn⟩] at h1
      cases h1
    have hs3 : Shielded flash { h with core } := ⟨hs.grown, h2⟩
    rw [Statics.dcPdu, if_neg hno]
    by_cases hid : pdu.llId = 3
    · rw [if_pos hid]
      simp only [if_pos hid] at h3
      have hs4 := hs3.checkUpdate 0 (.dc .dcAnchorState)
      rw [checkUpdate_shielded hs3] at h3 hs4
      have hg := ifwCtrlRx_guarded hs4 h3 { h.statics with anchor := false } rfl rfl
      exact ⟨hg.reg, hg.fsmNewInit, hg.pass⟩
    · rw [if_neg hid]
      simp only [if_neg hid] at h3
      cases h3
      refine ⟨?_, (hs3.checkUpdate 0 (.dc .dcAnchorState)).fsmNewInit, fun _ => rfl⟩
      rw [checkUpdate_shielded hs3]

theorem Shielded.newConnection (lll : LllConn) (ind : ConnectInd) :
    Shielded flash (newConnection lll ind h) := by
  have hs1 : Shielded flash { h with
      lll := { lll with dataChanMap := ind.chanMap }
      llcpLenReqPending := 0
      llcpCprPending := 0 } := ⟨hs.grown, hs.fsmNewInit⟩
  have hs2 := hs1.checkUpdate 1 (.dc .dcAnchorState)
  exact ⟨hs2.grown, hs2.fsmNewInit⟩

theorem ifwPeripheralSetup_guarded {lll : LllConn} {ind : ConnectInd}
    (hr : ifwPeripheralSetup E lll ind h = some h') :
    Guarded h h' (¬ (Monitor.oneBits ind.chanMap < 2 ∨ ind.hop.toNat < 5 ∨ 16 < ind.hop.toNat ∨
      ind.interval = 0)) := by
  have hhop : ∀ s : FsmState, shippedVerdict (.conn .channelHop) (s.set (.conn .channelHop)
      ((ind.hop.setWidth 8).setWidth 16)) =
      .rejectIf (ind.hop.toNat < 5 ∨ 16 < ind.hop.toNat) := by
    intro s
    have := ind.hop.isLt
    rw [shippedVerdict_channelHop, BitVec.toNat_setWidth, BitVec.toNat_setWidth]
    exact Verdict.rejectIf_congr (by omega)
  have hs0 := hs.newConnection lll ind
  have hreg : (Zephyr.newConnection lll ind h).reg = h.reg := rfl
  have hcount : (Zephyr.newConnection lll ind h).lll.dataChanCount =
      (ifwCountOne ind.chanMap).setWidth 6 := rfl
  unfold ifwPeripheralSetup at hr
  generalize Zephyr.newConnection lll ind h = h0 at hs0 hreg hcount hr
  simp only [hcount] at hr
  -- the two later checks are made with other fields of the connection filled in
  have hg : Guarded h0 h' (decide (Monitor.oneBits ind.chanMap < 2) = false ∧
      decide (ind.hop.toNat < 5 ∨ 16 < ind.hop.toNat) = false ∧ ¬ ind.interval = 0) := by
    refine .check hs0 (fun s => shippedVerdict_dataChanCount s ind.chanMap) hr fun core hn hr1 => ?_
    have hs1 : Shielded flash { h0 with
        core := core
        lll := { h0.lll with dataChanHop := ind.hop.setWidth 8 } } := ⟨hs0.grown, hn⟩
    have hg1 := Guarded.check (Q := ¬ ind.interval = 0) hs1 hhop hr1 fun core' hn' hr2 => by
      have hs2 : Shielded flash { h0 with
          core := core'
          lll := { h0.lll with
            dataChanHop := ind.hop.setWidth 8, interval := ind.interval } } := ⟨hs0.grown, hn'⟩
      have hg2 := Guarded.verify hs2 (fun s => shippedVerdict_lllInterval s ind.interval) hr2
      exact ⟨hg2.reg, hg2.fsmNewInit, fun hp => of_decide_eq_false (hg2.pass hp).1⟩
    exact ⟨hg1.reg, hg1.fsmNewInit, hg1.pass⟩
  refine ⟨hg.reg.trans hreg, hg.fsmNewInit, fun hp => ?_⟩
  obtain ⟨h1, h2, h3⟩ := hg.pass hp
  simp only [decide_eq_false_iff_not, not_or] at h1 h2 ⊢
  exact ⟨h1, h2.1, h2.2, h3⟩

theorem bleRole_guarded {v : BitVec 16}
    (hr : (h.checkUpdate v (.core .bleRole)).unlessRejected E (.core .bleRole) some = some h') :
    Guarded h h' (h.result = .pass) := by
  have hv : ∀ s : FsmState,
      shippedVerdict (.core .bleRole) (s.set (.core .bleRole) v) = .rejectIf false := fun _ => rfl
  exact (Guarded.verify hs hv hr).imp And.right

theorem ifwConnSetup_guarded {lll : LllConn} {ind : ConnectInd}
    (hr : ifwConnSetup E lll ind h = some h') :
    Guarded h h' ((h.statics.connection lll ind).2 = .pass) := by
  unfold ifwConnSetup at hr
  unfold Statics.connection
  rcases role_cases lll.role with hrole | hrole
  · rw [if_pos hrole] at hr
    rw [if_neg (by rw [hrole]; decide)]
    have hg := bleRole_guarded (h := { h with lll := lll }) ⟨hs.grown, hs.fsmNewInit⟩ hr
    exact ⟨hg.reg, hg.fsmNewInit, fun _ => rfl⟩
  · rw [if_neg (by rw [hrole]; decide)] at hr
    rw [if_pos hrole]
    obtain ⟨h1, hset, hr1⟩ := Option.bind_eq_some_iff.1 hr
    have hg := ifwPeripheralSetup_guarded hs hset
    have hg1 := bleRole_guarded ⟨hg.reg ▸ hs.grown, hg.fsmNewInit⟩ hr1
    exact ⟨hg1.reg.trans hg.reg, hg1.fsmNewInit, fun hp =>
      Verdict.rejectIf_neg (hg.pass (hg1.pass hp))⟩

/-- **One call of a hook** leaves the registry alone, and passes only what the compiled-in policies
pass. -/
theorem llStep_guarded {call : LlCall} {v : Verdict} (hr : llStep h (E, call) = some (h', v)) :
    h'.reg = h.reg ∧ h'.core.fsmNewInit = false ∧
      (v = .pass → (h.statics.step call).2 = .pass) := by
  cases call with
  | rx node =>
    have hs0 : Shielded flash { h with result := .pass } := ⟨hs.grown, hs.fsmNewInit⟩
    cases node with
    | eventDone | other =>
      cases hr
      exact ⟨rfl, hs.fsmNewInit, fun _ => rfl⟩
    | connection lll ind =>
      obtain ⟨h1, h2, h3⟩ := Option.map_eq_some_iff.1 hr
      cases h3
      have hg := ifwConnSetup_guarded hs0 h2
      exact ⟨hg.reg, hg.fsmNewInit, hg.pass⟩
    | dcPdu pdu =>
      obtain ⟨h1, h2, h3⟩ := Option.map_eq_some_iff.1 hr
      cases h3
      have hg := ifwConnRx_guarded hs0 h2
      exact ⟨hg.reg, hg.fsmNewInit, hg.pass⟩
  | tx pdu =>
    cases pdu with
    | none =>
      cases hr
      exact ⟨rfl, hs.fsmNewInit, fun _ => rfl⟩
    | some pdu =>
      simp only [llStep, ifwLlPacketParserTx] at hr
      split at hr
      · rename_i ht
        obtain ⟨⟨w, h1⟩, h2, h3⟩ := Option.map_eq_some_iff.1 hr
        cases h3
        obtain ⟨⟨u, core⟩, hrun, he⟩ := Option.map_eq_some_iff.1 h2
        cases he
        obtain ⟨⟨x, s'⟩, hcheck, he⟩ := Option.map_eq_some_iff.1 hrun
        cases he
        refine ⟨rfl, rfl, fun hp => ?_⟩
        cases hp
        have hv := shippedVerdict_of_pass hs.grown hcheck
        rw [checkUpdate_shielded hs] at hv
        have hlen := pdu.len.isLt
        refine Verdict.rejectIf_neg fun hbad => ?_
        have hrej : rejectAbove (.conn .scanRspLen) 80 (h.core.newFSMState.set (.conn .scanRspLen)
            (pdu.len.setWidth 16)) = .reject := by
          rw [show ((80 : Int)) = ((80 : Nat) : Int) from rfl, rejectAbove_set,
            Verdict.rejectIf_pos]
          rw [BitVec.toNat_setWidth]
          omega
        cases hrej.symm.trans hv
      · rename_i ht
        cases hr
        exact ⟨rfl, hs.fsmNewInit, fun _ => Verdict.rejectIf_neg fun hbad => ht hbad.1⟩

end

/-! ## The device -/

theorem hooks_keep (flash : Policy → Nat → BitVec 8) :
    hooks.Keeps (ifwFsmEnable flash false .boot) fun h => h.core.fsmNewInit = false where
  step := by
    rintro h h' ⟨E, call⟩ v hg hn hr
    obtain ⟨hreg, hn', -⟩ := llStep_guarded ⟨hg, hn⟩ hr
    exact ⟨hreg, hn'⟩
  setReg := fun _ hn => ⟨rfl, hn⟩

theorem ifwInstall_grows (a : Allocs) : InstallGrows (ifwInstall a) := fun _ _ hi =>
  ifwInstallPolicy_grows (fun cls type pid _ hi => Registry.registerPolicy_grows hi cls type pid) hi

/-- The device after boot. -/
def deviceBoot (flash : Policy → Nat → BitVec 8) (behind : Nat → BitVec 8) : Device Hook :=
  .boot hooks (.boot flash) behind

/-- A state of the device, after packets and uploads in any order. -/
def DeviceReached (flash : Policy → Nat → BitVec 8) (behind : Nat → BitVec 8) (d : Device Hook) :
    Prop :=
  Reached (Device.step hooks patchService) (deviceBoot flash behind) d

/-- A Header write. -/
def headerWrite : PatchWrite GattWrite := ⟨.header, ⟨fun _ => 3, 2, 0⟩, ⟨none, true⟩⟩

end BlueSwat.Zephyr
