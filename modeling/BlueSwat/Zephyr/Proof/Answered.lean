import BlueSwat.Fsm.Proof.Static
import BlueSwat.Zephyr.Proof.Device
import BlueSwat.Zephyr.Proof.Install

/-!
# Sealed uploads do not stall the Zephyr firewall

The hooks run in interrupts of the link layer, and a policy that faults or does not end takes the
link layer with it. `ifw_install_policy` runs the verifier on every upload, so that in every state
of the device the runtime slots hold verified programs. Where they are sealed too, a hook gives an
answer to every packet (`sealed_answered`).
-/

set_option autoImplicit false

namespace BlueSwat.Zephyr

open Ebpf Fsm Reactive

/-! ## Hooks on a registry that decides -/

/-- Every check on the registry has a verdict. -/
def Decides (E : Env layout.size) (reg : Registry) : Prop :=
  ∀ (slot : Slot) (s : FsmState), ∃ r, runFsmCheckPolicy layout port reg E slot.type slot.cls s =
    some r

/-- A part of a hook that ends, with the registry `reg`. -/
def Ends (reg : Registry) (r : Option Hook) : Prop := ∃ h', r = some h' ∧ h'.reg = reg

section
variable {E : Env layout.size} {h : Hook}

theorem runVerifier_decides (hd : Decides E h.reg) (slot : Slot) :
    ∃ v core, h.runVerifier E slot = some (v, { h with core }) := by
  obtain ⟨r, hr⟩ := hd slot h.core.newFSMState
  refine ⟨r.1, { h.core with newFSMState := r.2, fsmNewInit := false }, ?_⟩
  rw [Hook.runVerifier, ifwRunVerifier, hr]
  rfl

/-- A check, and the rest of the hook. -/
theorem unlessRejected_ends {k : Hook → Option Hook} (hd : Decides E h.reg) (slot : Slot)
    (hk : ∀ core, Ends h.reg (k { h with core })) : Ends h.reg (h.unlessRejected E slot k) := by
  obtain ⟨v, core, hr⟩ := runVerifier_decides hd slot
  cases v with
  | reject =>
    refine ⟨{ h with core := core, result := .reject }, ?_, rfl⟩
    rw [Hook.unlessRejected, hr]
    rfl
  | pass =>
    obtain ⟨h', hk', hreg⟩ := hk core
    refine ⟨h', ?_, hreg⟩
    rw [Hook.unlessRejected, hr]
    exact hk'

theorem lastCheck_ends (hd : Decides E h.reg) (slot : Slot) :
    Ends h.reg (h.unlessRejected E slot some) :=
  unlessRejected_ends hd slot fun _ => ⟨_, rfl, rfl⟩

theorem ifwCtrlRx_ends (hd : Decides E h.reg) (pdu : PduData) :
    Ends h.reg (ifwCtrlRx E pdu h) := by
  unfold ifwCtrlRx
  cases LlctrlType.ofOpcode pdu.opcode with
  | connUpdateInd => exact lastCheck_ends (h := h.checkUpdate _ _) hd _
  | chanMapInd => exact lastCheck_ends (h := h.checkUpdate _ _) hd _
  | lengthReq =>
    exact lastCheck_ends (h := Hook.checkUpdate { h with llcpLenReqPending := _ } _ _) hd _
  | connParamReq =>
    exact lastCheck_ends (h := Hook.checkUpdate { h with llcpCprPending := _ } _ _) hd _
  | lengthRsp | connParamRsp => exact ⟨_, rfl, by split <;> rfl⟩
  | other => exact ⟨h, rfl, rfl⟩

theorem ifwConnRx_ends (hd : Decides E h.reg) (pdu : PduData) :
    Ends h.reg (ifwConnRx E pdu h) := by
  unfold ifwConnRx
  refine unlessRejected_ends (h := (h.checkUpdate _ _).checkUpdate _ _) hd _ fun core => ?_
  show Ends h.reg (if pdu.llId = 3 then _ else _)
  split
  · exact ifwCtrlRx_ends (h := Hook.checkUpdate { h with core } _ _) hd pdu
  · exact ⟨_, rfl, rfl⟩

theorem ifwPeripheralSetup_ends (hd : Decides E h.reg) (lll : LllConn) (ind : ConnectInd) :
    Ends h.reg (ifwPeripheralSetup E lll ind h) := by
  unfold ifwPeripheralSetup
  refine unlessRejected_ends (h := (newConnection lll ind h).checkUpdate _ _) hd _ fun core => ?_
  refine unlessRejected_ends
    (h := Hook.checkUpdate { newConnection lll ind h with core, lll := _ } _ _) hd _ fun core' => ?_
  exact lastCheck_ends
    (h := Hook.checkUpdate { newConnection lll ind h with core := core', lll := _ } _ _) hd _

theorem ifwConnSetup_ends (hd : Decides E h.reg) (lll : LllConn) (ind : ConnectInd) :
    Ends h.reg (ifwConnSetup E lll ind h) := by
  unfold ifwConnSetup
  split
  · exact lastCheck_ends (h := Hook.checkUpdate { h with lll } _ _) hd _
  · obtain ⟨h1, hset, hreg⟩ := ifwPeripheralSetup_ends hd lll ind
    rw [hset, ← hreg]
    rw [← hreg] at hd
    exact lastCheck_ends (h := h1.checkUpdate _ _) hd _

/-- **One call of a hook** is answered. -/
theorem llStep_decides (hd : Decides E h.reg) (call : LlCall) :
    ∃ h' v, llStep h (E, call) = some (h', v) := by
  cases call with
  | rx node =>
    cases node with
    | eventDone | other => exact ⟨_, _, rfl⟩
    | connection lll ind =>
      obtain ⟨h', hr, -⟩ := ifwConnSetup_ends (h := { h with result := .pass }) hd lll ind
      refine ⟨h', h'.result, ?_⟩
      simp only [llStep, ifwLlPacketParserRx, hr, Option.map_some]
    | dcPdu pdu =>
      obtain ⟨h', hr, -⟩ := ifwConnRx_ends (h := { h with result := .pass }) hd pdu
      refine ⟨h', h'.result, ?_⟩
      simp only [llStep, ifwLlPacketParserRx, hr, Option.map_some]
  | tx pdu =>
    cases pdu with
    | none => exact ⟨_, _, rfl⟩
    | some pdu =>
      simp only [llStep, ifwLlPacketParserTx]
      split
      · obtain ⟨v, core, hr⟩ :=
          runVerifier_decides (h := h.checkUpdate (pdu.len.setWidth 16) (.conn .scanRspLen)) hd
            (.conn .scanRspLen)
        rw [hr]
        exact ⟨_, _, rfl⟩
      · exact ⟨_, _, rfl⟩

end

/-! ## The compiled-in policies -/

theorem slots_nodup : layout.slots.Nodup := by decide +kernel

section
variable (p : Policy)

/-- The compiled-in policies, which `load_all_policies` does not verify, would be accepted. -/
theorem accepted_shipped :
    ifwVerifyPolicy (some (codeBytes p.bytecode fun _ => 0)) (BitVec.ofNat 32 p.bytecode.length)
      layout.size = 0 := by
  cases p <;> decide +kernel

theorem sealed_shipped :
    Sealed (codeBytes p.bytecode fun _ => 0) ((BitVec.ofNat 32 p.bytecode.length).toNat / 8) := by
  cases p <;> decide +kernel

end

theorem reader_policyArr (flash : Policy → Nat → BitVec 8) (E : Env layout.size) {i : Nat}
    (hi : i < port.pidNum) : ((loaded flash).policyArr i).Reader layout E := by
  have hall : ∀ i < port.pidNum, i ∈ shipped.map fun q => q.1.pid := by decide
  obtain ⟨q, hq, rfl⟩ := List.mem_map.1 (hall i hi)
  have hget := getPolicySlot_loaded flash hq
  rw [Registry.getPolicySlot_eq (by omega) (by omega), if_pos (by omega), Int.toNat_natCast] at hget
  rw [Option.some.inj hget]
  exact reader_loaded E q.1

section
variable {flash : Policy → Nat → BitVec 8} {behind : Nat → BitVec 8} {d : Device Hook}

/-- Every upload that the device runs is verified, whatever packets and writes came before. -/
theorem runtimeVerified_of_reached (hd : DeviceReached flash behind d) :
    d.patch.store.RuntimeVerified layout.size :=
  store_of_reached (J := PolicyStore.RuntimeVerified layout.size) patchService_handles
    (fun a call _ h => h.install (keepsSlots_registerPolicy port) a.copy call)
    (fun i hi => absurd hi (Nat.not_lt_zero i)) hd

theorem ok_of_reached (hd : DeviceReached flash behind d) : d.patch.store.Ok port :=
  store_of_reached (H := hooks) (J := PolicyStore.Ok port) (h := .boot flash) patchService_handles
    (fun a call _ h => h.install a.copy call) (loaded_ok flash) hd

end

/-- **Sealed uploads do not stall the firewall**: in every state that packets and writes lead to, if
the uploaded programs are sealed, every packet is answered. The uploaded programs write nothing and
load from the struct and the stack of the interpreter only, aligned where these are. -/
theorem sealed_answered {flash : Policy → Nat → BitVec 8} {behind : Nat → BitVec 8}
    {d : Device Hook} (hd : DeviceReached flash behind d) (hs : d.patch.store.RuntimeSealed)
    (E : Env layout.size) (call : LlCall) :
    (∃ d' v, d.step hooks patchService (.call (E, call)) = some (d', .verdict v)) ∧
      ∀ i < d.patch.store.runtimePolicyCount, ∀ M,
        PureReader E.place (d.patch.store.runtimePolicyArr i).code M 64 ∧
        LoadSafe E.place (d.patch.store.runtimePolicyArr i).code M 64 ∧
        (E.place.Aligned → LoadAligned E.place (d.patch.store.runtimePolicyArr i).code M 64) := by
  have hv := runtimeVerified_of_reached hd
  have hok := ok_of_reached hd
  have hg := grown_of_reached (I := fun h => h.core.fsmNewInit = false) rfl (hooks_keep flash)
    patchService_handles ifwInstall_grows rfl rfl hd
  have hL : layout.size ≤ 2 ^ 32 := by rw [layout_size]; decide
  have harr : ∀ i < port.pidNum, (d.patch.store.policyArr i).Reader layout E := by
    rw [hg.grown.arr]
    exact fun i hi => reader_policyArr flash E hi
  have hdec : Decides E d.hook.reg := by
    intro slot s
    rw [show d.hook.reg = _ from hg.shared]
    exact ⟨_, runFsmCheckPolicy_policies hL hok (hv.readers hok slots_nodup hL harr hs _) s⟩
  refine ⟨?_, fun i hi M => hv.reads hs E.place M hi⟩
  obtain ⟨h', v, hstep⟩ := llStep_decides hdec call
  refine ⟨{ d with hook := h' }, v, ?_⟩
  rw [Device.step, show hooks.step d.hook (E, call) = _ from hstep]
  rfl

/-- A write of some bytes. -/
def gattWrite (char : Characteristic) (bytes : List (BitVec 8)) : PatchWrite GattWrite :=
  ⟨char, ⟨codeBytes bytes fun _ => 0, BitVec.ofNat 16 bytes.length, 0⟩, ⟨some fun _ => 0, true⟩⟩

/-- A policy with a load and a jump is uploaded for the sequence number. -/
def uploadWrites : List (PatchWrite GattWrite) :=
  [gattWrite .header [3, 0],
    gattWrite .body [0x61, 0x11, 4, 0, 0, 0, 0, 0, 0xb7, 0, 0, 0, 1, 0, 0, 0,
      0x55, 1, 1, 0, 0, 0, 0, 0, 0xb7, 0, 0, 0, 0, 0, 0, 0, 0x95, 0, 0, 0, 0, 0, 0, 0],
    gattWrite .commit [1]]

theorem sealed_answered_upload :
    ∃ d : Device Hook, DeviceReached (fun _ _ => 0) (fun _ => 0) d ∧
      d.patch.store.runtimePolicyCount = 1 ∧ d.patch.store.RuntimeSealed ∧
      (∃ d' v, d.step hooks patchService (.call connectCall) = some (d', .verdict v)) ∧
      ∀ i < d.patch.store.runtimePolicyCount, ∀ M,
        PureReader connectCall.1.place (d.patch.store.runtimePolicyArr i).code M 64 ∧
        LoadSafe connectCall.1.place (d.patch.store.runtimePolicyArr i).code M 64 ∧
        (connectCall.1.place.Aligned →
          LoadAligned connectCall.1.place (d.patch.store.runtimePolicyArr i).code M 64) := by
  let p := after patchService.step (deviceBoot (fun _ _ => 0) fun _ => 0).patch uploadWrites
  let d : Device Hook := ⟨hooks.setReg p.store.toRegistry (.boot fun _ _ => 0), p⟩
  have hd : DeviceReached (fun _ _ => 0) (fun _ => 0) d := ⟨uploadWrites.map .write, _, rfl⟩
  have hs : p.store.RuntimeSealed := by decide +kernel
  exact ⟨d, hd, by decide +kernel, hs, sealed_answered hd hs connectCall.1 connectCall.2⟩

end BlueSwat.Zephyr
