import BlueSwat.Fsm.Proof.Device
import BlueSwat.Fsm.Proof.PatchPorts
import BlueSwat.Fsm.Proof.Static
import BlueSwat.Mynewt.Proof.Parsers

/-!
# Uploads do not mend the Mynewt firewall

The device of the Mynewt port: its parsers and its patch service. The compiled-in `conn_chan_map`
reads the word where octet 3 of the peer address is kept, and that word is written behind a
`CONNECT_IND` that has passed. An upload adds a policy behind it and cannot take it away, and a
sealed program writes nothing, so that it does not reach the committed state either: no sealed
upload lets a connection through (`connectInd_rejected`).
-/

set_option autoImplicit false

namespace BlueSwat.Mynewt

open Ebpf Fsm Reactive

/-- A call of a parser; with the JIT on, in surroundings where its code is faithful. -/
abbrev FaithfulCall (flash : Policy → Nat → BitVec 8) (jit : Bool) :=
  { call : Env layout.size × Call // FaithfulJit flash jit call.1 }

def hooks (flash : Policy → Nat → BitVec 8) (jit : Bool) : Hooks Hook (FaithfulCall flash jit) where
  step := fun h call => step h call.1
  reg := Hook.reg
  setReg := fun reg h => { h with reg }

/-! ## Checks with a registry that has grown -/

/-- The word that the bytecode of `conn_chan_map` reads is still 0. -/
def NoPeer (h : Hook) : Prop := h.core.curFSMState (.shared .bdAddr3) = 0

section
variable {flash : Policy → Nat → BitVec 8} {jit : Bool} {h h' : Hook} {E : Env layout.size}
  {state type cls : BitVec 16} {slot : Slot} {v : Verdict}

theorem stateUpdate_noPeer (hn : NoPeer h) (hslot : slotAt cls type = some slot)
    (hne : .shared .bdAddr3 ≠ slot) : NoPeer (h.stateUpdate state type cls) := by
  unfold Hook.stateUpdate ifwFsmStateUpdate
  rw [hslot]
  exact (Function.update_of_ne hne ..).trans hn

/-- A check leaves the registry alone, and the committed state too unless it passes. -/
theorem checkUpdate_noPeer (hn : NoPeer h) (hslot : slotAt cls type = some slot)
    (hne : .shared .bdAddr3 ≠ slot) (hr : h.checkUpdate E state type cls = some (v, h')) :
    h'.reg = h.reg ∧ NoPeer h' := by
  obtain ⟨⟨w, core⟩, hcheck, he⟩ := Option.map_eq_some_iff.1 hr
  cases he
  refine ⟨rfl, ?_⟩
  rw [ifwFsmCheckUpdate, hslot] at hcheck
  simp only at hcheck
  split at hcheck
  · cases hcheck
    exact hn
  · obtain ⟨⟨u, s'⟩, -, he⟩ := Option.map_eq_some_iff.1 hcheck
    cases u with
    | reject =>
      cases he
      exact hn
    | pass =>
      cases he
      exact stateUpdate_noPeer (h := ⟨⟨h.core.curFSMState, s'⟩, h.reg⟩) hn hslot hne

/-- **The channel map is not let through**, whatever policies have been added. -/
theorem channelMap_rejected (hE : FaithfulJit flash jit E)
    (hg : (ifwFsmEnable flash jit .boot).Grows h.reg) (hn : NoPeer h) (state : BitVec 16) :
    ∃ h', h.checkUpdate E state channelMap conn = some (.reject, h') := by
  have hlist := policyManager_boot flash jit (.conn .channelMap)
  have hrej : Policy.connChanMap.compiledFilter
      (Function.update (ifwStageRefresh h.core).newFSMState (.conn .channelMap)
        (state.setWidth 32)) = .reject := by
    refine Verdict.rejectIf_pos ?_
    rw [Function.update_of_ne (by simp), show (ifwStageRefresh h.core).newFSMState _ = _ from hn]
    decide
  have hrun := runFsmCheckPolicy_grown (by rw [layout_size]; decide) hg
    (by rw [hlist]; exact .cons (answers_boot flash jit hE .connChanMap) .nil)
    (by rw [hlist]; decide) List.mem_cons_self hrej
  have hin : inRange state (.conn .channelMap) = true := rfl
  simp only [Hook.checkUpdate, ifwFsmCheckUpdate, slotAt_channelMap, hin, Bool.true_eq_false,
    if_false, hrun, Option.map_some]
  exact ⟨_, rfl⟩

/-! ## The parsers -/

theorem step_noPeer {call : FaithfulCall flash jit}
    (hg : (ifwFsmEnable flash jit .boot).Grows h.reg)
    (hn : NoPeer h) (hr : step h call.1 = some (h', v)) :
    h'.reg = h.reg ∧ NoPeer h' := by
  obtain ⟨⟨E, call⟩, hE⟩ := call
  cases call with
  | adv ptype rxbuf =>
    simp only [step, ifwAdvLlParser] at hr
    split at hr
    · obtain ⟨h1, hcheck⟩ := channelMap_rejected hE hg hn (chanMapCheck (chanMap rxbuf))
      rw [hcheck] at hr
      cases hr
      exact checkUpdate_noPeer hn slotAt_channelMap (by simp) hcheck
    · cases hr
      exact ⟨rfl, hn⟩
  | tx hdrByte omData =>
    cases hr
    refine ⟨rfl, ?_⟩
    exact stateUpdate_noPeer (stateUpdate_noPeer hn slotAt_txIsCtrl (by simp)) slotAt_txOpcode
      (by simp)
  | smp om =>
    simp only [step, ifwSmpParser] at hr
    split at hr
    · cases hr
      exact ⟨rfl, hn⟩
    · obtain ⟨⟨w, h1⟩, hcheck, he⟩ := Option.map_eq_some_iff.1 hr
      obtain ⟨hreg, hn1⟩ := checkUpdate_noPeer hn slotAt_smpMaxEncSize (by simp) hcheck
      cases w with
      | reject =>
        cases he
        exact ⟨hreg, hn1⟩
      | pass =>
        cases he
        exact ⟨hreg, stateUpdate_noPeer hn1 slotAt_smpMaxEncSizePrev (by simp)⟩

end

/-! ## The device -/

theorem hooks_keep (flash : Policy → Nat → BitVec 8) (jit : Bool) :
    (hooks flash jit).Keeps (ifwFsmEnable flash jit .boot) NoPeer where
  step := fun hg hn hr => step_noPeer hg hn hr
  setReg := fun _ hn => ⟨rfl, hn⟩

theorem ifwInstall_grows (a : Allocs) : InstallGrows (ifwInstall a) := fun _ _ hi =>
  ifwInstallPolicy_grows
    (fun cls type pid _ hi => Registry.registerPolicyIf_grows a.node hi cls type pid) hi

/-- A state of the device, after packets and uploads in any order. -/
def DeviceReached (flash : Policy → Nat → BitVec 8) (jit : Bool) (behind : Nat → BitVec 8)
    (d : Device Hook) : Prop :=
  Reached (Device.step (hooks flash jit) (patchService bleHsMbufToFlat))
    (.boot (hooks flash jit) (.boot flash jit) behind) d

/-- **No sealed upload lets a connection through**: in every state that packets and uploads lead to
and whose uploaded programs are sealed, a `CONNECT_IND` is rejected. The uploaded programs write
nothing on any run, to the committed state as little as to the staged one. -/
theorem connectInd_rejected {flash : Policy → Nat → BitVec 8} {jit : Bool}
    {behind : Nat → BitVec 8} {d : Device Hook} {E : Env layout.size}
    (hE : FaithfulJit flash jit E) (hd : DeviceReached flash jit behind d)
    (hs : d.patch.store.RuntimeSealed) (rxbuf : Nat → BitVec 8) :
    (∃ d', d.step (hooks flash jit) (patchService bleHsMbufToFlat)
      (.call ⟨(E, .adv 5 rxbuf), hE⟩) = some (d', .verdict .reject)) ∧
      ∀ i < d.patch.store.runtimePolicyCount, ∀ M,
        PureReader E.place (d.patch.store.runtimePolicyArr i).code M 64 := by
  have hinit : (ifwFsmEnable flash jit .boot).policyMgrInit = true := by cases jit <;> rfl
  have hg := grown_of_reached (I := NoPeer) rfl (hooks_keep flash jit)
    (patchService_handles bleHsMbufToFlat_flattens) ifwInstall_grows hinit
    (show NoPeer (.boot flash jit) from rfl) hd
  have hv : d.patch.store.RuntimeVerified layout.size :=
    store_of_reached (patchService_handles bleHsMbufToFlat_flattens)
      (fun a call _ h => h.install (keepsSlots_registerPolicyIf a.node port) a.copy call)
      (fun i hi => absurd hi (Nat.not_lt_zero i)) hd
  refine ⟨?_, fun i hi M => (hv.reads hs E.place M hi).1⟩
  have hgrown : (ifwFsmEnable flash jit .boot).Grows d.hook.reg := by
    rw [show d.hook.reg = _ from hg.shared]
    exact hg.grown
  obtain ⟨h', hcheck⟩ := channelMap_rejected hE hgrown hg.inv (chanMapCheck (chanMap rxbuf))
  have hstep : (hooks flash jit).step d.hook ⟨(E, .adv 5 rxbuf), hE⟩ = some (h', .reject) := by
    simp only [hooks, step, ifwAdvLlParser, if_true, hcheck, Option.map_some]
  exact ⟨{ d with hook := h' }, by rw [Device.step, hstep]; rfl⟩

/-- A write of some bytes, in one mbuf. -/
def mbufWrite (char : Characteristic) (bytes : List (BitVec 8)) :
    PatchWrite (Packet × (Nat → BitVec 8)) :=
  ⟨char, (⟨[⟨codeBytes bytes fun _ => 0, BitVec.ofNat 16 bytes.length⟩],
    BitVec.ofNat 16 bytes.length, by simp [OsMbuf.bytes]⟩, fun _ => 0), ⟨some fun _ => 0, true⟩⟩

/-- `MOV64 r0, 1; EXIT` is uploaded for the channel map. -/
def passUpload : List (PatchWrite (Packet × (Nat → BitVec 8))) :=
  [mbufWrite .header [2, 0],
    mbufWrite .body [0xb7, 0, 0, 0, 1, 0, 0, 0, 0x95, 0, 0, 0, 0, 0, 0, 0], mbufWrite .commit [1]]

theorem connectInd_rejected_upload :
    ∃ d : Device Hook, DeviceReached (fun _ _ => 0) true (fun _ => 0) d ∧
      d.patch.store.runtimePolicyCount = 1 ∧ d.patch.store.RuntimeSealed ∧
      (∃ d', d.step (hooks (fun _ _ => 0) true) (patchService bleHsMbufToFlat)
        (.call ⟨connectCall, faithfulJit_ramEnv _ true⟩) = some (d', .verdict .reject)) ∧
      ∀ i < d.patch.store.runtimePolicyCount, ∀ M,
        PureReader ramEnv.place (d.patch.store.runtimePolicyArr i).code M 64 := by
  let H := hooks (fun _ _ => 0) true
  let p := after (patchService bleHsMbufToFlat).step
    (Device.boot H (.boot (fun _ _ => 0) true) fun _ => 0).patch passUpload
  let d : Device Hook := ⟨H.setReg p.store.toRegistry (.boot (fun _ _ => 0) true), p⟩
  have hd : DeviceReached (fun _ _ => 0) true (fun _ => 0) d := ⟨passUpload.map .write, _, rfl⟩
  have hs : p.store.RuntimeSealed := by decide +kernel
  exact ⟨d, hd, by decide +kernel, hs, connectInd_rejected (faithfulJit_ramEnv _ true) hd hs _⟩

end BlueSwat.Mynewt
