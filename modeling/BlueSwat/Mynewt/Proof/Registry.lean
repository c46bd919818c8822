import BlueSwat.Fsm.Proof.Install
import BlueSwat.Mynewt.Core

/-!
# The policy table on Mynewt

The rows of `policy_manager.policy` have `IFW_DC_PARAM_NUM` entries, fewer than the shared, the core
and the connection class have slots. A slot beyond its row is an entry of the next row
(`aliases`). `registerPolicy_frame_iff`: registering a policy for one slot leaves the list of
another alone exactly when the two are not aliases.

`install_allOrNothing_iff`: an installation is all or nothing exactly when the list node can be
allocated whenever the copy of the bytecode can.
-/

set_option autoImplicit false

namespace BlueSwat.Mynewt

open Ebpf Fsm

/-! ## Slots that share a list -/

/-- The list that `run_fsm_check_policy` walks for a slot. -/
def slotList (reg : Registry) (slot : Slot) : List Int :=
  reg.policyManager (port.entry slot.cls slot.type)

/-- The entries of `policy_manager.policy`. -/
def policyTableSize : Nat := 6 * port.dcParamNum

/-- The slots that lie beyond their rows, each with the slot it falls on. -/
def aliases : List (Slot × Slot) :=
  [(.shared .bdAddr4, .core .llState), (.shared .bdAddr5, .core .pairingMode),
    (.shared .bonding, .core .pairingMethod), (.shared .sc, .core .bleRole),
    (.core .ioCapacity, .conn .channelMap), (.conn .txOpcode, .dc .sn),
      (.conn .txIsCtrl, .dc .nesn)]

theorem entry_eq_iff {a b : Slot} (hab : a ≠ b) :
    port.entry a.cls a.type = port.entry b.cls b.type ↔ (a, b) ∈ aliases ∨ (b, a) ∈ aliases := by
  have hall : ∀ a ∈ layout.slots, ∀ b ∈ layout.slots, a ≠ b →
      (port.entry a.cls a.type = port.entry b.cls b.type ↔
        (a, b) ∈ aliases ∨ (b, a) ∈ aliases) := by
    decide
  exact hall a (layout.complete a) b (layout.complete b) hab

theorem entry_lt (slot : Slot) : port.entry slot.cls slot.type < policyTableSize := by
  cases slot <;> rename_i t <;> cases t <;> decide

/-- **When slots are separate**: registering a policy for `b` leaves the list of `a` alone iff the
slots are not aliases. -/
theorem registerPolicy_frame_iff {reg : Registry}
    (h : reg.policyMgrInit = false → ∀ e, reg.policyManager e = []) {a b : Slot} (hab : a ≠ b)
    (pid : Int) :
    port.entry a.cls a.type < policyTableSize ∧
    (slotList (reg.registerPolicy port b.cls b.type pid) a = slotList reg a ↔
      (a, b) ∉ aliases ∧ (b, a) ∉ aliases) := by
  refine ⟨entry_lt a, ?_⟩
  have hlist : slotList (reg.registerPolicy port b.cls b.type pid) a =
      if port.entry a.cls a.type = port.entry b.cls b.type then slotList reg a ++ [pid]
      else slotList reg a := by
    cases hinit : reg.policyMgrInit with
    | true => simp [slotList, Registry.registerPolicy, hinit]
    | false => simp [slotList, Registry.registerPolicy, hinit, Registry.initPolicyManager, h hinit]
  rw [hlist, ← not_or, ← entry_eq_iff hab]
  split <;> simp_all

/-- A policy for the key size does not get into the list of the sequence number. -/
theorem registerPolicy_frame_iff_keySize :
    slotList (Registry.boot.registerPolicy port .dc 2 1) (.dc .sn) = slotList .boot (.dc .sn) :=
  (@registerPolicy_frame_iff .boot (fun _ _ => rfl) (.dc .sn) (.dc .smpMaxEncSize)
    (by decide) 1).2.2 (by decide)

/-- The channel map policy, registered for its connection parameter, is put in the list of the IO
capacity. -/
theorem ioCapacity_runs_chanMap :
    slotList .boot (.core .ioCapacity) = [] ∧
    slotList (Registry.boot.registerPolicy port .conn 0 0) (.core .ioCapacity) = [0] := by
  decide

/-! ## Installing with failing allocations -/

/-- An installation that returns 0 has put its policy number in the list, and one that returns an
error code has changed nothing. -/
def AllOrNothing (copy : Option (Nat → BitVec 8)) (node : Bool) (call : InstallCall)
    (store : PolicyStore) : Prop :=
  let p := ifwInstallPolicy port layout.size (Registry.registerPolicyIf node port) copy call store
  (p.2 = 0 → ∃ cls, StateClass.ofInt call.cls = some cls ∧
    (port.pidNum + store.runtimePolicyCount : Int) ∈
      p.1.policyManager (port.entry cls call.type.toNat)) ∧
  (p.2 ≠ 0 → p.1 = store)

theorem mem_installSlot_iff {node : Bool} {cls : StateClass} {type : Nat} {slot : PolicyCache}
    {store : PolicyStore} {pid : Int} (hpid : pid = port.pidNum + store.runtimePolicyCount) :
    pid ∈ (installSlot port (Registry.registerPolicyIf node port) cls type slot store).policyManager
        (port.entry cls type) ↔
      node = true ∨ store.policyMgrInit = true ∧
        pid ∈ store.policyManager (port.entry cls type) := by
  subst hpid
  cases node <;> cases hinit : store.policyMgrInit <;>
    simp [installSlot, Registry.registerPolicyIf, Registry.registerPolicy,
      Registry.initPolicyManager, hinit]

/-- **When an installation is all or nothing**: if the arguments and the store let it get as far as
the list node, the node can be allocated (or its number is in the list already, which happens in no
store that the boot and installations lead to). -/
theorem install_allOrNothing_iff (copy : Option (Nat → BitVec 8)) (node : Bool)
    (call : InstallCall) (store : PolicyStore) :
    AllOrNothing copy node call store ↔
      ∀ cls code, Acceptable port layout.size store call cls code → copy.isSome = true →
        node = true ∨ store.policyMgrInit = true ∧
          (port.pidNum + store.runtimePolicyCount : Int) ∈
            store.policyManager (port.entry cls call.type.toNat) := by
  obtain ⟨cls, code, block, hacc, rfl, heq⟩ | ⟨hsame, hno⟩ := ifwInstallPolicy_cases port
    layout.size (Registry.registerPolicyIf node port) copy call store
  · have hcls : ∀ cls', StateClass.ofInt call.cls = some cls' ↔ cls = cls' := fun cls' => by
      rw [hacc.cls, Option.some.injEq]
    simp only [AllOrNothing, heq, ne_eq, not_true, false_implies, and_true, true_implies, hcls,
      exists_eq_left', mem_installSlot_iff rfl]
    constructor
    · intro h cls' code' hacc' _
      rwa [← (hcls cls').1 hacc'.cls]
    · intro h
      exact h cls code hacc rfl
  · refine ⟨fun _ cls code hacc hcopy => ?_, fun _ => ⟨fun h => absurd h hno, fun _ => hsame⟩⟩
    obtain ⟨block, rfl⟩ := Option.isSome_iff_exists.1 hcopy
    rw [ifwInstallPolicy_acceptable hacc] at hno
    exact absurd rfl hno

/-- A policy that rejects everything, for the sequence number. -/
def rejectAll : InstallCall :=
  ⟨3, 0, some (codeBytes [0xb7, 0, 0, 0, 1, 0, 0, 0, 0x95, 0, 0, 0, 0, 0, 0, 0] fun _ => 0), 16⟩

/-- After boot, with memory for the copy but not for the list node: the installation returns 0, and
its policy number is not in the list. -/
theorem rejectAll_lost :
    (ifwInstallPolicy port layout.size (Registry.registerPolicyIf false port) (some fun _ => 0)
      rejectAll ⟨ifwFsmEnable (fun _ _ => 0) false .boot, 0⟩).2 = 0 ∧
    (ifwInstallPolicy port layout.size (Registry.registerPolicyIf false port) (some fun _ => 0)
      rejectAll ⟨ifwFsmEnable (fun _ _ => 0) false .boot, 0⟩).1.policyManager (port.entry .dc 0) =
        [] ∧
    ¬ AllOrNothing (some fun _ => 0) false rejectAll ⟨ifwFsmEnable (fun _ _ => 0) false .boot,
      0⟩ := by
  refine ⟨by decide, by decide, fun h => ?_⟩
  obtain ⟨cls, hcls, hmem⟩ := h.1 (by decide)
  cases hcls
  revert hmem
  decide

end BlueSwat.Mynewt
