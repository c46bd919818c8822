import BlueSwat.Ebpf.Proof.Static
import BlueSwat.Fsm.Proof.Install

/-!
# Sealed policies are functions of the struct

A policy that the verifier accepts and whose bytecode is `Sealed` gets from the dispatcher what it
is meant to get and no more: it ends, with a value that the words of the struct decide, whatever
else is in memory, and the struct is what it was (`runsAs_of_sealed`).

`ifw_install_policy` runs the verifier on every upload, so the runtime slots hold verified programs
(`RuntimeVerified.install`). Where they are sealed too, the dispatcher runs them as functions of the
struct (`readers`), and they write nothing (`reads`).
-/

set_option autoImplicit false

namespace BlueSwat.Fsm

open Ebpf Record

section
variable {ι : Type} [DecidableEq ι] {L : Layout ι} {E : Env L.size} {code : Nat → BitVec 8}
  {n : Nat}

/-- A run of a sealed policy, from any memory. -/
theorem interpretPolicy_of_sealed (hA : Accepted code n L.size) (hs : Sealed code n) (M : Mem) :
    ∃ s v, ebpfVmExec E.place.host (defaultVm code) E.fuel M E.place.mem 64 = some (s, .exit v) ∧
      interpretPolicy E code M = some (v, s.mem) ∧
      ∀ a, Bytes.Within a E.place.mem L.size → s.mem a = M a := by
  obtain ⟨s, v, hrun⟩ :=
    (@controlSafe_of_sealed E.place.host code M E.place.mem 64 n L.size hA hs).exits
  have hfuel : n ≤ E.fuel := Nat.le_trans hA.le E.enough
  have hexec : ebpfVmExec E.place.host (defaultVm code) E.fuel M E.place.mem 64 =
      some (s, .exit v) := Machine.run_mono hrun hfuel
  refine ⟨s, v, hexec, ?_, ?_⟩
  · rw [interpretPolicy, hexec]
    rfl
  · exact (@pureReader_of_sealed _ _ E.place code M 64 hA hs).frame s (Machine.run_reach hrun).1

/-- On two memories that hold the same struct, the value is the same. -/
theorem interpretPolicy_congr (hnd : L.slots.Nodup) (hA : Accepted code n L.size)
    (hs : Sealed code n) {M M' : Mem} {s : ι → BitVec 32} (hM : L.Holds M E.place.mem s)
    (hM' : L.Holds M' E.place.mem s) :
    (interpretPolicy E code M').map Prod.fst = (interpretPolicy E code M).map Prod.fst := by
  obtain ⟨s1, v, hexec, hval, -⟩ := @interpretPolicy_of_sealed _ _ L E code n hA hs M
  obtain ⟨t1, w, hexec', hval', -⟩ := @interpretPolicy_of_sealed _ _ L E code n hA hs M'
  obtain ⟨t2, hexec2⟩ :=
    exec_congr_of_sealed hA hs (fun a ha => hM'.agree hnd hM ha) hexec
  rw [hexec2] at hexec'
  cases hexec'
  rw [hval, hval']
  rfl

theorem exists_runsAs (hnd : L.slots.Nodup) (hL : L.size ≤ 2 ^ 32) (hA : Accepted code n L.size)
    (hs : Sealed code n) : ∃ g, RunsAs L E code g := by
  -- the value on the struct, in the surroundings of the call
  choose s1 g hexec hval hframe using fun s : ι → BitVec 32 =>
    @interpretPolicy_of_sealed _ _ L E code _ hA hs (L.image E.around E.place.mem s)
  refine ⟨g, fun {M s} hM => ?_⟩
  obtain ⟨s', v, -, hval', hframe'⟩ := @interpretPolicy_of_sealed _ _ L E code _ hA hs M
  have himage : L.Holds (L.image E.around E.place.mem s) E.place.mem s := holds_image hL
  have hsame := interpretPolicy_congr hnd hA hs himage hM
  rw [hval s, hval'] at hsame
  cases hsame
  exact ⟨s'.mem, hval', hM.congr hframe'⟩

end

/-- The slot holds a program that the verifier has accepted, for the interpreter. -/
structure PolicyCache.Verified (stateSize : Nat) (slot : PolicyCache) : Prop where
  jit : slot.jit = false
  accepted : ∃ len : BitVec 32, slot.size = len.toInt ∧
    ifwVerifyPolicy (some slot.code) len stateSize = 0

/-- The runtime slots in use hold verified programs. -/
def PolicyStore.RuntimeVerified (stateSize : Nat) (store : PolicyStore) : Prop :=
  ∀ i < store.runtimePolicyCount, (store.runtimePolicyArr i).Verified stateSize

/-- The programs in the runtime slots in use are sealed. -/
def PolicyStore.RuntimeSealed (store : PolicyStore) : Prop :=
  ∀ i < store.runtimePolicyCount,
    Sealed (store.runtimePolicyArr i).code ((store.runtimePolicyArr i).size.toNat / 8)

instance (store : PolicyStore) : Decidable store.RuntimeSealed :=
  inferInstanceAs (Decidable (∀ i < _, Sealed _ _))

/-- Registering leaves the runtime slots alone. -/
def KeepsSlots (register : StateClass → Nat → Int → Registry → Registry) : Prop :=
  ∀ (cls : StateClass) (type : Nat) (pid : Int) (reg : Registry),
    (register cls type pid reg).runtimePolicyArr = reg.runtimePolicyArr

theorem keepsSlots_registerPolicy (port : Port) : KeepsSlots (Registry.registerPolicy port) := by
  intro cls type pid reg
  simp only [Registry.registerPolicy]
  split <;> rfl

theorem keepsSlots_registerPolicyIf (node : Bool) (port : Port) :
    KeepsSlots (Registry.registerPolicyIf node port) := by
  intro cls type pid reg
  have hinit : (if reg.policyMgrInit then reg else reg.initPolicyManager).runtimePolicyArr =
      reg.runtimePolicyArr := by split <;> rfl
  cases node with
  | false => exact hinit
  | true => exact (keepsSlots_registerPolicy port cls type pid _).trans hinit

section
variable {port : Port} {stateSize : Nat} {store : PolicyStore}
  {slot : PolicyCache} {register : StateClass → Nat → Int → Registry → Registry}

theorem PolicyCache.Verified.toAccepted (h : slot.Verified stateSize) :
    Accepted slot.code (slot.size.toNat / 8) stateSize ∧ slot.size ≠ 0 := by
  obtain ⟨len, hlen, hv⟩ := h.accepted
  have hA := accepted_of hv
  have hle : len.toNat / 8 ≤ 64 := hA.le
  have hpos : 0 < len.toNat / 8 := hA.pos
  -- an accepted length is far from the sign bit
  have hint : len.toInt = len.toNat := BitVec.toInt_eq_toNat_of_lt (by omega)
  rw [hlen, hint, Int.toNat_natCast]
  exact ⟨hA, by omega⟩

/-- The copy that is kept is as good as the bytecode that was verified. -/
theorem Acceptable.verified_slot {call : InstallCall} {cls : StateClass}
    {code block : Nat → BitVec 8} (h : Acceptable port stateSize store call cls code) :
    (call.slot block).Verified stateSize := by
  refine ⟨rfl, call.len, rfl, ?_⟩
  rw [← h.verified]
  refine ifwVerifyPolicy_congr stateSize fun i hi => ?_
  simp only [InstallCall.slot, h.hasCode, Option.getD_some, memcpy, if_pos hi]

theorem PolicyStore.RuntimeVerified.install (h : store.RuntimeVerified stateSize)
    (hreg : KeepsSlots register) (copy : Option (Nat → BitVec 8)) (call : InstallCall) :
    (ifwInstallPolicy port stateSize register copy call store).1.RuntimeVerified stateSize := by
  obtain ⟨cls, code, block, hacc, -, heq⟩ | ⟨hsame, -⟩ :=
    ifwInstallPolicy_cases port stateSize register copy call store
  · rw [heq]
    intro i hi
    simp only [installSlot] at hi ⊢
    rw [hreg]
    dsimp only
    split
    · exact hacc.verified_slot
    · exact h i (by omega)
  · rw [hsame]
    exact h

end

section
variable {ι : Type} [DecidableEq ι] {L : Layout ι} {E : Env L.size} {port : Port}
  {store : PolicyStore}

theorem PolicyCache.Verified.reader {slot : PolicyCache} (h : slot.Verified L.size)
    (hnd : L.slots.Nodup) (hL : L.size ≤ 2 ^ 32) (hs : Sealed slot.code (slot.size.toNat / 8)) :
    slot.Reader L E :=
  ⟨h.toAccepted.2, h.jit, exists_runsAs hnd hL h.toAccepted.1 hs⟩

/-- **The policies of every entry are functions of the struct**, if the compiled-in ones are. -/
theorem PolicyStore.RuntimeVerified.readers (h : store.RuntimeVerified L.size) (hok : store.Ok port)
    (hnd : L.slots.Nodup) (hL : L.size ≤ 2 ^ 32)
    (harr : ∀ i < port.pidNum, (store.policyArr i).Reader L E) (hs : store.RuntimeSealed)
    (e : Nat) :
    ∀ slot ∈ store.policies port e, slot.Reader L E := by
  intro slot hslot
  obtain ⟨pid, hpid, hget⟩ := List.mem_filterMap.1 hslot
  obtain ⟨h0, hlt⟩ := hok.pids e pid hpid
  have hcount := hok.count
  rw [Registry.getPolicySlot_eq h0 (by omega)] at hget
  split at hget
  · cases hget
    exact harr _ (by omega)
  · cases hget
    exact (h _ (by omega)).reader hnd hL (hs _ (by omega))

/-- **What an uploaded program does to memory**: it writes nothing, and it loads from the struct and
its stack, aligned where they are. -/
theorem PolicyStore.RuntimeVerified.reads {size : Nat} (h : store.RuntimeVerified size)
    (hs : store.RuntimeSealed) (P : Placement size) (M : Mem) {i : Nat}
    (hi : i < store.runtimePolicyCount) :
    PureReader P (store.runtimePolicyArr i).code M 64 ∧
      LoadSafe P (store.runtimePolicyArr i).code M 64 ∧
      (P.Aligned → LoadAligned P (store.runtimePolicyArr i).code M 64) :=
  have hA := (h i hi).toAccepted.1
  ⟨pureReader_of_sealed hA (hs i hi), loadSafe_of_sealed hA (hs i hi),
    loadAligned_of_sealed hA (hs i hi)⟩

end

end BlueSwat.Fsm
