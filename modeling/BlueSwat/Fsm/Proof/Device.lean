import BlueSwat.Fsm.Device
import BlueSwat.Fsm.Proof.Install
import BlueSwat.Fsm.Proof.Patch

/-!
# A registry only grows

`Registry.Grows`: no compiled-in policy changes, and every list begins with what it was. Both
ports register that way, so an installation, a write to the patch service and with them every run
of the device let the registry grow (`grown_of_reached`). A compiled-in policy is then still run,
before the installed ones and on the struct that the hook staged: what it rejects is rejected,
whatever the installed policies do (`runFsmCheckPolicy_grown`).
-/

set_option autoImplicit false

namespace BlueSwat.Fsm

open Ebpf Record Reactive

/-! ## Registries -/

/-- `reg'` has the compiled-in policies of `reg`, and its lists begin with those of `reg`. -/
structure Registry.Grows (reg reg' : Registry) : Prop where
  init : reg.policyMgrInit = true → reg'.policyMgrInit = true
  arr : reg'.policyArr = reg.policyArr
  lists : ∀ e, reg.policyManager e <+: reg'.policyManager e

section
variable {reg reg' reg'' : Registry} {port : Port}

theorem Registry.Grows.refl (reg : Registry) : reg.Grows reg :=
  ⟨id, rfl, fun _ => List.prefix_rfl⟩

theorem Registry.Grows.trans (h : reg.Grows reg') (h' : reg'.Grows reg'') : reg.Grows reg'' :=
  ⟨fun hi => h'.init (h.init hi), h'.arr.trans h.arr, fun e => (h.lists e).trans (h'.lists e)⟩

theorem Registry.registerPolicy_grows (hi : reg.policyMgrInit = true) (cls : StateClass)
    (type : Nat) (pid : Int) : reg.Grows (reg.registerPolicy port cls type pid) := by
  refine ⟨fun _ => ?_, ?_, fun e => ?_⟩ <;> simp only [registerPolicy, hi, if_true]
  split
  · exact List.prefix_append _ _
  · exact List.prefix_rfl

theorem Registry.registerPolicyIf_grows (node : Bool) (hi : reg.policyMgrInit = true)
    (cls : StateClass) (type : Nat) (pid : Int) :
    reg.Grows (reg.registerPolicyIf node port cls type pid) := by
  cases node with
  | false => simpa only [registerPolicyIf, hi, if_true, Bool.false_eq_true,
    if_false] using Grows.refl reg
  | true =>
    simpa only [registerPolicyIf, hi, if_true] using registerPolicy_grows hi cls type pid

/-- Registering lets the registry grow. -/
def Appends (register : StateClass → Nat → Int → Registry → Registry) : Prop :=
  ∀ (cls : StateClass) (type : Nat) (pid : Int) (reg : Registry), reg.policyMgrInit = true →
    reg.Grows (register cls type pid reg)

/-! ## Installations -/

theorem ifwInstallPolicy_grows {register : StateClass → Nat → Int → Registry → Registry}
    (hreg : Appends register) {stateSize : Nat} {copy : Option (Nat → BitVec 8)}
    {call : InstallCall} {store : PolicyStore} (hi : store.policyMgrInit = true) :
    store.toRegistry.Grows
      (ifwInstallPolicy port stateSize register copy call store).1.toRegistry := by
  obtain ⟨cls, code, block, -, -, heq⟩ | ⟨hsame, -⟩ :=
    ifwInstallPolicy_cases port stateSize register copy call store
  · rw [heq]
    -- the runtime slot is no compiled-in policy
    have hslot : store.toRegistry.Grows { store.toRegistry with
        runtimePolicyArr := fun i => if i = store.runtimePolicyCount then call.slot block
          else store.runtimePolicyArr i } :=
      ⟨id, rfl, fun _ => List.prefix_rfl⟩
    exact hslot.trans (hreg _ _ _ _ hi)
  · rw [hsame]
    exact .refl _

/-- Installing lets the registry grow. -/
def InstallGrows (ifwInstall : InstallCall → PolicyStore → PolicyStore × Int) : Prop :=
  ∀ (call : InstallCall) (store : PolicyStore), store.policyMgrInit = true →
    store.toRegistry.Grows (ifwInstall call store).1.toRegistry

/-- The writes change the store by installing. -/
theorem Handled.keeps {ifwInstall : InstallCall → PolicyStore → PolicyStore × Int} {p q : Patch}
    {accepted : Bool} {e : PatchEvent} (h : Handled ifwInstall p accepted e q)
    {I : PolicyStore → Prop} (hinst : ∀ call store, I store → I (ifwInstall call store).1)
    (hp : I p.store) : I q.store := by
  cases h with
  | rejected flat => exact hp
  | header cls type => exact hp
  | body flat len fits => exact hp
  | commit => exact hinst _ _ hp

theorem Handled.grows {ifwInstall : InstallCall → PolicyStore → PolicyStore × Int} {p q : Patch}
    {accepted : Bool} {e : PatchEvent} (h : Handled ifwInstall p accepted e q)
    (hinst : InstallGrows ifwInstall) (hi : p.store.policyMgrInit = true) :
    p.store.toRegistry.Grows q.store.toRegistry := by
  cases h with
  | rejected flat => exact .refl _
  | header cls type => exact .refl _
  | body flat len fits => exact .refl _
  | commit => exact hinst _ _ hi

end

/-! ## The device -/

/-- On a registry that has grown from `reg`, the hooks read the registry and do not write it, and
their other static variables keep `I`. -/
structure Hooks.Keeps {η κ : Type} (H : Hooks η κ) (reg : Registry) (I : η → Prop) : Prop where
  step : ∀ {h h' : η} {c : κ} {v : Verdict}, reg.Grows (H.reg h) → I h →
    H.step h c = some (h', v) → H.reg h' = H.reg h ∧ I h'
  setReg : ∀ {h : η} (reg' : Registry), I h → H.reg (H.setReg reg' h) = reg' ∧ I (H.setReg reg' h)

section
variable {η κ ω : Type} {H : Hooks η κ} {S : PatchService ω} {bytes : ω → List (BitVec 8)}
  {ifwInstall : Allocs → InstallCall → PolicyStore → PolicyStore × Int} {reg : Registry}
  {I : η → Prop}

/-- The hooks have the registry that the service installs to, and it has grown from `reg`. -/
structure Device.Grown (H : Hooks η κ) (reg : Registry) (I : η → Prop) (d : Device η) : Prop where
  shared : H.reg d.hook = d.patch.store.toRegistry
  grown : reg.Grows d.patch.store.toRegistry
  inv : I d.hook

theorem Device.Grown.step {d d' : Device η} {e : DeviceEvent κ ω} {a : DeviceAnswer}
    (hH : H.Keeps reg I) (hS : S.Handles bytes ifwInstall)
    (hinst : ∀ a, InstallGrows (ifwInstall a)) (hi : reg.policyMgrInit = true)
    (hd : d.Grown H reg I) (h : d.step H S e = some (d', a)) : d'.Grown H reg I := by
  cases e with
  | call c =>
    obtain ⟨p, hp, he⟩ := Option.map_eq_some_iff.1 h
    cases he
    obtain ⟨hreg, hinv⟩ := hH.step (hd.shared ▸ hd.grown) hd.inv hp
    exact ⟨hreg.trans hd.shared, hd.grown, hinv⟩
  | write w =>
    cases h
    obtain ⟨hreg, hinv⟩ := hH.setReg (S.step d.patch w).1.store.toRegistry hd.inv
    exact ⟨hreg, hd.grown.trans ((hS d.patch w).grows (hinst _) (hd.grown.init hi)), hinv⟩

/-- **Every run of the device lets the registry grow.** -/
theorem grown_of_reached {h : η} {behind : Nat → BitVec 8} {d : Device η} (hreg : H.reg h = reg)
    (hH : H.Keeps reg I) (hS : S.Handles bytes ifwInstall)
    (hinst : ∀ a, InstallGrows (ifwInstall a)) (hi : reg.policyMgrInit = true) (h0 : I h)
    (hd : Reached (Device.step H S) (.boot H h behind) d) : d.Grown H reg I := by
  refine hd.inv ⟨rfl, ?_, h0⟩ fun _ _ _ _ hg hs => hg.step hH hS hinst hi hs
  subst hreg
  exact .refl _

/-- **What installing keeps, every run of the device keeps.** -/
theorem store_of_reached {J : PolicyStore → Prop} {h : η} {behind : Nat → BitVec 8} {d : Device η}
    (hS : S.Handles bytes ifwInstall)
    (hinst : ∀ a call store, J store → J (ifwInstall a call store).1)
    (h0 : J ⟨H.reg h, 0⟩) (hd : Reached (Device.step H S) (.boot H h behind) d) :
    J d.patch.store := by
  refine hd.inv (I := fun d : Device η => J d.patch.store) h0 fun d e d' a hJ hstep => ?_
  cases e with
  | call c =>
    obtain ⟨p, -, he⟩ := Option.map_eq_some_iff.1 hstep
    cases he
    exact hJ
  | write w =>
    cases hstep
    exact (hS d.patch w).keeps (hinst _) hJ

end

/-! ## The dispatcher -/

section
variable {ι : Type} [DecidableEq ι] {L : Layout ι} {port : Port} {reg reg' : Registry}
  {E : Env L.size}

theorem Answers.grows {pid : Int} {f : (ι → BitVec 32) → Verdict}
    (h : Answers L port reg E pid f) (hg : reg.Grows reg') (hpid : pid < port.pidNum) :
    Answers L port reg' E pid f := by
  obtain ⟨slot, hslot, hrest⟩ := h
  refine ⟨slot, ?_, hrest⟩
  rw [← hslot, Registry.getPolicySlot, Registry.getPolicySlot, hg.arr, if_pos hpid, if_pos hpid]

/-- A policy that rejects is reached, since those before it answer, and ends the loop. -/
theorem runPolicyList_first {s : ι → BitVec 32} {pids : List Int}
    {fs : List ((ι → BitVec 32) → Verdict)} (h : List.Forall₂ (Answers L port reg E) pids fs)
    {f : (ι → BitVec 32) → Verdict} (hf : f ∈ fs) (hrej : f s = .reject) (rest : List Int) :
    ∀ {M : Mem}, L.Holds M E.place.mem s →
      ∃ M', runPolicyList port reg E (pids ++ rest) M = some (.reject, M') ∧
        L.Holds M' E.place.mem s := by
  induction h with
  | nil => cases hf
  | @cons pid g pids gs hg _ ih =>
    intro M hM
    obtain ⟨M1, hrun, hM1⟩ := runFsmEbpfPolicy_answers hg hM
    rw [List.cons_append, runPolicyList, hrun, Option.bind_some]
    split
    · exact ⟨M1, rfl, hM1⟩
    · rename_i hne
      have hgf : g ≠ f := fun e => hne (by rw [e, hrej])
      exact ih ((List.mem_cons.1 hf).resolve_left (Ne.symm hgf)) hM1

/-- **What a compiled-in policy rejects is rejected**, however the registry has grown; the installed
policies are not run. -/
theorem runFsmCheckPolicy_grown (hL : L.size ≤ 2 ^ 32) (hg : reg.Grows reg') {type : Nat}
    {cls : StateClass} {fs : List ((ι → BitVec 32) → Verdict)}
    (h : List.Forall₂ (Answers L port reg E) (reg.policyManager (port.entry cls type)) fs)
    (hpids : ∀ pid ∈ reg.policyManager (port.entry cls type), pid < port.pidNum)
    {f : (ι → BitVec 32) → Verdict} (hf : f ∈ fs) {s : ι → BitVec 32} (hrej : f s = .reject) :
    runFsmCheckPolicy L port reg' E type cls s = some (.reject, s) := by
  obtain ⟨rest, hlist⟩ := hg.lists (port.entry cls type)
  have h' : List.Forall₂ (Answers L port reg' E) (reg.policyManager (port.entry cls type)) fs := by
    refine List.forall₂_iff_zip.2 ⟨h.length_eq, fun {pid g} hm => ?_⟩
    exact ((List.forall₂_iff_zip.1 h).2 hm).grows hg (hpids pid (List.of_mem_zip hm).1)
  obtain ⟨M', hrun, hM'⟩ := runPolicyList_first h' hf hrej rest (holds_image hL)
  rw [runFsmCheckPolicy, ← hlist, hrun, Option.map_some, hM'.readBack]

end

end BlueSwat.Fsm
