import BlueSwat.Fsm.Proof.Install
import BlueSwat.Zephyr.Proof.Policies
import BlueSwat.Zephyr.Core

/-!
# Installing policies on Zephyr

`registry_semantics`: after `load_all_policies` and any installations, the dispatcher rejects
exactly when a policy of the slot that was loaded, or installed with result 0, does. Eight
installations can succeed, and a call that returns an error code changes nothing.
-/

set_option autoImplicit false

namespace BlueSwat.Zephyr

open Ebpf Fsm Reactive

/-- The cache entry that `load_all_policies` makes for a policy. -/
def Policy.slot (flash : Policy → Nat → BitVec 8) (p : Policy) : PolicyCache :=
  ⟨p.bytecode.length + 1, codeBytes p.bytecode (flash p), false⟩

/-- The store after `load_all_policies`. -/
def loaded (flash : Policy → Nat → BitVec 8) : PolicyStore := ⟨loadAllPolicies flash .boot, 0⟩

section
variable (flash : Policy → Nat → BitVec 8)

theorem policyManager_addPolicies (qs : List (Policy × Slot)) {reg : Registry}
    (h : reg.policyMgrInit = false → ∀ e, reg.policyManager e = []) (e : Nat) :
    (qs.foldl (fun reg q => reg.addPolicy port q.1.pid q.1.bytecode (flash q.1) q.2.cls q.2.type)
        reg).policyManager e =
      reg.policyManager e ++
        (qs.filter fun q => port.entry q.2.cls q.2.type = e).map fun q => (q.1.pid : Int) := by
  induction qs generalizing reg with
  | nil => simp
  | cons q qs ih =>
    have hq : (reg.addPolicy port q.1.pid q.1.bytecode
        (flash q.1) q.2.cls q.2.type).policyManager e =
        reg.policyManager e ++ if port.entry q.2.cls q.2.type = e then [(q.1.pid : Int)] else
          [] := by
      cases hinit : reg.policyMgrInit with
      | false =>
        simp [Registry.addPolicy, Registry.registerPolicy, hinit, Registry.initPolicyManager,
          h hinit, eq_comm]
      | true =>
        simp only [Registry.addPolicy, Registry.registerPolicy, hinit, if_true, @eq_comm _ e]
        split <;> simp
    have hinit : (reg.addPolicy port q.1.pid q.1.bytecode (flash q.1) q.2.cls
        q.2.type).policyMgrInit = true := by
      cases hinit : reg.policyMgrInit <;>
        simp [Registry.addPolicy, Registry.registerPolicy, hinit, Registry.initPolicyManager]
    rw [List.foldl_cons, ih (fun hf => absurd hf (by simp [hinit])), hq, List.filter_cons]
    split <;> simp_all

theorem getPolicySlot_loaded {q : Policy × Slot} (hq : q ∈ shipped) :
    (loaded flash).getPolicySlot port q.1.pid = some (q.1.slot flash) := by
  simp only [shipped, List.mem_cons, List.not_mem_nil, or_false] at hq
  rcases hq with rfl | rfl | rfl | rfl | rfl | rfl | rfl | rfl <;> rfl

theorem policies_loaded (cls : StateClass) (type : Nat) :
    (loaded flash).policies port (port.entry cls type) =
      (shipped.filter fun q => port.entry q.2.cls q.2.type = port.entry cls type).map
        fun q => q.1.slot flash := by
  rw [Registry.policies, loaded, loadAllPolicies, policyManager_addPolicies flash shipped
    (fun _ _ => rfl), List.filterMap_append, List.filterMap_map]
  have hnil : Registry.boot.policyManager (port.entry cls type) = [] := rfl
  rw [hnil, List.filterMap_nil, List.nil_append, ← List.filterMap_eq_map]
  refine List.filterMap_congr fun q hq => ?_
  exact getPolicySlot_loaded flash (List.mem_filter.1 hq).1

theorem loaded_ok : (loaded flash).Ok port where
  init := rfl
  count := Nat.zero_le _
  pids := by
    intro e pid hpid
    rw [loaded, loadAllPolicies, policyManager_addPolicies flash shipped (fun _ _ => rfl),
      List.mem_append, List.mem_map] at hpid
    rcases hpid with hpid | ⟨q, hq, rfl⟩
    · cases hpid
    · have hlt : ∀ q ∈ shipped, q.1.pid < port.pidNum := by decide
      have := hlt q (List.mem_filter.1 hq).1
      show 0 ≤ (q.1.pid : Int) ∧ (q.1.pid : Int) < port.pidNum + 0
      omega

/-- The results of installations after `load_all_policies`, where every allocation succeeds. -/
def installResults (calls : List Installation) : List Int :=
  (totalRuns (installStep port layout.size) (loaded flash) calls).2

def storeAfter (calls : List Installation) : PolicyStore :=
  after (installStep port layout.size) (loaded flash) calls

/-- A policy that is loaded for the slot returns `REJECT` on `s`. -/
def LoadedRejects (E : Env layout.size) (cls : StateClass) (type : Nat) (s : FsmState) : Prop :=
  ∃ q ∈ shipped, q.2.cls = cls ∧ q.2.type = type ∧ rejects layout E (q.1.slot flash).code s = true

/-- A policy that was installed for the slot with result 0 returns `REJECT` on `s`. -/
def InstalledRejects (calls : List Installation) (E : Env layout.size)
    (cls : StateClass) (type : Nat) (s : FsmState) : Prop :=
  ∃ (n : Nat) (c : Installation), calls[n]? = some c ∧ (installResults flash calls)[n]? = some 0 ∧
    c.1.isFor cls type = true ∧ rejects layout E (c.1.slot c.2).code s = true

variable {flash}

theorem reader_loaded (E : Env layout.size) (p : Policy) : (p.slot flash).Reader layout E := by
  refine ⟨by show (p.bytecode.length + 1 : Int) ≠ 0; omega, rfl,
    fun s => (p.zephyrFilter s).code, fun {M s} hM => ?_⟩
  obtain ⟨s', hr, hmem⟩ := (policy_implements p (flash p) E.place M 64 s hM).mono E.enough
  refine ⟨s'.mem, ?_, hmem ▸ initState_mem_holds E.place hM⟩
  simp only [Policy.slot, interpretPolicy, ebpfVmExec, hr, Option.bind_some, Ret.value,
    Option.map_some]

theorem slot_type_lt (slot : Slot) : slot.type < port.dcParamNum := by
  cases slot <;> rename_i t <;> cases t <;> decide

/-- The policies of a slot after installations. -/
theorem mem_policies_storeAfter {calls : List Installation} {cls : StateClass}
    {type : Nat} (ht : type < port.dcParamNum) {slot : PolicyCache} :
    slot ∈ (storeAfter flash calls).policies port (port.entry cls type) ↔
      (∃ q ∈ shipped, q.2.cls = cls ∧ q.2.type = type ∧ q.1.slot flash = slot) ∨
      ∃ (n : Nat) (c : Installation), calls[n]? = some c ∧
        (installResults flash calls)[n]? = some 0 ∧
        c.1.isFor cls type = true ∧ c.1.slot c.2 = slot := by
  rw [storeAfter, policies_after (loaded_ok flash) calls ht, policies_loaded, List.mem_append]
  refine or_congr ?_ ?_
  · simp only [List.mem_map, List.mem_filter, decide_eq_true_eq,
      Port.entry_inj (slot_type_lt _) ht, and_assoc]
  · simp only [List.mem_map, List.mem_filter, decide_eq_true_eq]
    constructor
    · rintro ⟨⟨c, r⟩, ⟨hmem, rfl, hfor⟩, rfl⟩
      obtain ⟨n, hn⟩ := List.mem_iff_getElem?.1 hmem
      obtain ⟨hc, hr⟩ := List.getElem?_zip_eq_some.1 hn
      exact ⟨n, c, hc, hr, hfor, rfl⟩
    · rintro ⟨n, c, hc, hr, hfor, rfl⟩
      have hmem : (c, (0 : Int)) ∈ calls.zip (installResults flash calls) :=
        List.mem_iff_getElem?.2 ⟨n, List.getElem?_zip_eq_some.2 ⟨hc, hr⟩⟩
      exact ⟨(c, 0), ⟨hmem, rfl, hfor⟩, rfl⟩

/-- The result of a call, in the store that the calls before it leave. -/
theorem installResults_getElem? {calls : List Installation} {n : Nat} {c : Installation}
    (hc : calls[n]? = some c) :
    (installResults flash calls)[n]? =
      some (installStep port layout.size (storeAfter flash (calls.take n)) c).2 := by
  rw [installResults, totalRuns_getElem?, hc]
  rfl

theorem reader_installed {E : Env layout.size} {calls : List Installation} {n : Nat}
    {c : Installation} (hc : calls[n]? = some c)
    (hres : (installResults flash calls)[n]? = some 0)
    (hruns : ∃ g, RunsAs layout E (c.1.slot c.2).code g) : (c.1.slot c.2).Reader layout E := by
  rw [installResults_getElem? hc] at hres
  exact ⟨slot_size_of_installed (Option.some.inj hres), rfl, hruns⟩

/-- **The policy registry**: where the runs of the installed policies are functions of the struct,
a slot rejects iff a policy loaded or installed for it does; at most eight calls return 0, the later
ones an error code that depends on their arguments, and a call with an error code changes
nothing. -/
theorem registry_semantics (E : Env layout.size) (calls : List Installation)
    (hread : ∀ (n : Nat) (c : Installation), calls[n]? = some c →
      (installResults flash calls)[n]? = some 0 → ∃ g, RunsAs layout E (c.1.slot c.2).code g) :
    (∀ cls type s, type < port.dcParamNum → ∃ v,
      runFsmCheckPolicy layout port (storeAfter flash calls).toRegistry E type cls s =
        some (v, s) ∧
      (v = .reject ↔ LoadedRejects flash E cls type s ∨
        InstalledRejects flash calls E cls type s)) ∧
    (installResults flash calls).count 0 ≤ ifwMaxRuntimePolicies ∧
    (∀ (n : Nat) (c : Installation), calls[n]? = some c →
      (installResults flash (calls.take n)).count 0 = ifwMaxRuntimePolicies →
        (installResults flash calls)[n]? = some (c.1.refusal port)) ∧
    (∀ (n : Nat) (r : Int), (installResults flash calls)[n]? = some r → r ≠ 0 →
      storeAfter flash (calls.take (n + 1)) = storeAfter flash (calls.take n)) := by
  have hok : ∀ calls, (storeAfter flash calls).Ok port := ok_after (loaded_ok flash)
  have hcount : ∀ calls, (storeAfter flash calls).runtimePolicyCount =
      (installResults flash calls).count 0 := fun calls =>
    (count_after (loaded_ok flash) calls).trans (Nat.zero_add _)
  refine ⟨fun cls type s ht => ?_, hcount calls ▸ (hok calls).count, ?_, ?_⟩
  · have hall : ∀ slot ∈ (storeAfter flash calls).policies port (port.entry cls type),
        slot.Reader layout E := by
      intro slot hslot
      rcases (mem_policies_storeAfter ht).1 hslot with ⟨q, -, -, -, rfl⟩ | ⟨n, c, hc, hr, -, rfl⟩
      · exact reader_loaded E q.1
      · exact reader_installed hc hr (hread n c hc hr)
    refine ⟨_, runFsmCheckPolicy_policies (by rw [layout_size]; decide) (hok calls) hall s, ?_⟩
    rw [Verdict.rejectIf_eq_reject, List.any_eq_true]
    simp only [mem_policies_storeAfter ht, LoadedRejects, InstalledRejects]
    constructor
    · rintro ⟨slot, ⟨q, hq, hcls, htype, rfl⟩ | ⟨n, c, hc, hr, hfor, rfl⟩, hrej⟩
      · exact .inl ⟨q, hq, hcls, htype, hrej⟩
      · exact .inr ⟨n, c, hc, hr, hfor, hrej⟩
    · rintro (⟨q, hq, hcls, htype, hrej⟩ | ⟨n, c, hc, hr, hfor, hrej⟩)
      · exact ⟨_, .inl ⟨q, hq, hcls, htype, rfl⟩, hrej⟩
      · exact ⟨_, .inr ⟨n, c, hc, hr, hfor, rfl⟩, hrej⟩
  · intro n c hc hfull
    rw [installResults_getElem? hc, installStep, ifwInstallPolicy_full]
    rw [hcount, hfull]
  · intro n r hr hne
    cases hc : calls[n]? with
    | none =>
      rw [installResults, totalRuns_getElem?, hc] at hr
      cases hr
    | some c =>
      rw [installResults_getElem? hc] at hr
      rw [storeAfter, after_take_succ _ hc]
      rcases @installStep_spec port layout.size _ (hok (calls.take n)) c with
        ⟨hzero, -⟩ | ⟨hsame, -⟩
      · exact absurd ((Option.some.inj hr).symm.trans hzero) hne
      · exact hsame

end

/-- The interval policy, installed for the sequence number. -/
def patch : Installation :=
  (⟨3, 0, some (codeBytes Policy.lllInterval.bytecode fun _ => 0), 40⟩, fun _ => 0)

theorem patch_reader (E : Env layout.size) :
    ∃ g, RunsAs layout E (patch.1.slot patch.2).code g := by
  have hcode : (patch.1.slot patch.2).code = (Policy.lllInterval.slot fun _ _ => 0).code :=
    memcpy_codeBytes Policy.lllInterval.bytecode (fun _ => 0) (fun _ => 0)
  rw [hcode]
  exact (reader_loaded E .lllInterval).runs

/-- The patch is installed, and decides on its slot. -/
theorem registry_semantics_patch :
    installResults (fun _ _ => 0) [patch] = [0] ∧
    ∃ v, runFsmCheckPolicy layout port (storeAfter (fun _ _ => 0) [patch]).toRegistry
        (.plain (ramPlacement 120 (by decide))) 0 .dc (fun _ => 0) = some (v, fun _ => 0) ∧
      (v = .reject ↔
        LoadedRejects (fun _ _ => 0) (.plain (ramPlacement 120 (by decide))) .dc 0 (fun _ => 0) ∨
        InstalledRejects (fun _ _ => 0) [patch] (.plain (ramPlacement 120 (by decide))) .dc 0
          (fun _ => 0)) := by
  refine ⟨by decide, (registry_semantics _ [patch] ?_).1 .dc 0 _ (by decide)⟩
  intro n c hc _
  rw [List.getElem?_singleton] at hc
  split at hc
  · cases hc
    exact patch_reader _
  · cases hc

/-- With no runtime slot left, a call without bytecode returns -1 and not -3. -/
theorem nullCall_refused :
    installResults (fun _ _ => 0)
        (List.replicate 8 patch ++ [(⟨3, 0, none, 8⟩, fun _ => 0)]) =
      [0, 0, 0, 0, 0, 0, 0, 0, -1] := by
  decide

end BlueSwat.Zephyr
