import BlueSwat.Fsm.Install
import BlueSwat.Fsm.Proof.PolicyCache
import BlueSwat.Lib.Reactive

/-!
# What an installation does

The registry is an implementation of a table of policies, one list for each slot
(`Registry.policies`): the list nodes hold policy numbers, which stand for entries of two arrays.
In a store where every number resolves (`PolicyStore.Ok`), an installation appends one policy to
one list of the table or changes nothing (`policies_after`), and the dispatcher rejects iff a
policy of the slot returns `REJECT` (`runFsmCheckPolicy_policies`).
-/

set_option autoImplicit false

namespace BlueSwat.Fsm

open Ebpf Record Reactive

/-! ## One installation -/

/-- The arguments and the store let `ifw_install_policy` go on to its first allocation. -/
structure Acceptable (port : Port) (stateSize : Nat) (store : PolicyStore) (call : InstallCall)
    (cls : StateClass) (code : Nat → BitVec 8) : Prop where
  hasCode : call.code = some code
  len : ¬ (call.len = 0 ∨ call.len.toNat % 8 ≠ 0)
  cls : StateClass.ofInt call.cls = some cls
  type : ¬ (call.type < 0 ∨ call.type ≥ port.dcParamNum)
  room : store.runtimePolicyCount < ifwMaxRuntimePolicies
  verified : ifwVerifyPolicy (some code) call.len stateSize = 0

/-- The runtime slot for a copy of the bytecode in `block`. -/
def InstallCall.slot (call : InstallCall) (block : Nat → BitVec 8) : PolicyCache :=
  ⟨call.len.toInt, memcpy block (call.code.getD block) call.len.toNat, false⟩

theorem memcpy_codeBytes (bytes : List (BitVec 8)) (block rest : Nat → BitVec 8) :
    memcpy block (codeBytes bytes rest) bytes.length = codeBytes bytes block := by
  funext i
  by_cases hi : i < bytes.length <;> simp [memcpy, codeBytes, hi]

section
variable {port : Port} {stateSize : Nat} {register : StateClass → Nat → Int → Registry → Registry}
  {copy : Option (Nat → BitVec 8)} {call : InstallCall} {store : PolicyStore}

theorem ifwInstallPolicy_acceptable {cls : StateClass} {code block : Nat → BitVec 8}
    (h : Acceptable port stateSize store call cls code) :
    ifwInstallPolicy port stateSize register (some block) call store =
      (installSlot port register cls call.type.toNat (call.slot block) store, 0) := by
  simp only [ifwInstallPolicy, h.hasCode, if_neg h.len, h.cls, if_neg h.type,
    if_neg (Nat.not_le.2 h.room), if_neg (not_not_intro h.verified), InstallCall.slot,
    Option.getD_some]

/-- **An installation** fills a runtime slot and returns 0, or changes nothing and returns an error
code. -/
theorem ifwInstallPolicy_cases (port : Port) (stateSize : Nat)
    (register : StateClass → Nat → Int → Registry → Registry)
    (copy : Option (Nat → BitVec 8)) (call : InstallCall) (store : PolicyStore) :
    (∃ cls code block, Acceptable port stateSize store call cls code ∧ copy = some block ∧
      ifwInstallPolicy port stateSize register copy call store =
        (installSlot port register cls call.type.toNat (call.slot block) store, 0)) ∨
    ((ifwInstallPolicy port stateSize register copy call store).1 = store ∧
      (ifwInstallPolicy port stateSize register copy call store).2 ≠ 0) := by
  unfold ifwInstallPolicy
  cases hcode : call.code with
  | none => exact .inr (by simp)
  | some code =>
    by_cases hlen : call.len = 0 ∨ call.len.toNat % 8 ≠ 0
    · simp only [if_pos hlen]
      exact .inr (by simp)
    simp only [if_neg hlen]
    cases hcls : StateClass.ofInt call.cls with
    | none => exact .inr (by simp)
    | some cls =>
      by_cases htype : call.type < 0 ∨ call.type ≥ port.dcParamNum
      · simp only [if_pos htype]
        exact .inr (by simp)
      by_cases hroom : store.runtimePolicyCount ≥ ifwMaxRuntimePolicies
      · simp only [if_neg htype, if_pos hroom]
        exact .inr (by simp)
      simp only [if_neg htype, if_neg hroom]
      by_cases hver : ifwVerifyPolicy (some code) call.len stateSize = 0
      · simp only [if_neg (not_not_intro hver)]
        cases copy with
        | none => exact .inr (by simp)
        | some block =>
          refine .inl ⟨cls, code, block,
            ⟨hcode, hlen, hcls, htype, Nat.not_le.1 hroom, hver⟩, rfl, ?_⟩
          rw [InstallCall.slot, hcode, Option.getD_some]
      · simp only [if_pos hver]
        exact .inr (by simpa using hver)

/-- What a call returns when there is no free runtime slot. -/
def InstallCall.refusal (port : Port) (call : InstallCall) : Int :=
  if call.code.isNone ∨ call.len = 0 ∨ call.len.toNat % 8 ≠ 0 then -1
  else if (StateClass.ofInt call.cls).isNone ∨ call.type < 0 ∨ call.type ≥ port.dcParamNum then -2
  else -3

theorem ifwInstallPolicy_full (h : store.runtimePolicyCount ≥ ifwMaxRuntimePolicies) :
    (ifwInstallPolicy port stateSize register copy call store).2 = call.refusal port := by
  unfold ifwInstallPolicy InstallCall.refusal
  cases call.code with
  | none => simp
  | some code =>
    simp only [Option.isNone_some, Bool.false_eq_true, false_or]
    by_cases hlen : call.len = 0 ∨ call.len.toNat % 8 ≠ 0
    · rw [if_pos hlen, if_pos hlen]
    · rw [if_neg hlen, if_neg hlen]
      cases StateClass.ofInt call.cls with
      | none => simp
      | some cls =>
        by_cases htype : call.type < 0 ∨ call.type ≥ port.dcParamNum <;> simp [htype, h]

end

/-! ## The table of policies -/

/-- The policies that the dispatcher runs for an entry of the table. -/
def Registry.policies (port : Port) (reg : Registry) (e : Nat) : List PolicyCache :=
  (reg.policyManager e).filterMap (reg.getPolicySlot port)

/-- The policy numbers of the lists are those given out so far. -/
structure PolicyStore.Ok (port : Port) (store : PolicyStore) : Prop where
  init : store.policyMgrInit = true
  count : store.runtimePolicyCount ≤ ifwMaxRuntimePolicies
  pids : ∀ e, ∀ pid ∈ store.policyManager e,
    0 ≤ pid ∧ pid < port.pidNum + store.runtimePolicyCount

theorem Registry.getPolicySlot_eq {port : Port} {reg : Registry} {pid : Int} (h0 : 0 ≤ pid)
    (h : pid < port.pidNum + ifwMaxRuntimePolicies) :
    reg.getPolicySlot port pid = some (if pid < port.pidNum then reg.policyArr pid.toNat
      else reg.runtimePolicyArr (pid - port.pidNum).toNat) := by
  unfold getPolicySlot
  rw [if_neg (by omega)]
  by_cases hp : pid < port.pidNum
  · rw [if_pos hp, if_pos hp]
  · rw [if_neg hp, if_neg hp]
    exact if_neg (by omega)

section
variable {port : Port} {store : PolicyStore} {cls : StateClass} {type : Nat} {slot : PolicyCache}

theorem policyManager_installSlot (h : store.Ok port) (e : Nat) :
    (installSlot port (Registry.registerPolicy port) cls type slot store).policyManager e =
      store.policyManager e ++
        if e = port.entry cls type then [(port.pidNum + store.runtimePolicyCount : Int)]
        else [] := by
  simp only [installSlot, Registry.registerPolicy, h.init, if_true]
  split <;> simp

theorem PolicyStore.Ok.installSlot (h : store.Ok port)
    (hroom : store.runtimePolicyCount < ifwMaxRuntimePolicies) :
    (installSlot port (Registry.registerPolicy port) cls type slot store).Ok port where
  init := by simp [Fsm.installSlot, Registry.registerPolicy, h.init]
  count := hroom
  pids := by
    intro e pid hpid
    rw [policyManager_installSlot h, List.mem_append] at hpid
    show 0 ≤ pid ∧ pid < port.pidNum + ((store.runtimePolicyCount + 1 : Nat) : Int)
    rcases hpid with hpid | hpid
    · have := h.pids e pid hpid
      omega
    · split at hpid
      · rw [List.mem_singleton] at hpid
        omega
      · cases hpid

theorem PolicyStore.Ok.install {stateSize : Nat} (h : store.Ok port)
    (copy : Option (Nat → BitVec 8)) (call : InstallCall) :
    (ifwInstallPolicy port stateSize (Registry.registerPolicy port) copy call store).1.Ok port := by
  obtain ⟨cls, code, block, hacc, -, heq⟩ | ⟨hsame, -⟩ := ifwInstallPolicy_cases port stateSize
    (Registry.registerPolicy port) copy call store
  · rw [heq]
    exact h.installSlot hacc.room
  · rw [hsame]
    exact h

/-- **An installed policy** is added at the end of its list, and no other list changes. -/
theorem policies_installSlot (h : store.Ok port)
    (hroom : store.runtimePolicyCount < ifwMaxRuntimePolicies) (e : Nat) :
    (installSlot port (Registry.registerPolicy port) cls type slot store).policies port e =
      store.policies port e ++ if e = port.entry cls type then [slot] else [] := by
  have hold : ∀ pid ∈ store.policyManager e,
      (installSlot port (Registry.registerPolicy port) cls type slot store).getPolicySlot port pid =
        store.getPolicySlot port pid := by
    intro pid hpid
    obtain ⟨h0, hlt⟩ := h.pids e pid hpid
    have hcount := h.count
    rw [Registry.getPolicySlot_eq h0 (by omega), Registry.getPolicySlot_eq h0 (by omega)]
    have hne : ¬ pid < port.pidNum →
        (pid - port.pidNum).toNat ≠ store.runtimePolicyCount := by omega
    simp only [installSlot, Registry.registerPolicy, h.init, if_true]
    split
    · rfl
    · rename_i hp
      rw [if_neg (hne hp)]
  have hnew : (installSlot port (Registry.registerPolicy port) cls type slot store).getPolicySlot
      port (port.pidNum + store.runtimePolicyCount) = some slot := by
    rw [Registry.getPolicySlot_eq (by omega) (by omega), if_neg (by omega)]
    simp [installSlot, Registry.registerPolicy, h.init]
  rw [Registry.policies, policyManager_installSlot h, List.filterMap_append,
    List.filterMap_congr hold]
  split <;> simp [hnew, Registry.policies]

theorem Port.entry_inj {port : Port} {cls cls' : StateClass} {type type' : Nat}
    (h : type < port.dcParamNum) (h' : type' < port.dcParamNum) :
    port.entry cls type = port.entry cls' type' ↔ cls = cls' ∧ type = type' := by
  constructor
  · intro he
    have hdiv : cls.ctorIdx = cls'.ctorIdx := by
      have := congrArg (· / port.dcParamNum) he
      simpa [Port.entry, Nat.mul_add_div (Nat.zero_lt_of_lt h), Nat.mul_comm,
        Nat.div_eq_of_lt h, Nat.div_eq_of_lt h'] using this
    have hcls : cls = cls' := by cases cls <;> cases cls' <;> first | rfl | cases hdiv
    subst hcls
    exact ⟨rfl, Nat.add_left_cancel he⟩
  · rintro ⟨rfl, rfl⟩
    rfl

end

/-! ## The dispatcher -/

/-- `ebpf_vm_exec` on a policy: the value and the memory after the run. -/
def interpretPolicy {size : Nat} (E : Env size) (code : Nat → BitVec 8) (M : Mem) :
    Option (BitVec 64 × Mem) :=
  (ebpfVmExec E.place.host (defaultVm code) E.fuel M E.place.mem 64).bind fun p =>
    p.2.value.map fun v => (v, p.1.mem)

section
variable {ι : Type} [DecidableEq ι] (L : Layout ι) (E : Env L.size)

/-- The run of a policy is the function `g` of the struct, which it does not modify. -/
def RunsAs (code : Nat → BitVec 8) (g : (ι → BitVec 32) → BitVec 64) : Prop :=
  ∀ {M : Mem} {s : ι → BitVec 32}, L.Holds M E.place.mem s →
    ∃ M', interpretPolicy E code M = some (g s, M') ∧ L.Holds M' E.place.mem s

/-- The policy, run on the struct `s`, returns `REJECT`. -/
def rejects (code : Nat → BitVec 8) (s : ι → BitVec 32) : Bool :=
  (interpretPolicy E code (L.image E.around E.place.mem s)).map Prod.fst ==
    some Verdict.reject.code

/-- An interpreted policy whose run is a function of the struct. -/
structure PolicyCache.Reader (slot : PolicyCache) : Prop where
  size : slot.size ≠ 0
  jit : slot.jit = false
  runs : ∃ g, RunsAs L E slot.code g

variable {L E}

theorem rejects_eq (hL : L.size ≤ 2 ^ 32) {code : Nat → BitVec 8}
    {g : (ι → BitVec 32) → BitVec 64} (h : RunsAs L E code g) (s : ι → BitVec 32) :
    rejects L E code s = (g s == Verdict.reject.code) := by
  have hM : L.Holds (L.image E.around E.place.mem s) E.place.mem s := holds_image hL
  obtain ⟨M', hr, -⟩ := h hM
  rw [rejects, hr]
  rfl

theorem PolicyCache.Reader.yields {slot : PolicyCache} (h : slot.Reader L E) {port : Port}
    {reg : Registry} {pid : Int} (hslot : reg.getPolicySlot port pid = some slot)
    (hL : L.size ≤ 2 ^ 32) :
    ∃ g, Yields L port reg E pid g ∧
      ∀ s, (g s == Verdict.reject.code) = rejects L E slot.code s := by
  obtain ⟨g, hg⟩ := h.runs
  refine ⟨g, fun {M s} hM => ?_, fun s => (rejects_eq hL hg s).symm⟩
  obtain ⟨M', hr, hM'⟩ := hg hM
  refine ⟨M', ?_, hM'⟩
  simp only [runFsmEbpfPolicy, hslot, if_neg h.size, h.jit]
  exact hr

/-- The policies of a list of policy numbers, each run on its own. -/
theorem exists_yields {port : Port} {reg : Registry} {pids : List Int} (hL : L.size ≤ 2 ^ 32)
    (h : ∀ pid ∈ pids, ∃ slot, reg.getPolicySlot port pid = some slot ∧ slot.Reader L E) :
    ∃ gs, List.Forall₂ (Yields L port reg E) pids gs ∧
      ∀ s, (gs.any fun g => g s == Verdict.reject.code) =
        (pids.filterMap (reg.getPolicySlot port)).any fun slot => rejects L E slot.code s := by
  induction pids with
  | nil => exact ⟨[], .nil, fun _ => rfl⟩
  | cons pid pids ih =>
    obtain ⟨slot, hslot, hread⟩ := h pid List.mem_cons_self
    obtain ⟨g, hg, hgs⟩ := hread.yields hslot hL
    obtain ⟨gs, hall, hany⟩ := ih fun p hp => h p (List.mem_cons_of_mem pid hp)
    refine ⟨g :: gs, .cons hg hall, fun s => ?_⟩
    rw [List.any_cons, List.filterMap_cons_some hslot, List.any_cons, hgs, hany]

/-- **The dispatcher** rejects iff a policy of the slot returns `REJECT` on the struct, which it
leaves as it is. -/
theorem runFsmCheckPolicy_policies {port : Port} {store : PolicyStore} {cls : StateClass}
    {type : Nat} (hL : L.size ≤ 2 ^ 32) (hok : store.Ok port)
    (h : ∀ slot ∈ store.policies port (port.entry cls type), slot.Reader L E)
    (s : ι → BitVec 32) :
    runFsmCheckPolicy L port store.toRegistry E type cls s =
      some (.rejectIf ((store.policies port (port.entry cls type)).any fun slot =>
        rejects L E slot.code s), s) := by
  have hcount := hok.count
  have hpids : ∀ pid ∈ store.policyManager (port.entry cls type),
      ∃ slot, store.getPolicySlot port pid = some slot ∧ slot.Reader L E := by
    intro pid hpid
    obtain ⟨h0, hlt⟩ := hok.pids _ pid hpid
    have hslot : store.getPolicySlot port pid = some _ := Registry.getPolicySlot_eq h0 (by omega)
    exact ⟨_, hslot, h _ (List.mem_filterMap.2 ⟨pid, hpid, hslot⟩)⟩
  obtain ⟨gs, hall, hany⟩ := exists_yields hL hpids
  obtain ⟨M', hr, hM'⟩ := runPolicyList_yields hall (holds_image hL)
  rw [runFsmCheckPolicy, hr, Option.map_some, hM'.readBack, hany]
  rfl

end

/-! ## Sequences of installations -/

/-- The policy of the call is to be run for a slot. -/
def InstallCall.isFor (call : InstallCall) (cls : StateClass) (type : Nat) : Bool :=
  StateClass.ofInt call.cls = some cls ∧ call.type = type

/-- A call, with the block for the copy of its bytecode. -/
abbrev Installation := InstallCall × (Nat → BitVec 8)

/-- `ifw_install_policy` of the Zephyr port where every allocation succeeds. -/
def installStep (port : Port) (stateSize : Nat) (store : PolicyStore) (c : Installation) :
    PolicyStore × Int :=
  ifwInstallPolicy port stateSize (Registry.registerPolicy port) (some c.2) c.1 store

section
variable {port : Port} {stateSize : Nat} {store : PolicyStore}

/-- What one installation does to the table. -/
theorem installStep_spec (h : store.Ok port) (c : Installation) :
    ((installStep port stateSize store c).2 = 0 ∧ (installStep port stateSize store c).1.Ok port ∧
      (installStep port stateSize store c).1.runtimePolicyCount = store.runtimePolicyCount + 1 ∧
      ∀ cls type, type < port.dcParamNum →
        (installStep port stateSize store c).1.policies port (port.entry cls type) =
          store.policies port (port.entry cls type) ++
            if c.1.isFor cls type then [c.1.slot c.2] else []) ∨
    ((installStep port stateSize store c).1 = store ∧
      (installStep port stateSize store c).2 ≠ 0) := by
  obtain ⟨cls', code, block, hacc, hblock, heq⟩ | hno := ifwInstallPolicy_cases port stateSize
    (Registry.registerPolicy port) (some c.2) c.1 store
  · cases hblock
    rw [installStep, heq]
    refine .inl ⟨rfl, h.installSlot hacc.room, rfl, fun cls type ht => ?_⟩
    have htype := hacc.type
    rw [policies_installSlot h hacc.room]
    congr 1
    refine if_congr ?_ rfl rfl
    rw [Port.entry_inj ht (by omega), InstallCall.isFor, decide_eq_true_iff, hacc.cls]
    constructor
    · rintro ⟨rfl, rfl⟩
      exact ⟨rfl, by omega⟩
    · rintro ⟨hc, htt⟩
      exact ⟨(Option.some.inj hc).symm, by omega⟩
  · exact .inr hno

theorem slot_size_of_installed {c : Installation}
    (h : (installStep port stateSize store c).2 = 0) : (c.1.slot c.2).size ≠ 0 := by
  obtain ⟨_, _, _, hacc, -⟩ | ⟨-, hno⟩ := ifwInstallPolicy_cases port stateSize
    (Registry.registerPolicy port) (some c.2) c.1 store
  · intro hsize
    exact hacc.len (.inl (BitVec.toInt_inj.1 (hsize.trans BitVec.toInt_zero.symm)))
  · exact absurd h hno

theorem ok_after (h : store.Ok port) (calls : List Installation) :
    (after (installStep port stateSize) store calls).Ok port := by
  induction calls generalizing store with
  | nil => exact h
  | cons c calls ih =>
    rw [after_cons]
    rcases installStep_spec h c with ⟨-, hok, -⟩ | ⟨hsame, -⟩
    · exact ih hok
    · rw [hsame]
      exact ih h

theorem count_after (h : store.Ok port) (calls : List Installation) :
    (after (installStep port stateSize) store calls).runtimePolicyCount =
      store.runtimePolicyCount +
        (totalRuns (installStep port stateSize) store calls).2.count 0 := by
  induction calls generalizing store with
  | nil => rfl
  | cons c calls ih =>
    rw [after_cons, totalRuns_cons, List.count_cons]
    rcases installStep_spec h c with ⟨hres, hok, hcount, -⟩ | ⟨hsame, hres⟩
    · rw [ih hok, hcount, hres]
      simp only [beq_self_eq_true, if_true]
      omega
    · rw [hsame, ih h, beq_false_of_ne hres]
      rfl

/-- **The table after a sequence of installations**: the policies whose calls returned 0, in order,
at the end of the lists that they are for. -/
theorem policies_after (h : store.Ok port) (calls : List Installation)
    {cls : StateClass} {type : Nat} (ht : type < port.dcParamNum) :
    (after (installStep port stateSize) store calls).policies port (port.entry cls type) =
      store.policies port (port.entry cls type) ++
        ((calls.zip (totalRuns (installStep port stateSize) store calls).2).filter fun p =>
          p.2 = 0 ∧ p.1.1.isFor cls type = true).map fun p => p.1.1.slot p.1.2 := by
  induction calls generalizing store with
  | nil => simp
  | cons c calls ih =>
    rw [after_cons, totalRuns_cons, List.zip_cons_cons, List.filter_cons]
    rcases installStep_spec h c with ⟨hres, hok, -, hpol⟩ | ⟨hsame, hres⟩
    · rw [ih hok, hpol cls type ht, hres]
      cases c.1.isFor cls type <;> simp
    · rw [hsame, ih h]
      simp [hres]

end

end BlueSwat.Fsm
