import BlueSwat.Ebpf.Proof.Memory
import BlueSwat.Lib.Bits
import BlueSwat.Mynewt.Parsers
import BlueSwat.Mynewt.Proof.Policies

/-!
# What the Mynewt parsers answer

The bytecode reads `shared_state[3]` and `dc_param[NESN]`. No parser writes the latter, and the
former is written only behind a `CONNECT_IND` that has passed, which needs it to be at least 2: both
stay 0 (`Quiet`). So every `CONNECT_IND` is rejected and everything else passes (`runs_verdict`),
whatever the packets hold.
-/

set_option autoImplicit false

namespace BlueSwat.Mynewt

open Ebpf Fsm Reactive

/-! ## The dispatcher after boot -/

/-- The policies that the dispatcher runs for a slot. The rows of the policy table are shorter than
the arrays: `core_state[IO_CAPACITY]` shares its entry with `conn_param[CHANNEL_MAP]`. -/
def slotPolicies : Slot → List Policy
  | .conn .channelMap | .core .ioCapacity => [.connChanMap]
  | .dc .smpMaxEncSize => [.keysizeConfusion, .keyEntropyDowngrade]
  | _ => []

/-- What the bytecode of the shipped policies says of a slot. -/
def shippedVerdict (slot : Slot) (s : FsmState) : Verdict :=
  .rejectIf ((slotPolicies slot).any fun p => p.compiledFilter s == .reject)

/-- The slot of a compiled-in policy. -/
def Policy.slot (flash : Policy → Nat → BitVec 8) (jit : Bool) (p : Policy) : PolicyCache :=
  ⟨p.bytecode.length + 1, codeBytes p.bytecode (flash p), jit⟩

section
variable (flash : Policy → Nat → BitVec 8) (jit : Bool)

theorem policyManager_boot (slot : Slot) :
    (ifwFsmEnable flash jit .boot).policyManager (port.entry slot.cls slot.type) =
      (slotPolicies slot).map fun p => (p.pid : Int) := by
  cases slot <;> rename_i t <;> cases t <;> cases jit <;> rfl

/-- With the JIT on, the code of the compiled-in policies is faithful in the surroundings `E`. -/
def FaithfulJit (E : Env layout.size) : Prop :=
  jit = true → ∀ p : Policy, E.JitFaithful layout (p.slot flash true)

theorem answers_boot {E : Env layout.size} (hE : FaithfulJit flash jit E) (p : Policy) :
    Answers layout port (ifwFsmEnable flash jit .boot) E p.pid p.compiledFilter := by
  have hslot : (ifwFsmEnable flash jit .boot).getPolicySlot port p.pid =
      some (p.slot flash jit) := by
    cases p <;> cases jit <;> rfl
  refine ⟨_, hslot, ?_, fun hj => ?_, policy_implements p (flash p)⟩
  · show (p.bytecode.length + 1 : Int) ≠ 0
    omega
  · obtain rfl : jit = true := hj
    exact hE rfl p

/-- **The dispatcher after boot** answers what the bytecode says, and changes nothing. -/
theorem runFsmCheckPolicy_boot {E : Env layout.size} (hE : FaithfulJit flash jit E)
    (slot : Slot) (s : FsmState) :
    runFsmCheckPolicy layout port (ifwFsmEnable flash jit .boot) E slot.type slot.cls s =
      some (shippedVerdict slot s, s) := by
  have hsz : layout.size ≤ 2 ^ 32 := by rw [layout_size]; decide
  have hall : List.Forall₂ (Answers layout port (ifwFsmEnable flash jit .boot) E)
      ((ifwFsmEnable flash jit .boot).policyManager (port.entry slot.cls slot.type))
      ((slotPolicies slot).map Policy.compiledFilter) := by
    rw [policyManager_boot, List.forall₂_map_left_iff, List.forall₂_map_right_iff,
      List.forall₂_same]
    exact fun p _ => answers_boot flash jit hE p
  rw [runFsmCheckPolicy_answers hsz hall, List.any_map]
  rfl

end

/-! ## The slots the bytecode reads -/

/-- The parsers have the shipped policies, and the slots that the bytecode reads are 0. -/
structure Quiet (flash : Policy → Nat → BitVec 8) (jit : Bool) (h : Hook) : Prop where
  reg : h.reg = ifwFsmEnable flash jit .boot
  bdAddr : h.core.curFSMState (.shared .bdAddr3) = 0
  nesn : h.core.curFSMState (.dc .nesn) = 0

theorem quiet_boot (flash : Policy → Nat → BitVec 8) (jit : Bool) :
    Quiet flash jit (.boot flash jit) := ⟨rfl, rfl, rfl⟩

theorem slotAt_channelMap : slotAt conn channelMap = some (.conn .channelMap) := rfl
theorem slotAt_txOpcode : slotAt conn txOpcode = some (.conn .txOpcode) := rfl
theorem slotAt_txIsCtrl : slotAt conn txIsCtrl = some (.conn .txIsCtrl) := rfl
theorem slotAt_smpMaxEncSize : slotAt dc smpMaxEncSize = some (.dc .smpMaxEncSize) := rfl
theorem slotAt_smpMaxEncSizePrev : slotAt dc smpMaxEncSizePrev = some (.dc .smpMaxEncSizePrev) :=
  rfl

section
variable {flash : Policy → Nat → BitVec 8} {jit : Bool} {h : Hook} {E : Env layout.size}
  {type cls : BitVec 16} {slot : Slot}

theorem Quiet.stateUpdate (hq : Quiet flash jit h) {state : BitVec 16}
    (hslot : slotAt cls type = some slot)
    (h1 : .shared .bdAddr3 ≠ slot) (h2 : .dc .nesn ≠ slot) :
    Quiet flash jit (h.stateUpdate state type cls) := by
  unfold Hook.stateUpdate ifwFsmStateUpdate
  rw [hslot]
  exact ⟨hq.reg, (Function.update_of_ne h1 ..).trans hq.bdAddr,
    (Function.update_of_ne h2 ..).trans hq.nesn⟩

/-- **A check and update**: the verdict of the shipped bytecode on the updated state, which is
committed when it passes. -/
theorem Quiet.checkUpdate (hq : Quiet flash jit h) (hE : FaithfulJit flash jit E)
    (state : BitVec 16) (hslot : slotAt cls type = some slot) (hr : inRange state slot = true)
    (h1 : .shared .bdAddr3 ≠ slot) (h2 : .dc .nesn ≠ slot) :
    ∃ h', h.checkUpdate E state type cls = some (shippedVerdict slot
        (Function.update h.core.curFSMState slot (state.setWidth 32)), h') ∧
      Quiet flash jit h' := by
  unfold Hook.checkUpdate ifwFsmCheckUpdate
  rw [hslot]
  simp only [hr, Bool.true_eq_false, if_false, hq.reg, runFsmCheckPolicy_boot flash jit hE,
    Option.map_some, ifwStageRefresh]
  generalize Function.update h.core.curFSMState slot (state.setWidth 32) = new
  have hq' : Quiet flash jit ⟨⟨h.core.curFSMState, new⟩, ifwFsmEnable flash jit .boot⟩ :=
    ⟨rfl, hq.bdAddr, hq.nesn⟩
  cases shippedVerdict slot new with
  | reject => exact ⟨_, rfl, hq'⟩
  | pass => exact ⟨_, rfl, hq'.stateUpdate hslot h1 h2⟩

/-! ## The parsers -/

def verdict : Call → Verdict
  | .adv ptype _ => .rejectIf (ptype = 5)
  | .tx _ _ => .pass
  | .smp _ => .pass

theorem ifwAdvLlParser_quiet (hq : Quiet flash jit h) (hE : FaithfulJit flash jit E)
    (ptype : BitVec 8) (rxbuf : Nat → BitVec 8) :
    ∃ h', ifwAdvLlParser E ptype rxbuf h = some (h', .rejectIf (ptype = 5)) ∧
      Quiet flash jit h' := by
  unfold ifwAdvLlParser
  by_cases hp : ptype = 5
  · obtain ⟨h', h1, h2⟩ := hq.checkUpdate hE (chanMapCheck (chanMap rxbuf)) slotAt_channelMap rfl
      (by simp) (by simp)
    have hv : shippedVerdict (.conn .channelMap) (Function.update h.core.curFSMState
        (.conn .channelMap) ((chanMapCheck (chanMap rxbuf)).setWidth 32)) = .reject := by
      simp [shippedVerdict, slotPolicies, Policy.compiledFilter, hq.bdAddr, Verdict.rejectIf]
    rw [if_pos hp, h1, hv, Verdict.rejectIf_pos hp]
    exact ⟨h', rfl, h2⟩
  · rw [if_neg hp, Verdict.rejectIf_neg hp]
    exact ⟨h, rfl, hq⟩

theorem ifwLlTxParser_quiet (hq : Quiet flash jit h) (hdrByte : BitVec 8)
    (omData : Nat → BitVec 8) : Quiet flash jit (ifwLlTxParser hdrByte omData h) :=
  (hq.stateUpdate slotAt_txIsCtrl (by simp) (by simp)).stateUpdate slotAt_txOpcode (by simp)
    (by simp)

theorem ifwSmpParser_quiet (hq : Quiet flash jit h) (hE : FaithfulJit flash jit E)
    (om : List OsMbuf) : ∃ h', ifwSmpParser E om h = some (h', .pass) ∧ Quiet flash jit h' := by
  unfold ifwSmpParser
  cases pairingReq om with
  | none => exact ⟨h, rfl, hq⟩
  | some k =>
    obtain ⟨h', h1, h2⟩ := hq.checkUpdate hE (k.setWidth 16) slotAt_smpMaxEncSize rfl (by simp)
      (by simp)
    have hv : shippedVerdict (.dc .smpMaxEncSize) (Function.update h.core.curFSMState
        (.dc .smpMaxEncSize) ((k.setWidth 16).setWidth 32)) = .pass := by
      simp [shippedVerdict, slotPolicies, Policy.compiledFilter, hq.nesn, Verdict.rejectIf]
    simp only [h1, hv, Option.map_some]
    exact ⟨_, rfl, h2.stateUpdate slotAt_smpMaxEncSizePrev (by simp) (by simp)⟩

/-- **One call of a parser.** -/
theorem step_quiet (hq : Quiet flash jit h) (call : Env layout.size × Call)
    (hE : FaithfulJit flash jit call.1) :
    ∃ h', step h call = some (h', verdict call.2) ∧ Quiet flash jit h' := by
  obtain ⟨E, call⟩ := call
  cases call with
  | adv ptype rxbuf => exact ifwAdvLlParser_quiet hq hE ptype rxbuf
  | tx hdrByte omData => exact ⟨_, rfl, ifwLlTxParser_quiet hq hdrByte omData⟩
  | smp om => exact ifwSmpParser_quiet hq hE om

end

/-- **Whole runs** return, and their verdicts are those on the single calls. -/
theorem runs_verdict (flash : Policy → Nat → BitVec 8) (jit : Bool)
    (calls : List (Env layout.size × Call))
    (hjit : ∀ call ∈ calls, FaithfulJit flash jit call.1) :
    ∃ h, runs step (.boot flash jit) calls = some (h, calls.map fun call => verdict call.2) := by
  obtain ⟨h, hr, -⟩ := runs_of_inv (quiet_boot flash jit) fun call hc h hq =>
    step_quiet hq call (hjit call hc)
  exact ⟨h, hr⟩

/-- The FSM state at the start of the RAM. -/
def ramEnv : Env layout.size := .plain (ramPlacement 104 (by decide))

theorem faithfulJit_ramEnv (flash : Policy → Nat → BitVec 8) (jit : Bool) :
    FaithfulJit flash jit ramEnv := fun _ _ => jitFaithful_plain _ _

/-! ## The channel-map filter -/

/-- The number of data channels that a channel map enables. -/
def enabledChannels (map : List (BitVec 8)) : Nat := Nat.count (Bits.bit map · = true) 37

/-- **The channel-map filter**: in every run, a `CONNECT_IND` gets the verdict that its channel map
deserves exactly when it enables fewer than two data channels. -/
theorem connectInd_filtered_iff (flash : Policy → Nat → BitVec 8) (jit : Bool)
    (calls : List (Env layout.size × Call))
    (hjit : ∀ call ∈ calls, FaithfulJit flash jit call.1) :
    ∃ h vs, runs step (.boot flash jit) calls = some (h, vs) ∧
      ∀ (n : Nat) (E : Env layout.size) (rxbuf : Nat → BitVec 8),
        calls[n]? = some (E, .adv 5 rxbuf) →
          ((vs[n]? = some .reject ↔ enabledChannels (chanMap rxbuf) < 2) ↔
            enabledChannels (chanMap rxbuf) < 2) := by
  obtain ⟨h, hr⟩ := runs_verdict flash jit calls hjit
  refine ⟨h, _, hr, fun n E rxbuf hn => ?_⟩
  rw [List.getElem?_map, hn]
  exact iff_true_left rfl

/-- A `CONNECT_IND` with all 37 channels enabled. -/
def connectCall : Env layout.size × Call :=
  (ramEnv, .adv 5 fun i => if i < 30 then 0 else if i < 34 then 0xff else 0x1f)

def noChannelsCall : Env layout.size × Call := (ramEnv, .adv 5 fun _ => 0)

theorem connectInd_filtered_iff_noChannels :
    ∃ h vs, runs step (.boot (fun _ _ => 0) true) [noChannelsCall] = some (h, vs) ∧
      ∀ (n : Nat) (E : Env layout.size) (rxbuf : Nat → BitVec 8),
        [noChannelsCall][n]? = some (E, .adv 5 rxbuf) →
          ((vs[n]? = some .reject ↔ enabledChannels (chanMap rxbuf) < 2) ↔
            enabledChannels (chanMap rxbuf) < 2) :=
  connectInd_filtered_iff (fun _ _ => 0) true [noChannelsCall] fun call h => by
    rw [List.mem_singleton.1 h]
    exact faithfulJit_ramEnv _ true

/-- The first `CONNECT_IND` after boot is rejected though it enables every channel. -/
theorem connectCall_rejected :
    (∃ h, runs step (.boot (fun _ _ => 0) false) [connectCall] = some (h, [.reject])) ∧
      enabledChannels (chanMap fun i => if i < 30 then 0 else if i < 34 then 0xff else 0x1f) = 37 :=
  ⟨runs_verdict (fun _ _ => 0) false [connectCall] fun _ _ h => absurd h (by decide), by decide⟩

/-! ## The key-size filter -/

/-- `max_enc_key_size` of a call that hands over a Pairing Request. -/
def Call.encKeySize : Call → Option (BitVec 8)
  | .smp om => pairingReq om
  | _ => none

/-- With verdicts `vs`, every accepted request after an accepted one with a nonzero key size has
the same size. -/
def KeepsKeySize (calls : List Call) (vs : List Verdict) : Prop :=
  ∀ (i j : Nat) (k k' : BitVec 8), i < j →
    calls[i]?.bind Call.encKeySize = some k → vs[i]? = some Verdict.pass → k ≠ 0 →
    calls[j]?.bind Call.encKeySize = some k' → vs[j]? = some Verdict.pass → k' = k

/-- Every request after one with a nonzero key size has the same size. -/
def SameKeySize (calls : List Call) : Prop :=
  ∀ (i j : Nat) (k k' : BitVec 8), i < j → calls[i]?.bind Call.encKeySize = some k → k ≠ 0 →
    calls[j]?.bind Call.encKeySize = some k' → k' = k

theorem verdict_of_encKeySize {calls : List Call} {n : Nat} {k : BitVec 8}
    (h : calls[n]?.bind Call.encKeySize = some k) : (calls.map verdict)[n]? = some .pass := by
  obtain ⟨call, hn, hk⟩ := Option.bind_eq_some_iff.1 h
  rw [List.getElem?_map, hn]
  cases call with
  | adv ptype rxbuf => cases hk
  | tx hdrByte omData => cases hk
  | smp om => rfl

/-- **The key-size filter** keeps the key size exactly in the runs whose requests do. -/
theorem keepsKeySize_iff (flash : Policy → Nat → BitVec 8) (jit : Bool)
    (calls : List (Env layout.size × Call))
    (hjit : ∀ call ∈ calls, FaithfulJit flash jit call.1) :
    ∃ h vs, runs step (.boot flash jit) calls = some (h, vs) ∧
      (KeepsKeySize (calls.map Prod.snd) vs ↔ SameKeySize (calls.map Prod.snd)) := by
  obtain ⟨h, hr⟩ := runs_verdict flash jit calls hjit
  rw [show (calls.map fun call => verdict call.2) = (calls.map Prod.snd).map verdict by
    rw [List.map_map]; rfl] at hr
  refine ⟨h, _, hr, ?_, ?_⟩
  · intro hkeep i j k k' hij hi hk hj
    exact hkeep i j k k' hij hi (verdict_of_encKeySize hi) hk hj (verdict_of_encKeySize hj)
  · intro hsame i j k k' hij hi _ hk hj _
    exact hsame i j k k' hij hi hk hj

/-- A Pairing Request with key size `k`. -/
def pairingCall (k : BitVec 8) : Env layout.size × Call :=
  (ramEnv, .smp [⟨fun i => if i = 4 then k else 1, 7⟩])

theorem keepsKeySize_iff_sixteen :
    ∃ h vs, runs step (.boot (fun _ _ => 0) true) [pairingCall 16, pairingCall 16] =
        some (h, vs) ∧
      (KeepsKeySize ([pairingCall 16, pairingCall 16].map Prod.snd) vs ↔
        SameKeySize ([pairingCall 16, pairingCall 16].map Prod.snd)) :=
  keepsKeySize_iff (fun _ _ => 0) true [pairingCall 16, pairingCall 16] fun call h => by
    rw [List.eq_of_mem_replicate (n := 2) h]
    exact faithfulJit_ramEnv _ true

/-- A request with key size 7 is accepted after one with key size 16. -/
theorem pairingCall_downgrade :
    (∃ h, runs step (.boot (fun _ _ => 0) false) [pairingCall 16, pairingCall 7] =
        some (h, [.pass, .pass])) ∧
      ¬ KeepsKeySize ([pairingCall 16, pairingCall 7].map Prod.snd) [.pass, .pass] := by
  refine ⟨runs_verdict (fun _ _ => 0) false [pairingCall 16, pairingCall 7] fun _ _ h =>
    absurd h (by decide), fun hkeep => ?_⟩
  exact absurd (hkeep 0 1 16 7 (by decide) rfl rfl (by decide) rfl rfl) (by decide)

end BlueSwat.Mynewt
