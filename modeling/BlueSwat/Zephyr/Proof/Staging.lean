import BlueSwat.Zephyr.Proof.Refinement

/-!
# The staged state

`ifw_fsm_check_update` is to stage an update on a copy of the committed state, taken at the first
update after a verifier run or a commit. The test of `fsm_new_init` is the wrong way round, so the
copy is never taken: the staged state keeps what earlier updates and policies left in it.
`stagingLaw_iff`: the verifier is handed the committed state with the updates of its window exactly
when the slots that the window leaves alone agree before it.
-/

set_option autoImplicit false

namespace BlueSwat.Zephyr

open Fsm Reactive

/-! ## Overlays -/

/-- The updates `w`, in order, on top of `s`. -/
def FsmState.overlay (s : FsmState) (w : List (Slot × BitVec 16)) : FsmState :=
  w.foldl (fun s u => s.set u.1 u.2) s

theorem FsmState.overlay_eq_iff {s t : FsmState} {w : List (Slot × BitVec 16)} :
    s.overlay w = t.overlay w ↔ ∀ i, (∀ u ∈ w, u.1 ≠ i) → s i = t i := by
  induction w generalizing s t with
  | nil => simp [overlay, funext_iff]
  | cons u w ih =>
    have hcons : ∀ s : FsmState, s.overlay (u :: w) = (s.set u.1 u.2).overlay w := fun _ => rfl
    rw [hcons, hcons, ih]
    constructor
    · intro h i hi
      have hne : i ≠ u.1 := (hi u List.mem_cons_self).symm
      have hi' := h i fun v hv => hi v (List.mem_cons_of_mem u hv)
      rwa [set_ne _ _ hne, set_ne _ _ hne] at hi'
    · intro h i hi
      by_cases hiu : i = u.1
      · subst hiu
        simp
      · rw [set_ne _ _ hiu, set_ne _ _ hiu]
        refine h i fun v hv => ?_
        rcases List.mem_cons.1 hv with rfl | hv
        · exact Ne.symm hiu
        · exact hi v hv

/-! ## Windows -/

def checkCall (u : Slot × BitVec 16) : CoreCall := .checkUpdate u.2 u.1

def CoreCall.isCheck : CoreCall → Bool
  | .checkUpdate _ _ => true
  | _ => false

/-- In `calls`, the check-updates `w` are those between the calls `pre`, which end with a verifier
run or a commit if there are any, and a verifier run. -/
structure Window (calls pre : List CoreCall) (w : List (Slot × BitVec 16)) : Prop where
  start : ∀ call ∈ pre.getLast?, call.isCheck = false
  ends : ∃ reg E slot post, calls = pre ++ w.map checkCall ++ .runVerifier reg E slot :: post
  nonempty : w ≠ []

/-- The verifier runs of `calls`, made after `ifw_fsm_init`, are handed the committed state with the
updates of their windows. -/
def StagingLaw (calls : List CoreCall) : Prop :=
  ∀ pre w, Window calls pre w → ∀ c vs,
    runs coreStep (ifwFsmInit .boot) (pre ++ w.map checkCall) = some (c, vs) →
      c.newFSMState = c.curFSMState.overlay w

/-! ## Runs of the core -/

theorem fsmNewInit_of_reached {c : Core} (h : Reached coreStep (ifwFsmInit .boot) c) :
    c.fsmNewInit = false := by
  have hstep : ∀ (a : Core) (call : CoreCall) (b : Core) (o : Option Verdict),
      a.fsmNewInit = false → coreStep a call = some (b, o) → b.fsmNewInit = false := by
    intro a call b o ha hs
    cases call with
    | stateUpdate state slot =>
      cases hs
      rfl
    | checkUpdate state slot =>
      cases hs
      simp [ifwFsmCheckUpdate, ha]
    | runVerifier reg E slot =>
      rw [coreStep, ifwRunVerifier, Option.map_map, Option.map_eq_some_iff] at hs
      obtain ⟨p, -, hp⟩ := hs
      cases hp
      rfl
  have h0 : (ifwFsmInit .boot).fsmNewInit = false := rfl
  exact h.inv h0 hstep

/-- Check-updates are written over what the staged state holds. -/
theorem runs_checkCalls {c : Core} (hc : c.fsmNewInit = false) (w : List (Slot × BitVec 16)) :
    ∃ vs, runs coreStep c (w.map checkCall) =
      some ({ c with newFSMState := c.newFSMState.overlay w }, vs) := by
  induction w generalizing c with
  | nil => exact ⟨[], rfl⟩
  | cons u w ih =>
    have hstep : coreStep c (checkCall u) =
        some ({ c with newFSMState := c.newFSMState.set u.1 u.2 }, none) := by
      simp [coreStep, checkCall, ifwFsmCheckUpdate, hc]
    obtain ⟨vs, hvs⟩ := @ih { c with newFSMState := c.newFSMState.set u.1 u.2 } hc
    refine ⟨none :: vs, ?_⟩
    rw [List.map_cons, runs_cons hstep, hvs]
    rfl

/-- **When the staging law holds**: before every window, the staged and the committed state agree on
the slots that the window does not update. -/
theorem stagingLaw_iff (calls : List CoreCall) :
    StagingLaw calls ↔ ∀ pre w, Window calls pre w → ∀ c vs,
      runs coreStep (ifwFsmInit .boot) pre = some (c, vs) →
        ∀ i, (∀ u ∈ w, u.1 ≠ i) → c.newFSMState i = c.curFSMState i := by
  refine forall_congr' fun pre => forall_congr' fun w => forall_congr' fun _ => ?_
  constructor
  · intro h c vs hr
    obtain ⟨vs', hw⟩ := runs_checkCalls (fsmNewInit_of_reached ⟨pre, vs, hr⟩) w
    have hall := h _ (vs ++ vs') (by rw [runs_append, hr, Option.bind_some, hw]; rfl)
    exact FsmState.overlay_eq_iff.1 hall
  · intro h c vs hr
    rw [runs_append, Option.bind_eq_some_iff] at hr
    obtain ⟨⟨c0, vs0⟩, hr0, hr⟩ := hr
    obtain ⟨vs', hw⟩ := runs_checkCalls (fsmNewInit_of_reached ⟨pre, vs0, hr0⟩) w
    rw [hw] at hr
    cases hr
    exact FsmState.overlay_eq_iff.2 (h c0 vs0 hr0)

/-- The first check after boot: a data-channel slot is updated and verified. -/
def firstCheck : List CoreCall :=
  [.checkUpdate 0 (.dc .nesn),
    .runVerifier (ifwFsmEnable (fun _ _ => 0) false .boot) ramEnv (.dc .nesn)]

/-- The verifier is handed core states 0, and not the committed ones. -/
theorem firstCheck_not_staged :
    (∃ c, runs coreStep (ifwFsmInit .boot) (firstCheck.take 1) = some (c, [none]) ∧
      c.newFSMState (.core .llState) = 0 ∧ c.curFSMState (.core .llState) = 7) ∧
    ¬ StagingLaw firstCheck := by
  refine ⟨⟨_, rfl, rfl, rfl⟩, fun h => ?_⟩
  have hw : Window firstCheck [] [(.dc .nesn, 0)] :=
    ⟨by simp, ⟨_, _, _, [], rfl⟩, by simp⟩
  have hc := congrFun (h [] _ hw _ _ rfl) (.core .llState)
  revert hc
  decide

end BlueSwat.Zephyr
