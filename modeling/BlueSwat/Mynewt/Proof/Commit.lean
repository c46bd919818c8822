import BlueSwat.Mynewt.Proof.Parsers
import BlueSwat.Mynewt.Proof.Registry

/-!
# Check and commit on Mynewt

`ifw_fsm_check_update` stages the proposed value on a copy of the committed state, runs the policies
of the slot on the copy, and commits the value only when they pass (`checkUpdate_checked`). A core
state is committed only below its sentinel, so over any sequence of calls no core state gets above
it (`reached_bounded`).
-/

set_option autoImplicit false

namespace BlueSwat.Mynewt

open Fsm Reactive

/-- The committed state with one slot replaced. -/
def proposed (c : Core) (slot : Slot) (state : BitVec 16) : FsmState :=
  Function.update c.curFSMState slot (state.setWidth 32)

/-- What a call of `ifw_fsm_check_update` has done when it returns a verdict and leaves a core: it
has rejected by the ranges, or run the policies of the slot on the proposed state and kept or
replaced the committed one. -/
inductive Checked (reg : Registry) (E : Env layout.size) (state type cls : BitVec 16) (c : Core) :
    Verdict → Core → Prop
  | range {c' : Core}
      (hr : ∀ slot, slotAt cls type = some slot → inRange state slot = false)
      (hc : c'.curFSMState = c.curFSMState) : Checked reg E state type cls c .reject c'
  | policy {slot : Slot} {c' : Core} (hs : slotAt cls type = some slot)
      (hr : inRange state slot = true)
      (hran : RanAll layout port reg E (proposed c slot state) (slotList reg slot) .reject)
      (hc : c'.curFSMState = c.curFSMState) : Checked reg E state type cls c .reject c'
  | commit {slot : Slot} {c' : Core} (hs : slotAt cls type = some slot)
      (hr : inRange state slot = true)
      (hran : RanAll layout port reg E (proposed c slot state) (slotList reg slot) .pass)
      (hc : c'.curFSMState = proposed c slot state) : Checked reg E state type cls c .pass c'

section
variable {reg : Registry} {E : Env layout.size} {state type cls : BitVec 16} {c c' : Core}
  {v : Verdict}

/-- What `ifw_fsm_check_update` can do, whatever the policies are. -/
theorem checkUpdate_cases (h : ifwFsmCheckUpdate reg E state type cls c = some (v, c')) :
    (v = .reject ∧ c'.curFSMState = c.curFSMState ∧
        ∀ slot, slotAt cls type = some slot → inRange state slot = false) ∨
      ∃ slot new, slotAt cls type = some slot ∧ inRange state slot = true ∧
        runFsmCheckPolicy layout port reg E slot.type slot.cls (proposed c slot state) =
          some (v, new) ∧
        c'.curFSMState = (if v = .pass then proposed c slot state else c.curFSMState) := by
  unfold ifwFsmCheckUpdate at h
  cases hs : slotAt cls type with
  | none =>
    rw [hs] at h
    cases h
    exact .inl ⟨rfl, rfl, by simp⟩
  | some slot =>
    simp only [hs] at h
    split at h
    · next hr =>
      cases h
      refine .inl ⟨rfl, rfl, fun slot' h' => ?_⟩
      cases h'
      exact hr
    · next hr =>
      obtain ⟨⟨w, new⟩, hrun, he⟩ := Option.map_eq_some_iff.1 h
      refine .inr ⟨slot, new, rfl, by simpa using hr, ?_⟩
      cases w with
      | reject =>
        cases he
        exact ⟨hrun, rfl⟩
      | pass =>
        cases he
        refine ⟨hrun, ?_⟩
        simp only [ifwFsmStateUpdate, hs, ifwStageRefresh, if_true]
        rfl

theorem checkUpdate_checked
    (hread : ∀ slot, ∀ pid ∈ slotList reg slot, Reader layout port reg E pid)
    (h : ifwFsmCheckUpdate reg E state type cls c = some (v, c')) :
    Checked reg E state type cls c v c' := by
  rcases checkUpdate_cases h with ⟨rfl, hc, hr⟩ | ⟨slot, new, hs, hr, hrun, hc⟩
  · exact .range hr hc
  · have hran := runFsmCheckPolicy_ran (by decide) (hread slot) hrun
    cases v with
    | reject => exact .policy hs hr hran hc
    | pass => exact .commit hs hr hran hc

/-- Where the policies return, so does the call. -/
theorem checkUpdate_returns
    (hread : ∀ slot, ∀ pid ∈ slotList reg slot, Reader layout port reg E pid)
    (hret : ∀ slot, ∀ pid ∈ slotList reg slot, ∀ M,
      layout.Holds M E.place.mem (proposed c slot state) →
        (runFsmEbpfPolicy port reg E pid M).isSome = true) :
    (ifwFsmCheckUpdate reg E state type cls c).isSome = true := by
  unfold ifwFsmCheckUpdate
  split
  · rfl
  · rename_i slot _
    split
    · rfl
    · rw [Option.isSome_map, runFsmCheckPolicy, Option.isSome_map]
      exact runPolicyList_returns (hread slot) (hret slot) (Record.holds_image (by decide))

end

/-! ## Sequences of calls -/

/-- One call, with the policies that are registered then. -/
structure Proposal where
  reg : Registry
  env : Env layout.size
  state : BitVec 16
  type : BitVec 16
  cls : BitVec 16

def propose (c : Core) (p : Proposal) : Option (Core × Verdict) :=
  (ifwFsmCheckUpdate p.reg p.env p.state p.type p.cls c).map Prod.swap

/-- No core state is above its sentinel. -/
def Bounded (c : Core) : Prop := ∀ t, (c.curFSMState (.core t)).toNat ≤ ifwCoreStateNum t

theorem bounded_init (c : Core) : Bounded (ifwFsmInit c) := by
  intro t
  show (BitVec.ofNat 32 (ifwCoreStateNum t)).toNat ≤ ifwCoreStateNum t
  rw [BitVec.toNat_ofNat]
  exact Nat.mod_le _ _

theorem Bounded.propose {c c' : Core} (h : Bounded c) {p : Proposal} {v : Verdict}
    (hp : propose c p = some (c', v)) : Bounded c' := by
  obtain ⟨⟨w, d⟩, hcheck, he⟩ := Option.map_eq_some_iff.1 hp
  cases he
  rcases checkUpdate_cases hcheck with ⟨-, hc, -⟩ | ⟨slot, new, -, hr, -, hc⟩
  · intro t
    rw [hc]
    exact h t
  · intro t
    rw [hc]
    split
    · by_cases hs : .core t = slot
      · subst hs
        have hlt : p.state.toNat < ifwCoreStateNum t := by simpa [inRange] using hr
        rw [proposed, Function.update_self, BitVec.toNat_setWidth]
        exact Nat.le_trans (Nat.mod_le _ _) (Nat.le_of_lt hlt)
      · rw [proposed, Function.update_of_ne hs]
        exact h t
    · exact h t

theorem reached_bounded {c c' : Core} (h : Bounded c) (hr : Reached propose c c') : Bounded c' :=
  hr.inv h fun _ _ _ _ ha hp => ha.propose hp

/-- **Check-then-commit is atomic**, for policies that do not modify the state they are given: a
call that returns has run the policies of the slot on the committed state with the one slot
replaced, and has replaced it exactly when it passes; it returns where they do. No sequence of calls
brings a core state above its sentinel. -/
theorem checkUpdate_atomic (reg : Registry) (E : Env layout.size)
    (hread : ∀ slot, ∀ pid ∈ slotList reg slot, Reader layout port reg E pid)
    (state type cls : BitVec 16) (c : Core) :
    (∀ v c', ifwFsmCheckUpdate reg E state type cls c = some (v, c') →
        Checked reg E state type cls c v c') ∧
      ((∀ slot, ∀ pid ∈ slotList reg slot, ∀ M,
          layout.Holds M E.place.mem (proposed c slot state) →
            (runFsmEbpfPolicy port reg E pid M).isSome = true) →
        (ifwFsmCheckUpdate reg E state type cls c).isSome = true) ∧
      Bounded (ifwFsmInit c) ∧ ∀ c0 c', Bounded c0 → Reached propose c0 c' → Bounded c' :=
  ⟨fun _ _ h => checkUpdate_checked hread h, checkUpdate_returns hread, bounded_init c,
    fun _ _ => reached_bounded⟩

/-- The shipped policies do not modify the state. -/
theorem shipped_reader (flash : Policy → Nat → BitVec 8) {E : Env layout.size} (slot : Slot) :
    ∀ pid ∈ slotList (ifwFsmEnable flash false .boot) slot,
      Reader layout port (ifwFsmEnable flash false .boot) E pid := by
  intro pid hpid
  rw [slotList, policyManager_boot] at hpid
  obtain ⟨p, -, rfl⟩ := List.mem_map.1 hpid
  exact (answers_boot flash false (fun h => by cases h) p).reader

/-- With the shipped policies: a link-layer state of 3 proposed after `ifw_fsm_init`. -/
theorem checkUpdate_atomic_llState :
    (∀ slot, ∀ pid ∈ slotList (ifwFsmEnable (fun _ _ => 0) false .boot) slot,
        Reader layout port (ifwFsmEnable (fun _ _ => 0) false .boot) ramEnv pid) ∧
      ∀ v c', ifwFsmCheckUpdate (ifwFsmEnable (fun _ _ => 0) false .boot) ramEnv 3 0 1
          (ifwFsmInit .boot) = some (v, c') →
        Checked (ifwFsmEnable (fun _ _ => 0) false .boot) ramEnv 3 0 1 (ifwFsmInit .boot) v c' :=
  ⟨fun slot => shipped_reader _ slot,
    (checkUpdate_atomic _ ramEnv (fun slot => shipped_reader _ slot) 3 0 1 (ifwFsmInit .boot)).1⟩

end BlueSwat.Mynewt
