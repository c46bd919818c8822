import Mathlib.Data.List.ReduceOption
import BlueSwat.Lib.Reactive
import BlueSwat.Mynewt.Core
import BlueSwat.Mynewt.Proof.Parsers
import BlueSwat.Preempt.Proof.Cells
import BlueSwat.Preempt.Thread

/-!
# The registry of the Mynewt port is linearizable

Whenever hooks interrupt the thread that installs policies, their checks and the installations give
the answers of a registry on which each of them happens at one moment: a check when it is made, an
installation with its last store (`registry_linearizable`). `Follows` relates the memory to that
registry: between two installations they agree, and while one is under way the memory is what a part
of its stores makes of the memory before it.
-/

set_option autoImplicit false

namespace BlueSwat.Preempt

open Fsm LinkedList Reactive
open Mynewt (Addr FsmState layout port)

/-! ## Registries that installations lead to -/

/-- Every number in a list is that of a policy, and no list is longer than there are policies. -/
structure Good (store : PolicyStore) : Prop extends store.Ok port where
  lengths : ∀ e, (store.policyManager e).length ≤ port.pidNum + store.runtimePolicyCount

theorem Good.fuel {store : PolicyStore} (h : Good store) {fuel : Nat}
    (hf : port.pidNum + ifwMaxRuntimePolicies ≤ fuel) (e : Nat) :
    (store.policyManager e).length ≤ fuel := by
  have := h.lengths e
  have := h.count
  omega

/-- A runtime slot is filled, and its number is added to a list or not. -/
theorem Good.installSlot {store : PolicyStore} (h : Good store)
    (hroom : store.runtimePolicyCount < ifwMaxRuntimePolicies) (node : Bool) (cls : StateClass)
    (type : Nat) (slot : PolicyCache) :
    Good (installSlot port (Registry.registerPolicyIf node port) cls type slot store) := by
  cases node with
  | true =>
    rw [installSlot_registerPolicyIf h.init]
    refine ⟨h.toOk.installSlot hroom, fun e => ?_⟩
    have hlen := h.lengths e
    rw [policyManager_installSlot h.toOk, List.length_append]
    show _ ≤ port.pidNum + (store.runtimePolicyCount + 1)
    split <;> simp <;> omega
  | false =>
    have hreg : Fsm.installSlot port (Registry.registerPolicyIf false port) cls type slot store =
        ⟨{ store.toRegistry with
            runtimePolicyArr := fun i =>
              if i = store.runtimePolicyCount then slot else store.runtimePolicyArr i },
          store.runtimePolicyCount + 1⟩ := by
      simp [Fsm.installSlot, Registry.registerPolicyIf, h.init]
    rw [hreg]
    refine ⟨⟨h.init, hroom, fun e pid hpid => ?_⟩, fun e => ?_⟩
    · have := h.pids e pid hpid
      push_cast
      omega
    · have hlen : (store.policyManager e).length ≤ _ := h.lengths e
      show (store.policyManager e).length ≤ port.pidNum + (store.runtimePolicyCount + 1)
      omega

theorem Good.atomic {store : PolicyStore} (h : Good store) (op : InstallOp) :
    Good (op.atomic store).1 := by
  obtain ⟨cls, code, block, hacc, -, heq⟩ | ⟨hsame, -⟩ := ifwInstallPolicy_cases port layout.size
    (Registry.registerPolicyIf op.block.isSome port) op.copy op.call store
  · rw [InstallOp.atomic, heq]
    exact h.installSlot hacc.room _ _ _ _
  · rw [InstallOp.atomic, hsame]
    exact h

/-! ## The relation -/

/-- The thread is at the registry `store`, or on its way from it. -/
inductive Follows (fuel : Nat) (store : PolicyStore) : Thread → Prop
  | rests {nodes : Nat → List (Addr × Int)} {c : Cells} (h : Rests store nodes c) :
      Follows fuel store ⟨c, none⟩
  | going {nodes : Nat → List (Addr × Int)} {c : Cells} {op : InstallOp} {rc : Int}
      {done : List Store} {s : Store} {rest : List Store}
      (stores : op.stores fuel c = some (done ++ s :: rest, rc)) (ret : rc = (op.atomic store).2)
      (atomic : Atomic store (op.atomic store).1 nodes c (done ++ s :: rest)) :
      Follows fuel store ⟨c.run done, some (op, rc, s :: rest)⟩

section
variable {fuel : Nat} {store : PolicyStore} {t : Thread}

theorem Follows.partly (h : Follows fuel store t) : ∃ nodes, Partly store nodes t.cells := by
  cases h with
  | rests h => exact ⟨_, h.toPartly⟩
  | @going nodes c op rc done s rest stores ret atomic =>
    have hp := atomic.before done.length (by simp)
    rw [List.take_left] at hp
    exact ⟨nodes, hp⟩

/-- A check sees the registry. -/
theorem Follows.check (h : Follows fuel store t) (hg : Good store)
    (hf : port.pidNum + ifwMaxRuntimePolicies ≤ fuel) (k : Check) :
    t.cells.check fuel k =
      runFsmCheckPolicy layout port store.toRegistry k.E k.type k.cls k.s := by
  obtain ⟨nodes, hp⟩ := h.partly
  exact runFsmCheckPolicy_shows (hp.shows hg.toOk) (hg.fuel hf) k.E k.type k.cls k.s

/-- What one event does: nothing that is seen, or what the registry does at this moment. -/
def Matched (fuel : Nat) (store : PolicyStore) (t : Thread) (e : Event) : Prop :=
  ((t.step fuel e).2 = none ∧ t.point fuel e = none ∧ Follows fuel store (t.step fuel e).1) ∨
    ∃ ae, (t.step fuel e).2 = some (atomicStep store ae).2 ∧ t.point fuel e = some ae ∧
      Follows fuel (atomicStep store ae).1 (t.step fuel e).1

theorem matched_install (h : Follows fuel store t) (hg : Good store)
    (hf : port.pidNum + ifwMaxRuntimePolicies ≤ fuel) (op : InstallOp)
    (hfresh : ∀ a node, t.busy = none → op.block = some (a, node) → t.cells.heap a = none) :
    Matched fuel store t (.install op) := by
  cases h with
  | going stores ret atomic => exact .inl ⟨rfl, rfl, .going stores ret atomic⟩
  | @rests nodes c h =>
    obtain ⟨stores, rc, hst, hrc, hatomic⟩ :=
      @mynewt_atomic port store nodes c fuel layout.size op.copy op.call op.block h hg.init
        (hg.fuel hf) fun a node hb => hfresh a node rfl hb
    have hst' : op.stores fuel c = some (stores, rc) := hst
    cases stores with
    | nil =>
      refine .inr ⟨.install op, ?_, ?_, ?_⟩ <;>
        simp only [Thread.step, Thread.point, hst', atomicStep]
      · rw [hrc]
        rfl
      · obtain ⟨nodes', h'⟩ := hatomic.after
        exact .rests h'
    | cons s rest =>
      refine .inl ⟨?_, ?_, ?_⟩ <;> simp only [Thread.step, Thread.point, hst']
      exact @Follows.going fuel store nodes c op rc [] s rest hst' hrc hatomic

theorem matched_store (h : Follows fuel store t) : Matched fuel store t .store := by
  cases h with
  | rests h => exact .inl ⟨rfl, rfl, .rests h⟩
  | @going nodes c op rc done s rest stores ret atomic =>
    have hrun : (c.run done).store s = c.run (done ++ [s]) := by
      rw [Cells.run_append]
      rfl
    cases rest with
    | nil =>
      refine .inr ⟨.install op, ?_, rfl, ?_⟩
      · show some (Seen.installed rc) = some (.installed (op.atomic store).2)
        rw [ret]
      · obtain ⟨nodes', h'⟩ := atomic.after
        show Follows fuel (op.atomic store).1 ⟨(c.run done).store s, none⟩
        rw [hrun]
        exact .rests h'
    | cons s' rest =>
      refine .inl ⟨rfl, rfl, ?_⟩
      show Follows fuel store ⟨(c.run done).store s, some (op, rc, s' :: rest)⟩
      rw [hrun]
      rw [List.append_cons] at stores atomic
      exact .going stores ret atomic

/-- **One event.** -/
theorem matched (h : Follows fuel store t) (hg : Good store)
    (hf : port.pidNum + ifwMaxRuntimePolicies ≤ fuel) (e : Event)
    (hfresh : ∀ op a node, e = .install op → t.busy = none → op.block = some (a, node) →
      t.cells.heap a = none) : Matched fuel store t e := by
  cases e with
  | install op => exact matched_install h hg hf op fun a node => hfresh op a node rfl
  | store => exact matched_store h
  | check k =>
    refine .inr ⟨.check k, ?_, rfl, h⟩
    show some (Seen.checked (t.cells.check fuel k)) = _
    rw [h.check hg hf]
    rfl

theorem Good.step (hg : Good store) (ae : AtomicEvent) : Good (atomicStep store ae).1 := by
  cases ae with
  | install op => exact hg.atomic op
  | check k => exact hg

theorem follows_linear (hf : port.pidNum + ifwMaxRuntimePolicies ≤ fuel) {es : List Event}
    (h : Follows fuel store t) (hg : Good store) (hfresh : t.Fresh fuel es) :
    (totalRuns (Thread.step fuel) t es).2.reduceOption =
      (totalRuns atomicStep store (t.points fuel es)).2 := by
  induction es generalizing t store with
  | nil => rfl
  | cons e es ih =>
    rw [totalRuns_cons, Thread.points]
    rcases matched h hg hf e hfresh.1 with ⟨hseen, hpoint, h'⟩ | ⟨ae, hseen, hpoint, h'⟩
    · rw [hseen, hpoint, List.reduceOption_cons_of_none]
      exact ih h' hg hfresh.2
    · rw [hseen, hpoint, List.reduceOption_cons_of_some]
      exact congrArg _ (ih h' (hg.step ae) hfresh.2)

end

/-- **The registry is linearizable**: whatever the order in which the thread does its stores and
hooks interrupt it, checks and installations are answered as by a registry on which each check
happens when it is made and each installation when it returns. -/
theorem registry_linearizable {fuel : Nat} {store : PolicyStore}
    {nodes : Nat → List (Addr × Int)} {c : Cells} (h : Rests store nodes c) (hg : Good store)
    (hf : port.pidNum + ifwMaxRuntimePolicies ≤ fuel) {es : List Event}
    (hfresh : Thread.Fresh fuel ⟨c, none⟩ es) :
    (totalRuns (Thread.step fuel) ⟨c, none⟩ es).2.reduceOption =
      (totalRuns atomicStep store (Thread.points fuel ⟨c, none⟩ es)).2 :=
  follows_linear hf (.rests h) hg hfresh

/-! ## After boot -/

/-- The registry after `ifw_fsm_enable(false)`. -/
def bootStore (flash : Mynewt.Policy → Nat → BitVec 8) : PolicyStore :=
  ⟨Mynewt.ifwFsmEnable flash false .boot, 0⟩

/-- The three nodes of the compiled-in policies. -/
def bootNodes (e : Nat) : List (Addr × Int) :=
  if e = 8 then [(0x100, 0)] else if e = 14 then [(0x200, 1), (0x300, 2)] else []

def bootCells (flash : Mynewt.Policy → Nat → BitVec 8) : Cells where
  policyMgrInit := true
  policy := fun e => if e = 8 then some 0x100 else if e = 14 then some 0x200 else none
  heap := fun a =>
    if a = 0x100 then some ⟨none, 0⟩ else if a = 0x200 then some ⟨some 0x300, 1⟩
    else if a = 0x300 then some ⟨none, 2⟩ else none
  policyArr := (bootStore flash).policyArr
  runtimePolicyArr := (bootStore flash).runtimePolicyArr
  runtimePolicyCount := 0

theorem policyManager_bootStore (flash : Mynewt.Policy → Nat → BitVec 8) (e : Nat) :
    (bootStore flash).policyManager e = (bootNodes e).map Prod.snd := by
  by_cases h8 : e = 8
  · subst h8
    rfl
  by_cases h14 : e = 14
  · subst h14
    rfl
  rw [bootNodes, if_neg h8, if_neg h14]
  exact (if_neg h14).trans ((if_neg h14).trans (if_neg h8))

theorem bootNodes_entry {e : Nat} {a : Addr} (h : a ∈ addrs (bootNodes e)) :
    e = if a = 0x100 then 8 else 14 := by
  unfold bootNodes at h
  split at h
  · rename_i he
    rw [List.mem_singleton.1 h]
    exact he
  · split at h
    · rename_i he
      simp only [addrs_cons, addrs_nil, List.mem_cons, List.not_mem_nil, or_false] at h
      rcases h with rfl | rfl <;> exact he
    · cases h

theorem rests_boot (flash : Mynewt.Policy → Nat → BitVec 8) :
    Rests (bootStore flash) bootNodes (bootCells flash) where
  init := rfl
  lists := by
    refine ⟨fun e => ?_, fun e e' hne a ha ha' => ?_⟩
    · by_cases h8 : e = 8
      · subst h8
        exact ⟨rfl, none, rfl, rfl⟩
      by_cases h14 : e = 14
      · subst h14
        exact ⟨rfl, some 0x300, rfl, rfl, none, rfl, rfl⟩
      · rw [bootNodes, if_neg h8, if_neg h14]
        exact (if_neg h8).trans (if_neg h14)
    · exact hne ((bootNodes_entry ha).trans (bootNodes_entry ha').symm)
  pids := fun e => (policyManager_bootStore flash e).symm
  arr := rfl
  slots := fun _ _ => rfl
  allSlots := rfl
  count := rfl

theorem good_boot (flash : Mynewt.Policy → Nat → BitVec 8) : Good (bootStore flash) where
  init := rfl
  count := Nat.zero_le _
  pids := by
    intro e pid hpid
    show 0 ≤ pid ∧ pid < (3 : Int)
    rw [policyManager_bootStore] at hpid
    unfold bootNodes at hpid
    split at hpid
    · rw [List.mem_singleton.1 hpid]
      decide
    · split at hpid
      · simp only [List.map_cons, List.map_nil, List.mem_cons, List.not_mem_nil, or_false] at hpid
        rcases hpid with rfl | rfl <;> decide
      · cases hpid
  lengths := by
    intro e
    show _ ≤ 3
    rw [policyManager_bootStore, List.length_map]
    unfold bootNodes
    split
    · decide
    · split <;> decide

/-- Where nothing is installed, no block is handed out. -/
theorem fresh_of_no_install {fuel : Nat} {t : Thread} {es : List Event}
    (h : ∀ op, .install op ∉ es) : t.Fresh fuel es := by
  induction es generalizing t with
  | nil => trivial
  | cons e es ih =>
    refine ⟨fun op a node he => ?_, ih fun op hm => h op (List.mem_cons_of_mem _ hm)⟩
    exact absurd (he ▸ List.mem_cons_self) (h op)

/-- A policy of two instructions for the key size. -/
def keySizeOp : InstallOp where
  call := ⟨3, 2, some (Ebpf.codeBytes [0xb7, 0, 0, 0, 1, 0, 0, 0, 0x95, 0, 0, 0, 0, 0, 0, 0]
    fun _ => 0), 16⟩
  copy := some fun _ => 0
  block := some (0x400, ⟨some 0x100, 7⟩)

/-- A check of the key size. -/
def keySizeCheck : Check := ⟨Mynewt.ramEnv, 2, .dc, fun _ => 0⟩

/-- The installation is interrupted before its last store, and a check is made behind it. -/
def interrupted : List Event :=
  .install keySizeOp :: List.replicate 7 .store ++
    [.check keySizeCheck, .store, .check keySizeCheck]

theorem registry_linearizable_interrupted :
    Rests (bootStore fun _ _ => 0) bootNodes (bootCells fun _ _ => 0) ∧
      Thread.Fresh 11 ⟨bootCells fun _ _ => 0, none⟩ interrupted ∧
      (totalRuns (Thread.step 11) ⟨bootCells fun _ _ => 0, none⟩ interrupted).2.reduceOption =
        (totalRuns atomicStep (bootStore fun _ _ => 0)
          (Thread.points 11 ⟨bootCells fun _ _ => 0, none⟩ interrupted)).2 := by
  have hfresh : Thread.Fresh 11 ⟨bootCells fun _ _ => 0, none⟩ interrupted := by
    refine ⟨fun op a node he _ hb => ?_, fresh_of_no_install fun op hm => ?_⟩
    · cases he
      cases hb
      rfl
    · simp at hm
  exact ⟨rests_boot _, hfresh, registry_linearizable (rests_boot _) (good_boot _)
    (by decide) hfresh⟩

end BlueSwat.Preempt
