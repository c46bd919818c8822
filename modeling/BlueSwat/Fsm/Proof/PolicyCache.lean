import BlueSwat.Ebpf.Proof.Exec
import BlueSwat.Fsm.PolicyCache

/-!
# What the dispatcher answers

`Implements L code f`: on every struct, wherever it lies in memory, the bytecode `code` returns
the verdict `f` and leaves memory alone. `runFsmCheckPolicy_answers`: where every policy of a slot
implements some `f`, and is interpreted or faithfully compiled (`Answers`), the dispatcher rejects
exactly when one of these does, and the struct is unchanged.

Of policies that only read the struct (`Reader`) less is said: the dispatcher runs them on the
struct it was given, one after another up to the first that rejects (`runFsmCheckPolicy_ran`).
-/

set_option autoImplicit false

namespace BlueSwat.Fsm

open Ebpf Machine Record

variable {ι : Type} [DecidableEq ι]

/-- On memory that holds the struct `s`, `code` returns `f s` and leaves memory alone. -/
def Implements (L : Layout ι) (code : Nat → BitVec 8) (f : (ι → BitVec 32) → Verdict) : Prop :=
  ∀ (P : Placement L.size) (M : Mem) (memLen : BitVec 32) (s : ι → BitVec 32),
    L.Holds M P.mem s →
      Returns P.host code P.mem memLen ifwRuntimeMaxInsts (initState P.host M P.mem) (f s).code

variable {L : Layout ι} {port : Port} {reg : Registry} {E : Env L.size}

theorem Verdict.code_inj {v w : Verdict} (h : v.code = w.code) : v = w := by
  cases v <;> cases w <;> revert h <;> decide

theorem initState_mem_holds (P : Placement L.size) {M : Mem} {s : ι → BitVec 32}
    (h : L.Holds M P.mem s) : L.Holds (initState P.host M P.mem).mem P.mem s :=
  h.congr fun a ha => if_neg (P.separate a ha)

/-- The code that the JIT makes of the policy `slot` returns what the policy implements. -/
def Env.JitFaithful (L : Layout ι) (E : Env L.size) (slot : PolicyCache) : Prop :=
  ∀ f : (ι → BitVec 32) → Verdict, Implements L slot.code f →
    ∀ (M : Mem) (s : ι → BitVec 32), L.Holds M E.place.mem s →
      ∃ M', E.jitFunc slot M = some ((f s).code, M') ∧ L.Holds M' E.place.mem s

/-- Policy `pid` of the registry implements `f`, and is interpreted or faithfully compiled. -/
def Answers (L : Layout ι) (port : Port) (reg : Registry) (E : Env L.size) (pid : Int)
    (f : (ι → BitVec 32) → Verdict) : Prop :=
  ∃ slot, reg.getPolicySlot port pid = some slot ∧ slot.size ≠ 0 ∧
    (slot.jit = true → E.JitFaithful L slot) ∧ Implements L slot.code f

theorem runFsmEbpfPolicy_answers {pid : Int} {f : (ι → BitVec 32) → Verdict} {M : Mem}
    {s : ι → BitVec 32} (hf : Answers L port reg E pid f) (hM : L.Holds M E.place.mem s) :
    ∃ M', runFsmEbpfPolicy port reg E pid M = some ((f s).code, M') ∧
      L.Holds M' E.place.mem s := by
  obtain ⟨slot, hslot, hsize, hjit, himp⟩ := hf
  simp only [runFsmEbpfPolicy, hslot, if_neg hsize]
  by_cases hj : slot.jit = true
  · rw [if_pos hj]
    exact hjit hj f himp M s hM
  · obtain ⟨s', hr, hmem⟩ := (himp E.place M 64 s hM).mono E.enough
    refine ⟨s'.mem, ?_, hmem ▸ initState_mem_holds E.place hM⟩
    simp only [if_neg hj, ebpfVmExec, hr, Option.bind_some, Ret.value, Option.map_some]

/-- A run of policy `pid` on memory that holds a struct `s` returns `g s` and keeps the struct. -/
def Yields (L : Layout ι) (port : Port) (reg : Registry) (E : Env L.size) (pid : Int)
    (g : (ι → BitVec 32) → BitVec 64) : Prop :=
  ∀ {M : Mem} {s : ι → BitVec 32}, L.Holds M E.place.mem s →
    ∃ M', runFsmEbpfPolicy port reg E pid M = some (g s, M') ∧ L.Holds M' E.place.mem s

/-- **The loop over the policies of a slot** rejects iff one of them returns `REJECT`. -/
theorem runPolicyList_yields {s : ι → BitVec 32} {pids : List Int}
    {gs : List ((ι → BitVec 32) → BitVec 64)}
    (h : List.Forall₂ (Yields L port reg E) pids gs) :
    ∀ {M : Mem}, L.Holds M E.place.mem s →
      ∃ M', runPolicyList port reg E pids M =
          some (.rejectIf (gs.any fun g => g s == Verdict.reject.code), M') ∧
        L.Holds M' E.place.mem s := by
  induction h with
  | nil => exact fun {M} hM => ⟨M, rfl, hM⟩
  | @cons pid g pids gs hg _ ih =>
    intro M hM
    obtain ⟨M1, hrun, hM1⟩ := hg hM
    by_cases hr : g s = Verdict.reject.code
    · exact ⟨M1, by simp [runPolicyList, hrun, hr, Verdict.rejectIf], hM1⟩
    · obtain ⟨M', hrest, hM'⟩ := ih hM1
      refine ⟨M', ?_, hM'⟩
      simp [runPolicyList, hrun, hrest, hr, beq_false_of_ne hr]

theorem runPolicyList_answers {s : ι → BitVec 32} {pids : List Int}
    {fs : List ((ι → BitVec 32) → Verdict)} (h : List.Forall₂ (Answers L port reg E) pids fs)
    {M : Mem} (hM : L.Holds M E.place.mem s) :
    ∃ M', runPolicyList port reg E pids M =
        some (.rejectIf (fs.any fun f => f s == .reject), M') ∧ L.Holds M' E.place.mem s := by
  have hy : List.Forall₂ (Yields L port reg E) pids (fs.map fun f s => (f s).code) := by
    refine List.forall₂_map_right_iff.2 (h.imp ?_)
    intro pid f hf M s hM
    exact runFsmEbpfPolicy_answers hf hM
  obtain ⟨M', hr, hM'⟩ := runPolicyList_yields hy hM
  have hcode : ∀ f : (ι → BitVec 32) → Verdict,
      ((f s).code == Verdict.reject.code) = (f s == .reject) := fun f => by
    cases f s <;> rfl
  refine ⟨M', ?_, hM'⟩
  rw [hr, List.any_map]
  simp only [Function.comp_def, hcode]

/-- **The dispatcher** on a slot whose policies implement `fs`: it rejects iff one of `fs` does,
and the struct is unchanged. -/
theorem runFsmCheckPolicy_answers (hL : L.size ≤ 2 ^ 32) {type : Nat} {cls : StateClass}
    {fs : List ((ι → BitVec 32) → Verdict)}
    (h : List.Forall₂ (Answers L port reg E) (reg.policyManager (port.entry cls type)) fs)
    (s : ι → BitVec 32) :
    runFsmCheckPolicy L port reg E type cls s =
      some (.rejectIf (fs.any fun f => f s == .reject), s) := by
  obtain ⟨M', hr, hM'⟩ := runPolicyList_answers h (holds_image hL)
  rw [runFsmCheckPolicy, hr, Option.map_some, hM'.readBack]

/-! ## Policies that only read -/

/-- A run of policy `pid` does not modify the struct it is given. -/
def Reader (L : Layout ι) (port : Port) (reg : Registry) (E : Env L.size) (pid : Int) : Prop :=
  ∀ {M M' : Mem} {s : ι → BitVec 32} {r : BitVec 64}, L.Holds M E.place.mem s →
    runFsmEbpfPolicy port reg E pid M = some (r, M') → L.Holds M' E.place.mem s

theorem Answers.reader {pid : Int} {f : (ι → BitVec 32) → Verdict}
    (hf : Answers L port reg E pid f) :
    Reader L port reg E pid := by
  intro M M' s r hM hrun
  obtain ⟨M1, h1, hM1⟩ := runFsmEbpfPolicy_answers hf hM
  rw [h1] at hrun
  cases hrun
  exact hM1

/-- Policy `pid` was run on the struct `s` and returned `r`. -/
def RanOn (L : Layout ι) (port : Port) (reg : Registry) (E : Env L.size) (s : ι → BitVec 32)
    (pid : Int) (r : BitVec 64) : Prop :=
  ∃ M M', L.Holds M E.place.mem s ∧ runFsmEbpfPolicy port reg E pid M = some (r, M')

/-- A list of policies was run on the struct `s`: all of them and none rejected, or those up to the
first that did. -/
def RanAll (L : Layout ι) (port : Port) (reg : Registry) (E : Env L.size) (s : ι → BitVec 32)
    (pids : List Int) : Verdict → Prop
  | .pass => ∀ pid ∈ pids, ∃ r, r ≠ Verdict.reject.code ∧ RanOn L port reg E s pid r
  | .reject => ∃ before pid after, pids = before ++ pid :: after ∧
      (∀ p ∈ before, ∃ r, r ≠ Verdict.reject.code ∧ RanOn L port reg E s p r) ∧
      RanOn L port reg E s pid Verdict.reject.code

theorem RanAll.cons {s : ι → BitVec 32} {pid : Int} {pids : List Int} {r : BitVec 64} {v : Verdict}
    (hr : r ≠ Verdict.reject.code) (hran : RanOn L port reg E s pid r)
    (h : RanAll L port reg E s pids v) : RanAll L port reg E s (pid :: pids) v := by
  cases v with
  | pass => exact List.forall_mem_cons.2 ⟨⟨r, hr, hran⟩, h⟩
  | reject =>
    obtain ⟨before, p, after, rfl, hbefore, hp⟩ := h
    exact ⟨pid :: before, p, after, rfl, List.forall_mem_cons.2 ⟨⟨r, hr, hran⟩, hbefore⟩, hp⟩

theorem runPolicyList_ran {s : ι → BitVec 32} {pids : List Int}
    (hread : ∀ pid ∈ pids, Reader L port reg E pid) :
    ∀ {M M' : Mem} {v : Verdict}, L.Holds M E.place.mem s →
      runPolicyList port reg E pids M = some (v, M') → RanAll L port reg E s pids v := by
  induction pids with
  | nil =>
    intro M M' v hM h
    cases h
    exact fun pid hpid => absurd hpid List.not_mem_nil
  | cons pid pids ih =>
    intro M M' v hM h
    obtain ⟨⟨r, M1⟩, hrun, hrest⟩ := Option.bind_eq_some_iff.1 h
    split at hrest
    · next hr =>
      cases hrest
      exact ⟨[], pid, pids, rfl, by simp, M, M1, hM, by rw [hrun, ← hr]⟩
    · next hr =>
      have hM1 := hread pid List.mem_cons_self hM hrun
      refine .cons hr ⟨M, M1, hM, hrun⟩ (ih (fun p hp => ?_) hM1 hrest)
      exact hread p (List.mem_cons_of_mem _ hp)

theorem runPolicyList_returns {s : ι → BitVec 32} {pids : List Int}
    (hread : ∀ pid ∈ pids, Reader L port reg E pid)
    (hret : ∀ pid ∈ pids, ∀ M, L.Holds M E.place.mem s →
      (runFsmEbpfPolicy port reg E pid M).isSome = true) :
    ∀ {M : Mem}, L.Holds M E.place.mem s → (runPolicyList port reg E pids M).isSome = true := by
  induction pids with
  | nil => exact fun _ => rfl
  | cons pid pids ih =>
    intro M hM
    obtain ⟨⟨r, M1⟩, hrun⟩ := Option.isSome_iff_exists.1 (hret pid List.mem_cons_self M hM)
    rw [runPolicyList, hrun, Option.bind_some]
    split
    · rfl
    · exact ih (fun p hp => hread p (List.mem_cons_of_mem _ hp))
        (fun p hp => hret p (List.mem_cons_of_mem _ hp)) (hread pid List.mem_cons_self hM hrun)

/-- **The dispatcher on policies that only read**: it runs them on the struct it was given. -/
theorem runFsmCheckPolicy_ran (hL : L.size ≤ 2 ^ 32) {type : Nat} {cls : StateClass}
    {s s' : ι → BitVec 32} {v : Verdict}
    (hread : ∀ pid ∈ reg.policyManager (port.entry cls type), Reader L port reg E pid)
    (h : runFsmCheckPolicy L port reg E type cls s = some (v, s')) :
    RanAll L port reg E s (reg.policyManager (port.entry cls type)) v := by
  obtain ⟨⟨w, M'⟩, hrun, he⟩ := Option.map_eq_some_iff.1 h
  cases he
  exact runPolicyList_ran hread (holds_image hL) hrun

/-- Surroundings with nothing of note in memory and a JIT whose code does what the interpreter
does. -/
def Env.plain {size : Nat} (P : Placement size) : Env size where
  place := P
  around := fun _ => 0
  jitFunc := fun slot M =>
    (ebpfVmExec P.host (defaultVm slot.code) ifwRuntimeMaxInsts M P.mem 64).bind fun p =>
      p.2.value.map fun v => (v, p.1.mem)
  fuel := ifwRuntimeMaxInsts
  enough := Nat.le_refl _

theorem jitFaithful_plain (P : Placement L.size) (slot : PolicyCache) :
    (Env.plain P).JitFaithful L slot := by
  intro f himp M s hM
  obtain ⟨s', hr, hmem⟩ := himp P M 64 s hM
  refine ⟨s'.mem, ?_, hmem ▸ initState_mem_holds P hM⟩
  simp only [Env.plain, ebpfVmExec, hr, Option.bind_some, Ret.value, Option.map_some]

end BlueSwat.Fsm
