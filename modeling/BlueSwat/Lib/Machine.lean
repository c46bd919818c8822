import Mathlib.Logic.Relation

/-!
# Machines that step or stop

A machine is a function `step` that takes a state either to the next state or to a result.
`run step n s` executes at most `n` steps and is `none` when the machine is still going.
`Reach step s s'` is the closure of the `next` steps.

* `Reach.inv`: an invariant of one step holds in every state reached.
* `Path step I s s'`: `s'` is reached from `s` and every state on the way, but for `s` itself, is in
  `I`.
* `run_mono`: more fuel does not change a result.
* `run_reach`, `reach_run`: a result is a reached state that stops, and the other way round.
* `run_unique`: there is one result.
* `run_of_measure`: a machine whose steps lower a positive measure stops within that measure.
-/

set_option autoImplicit false

namespace Machine

inductive Outcome (σ ρ : Type) where
  | next (s : σ)
  | done (r : ρ)

variable {σ ρ : Type}

section
variable (step : σ → Outcome σ ρ)

/-- Execute at most `n` steps; the state that stopped and its result. -/
def run : Nat → σ → Option (σ × ρ)
  | 0, _ => none
  | n + 1, s => match step s with
    | .next s' => run n s'
    | .done r => some (s, r)

def Reach : σ → σ → Prop := Relation.ReflTransGen fun a b => step a = .next b

end

variable {step : σ → Outcome σ ρ}

theorem run_next {n : Nat} {s s' : σ} (h : step s = .next s') :
    run step (n + 1) s = run step n s' := by simp [run, h]

theorem run_done {n : Nat} {s : σ} {r : ρ} (h : step s = .done r) :
    run step (n + 1) s = some (s, r) := by simp [run, h]

/-! ## Reached states -/

theorem Reach.refl (s : σ) : Reach step s s := Relation.ReflTransGen.refl

theorem Reach.tail {s s' s'' : σ} (h : Reach step s s') (hs : step s' = .next s'') :
    Reach step s s'' := Relation.ReflTransGen.tail h hs

theorem Reach.head {s s' s'' : σ} (hs : step s = .next s') (h : Reach step s' s'') :
    Reach step s s'' := Relation.ReflTransGen.head hs h

/-- **The invariant rule**: what holds at the start and is kept by every step from a reached
state holds in every state reached. -/
theorem Reach.inv {I : σ → Prop} {s s' : σ} (h : Reach step s s') (h0 : I s)
    (hstep : ∀ a b, Reach step s a → I a → step a = .next b → I b) : I s' := by
  induction h with
  | refl => exact h0
  | tail hr hs ih => exact hstep _ _ hr ih hs

/-- **Forward simulation**: if every step from a reached state is a run of another machine, so is
the whole run. -/
theorem Reach.simulate {τ ρ' : Type} {step' : τ → Outcome τ ρ'} {R : σ → τ → Prop}
    {s s' : σ} {t : τ}
    (h : Reach step s s') (h0 : R s t)
    (hstep : ∀ a b u, Reach step s a → step a = .next b → R a u → ∃ u', Reach step' u u' ∧ R b u') :
    ∃ t', Reach step' t t' ∧ R s' t' := by
  induction h with
  | refl => exact ⟨t, .refl t, h0⟩
  | tail hr hs ih =>
    obtain ⟨u, hu, hR⟩ := ih
    obtain ⟨u', hu', hR'⟩ := hstep _ _ u hr hs hR
    exact ⟨u', hu.trans hu', hR'⟩

/-! ## Paths -/

/-- `s'` is reached from `s` through states of `I`. -/
def Path (step : σ → Outcome σ ρ) (I : σ → Prop) : σ → σ → Prop :=
  Relation.ReflTransGen fun a b => step a = .next b ∧ I b

section
variable {I J : σ → Prop} {s s' s'' : σ}

theorem Path.refl (s : σ) : Path step I s s := Relation.ReflTransGen.refl

theorem Path.head (hs : step s = .next s') (hi : I s') (h : Path step I s' s'') :
    Path step I s s'' := Relation.ReflTransGen.head ⟨hs, hi⟩ h

theorem Path.tail (h : Path step I s s') (hs : step s' = .next s'') (hi : I s'') :
    Path step I s s'' := Relation.ReflTransGen.tail h ⟨hs, hi⟩

theorem Path.trans (h : Path step I s s') (h' : Path step I s' s'') : Path step I s s'' :=
  Relation.ReflTransGen.trans h h'

theorem Path.reach (h : Path step I s s') : Reach step s s' := by
  induction h with
  | refl => exact .refl _
  | tail _ hs ih => exact ih.tail hs.1

theorem Path.mono (h : Path step I s s') (hij : ∀ u, I u → J u) : Path step J s s' := by
  induction h with
  | refl => exact .refl _
  | tail _ hs ih => exact ih.tail hs.1 (hij _ hs.2)

theorem Path.last (h : Path step I s s') (h0 : I s) : I s' := by
  cases h with
  | refl => exact h0
  | tail _ hs => exact hs.2

/-- A run that stops has no states but those of its path. -/
theorem Path.covers {t : σ} {r : ρ} (h : Path step I s s') (hd : step s' = .done r)
    (hr : Reach step s t) (h0 : I s) : I t := by
  induction hr using Relation.ReflTransGen.head_induction_on with
  | refl => exact h0
  | head hs _ ih =>
    rcases Relation.ReflTransGen.cases_head h with rfl | ⟨b, ⟨hb, hI⟩, hrest⟩
    · rw [hd] at hs
      cases hs
    · cases hb.symm.trans hs
      exact ih hrest hI

end

/-! ## Results -/

theorem run_mono {n m : Nat} {s : σ} {r : σ × ρ} (h : run step n s = some r) (hnm : n ≤ m) :
    run step m s = some r := by
  induction n generalizing m s with
  | zero => simp [run] at h
  | succ n ih =>
    obtain ⟨m, rfl⟩ : ∃ k, m = k + 1 := ⟨m - 1, by omega⟩
    cases hs : step s with
    | next s' =>
      rw [run_next hs] at h ⊢
      exact ih h (by omega)
    | done r' => rwa [run_done hs] at h ⊢

theorem run_reach {n : Nat} {s s' : σ} {r : ρ} (h : run step n s = some (s', r)) :
    Reach step s s' ∧ step s' = .done r := by
  induction n generalizing s with
  | zero => simp [run] at h
  | succ n ih =>
    cases hs : step s with
    | next a =>
      rw [run_next hs] at h
      obtain ⟨h1, h2⟩ := ih h
      exact ⟨.head hs h1, h2⟩
    | done r' =>
      rw [run_done hs] at h
      cases h
      exact ⟨.refl _, hs⟩

theorem reach_run {s s' : σ} {r : ρ} (h : Reach step s s') (hd : step s' = .done r) :
    ∃ n, run step n s = some (s', r) := by
  induction h using Relation.ReflTransGen.head_induction_on with
  | refl => exact ⟨1, run_done hd⟩
  | head hs _ ih =>
    obtain ⟨n, hn⟩ := ih
    exact ⟨n + 1, by rw [run_next hs, hn]⟩

theorem run_unique {n : Nat} {s s' : σ} {p : σ × ρ} {r : ρ} (h : run step n s = some p)
    (hr : Reach step s s') (hd : step s' = .done r) : p = (s', r) := by
  obtain ⟨m, hm⟩ := reach_run hr hd
  have h1 := run_mono h (Nat.le_max_left n m)
  have h2 := run_mono hm (Nat.le_max_right n m)
  exact Option.some.inj (h1.symm.trans h2)

/-- **Termination from a measure**: when every state of an invariant has a positive measure and
every step keeps the invariant and lowers the measure, a run stops within the measure. -/
theorem run_of_measure (step : σ → Outcome σ ρ) {I : σ → Prop} (μ : σ → Nat)
    (hpos : ∀ s, I s → 0 < μ s)
    (hstep : ∀ s s', I s → step s = .next s' → I s' ∧ μ s' < μ s) {s : σ} (h : I s) :
    ∃ s' r, run step (μ s) s = some (s', r) := by
  generalize hn : μ s = n
  induction n using Nat.strongRecOn generalizing s with
  | _ n ih =>
    have h0 := hpos s h
    obtain ⟨k, rfl⟩ : ∃ k, n = k + 1 := ⟨n - 1, by omega⟩
    cases hs : step s with
    | done r => exact ⟨s, r, run_done hs⟩
    | next a =>
      obtain ⟨ha, hlt⟩ := hstep s a h hs
      obtain ⟨s', r, hr⟩ := ih (μ a) (by omega) ha rfl
      exact ⟨s', r, by rw [run_next hs]; exact run_mono hr (by omega)⟩

end Machine
