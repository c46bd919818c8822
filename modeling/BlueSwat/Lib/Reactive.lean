import Mathlib.Logic.Basic

/-!
# Reactive machines

A reactive machine answers one input at a time: `step s i` is the next state and the output, or
`none` when the call does not return. `runs step s is` feeds a list of inputs.

* `totalRuns_getElem?`: the outputs of a total machine, one by one.
* `runs_sim`: a machine whose every step is matched by a step of a total machine gives the
  outputs of that machine. The relation sees the inputs still to come, so that a bound on the
  whole input list (a budget) can be carried along.
* `Same`: no list of inputs tells two states apart.
* `kept_eq_iff`: when some inputs of a run get the outputs they would get without the others.
* `Reached`: the states after any list of inputs; `Reached.inv` is the invariant rule.
-/

set_option autoImplicit false

namespace Reactive

variable {σ τ ι ο : Type}

/-- Feed a list of inputs; the last state and the outputs in order. -/
def runs (step : σ → ι → Option (σ × ο)) : σ → List ι → Option (σ × List ο)
  | s, [] => some (s, [])
  | s, i :: is => (step s i).bind fun p => (runs step p.1 is).map fun q => (q.1, p.2 :: q.2)

def totalRuns (step : τ → ι → τ × ο) : τ → List ι → τ × List ο
  | t, [] => (t, [])
  | t, i :: is =>
    let q := totalRuns step (step t i).1 is
    (q.1, (step t i).2 :: q.2)

/-- The state of a total machine after a list of inputs. -/
def after (step : τ → ι → τ × ο) (t : τ) (is : List ι) : τ := (totalRuns step t is).1

section
variable {step : σ → ι → Option (σ × ο)} {spec : τ → ι → τ × ο}

theorem runs_cons {s s' : σ} {i : ι} {is : List ι} {o : ο} (h : step s i = some (s', o)) :
    runs step s (i :: is) = (runs step s' is).map fun q => (q.1, o :: q.2) := by
  simp [runs, h]

theorem runs_append (s : σ) (is js : List ι) :
    runs step s (is ++ js) = (runs step s is).bind fun p =>
      (runs step p.1 js).map fun q => (q.1, p.2 ++ q.2) := by
  induction is generalizing s with
  | nil => simp [runs]
  | cons i is ih =>
    cases hi : step s i with
    | none => simp [runs, hi]
    | some p =>
      rw [List.cons_append, runs_cons hi, runs_cons hi, ih]
      cases runs step p.1 is <;> simp [Function.comp_def]

theorem runs_cons_eq_some {s s' : σ} {i : ι} {is : List ι} {os : List ο}
    (h : runs step s (i :: is) = some (s', os)) :
    ∃ s1 o os', step s i = some (s1, o) ∧ runs step s1 is = some (s', os') ∧ os = o :: os' := by
  obtain ⟨⟨s1, o⟩, hi, h⟩ := Option.bind_eq_some_iff.1 h
  obtain ⟨⟨s2, os'⟩, hr, he⟩ := Option.map_eq_some_iff.1 h
  cases he
  exact ⟨s1, o, os', hi, hr, rfl⟩

theorem runs_append_eq_some {s s' : σ} {is js : List ι} {os : List ο}
    (h : runs step s (is ++ js) = some (s', os)) :
    ∃ s1 os1 os2, runs step s is = some (s1, os1) ∧ runs step s1 js = some (s', os2) ∧
      os = os1 ++ os2 := by
  rw [runs_append] at h
  obtain ⟨⟨s1, os1⟩, hi, h⟩ := Option.bind_eq_some_iff.1 h
  obtain ⟨⟨s2, os2⟩, hr, he⟩ := Option.map_eq_some_iff.1 h
  cases he
  exact ⟨s1, os1, os2, hi, hr, rfl⟩

theorem totalRuns_cons (t : τ) (i : ι) (is : List ι) :
    totalRuns spec t (i :: is) =
      ((totalRuns spec (spec t i).1 is).1, (spec t i).2 :: (totalRuns spec (spec t i).1 is).2) :=
  rfl

theorem totalRuns_append (t : τ) (is js : List ι) :
    totalRuns spec t (is ++ js) =
      ((totalRuns spec (after spec t is) js).1,
        (totalRuns spec t is).2 ++ (totalRuns spec (after spec t is) js).2) := by
  induction is generalizing t with
  | nil => rfl
  | cons i is ih => simp only [List.cons_append, totalRuns_cons, ih, after]

@[simp] theorem after_nil (t : τ) : after spec t [] = t := rfl

theorem after_cons (t : τ) (i : ι) (is : List ι) :
    after spec t (i :: is) = after spec (spec t i).1 is := rfl

theorem after_append (t : τ) (is js : List ι) :
    after spec t (is ++ js) = after spec (after spec t is) js := by
  simp [after, totalRuns_append]

theorem totalRuns_getElem? (t : τ) (is : List ι) (n : Nat) :
    (totalRuns spec t is).2[n]? = is[n]?.map fun i => (spec (after spec t (is.take n)) i).2 := by
  induction is generalizing t n with
  | nil => rfl
  | cons i is ih =>
    cases n with
    | zero => rfl
    | succ n => simpa [totalRuns_cons, after_cons] using ih (spec t i).1 n

theorem after_take_succ (t : τ) {is : List ι} {n : Nat} {i : ι} (h : is[n]? = some i) :
    after spec t (is.take (n + 1)) = (spec (after spec t (is.take n)) i).1 := by
  rw [List.take_add_one, h, after_append]
  rfl

/-- **Forward simulation**: related states give the same outputs on every input list. The
relation `R is s t` also speaks about the inputs `is` still to come. -/
theorem runs_sim (R : List ι → σ → τ → Prop)
    (hstep : ∀ i is s t, R (i :: is) s t →
      ∃ s', step s i = some (s', (spec t i).2) ∧ R is s' (spec t i).1)
    {is : List ι} {s : σ} {t : τ} (h : R is s t) :
    ∃ s', runs step s is = some (s', (totalRuns spec t is).2) ∧ R [] s' (after spec t is) := by
  induction is generalizing s t with
  | nil => exact ⟨s, rfl, h⟩
  | cons i is ih =>
    obtain ⟨s1, h1, hR⟩ := hstep i is s t h
    obtain ⟨s', h2, hR'⟩ := ih hR
    exact ⟨s', by rw [runs_cons h1, h2]; rfl, hR'⟩

/-- A machine whose output depends on the input only, as long as an invariant holds. -/
theorem runs_of_inv {I : σ → Prop} {f : ι → ο} {is : List ι} {s : σ} (h : I s)
    (hstep : ∀ i ∈ is, ∀ s, I s → ∃ s', step s i = some (s', f i) ∧ I s') :
    ∃ s', runs step s is = some (s', is.map f) ∧ I s' := by
  induction is generalizing s with
  | nil => exact ⟨s, rfl, h⟩
  | cons i is ih =>
    obtain ⟨s1, h1, hI⟩ := hstep i (List.mem_cons_self ..) s h
    obtain ⟨s', h2, hI'⟩ := ih hI fun j hj => hstep j (List.mem_cons_of_mem i hj)
    exact ⟨s', by rw [runs_cons h1, h2]; rfl, hI'⟩

end

/-! ## Indistinguishable states -/

/-- Two states of a total machine that give the same outputs on every list of inputs. -/
def Same (spec : τ → ι → τ × ο) (t u : τ) : Prop :=
  ∀ is, (totalRuns spec t is).2 = (totalRuns spec u is).2

section
variable {spec : τ → ι → τ × ο} {t u : τ}

theorem Same.output (h : Same spec t u) (i : ι) : (spec t i).2 = (spec u i).2 := by
  simpa [totalRuns] using h [i]

theorem Same.next (h : Same spec t u) (i : ι) : Same spec (spec t i).1 (spec u i).1 := by
  intro is
  have h1 := h (i :: is)
  rw [totalRuns_cons, totalRuns_cons] at h1
  exact (List.cons.inj h1).2

theorem Same.after (h : Same spec t u) (is : List ι) :
    Same spec (after spec t is) (after spec u is) := by
  induction is generalizing t u with
  | nil => exact h
  | cons i is ih => exact ih (h.next i)

end

/-! ## Some inputs among others -/

/-- The outputs `os` to the inputs of `is` that are kept. -/
def kept (keep : ι → Bool) (is : List ι) (os : List ο) : List ο :=
  ((is.zip os).filter fun q => keep q.1).map Prod.snd

/-- **Noninterference, step by step**: the kept inputs of a run get the outputs they would get
without the others exactly when each of them does, in the state the two runs have then reached. -/
theorem kept_eq_iff {spec : τ → ι → τ × ο} {keep : ι → Bool} {s t : τ} {is : List ι} :
    kept keep is (totalRuns spec s is).2 = (totalRuns spec t (is.filter keep)).2 ↔
      ∀ u i v, is = u ++ i :: v → keep i = true →
        (spec (after spec s u) i).2 = (spec (after spec t (u.filter keep)) i).2 := by
  induction is generalizing s t with
  | nil => simp [kept, totalRuns]
  | cons i is ih =>
    -- a split of `i :: is` is at `i` or behind it
    have hsplit : (∀ u j v, i :: is = u ++ j :: v → keep j = true →
        (spec (after spec s u) j).2 = (spec (after spec t (u.filter keep)) j).2) ↔
        (keep i = true → (spec s i).2 = (spec t i).2) ∧
          ∀ u j v, is = u ++ j :: v → keep j = true →
            (spec (after spec (spec s i).1 u) j).2 =
              (spec (after spec t ((i :: u).filter keep)) j).2 := by
      constructor
      · intro h
        exact ⟨fun hk => h [] i is rfl hk, fun u j v hu hk => h (i :: u) j v (by simp [hu]) hk⟩
      · rintro ⟨h0, h1⟩ u j v hu hk
        cases u with
        | nil =>
          simp only [List.nil_append, List.cons.injEq] at hu
          obtain ⟨rfl, -⟩ := hu
          exact h0 hk
        | cons k u =>
          simp only [List.cons_append, List.cons.injEq] at hu
          obtain ⟨rfl, hu⟩ := hu
          exact h1 u j v hu hk
    rw [hsplit, totalRuns_cons]
    cases hk : keep i with
    | false =>
      simp only [Bool.false_eq_true, false_implies, true_and, List.filter_cons, hk, if_false]
      rw [← ih]
      simp [kept, hk]
    | true =>
      simp only [true_implies, List.filter_cons, hk, if_true, totalRuns_cons, after_cons]
      rw [← ih]
      simp [kept, hk]

/-! ## Reached states -/

def Reached (step : σ → ι → Option (σ × ο)) (s0 s : σ) : Prop :=
  ∃ is os, runs step s0 is = some (s, os)

/-- **The invariant rule** for reactive machines. -/
theorem Reached.inv {step : σ → ι → Option (σ × ο)} {I : σ → Prop} {s0 s : σ}
    (h : Reached step s0 s) (h0 : I s0)
    (hstep : ∀ a i b o, I a → step a i = some (b, o) → I b) : I s := by
  obtain ⟨is, os, hr⟩ := h
  induction is generalizing s0 os with
  | nil => cases hr; exact h0
  | cons i is ih =>
    obtain ⟨s1, o, os', hi, hr, -⟩ := runs_cons_eq_some hr
    exact ih (hstep s0 i s1 o h0 hi) os' hr

end Reactive
