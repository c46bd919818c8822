import BlueSwat.Jit.Proof.Layout
import BlueSwat.Lib.Thumb.Program

/-!
# The code of a program, piece by piece

In an aligned program the code of every instruction is at the place that the table gives it
(`piece_at`), what comes behind it is the next instruction or the epilogue (`piece_next`), and the
branch at its end goes to the place of the instruction that it names (`piece_lands`).
-/

set_option autoImplicit false

namespace BlueSwat.Jit

open Ebpf Assembly Thumb

/-! ## What a pass appends -/

section
variable {fuel i : Nat} {s : JitState}

theorem needGen_buildRound : (buildRound s i).1.needGen = s.needGen := by
  have hrec (t : JitState) (j : Nat) : (recordOffset t j).needGen = t.needGen :=
    (samePass_recordOffset j).needGen
  unfold buildRound
  dsimp only
  split <;> exact hrec _ _

theorem jitCode_buildRound (hg : s.needGen = true) :
    (buildRound s i).1.jitCode = s.jitCode ++ (buildInst s i).1 := by
  have hrec (j : Nat) : (recordOffset (emit s (buildInst s i).1) j).jitCode =
      s.jitCode ++ (buildInst s i).1 := by
    rw [recordOffset, if_pos (show (emit s (buildInst s i).1).needGen = true from hg)]
    exact if_pos hg
  unfold buildRound
  dsimp only
  split <;> exact hrec _

/-- A pass that writes code adds to it. -/
theorem jitCode_buildFrom (hg : s.needGen = true) :
    ∃ post, (buildFrom fuel i s).jitCode = s.jitCode ++ post := by
  induction fuel generalizing i s with
  | zero => exact ⟨[], (List.append_nil _).symm⟩
  | succ fuel ih =>
    by_cases hi : i < s.instNum
    · cases hr : (buildRound s i).2 with
      | none =>
        rw [(buildFrom_stop hi hr).1, jitCode_buildRound hg]
        exact ⟨_, rfl⟩
      | some i' =>
        obtain ⟨post, hp⟩ := ih (i := i') (needGen_buildRound.trans hg)
        rw [(buildFrom_cons hi hr).1, hp, jitCode_buildRound hg, List.append_assoc]
        exact ⟨_, rfl⟩
    · rw [buildFrom, if_neg hi]
      exact ⟨[], (List.append_nil _).symm⟩

/-- **Each call of `build_inst` adds its code to what was there.** -/
theorem jitCode_visit (hg : s.needGen = true) {v : Nat × JitState} (hv : v ∈ visits fuel i s) :
    ∃ post, (buildFrom fuel i s).jitCode = v.2.jitCode ++ ((buildInst v.2 v.1).1 ++ post) := by
  induction fuel generalizing i s with
  | zero => cases hv
  | succ fuel ih =>
    by_cases hi : i < s.instNum
    · cases hr : (buildRound s i).2 with
      | none =>
        obtain ⟨hb, hvis⟩ := @buildFrom_stop fuel i s hi hr
        rw [hvis, List.mem_singleton] at hv
        subst hv
        refine ⟨[], ?_⟩
        rw [hb, jitCode_buildRound hg, List.append_nil]
      | some i' =>
        obtain ⟨hb, hvis⟩ := @buildFrom_cons fuel i i' s hi hr
        rw [hvis] at hv
        rw [hb]
        rcases List.mem_cons.1 hv with rfl | hv
        · obtain ⟨post, hp⟩ := @jitCode_buildFrom fuel i' _ (needGen_buildRound.trans hg)
          refine ⟨post, ?_⟩
          rw [hp, jitCode_buildRound hg, List.append_assoc]
        · exact ih (needGen_buildRound.trans hg) hv
    · rw [visits, if_neg hi] at hv
      cases hv

end

/-! ## The pieces of a program -/

/-- The code that `build_inst` makes of instruction `i` in state `t` is at its place `a`, and the
branch at its end lands. -/
structure Piece (code : Nat → BitVec 8) (n : Nat) (P : Program) (i a : Nat) (t : JitState) :
    Prop where
  insts : t.insts = instAt code
  instNum : t.instNum = n
  has : P.Has a (buildInst t i).1
  size : 2 * (buildInst t i).1.length = preSize (instAt code) n i a
  lands : (branchOf t i).2 ≠ [] → ∃ b : Nat,
    branchTarget (a + 2 * (branchOf t i).1.length) (branchOf t i).2 = some (b : Int) ∧
      if (instAt code i).opcode = Op.exit.code then b = epilogueAt (instAt code) n
      else ∃ j, jumpTarget (instAt code i) i = (j : Nat) ∧ (j, b) ∈ places code n

section
variable {code : Nat → BitVec 8} {n : Nat} (helper : BitVec 32 → BitVec 32) (beyond : Row)
  (stray : Int → BitVec 8) (hT : ∀ i < n, Tabled (instAt code i)) (hJ : JumpsInside code n)
  (hA : Aligned code n)

/-- The code of a program, at `base`. -/
def programOf (code : Nat → BitVec 8) (n : Nat) (helper : BitVec 32 → BitVec 32) (beyond : Row)
    (stray : Int → BitVec 8) (base : Word) : Program :=
  ⟨(jitCompile (genJitState (instAt code) n helper beyond stray)).jitCode, base⟩

theorem genSize_eq_preSize (hA : Aligned code n) {i a : Nat} (h : (i, a) ∈ places code n) :
    genSize (instAt code) n i a = preSize (instAt code) n i a := by
  by_cases hx : (instAt code i).opcode = Op.exit.code ∧ i + 1 ≠ n
  · exact (genSize_exit_iff h hx.1 hx.2).2 (hA.exits i a h hx.1 hx.2)
  · exact instSize_congr (fun h1 => Classical.not_not.1 fun h2 => hx ⟨h1, h2⟩) _ _

include hT

theorem buildBody_eq :
    buildBody (genState (instAt code) n helper beyond stray) =
      buildFrom n 0 (genState (instAt code) n helper beyond stray) := by
  rw [buildBody, (genState_fields helper beyond stray hT).2.1]

theorem code_programOf (base : Word) :
    (programOf code n helper beyond stray base).code =
      (buildFrom n 0 (genState (instAt code) n helper beyond stray)).jitCode ++ buildEpilogue := by
  have hg : (buildBody (genState (instAt code) n helper beyond stray)).needGen = true := by
    rw [buildBody_eq helper beyond stray hT]
    exact (genPass_spec helper beyond stray hT).same.needGen
  rw [← buildBody_eq helper beyond stray hT]
  exact if_pos hg

include hJ hA

theorem piece_at (base : Word)
    (hshort : 2 * (programOf code n helper beyond stray base).code.length < 2 ^ 32) {i a : Nat}
    (h : (i, a) ∈ places code n) :
    ∃ t, Piece code n (programOf code n helper beyond stray base) i a t := by
  have hC := consistent_of_aligned helper beyond stray hT hJ hA
  have hG := placesOf_genStart helper beyond stray hT
  have hgen := layout_genSize hA.exits
  have hn : (genStart (prePass (genJitState (instAt code) n helper beyond stray))).instNum = n :=
    (genState_fields helper beyond stray hT).2.1
  have hpl : placesOf (genStart (prePass (genJitState (instAt code) n helper beyond stray))) =
      places code n := by
    rw [hG, hgen]
    rfl
  have hm := h
  rw [← hpl, placesOf, hn] at hm
  obtain ⟨v, hv, hva⟩ := List.mem_map.1 hm
  obtain ⟨rfl, rfl⟩ := Prod.mk.inj hva
  obtain ⟨h1, h2, h3, h4, hR, -, -⟩ := visit_spec helper beyond stray hT hv
  have hi := lt_of_mem_places h
  refine ⟨v.2, h1, h2, ⟨?_, hshort⟩, ?_, fun hne => ?_⟩
  · obtain ⟨post, hp⟩ := jitCode_visit (s := genState (instAt code) n helper beyond stray) rfl hv
    refine ⟨v.2.jitCode, post ++ buildEpilogue, ?_, hR.code h3⟩
    rw [code_programOf helper beyond stray hT, hp, List.append_assoc, List.append_assoc]
  · have ht : Tabled (v.2.insts v.1) := h1 ▸ hT v.1 hi
    have hlt : v.1 < v.2.instNum := h2 ▸ hi
    obtain ⟨hsize, -⟩ := buildInst_spec ht hR.offsets hlt
    rw [← genSize_eq_preSize hA h, genSize, ← h4]
    rw [h1, h2, epilogueOffset, if_neg (by simp [h3])] at hsize
    exact hsize
  · obtain ⟨b, hb, hl⟩ := hC.lands v hv hne
    refine ⟨b, hb, ?_⟩
    rw [h1, idx_genBody helper beyond stray hT, hgen, hpl] at hl
    exact hl

omit hJ in
theorem epilogue_at (base : Word)
    (hshort : 2 * (programOf code n helper beyond stray base).code.length < 2 ^ 32) :
    (programOf code n helper beyond stray base).Has (epilogueAt (instAt code) n) buildEpilogue := by
  have h := genPass_spec helper beyond stray hT
  have hlen :
      2 * (buildFrom n 0 (genState (instAt code) n helper beyond stray)).jitCode.length = _ :=
    h.running.code h.same.needGen
  rw [h.idx, placesFrom_genState helper beyond stray hT, layout_genSize hA.exits] at hlen
  exact ⟨⟨_, [], by rw [code_programOf helper beyond stray hT, List.append_nil], hlen⟩, hshort⟩

end

/-- **What comes behind an instruction**: the next one, or the epilogue. -/
theorem piece_next {code : Nat → BitVec 8} {n i a : Nat} (h : (i, a) ∈ places code n)
    (hr : refused (instAt code i) = false) :
    if nextSlot code i < n then (nextSlot code i, a + preSize (instAt code) n i a) ∈ places code n
    else a + preSize (instAt code) n i a = epilogueAt (instAt code) n := by
  have hs : (listing (instAt code) n).stops i = false := hr
  have hn : (listing (instAt code) n).next i = nextSlot code i := nextInst_eq i
  split
  · rename_i hlt
    have := Listing.place_next (by simp [num_listing]) h hs (by rw [hn]; exact hlt)
    rwa [hn] at this
  · rename_i hge
    exact (Listing.place_last h hs (by rw [hn]; exact Nat.le_of_not_lt hge)).symm

theorem first_place {code : Nat → BitVec 8} {n : Nat} (hA : Aligned code n) (h0 : 0 < n) :
    (0, prologueSize) ∈ places code n := by
  obtain ⟨a, ha⟩ : ∃ a, (0, a) ∈ places code n := exists_place hA.accepted h0 rfl
  exact eq_of_mem_zero ha ▸ ha

end BlueSwat.Jit
