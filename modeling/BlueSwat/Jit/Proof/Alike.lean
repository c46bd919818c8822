import BlueSwat.Jit.Proof.Passes
import BlueSwat.Jit.Template

/-!
# What the code of a program depends on

A program without calls and `LDDW`, with register fields inside the table and jumps inside the
program, is translated without a look at anything around it: the code does not depend on the bytes
behind the program, on the helper table, or on the memory around the table of rows and the array of
offsets (`jitCode_eq`).
-/

set_option autoImplicit false

namespace BlueSwat.Jit

open Ebpf

/-- Two translations of one program, in different surroundings. -/
structure Alike (p q : Nat → EbpfInst) (n : Nat) (s t : JitState) : Prop where
  insts : s.insts = p
  insts' : t.insts = q
  instNum : s.instNum = n
  instNum' : t.instNum = n
  jitCode : s.jitCode = t.jitCode
  idx : s.idx = t.idx
  epilogueOffset : s.epilogueOffset = t.epilogueOffset
  needGen : s.needGen = t.needGen
  offsets : ∀ j : Int, 0 ≤ j → j < n → s.offsets j = t.offsets j

section
variable {p q : Nat → EbpfInst} {n : Nat} {s t : JitState}

theorem Alike.emit (h : Alike p q n s t) (c : Code) : Alike p q n (emit s c) (emit t c) where
  insts := h.insts
  insts' := h.insts'
  instNum := h.instNum
  instNum' := h.instNum'
  jitCode := by simp only [Jit.emit, h.jitCode, h.needGen]
  idx := by simp only [Jit.emit, h.idx]
  epilogueOffset := h.epilogueOffset
  needGen := h.needGen
  offsets := h.offsets

theorem Alike.recordOffset (h : Alike p q n s t) (i : Nat) :
    Alike p q n (recordOffset s i) (recordOffset t i) := by
  cases hg : t.needGen with
  | true => simpa only [Jit.recordOffset, h.needGen, hg, if_true] using h
  | false =>
    simp only [Jit.recordOffset, h.needGen, hg, Bool.false_eq_true, if_false]
    refine { h with needGen := rfl, offsets := fun j h0 hj => ?_ }
    simp only [h.idx, h.offsets j h0 hj]

theorem Alike.bpf2a32Offset (h : Alike p q n s t) {pc : Nat} (hpc : pc < n) {j : Int} (h0 : 0 ≤ j)
    (hj : j < n) (bsize : Int) : bpf2a32Offset s pc j bsize = bpf2a32Offset t pc j bsize := by
  simp only [Jit.bpf2a32Offset, h.needGen, h.offsets j h0 hj,
    h.offsets pc (Int.natCast_nonneg pc) (by omega)]

theorem Alike.epilogueOffset_eq (h : Alike p q n s t) :
    Jit.epilogueOffset s = Jit.epilogueOffset t := by
  simp only [Jit.epilogueOffset, h.needGen, h.epilogueOffset, h.idx]

/-- One instruction gets the same code. -/
theorem Alike.buildInst (h : Alike p q n s t) {pc : Nat} (hpc : pc < n) (hp : p pc = q pc)
    (he : enclosed (p pc) n pc = true) : buildInst s pc = buildInst t pc := by
  simp only [enclosed, Bool.and_eq_true, decide_eq_true_eq] at he
  obtain ⟨⟨hd, hs⟩, hop⟩ := he
  have hdst (b : Row) : bpf2a32 b (p pc).dst = bpf2a32 bpfR0 (p pc).dst := bpf2a32_of_lt hd
  have hsrc (b : Row) : bpf2a32 b (p pc).src = bpf2a32 bpfR0 (p pc).src := bpf2a32_of_lt hs
  simp only [Jit.buildInst, h.insts, h.insts', ← hp]
  generalize Op.ofCode (p pc).opcode = op at hop
  cases op with
  | none => rfl
  | some op =>
    cases op with
    | call | lddw => cases hop
    | ja =>
      simp only [Bool.and_eq_true, decide_eq_true_eq] at hop
      simp only [buildOp, buildJump, h.insts, h.insts', ← hp,
        h.bpf2a32Offset hpc hop.1 hop.2]
    | jcond c f =>
      simp only [Bool.and_eq_true, decide_eq_true_eq] at hop
      simp only [buildOp, buildJump, h.insts, h.insts', ← hp, hdst, hsrc, h.instNum, h.instNum',
        h.bpf2a32Offset hpc hop.1 hop.2]
    | exit =>
      simp only [buildOp, buildJump, h.instNum, h.instNum', h.epilogueOffset_eq]
    | _ => simp only [buildOp, h.insts, h.insts', ← hp, hdst, hsrc]

theorem Alike.buildRound (h : Alike p q n s t) {i : Nat} (hi : i < n) (hp : p i = q i)
    (he : enclosed (p i) n i = true) :
    Alike p q n (buildRound s i).1 (buildRound t i).1 ∧
      (buildRound s i).2 = (buildRound t i).2 := by
  simp only [Jit.buildRound, h.buildInst hi hp he]
  split
  · exact ⟨(h.emit _).recordOffset (i + 1), rfl⟩
  · exact ⟨(h.emit _).recordOffset i, rfl⟩

section
variable (hp : ∀ i < n, p i = q i) (he : ∀ i < n, enclosed (p i) n i = true)
include hp he

theorem Alike.buildFrom : ∀ (fuel : Nat) {i : Nat} {s t : JitState}, Alike p q n s t →
    Alike p q n (buildFrom fuel i s) (buildFrom fuel i t) := by
  intro fuel
  induction fuel with
  | zero => exact fun h => h
  | succ fuel ih =>
    intro i s t h
    by_cases hi : i < n
    · obtain ⟨hA, hnext⟩ := h.buildRound hi (hp i hi) (he i hi)
      have his : i < s.instNum := h.instNum ▸ hi
      have hit : i < t.instNum := h.instNum' ▸ hi
      cases hn : (Jit.buildRound t i).2 with
      | none =>
        rw [(buildFrom_stop his (hnext.trans hn)).1, (buildFrom_stop hit hn).1]
        exact hA
      | some i' =>
        rw [(buildFrom_cons his (hnext.trans hn)).1, (buildFrom_cons hit hn).1]
        exact ih hA
    · simpa only [Jit.buildFrom, h.instNum, h.instNum', hi, if_false] using h

/-- **The code of a program depends on its instructions only.** -/
theorem jitCode_eq (helper helper' : BitVec 32 → BitVec 32) (beyond beyond' : Row)
    (stray stray' : Int → BitVec 8) :
    (jitCompile (genJitState p n helper beyond stray)).jitCode =
      (jitCompile (genJitState q n helper' beyond' stray')).jitCode := by
  let s := genJitState p n helper beyond stray
  let t := genJitState q n helper' beyond' stray'
  have h0 : Alike p q n { s with idx := 0, needGen := false }
      { t with idx := 0, needGen := false } := by
    refine ⟨rfl, rfl, rfl, rfl, rfl, rfl, rfl, rfl, fun j h0 hj => ?_⟩
    simp only [s, t, genJitState, if_pos (show 0 ≤ j ∧ j < 4 * (n : Int) + 16 by omega)]
  have h1 : Alike p q n (prePass s) (prePass t) := Alike.buildFrom hp he n (h0.emit buildPrologue)
  have h2 : Alike p q n (genStart (prePass s)) (genStart (prePass t)) := by
    refine Alike.emit
      (s := { prePass s with
        epilogueOffset := _, jitCode := _, idx := _, needGen := _ })
      (t := { prePass t with
        epilogueOffset := _, jitCode := _, idx := _, needGen := _ }) ?_ buildPrologue
    exact { h1 with jitCode := rfl, idx := rfl, epilogueOffset := h1.idx, needGen := rfl }
  have h3 : Alike p q n (buildBody (genStart (prePass s))) (buildBody (genStart (prePass t))) := by
    rw [buildBody, buildBody, h2.instNum, h2.instNum']
    exact Alike.buildFrom hp he n h2
  exact (h3.emit buildEpilogue).jitCode

end

end

end BlueSwat.Jit
