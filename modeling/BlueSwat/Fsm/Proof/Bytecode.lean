import BlueSwat.Fsm.Proof.PolicyCache

/-!
# Bytecode shapes

The compiler's output for the policies of both ports has a few shapes: compare a slot with a
constant (`implements_rejectAbove`, `implements_rejectBelow`), or two slots with each other
(`implements_rejectUnequal`). Each is proved once, for any slots, constants and offsets; a shipped
policy is an instance, by the disassembly of its bytes.
-/

set_option autoImplicit false

namespace BlueSwat.Fsm

open Ebpf Record

/-! ## Comparisons of extended words -/

theorem slt_sext (x y : BitVec 32) : (sext x).slt (sext y) = decide (x.toInt < y.toInt) := by
  rw [BitVec.slt, sext, sext, BitVec.toInt_signExtend_of_le (by decide),
    BitVec.toInt_signExtend_of_le (by decide)]

theorem zext_beq (x y : BitVec 32) : (zext x == zext y) = decide (x = y) := by
  by_cases h : x = y
  · simp [h]
  · simp [h, zext_inj]

theorem zext_bne (x y : BitVec 32) : (zext x != zext y) = decide (x ≠ y) := by
  rw [bne, zext_beq, decide_not]

/-! ## Returning a verdict -/

section
variable {H : Host} {code : Nat → BitVec 8} {mem : Addr} {memLen : BitVec 32} {n : Nat}
  {pc : BitVec 16} {R : BitVec 4 → BitVec 64} {M : Mem} {d r r1 d2 r2 : BitVec 4}
  {imm imm2 : BitVec 32} {off1 off2 : BitVec 16} {c : Cond} {f : Form}

/-- `J.. +1; MOV64 r0, 0; EXIT` with 1 in `r0` rejects iff the condition holds. -/
theorem returns_rejectIf (b : Bool)
    (hi : instAt code pc.toNat = ⟨(Op.jcond c f).code, d, r, 1, imm⟩)
    (hi1 : instAt code (pc + 1).toNat = ⟨(Op.alu64 .mov .imm).code, 0, r1, off1, 0⟩)
    (hi2 : instAt code (pc + 1 + 1).toNat = ⟨Op.exit.code, d2, r2, off2, imm2⟩)
    (h1 : R 0 = 1) (hb : c.holds f (R d) (R r) imm = b) :
    Returns H code mem memLen (n + 3) ⟨pc, R, M⟩ (Verdict.rejectIf b).code := by
  have h : Returns H code mem memLen (n + 3) ⟨pc, R, M⟩ (if b then 1 else 0) :=
    .verdict b hi hi1 hi2 h1 hb
  cases b <;> exact h

end

/-! ## Shapes -/

section
variable {ι : Type} [DecidableEq ι] {L : Layout ι} {code : Nat → BitVec 8}
  {g : (ι → BitVec 32) → Verdict}

/-- `if (slot > k) return REJECT; return PASS;` on `int`. -/
theorem implements_rejectAbove (i : ι) (k : Int) (off : BitVec 16) (imm : BitVec 32)
    (hd : Decodes code [⟨(Op.ldx .w).code, 1, 1, off, 0⟩,
      ⟨(Op.alu64 .lsh .imm).code, 1, 0, 0, 32⟩, ⟨(Op.alu64 .arsh .imm).code, 1, 0, 0, 32⟩,
      ⟨(Op.alu64 .mov .imm).code, 0, 0, 0, 1⟩, ⟨(Op.jcond .sgt .imm).code, 1, 0, 1, imm⟩,
      ⟨(Op.alu64 .mov .imm).code, 0, 0, 0, 0⟩, ⟨Op.exit.code, 0, 0, 0, 0⟩])
    (hoff : off.toInt = L.offset i) (hk : imm.toInt = k)
    (hg : ∀ s, g s = .rejectIf (k < (s i).toInt)) : Implements L code g := by
  intro P M memLen s hM
  rw [hg]
  refine Returns.mono (n := 7) ?_ (by decide)
  refine .slot (initState_mem_holds P hM) i (hd 0 _ rfl) hoff rfl ?_
  refine .signExtend (hd 1 _ rfl) (hd 2 _ rfl) rfl (.mov64 (hd 3 _ rfl) ?_)
  refine returns_rejectIf _ (hd 4 _ rfl) (hd 5 _ rfl) (hd 6 _ rfl) rfl ?_
  rw [← hk]
  exact slt_sext imm (s i)

/-- `if (slot < k) return REJECT; return PASS;` on `int`. -/
theorem implements_rejectBelow (i : ι) (k : Int) (off : BitVec 16) (imm : BitVec 32)
    (hd : Decodes code [⟨(Op.ldx .w).code, 1, 1, off, 0⟩,
      ⟨(Op.alu64 .lsh .imm).code, 1, 0, 0, 32⟩, ⟨(Op.alu64 .arsh .imm).code, 1, 0, 0, 32⟩,
      ⟨(Op.alu64 .mov .imm).code, 0, 0, 0, 1⟩, ⟨(Op.alu64 .mov .imm).code, 2, 0, 0, imm⟩,
      ⟨(Op.jcond .sgt .reg).code, 2, 1, 1, 0⟩, ⟨(Op.alu64 .mov .imm).code, 0, 0, 0, 0⟩,
      ⟨Op.exit.code, 0, 0, 0, 0⟩])
    (hoff : off.toInt = L.offset i) (hk : imm.toInt = k)
    (hg : ∀ s, g s = .rejectIf ((s i).toInt < k)) : Implements L code g := by
  intro P M memLen s hM
  rw [hg]
  refine Returns.mono (n := 8) ?_ (by decide)
  refine .slot (initState_mem_holds P hM) i (hd 0 _ rfl) hoff rfl ?_
  refine .signExtend (hd 1 _ rfl) (hd 2 _ rfl) rfl (.mov64 (hd 3 _ rfl) (.mov64 (hd 4 _ rfl) ?_))
  refine returns_rejectIf _ (hd 5 _ rfl) (hd 6 _ rfl) (hd 7 _ rfl) rfl ?_
  rw [← hk]
  exact slt_sext (s i) imm

/-- `if (a == 0) return PASS; if (a != b) return REJECT; return PASS;`. -/
theorem implements_rejectUnequal (a b : ι) (offa offb : BitVec 16)
    (hd : Decodes code [⟨(Op.alu64 .mov .imm).code, 0, 0, 0, 0⟩,
      ⟨(Op.ldx .w).code, 2, 1, offa, 0⟩, ⟨(Op.jcond .eq .imm).code, 2, 0, 4, 0⟩,
      ⟨(Op.ldx .w).code, 1, 1, offb, 0⟩, ⟨(Op.alu64 .mov .imm).code, 0, 0, 0, 1⟩,
      ⟨(Op.jcond .ne .reg).code, 2, 1, 1, 0⟩, ⟨(Op.alu64 .mov .imm).code, 0, 0, 0, 0⟩,
      ⟨Op.exit.code, 0, 0, 0, 0⟩])
    (hoffa : offa.toInt = L.offset a) (hoffb : offb.toInt = L.offset b)
    (hg : ∀ s, g s = .rejectIf (s a ≠ 0 ∧ s a ≠ s b)) : Implements L code g := by
  intro P M memLen s hM
  rw [hg]
  have hM' := initState_mem_holds P hM
  refine Returns.mono (n := 8) ?_ (by decide)
  refine .mov64 (hd 0 _ rfl) (.slot hM' a (hd 1 _ rfl) hoffa rfl ?_)
  refine .jcond (decide (s a = 0)) (hd 2 _ rfl) (zext_beq (s a) 0) (fun ha => ?_) fun ha => ?_
  · have : decide (s a ≠ 0 ∧ s a ≠ s b) = false := by simp [of_decide_eq_true ha]
    rw [this]
    exact .exit (hd 7 _ rfl)
  · refine .slot hM' b (hd 3 _ rfl) hoffb rfl (.mov64 (hd 4 _ rfl) ?_)
    refine returns_rejectIf _ (hd 5 _ rfl) (hd 6 _ rfl) (hd 7 _ rfl) rfl ?_
    refine (zext_bne (s a) (s b)).trans ?_
    simp [show ¬ s a = 0#32 from of_decide_eq_false ha]

end

end BlueSwat.Fsm
