import BlueSwat.Jit.Proof.Arith
import BlueSwat.Jit.Proof.Preservation
import BlueSwat.Jit.Proof.ShiftReg
import BlueSwat.Jit.Proof.Store

/-!
# Which instructions are right

`Right` collects, for every operation, when its code does what the interpreter does: always for
sums, constants and moves, and under a condition on the registers for most others.
`faithful_of_right` says that such an instruction can be followed. Left out are `AND32`, `DIV64`,
`MOD64`, the byte swaps and `CALL`.
-/

set_option autoImplicit false

namespace BlueSwat.Jit

open Thumb Bytes
open Ebpf (EbpfInst EbpfVm Op Form)

/-- Where the code of an operation is right. -/
def Right (inst : EbpfInst) (x : Ebpf.State) : Op → Prop
  | .alu64 .add _ | .alu64 .sub _ | .alu64 .mul _ | .lddw | .ja | .exit => True
  -- with an immediate of 1, a move of a register clears the high half instead
  | .alu64 .mov form => form = .reg → inst.imm ≠ 1
  | .alu64 .rsh .imm | .alu64 .arsh .imm => inst.imm.toNat < 64
  | .alu64 .lsh .imm => inst.imm.toNat < 64 ∧ shift64Right inst .lsh .imm inst.imm.toNat
  | .alu64 .lsh .reg => (x.reg inst.src).toNat < 64 ∧
    shift64Right inst .lsh .reg (x.reg inst.src).toNat
  | .alu64 .rsh .reg => (x.reg inst.src).toNat < 64 ∧
    shift64Right inst .rsh .reg (x.reg inst.src).toNat
  | .alu64 .arsh .reg => (x.reg inst.src).toNat < 64 ∧
    shift64Right inst .arsh .reg (x.reg inst.src).toNat
  | .alu64 .div _ | .alu64 .mod _ | .alu32 .and _ | .le | .be | .call => False
  | .jcond cond form => form = .imm ∧ inst.offset = 0 ∨
    jumpRight cond (x.reg inst.dst) (operandVal form (x.reg inst.src) inst.imm)
      (unsignedVal form (x.reg inst.src) inst.imm)
  | .ldx size => accessRight inst (high (x.reg inst.dst)) (.ldx size)
  | .st size => accessRight inst (high (x.reg inst.dst)) (.st size)
  | .stx size => accessRight inst (high (x.reg inst.dst)) (.stx size)
  | .alu64 op form => logic64Right inst x (.alu64 op form)
  | .neg64 => logic64Right inst x .neg64
  | op => word32Defined inst x op ∧ word32Right inst x op

/-! ## Moves of a register -/

/-- A row is copied. -/
def moveRow (d r : BitVec 4) : List Inst :=
  if onStack r then .base (.ldrd (heldLo d) (heldHi d) fp (slotAt r)) :: storeRow d
  else if onStack d then [.base (.strd (heldLo r) (heldHi r) fp (slotAt d))]
  else [.base (.movReg (heldLo d) (heldLo r)), .base (.movReg (heldHi d) (heldHi r))]

theorem disassemble_movReg64 : ∀ d r : BitVec 4, d.toNat < 11 → r.toNat < 11 →
    disassemble (emitMovReg64 true (rowOf d) (rowOf r)) = some (moveRow d r) := by
  decide +kernel

theorem exec_strd {sys : Sys} {s : State} {rt rt2 rn : Reg} {off : Word}
    (h : aligned (s.reg rn + off) = true) :
    (Inst.base (.strd rt rt2 rn off)).exec sys s =
      some ({ s with mem := storeAll s.mem (s.reg rn + off) [s.reg rt, s.reg rt2] }.skip 0) := by
  simp only [Inst.exec, Instr.straight, if_true, exec, h]

section
variable {top : Word} {x : Ebpf.State} {s : State} {d r : BitVec 4}

/-- A row on the stack is stored from any two registers. -/
theorem Mirrors.storePair (hM : Mirrors top x s) (sys : Sys) (hd : d.toNat < 11)
    (hs : onStack d = true) (lo hi : Reg) :
    ∃ t, runLine sys [.base (.strd lo hi Jit.fp (slotAt d))] s = some (t, false) ∧
      Mirrors top (x.set d (pair (s.reg hi) (s.reg lo))) t := by
  have hal : Thumb.aligned (s.reg Jit.fp + slotAt d) = true :=
    hM.fp ▸ aligned_slotAt hM.aligned hd hs
  obtain ⟨hrow, hrest⟩ := rowVal_store hM.fp hd hs (s.reg lo) (s.reg hi)
  generalize ht : ({ s with
    mem := storeAll s.mem (top + slotAt d) [s.reg lo, s.reg hi] } : State) = t at hrow hrest
  refine ⟨t.skip 0, ?_, hM.of_rows ?_ _ hrow hrest fun c hc => ?_⟩
  · rw [runLine_cons (by rintro _ _ ⟨⟩), exec_strd hal, hM.fp, ht]
    rfl
  · rw [← ht]
    rfl
  · obtain ⟨-, h3, h4⟩ := slotAt_range d hd hs
    change t.mem c = _
    rw [← ht]
    refine storeAll_of_not_within fun hw => hc ?_
    have h64 : (64 : Word).toNat = 64 := rfl
    have := c.isLt
    have := top.isLt
    simp only [Within, BitVec.toNat_sub, BitVec.toNat_add, List.length_cons,
      List.length_nil] at hw ⊢
    omega

/-- A row is copied to another. -/
theorem Mirrors.moveRow (hM : Mirrors top x s) (sys : Sys) (hd : d.toNat < 11) (hr : r.toNat < 11) :
    ∃ t, runLine sys (moveRow d r) s = some (t, false) ∧ Mirrors top (x.set d (x.reg r)) t := by
  have hO := operands hd hr .reg
  have hlo : heldLo d ≠ sp := (hO.plain _ (by simp)).1
  have hhi : heldHi d ≠ sp := (hO.plain _ (by simp)).1
  have hval : onStack r = false → heldVal s r = x.reg r := by
    intro hs
    rw [← hM.rows r hr, rowVal, hs]
    rfl
  unfold Jit.moveRow
  split
  · rename_i hs
    obtain ⟨t, ht, hv, -, -⟩ := hM.loadRow sys hr hs (heldLo d) (heldHi d) hlo hhi hO.halves
    rw [← hv]
    exact hM.block hd (tameLine_of_dests (by
      simp [Inst.quiet, Instr.quiet, Inst.dests, Instr.dests, tameRegs])) ht
  · rename_i hs
    have hs : onStack r = false := Bool.eq_false_iff.2 hs
    split
    · rename_i hsd
      obtain ⟨t, ht, hMt⟩ := hM.storePair sys hd hsd (heldLo r) (heldHi r)
      exact ⟨t, ht, by rw [← hval hs]; exact hMt⟩
    · rename_i hsd
      have hsd : onStack d = false := Bool.eq_false_iff.2 hsd
      have hrow : Jit.storeRow d = [] := by rw [Jit.storeRow, putRow, hsd]; rfl
      have hcross : heldHi r ≠ heldLo d := by
        have := hO.cross.2
        rwa [srcHi, hs, if_neg (by simp)] at this
      obtain ⟨t, ht, hv⟩ : ∃ t, runLine sys [.base (.movReg (heldLo d) (heldLo r)),
          .base (.movReg (heldHi d) (heldHi r))] s = some (t, false) ∧ heldVal t d = x.reg r := by
        refine ⟨_, rfl, ?_⟩
        rw [← hval hs]
        exact congrArg₂ pair ((set_reg_same hhi _).trans (set_reg_of_ne _ hcross))
          ((set_reg_of_ne _ hO.halves).trans (set_reg_same hlo _))
      have hblock := hM.block hd (tame_halves ⟨rfl, rfl⟩ ⟨rfl, rfl⟩) ht
      rwa [hrow, List.append_nil, hv] at hblock

theorem mov64_reg_agrees {inst : EbpfInst} (hop : Op.ofCode inst.opcode = some (.alu64 .mov .reg))
    (hd : inst.dst.toNat < 11) (hr : inst.src.toNat < 11) (h1 : inst.imm ≠ 1) : Agrees inst x := by
  have hbuild : buildAlu64 .mov .reg (rowOf inst.dst) (rowOf inst.src) inst.imm =
      emitMovReg64 true (rowOf inst.dst) (rowOf inst.src) := if_neg h1
  refine (agrees_alu64_iff hop hd hr fun H => rfl).2 fun sys top s hM => ?_
  rw [hbuild, runCode_eq (disassemble_movReg64 _ _ hd hr)]
  exact hM.moveRow sys hd hr

end

/-! ## All operations -/

section
variable {inst : EbpfInst} {x : Ebpf.State} (hd : inst.dst.toNat < 11) (hr : inst.src.toNat < 11)
include hd hr

theorem agrees64_of_right {op : Ebpf.AluOp} {form : Form}
    (hop : Op.ofCode inst.opcode = some (.alu64 op form)) (h : Right inst x (.alu64 op form)) :
    Agrees inst x := by
  cases op with
  | add | sub | mul => exact sum64_agrees hd hr hop (by simp)
  | mov =>
    cases form with
    | imm => exact mov64_imm_agrees hop hd hr
    | reg => exact mov64_reg_agrees hop hd hr (h rfl)
  | div | mod => exact h.elim
  | and => exact and64_agrees hd hr hop
  | or =>
    cases form with
    | imm => exact or64_agrees hd hr hop (.inl rfl)
    | reg =>
      cases hs : onStack inst.src with
      | true => exact or64_agrees hd hr hop (.inr hs)
      | false =>
        refine (or64_narrow_iff hop hd hr hs).2 (h.resolve_left ?_)
        rw [hs]
        exact Bool.false_ne_true
  | xor =>
    obtain ⟨rfl, h0, h16⟩ := h
    exact xor64_agrees hd hr hop h0 h16
  | lsh =>
    cases form with
    | imm => exact (lshImm_agrees_iff hop hd h.1).2 h.2 x
    | reg => exact (lshReg_agrees_iff hop hd hr h.1).2 h.2 x rfl
  | rsh =>
    cases form with
    | imm => exact shiftDown_agrees hd hop (by simp) h
    | reg => exact (rshReg_agrees_iff hop hd hr h.1).2 h.2 x rfl
  | arsh =>
    cases form with
    | imm => exact shiftDown_agrees hd hop (by simp) h
    | reg => exact (arshReg_agrees_iff hop hd hr h.1).2 h.2 x rfl

theorem agrees32_of_right {op : Ebpf.AluOp} {form : Form}
    (hop : Op.ofCode inst.opcode = some (.alu32 op form)) (h : Right inst x (.alu32 op form)) :
    Agrees inst x := by
  cases op with
  | add | sub | mul => exact (arith32_agrees_iff hd hr hop (by simp)).2 h.2
  | mov =>
    cases form with
    | imm => exact (movImm32_agrees_iff hd hr hop).2 h.2
    | reg => exact (movReg32_agrees_iff hd hr hop).2 h.2
  | div =>
    obtain ⟨hdef, hhi, hb, hq⟩ := h
    refine (divMod_agrees_iff true hop hd hr rfl rfl (hdef.2 (by simp))).2 ⟨hhi, hb, ?_⟩
    exact (div_eq_iff hb (divisor_cases form (x.reg inst.src) inst.imm)).2 hq
  | mod =>
    obtain ⟨hdef, hhi, hb, hq⟩ := h
    refine (divMod_agrees_iff false hop hd hr rfl rfl (hdef.2 (by simp))).2 ⟨hhi, hb, ?_⟩
    exact (mod_eq_iff _ _ _).2 hq
  | and => exact h.elim
  | or =>
    cases form with
    | imm => exact (or32_agrees_iff hd hr hop (.inl rfl)).2 h.2
    | reg =>
      cases hs : onStack inst.src with
      | true => exact (or32_agrees_iff hd hr hop (.inr hs)).2 h.2.1
      | false =>
        refine (or32_narrow_iff hd hr hop hs).2 ⟨h.2.1, h.2.2.resolve_left ?_⟩
        rw [hs]
        exact Bool.false_ne_true
  | xor =>
    obtain ⟨-, hhi, rfl, h0, h16⟩ := h
    exact (xor32_agrees_iff hd hr hop h0 h16).2 hhi
  | lsh | rsh | arsh =>
    cases form with
    | imm => exact (shiftConst32_agrees_iff hop (by simp) hd hr (h.1.1 (by simp))).2 h.2
    | reg => exact (shift32_agrees_iff hd hr hop (by simp) (h.1.1 (by simp))).2 h.2

theorem agrees_access_of_right {op : Op} (hop : Op.ofCode inst.opcode = some op)
    (hacc : isAccess op = true) (h : accessRight inst (high (x.reg inst.dst)) op) :
    Agrees inst x := by
  match op, hacc with
  | .ldx .dw, _ =>
    have hok : offsetOk (onStack inst.src) inst.offset.toInt .dw := h
    exact ldxDouble_agrees hop hd hr hok x
  | .ldx .b, _ | .ldx .h, _ | .ldx .w, _ =>
    exact ldxNarrow_agrees hop hd hr (by decide) h.1 h.2.2 h.2.1
  | .stx _, _ => exact stx_same_agrees hd hop h.1 h.2 x
  | .st _, _ => exact h.elim

end

/-- The instruction that is next is right, and its accesses are clear of the rows. -/
structure RightAt (sys : Sys) (top : Word) (vm : EbpfVm) (x : Ebpf.State) : Prop where
  right : ∃ op, Ebpf.opAt vm x = some op ∧ Right (vm.fetch x.pc) (x.jump 1) op
  clear : Clear sys top (vm.fetch x.pc) (x.jump 1)

/-- **An instruction that is right can be followed.** -/
theorem faithful_of_right {sys : Sys} {top : Word} {vm : EbpfVm} {x : Ebpf.State}
    (hpl : Plain (vm.fetch x.pc)) (hx : RightAt sys top vm x) : Faithful sys top vm x := by
  obtain ⟨⟨op, hop, h⟩, hclear⟩ := hx
  have hop : Op.ofCode (vm.fetch x.pc).opcode = some op := hop
  obtain ⟨hd, hr, -⟩ := hpl
  simp only [Faithful, hop]
  cases op with
  | alu64 op form => exact ⟨agrees64_of_right hd hr hop h, hclear⟩
  | alu32 op form => exact ⟨agrees32_of_right hd hr hop h, hclear⟩
  | neg64 => exact ⟨(neg64_agrees_iff hop hd).2 h, hclear⟩
  | neg32 => exact ⟨(neg32_agrees_iff hop hd).2 h.2, hclear⟩
  | ldx size | st size | stx size => exact ⟨agrees_access_of_right hd hr hop rfl h, hclear⟩
  | jcond cond form =>
    refine (jumpAgrees_taken_iff hop hd hr).2 ?_
    rw [holds_eq, taken_iff cond (low_unsignedVal _ _ _)]
    exact h
  | lddw | ja | exit => trivial
  | le | be | call => exact h.elim

end BlueSwat.Jit
