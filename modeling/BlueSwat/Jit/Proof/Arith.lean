import BlueSwat.Jit.Proof.Operation

/-!
# 64-bit arithmetic

`arith64_agrees`: `ADD64`, `SUB64` and `MUL64` are right for all registers, values and immediates.
The carry goes from one half to the other between two instructions, and a product is put together
from three products of halves.
-/

set_option autoImplicit false

namespace BlueSwat.Jit

open Thumb Bytes
open Ebpf (EbpfInst Op Form)

/-! ## Bodies -/

def addBody (lo hi lo' hi' : Reg) : List Inst :=
  [.base (.alu .add true lo lo' lo), .base (.alu .adc false hi hi' hi)]

def subBody (lo hi lo' hi' : Reg) : List Inst :=
  [.data .sub true lo lo lo' (.lsl 0), .base (.alu .sbc false hi hi hi')]

/-- The low half of the product is left in `ip`. -/
def mulBody (lo hi lo' hi' : Reg) : List Inst :=
  [.mul false ip lo hi', .mul false lr hi lo', .data .add false lr lr ip (.lsl 0),
    .umull ip hi lo lo', .data .add false hi hi lr (.lsl 0)]

section
variable {sys : Sys} {s : State} {lo hi lo' hi' : Reg} {v w : BitVec 64}

theorem run_addBody (hO : Operands lo hi lo' hi') (hv : pair (s.reg hi) (s.reg lo) = v)
    (hw : pair (s.reg hi') (s.reg lo') = w) :
    Runs sys (addBody lo hi lo' hi') s fun t => pair (t.reg hi) (t.reg lo) = v + w := by
  obtain ⟨hlo, hhi⟩ := halves_of_pair hv
  obtain ⟨hlo', hhi'⟩ := halves_of_pair hw
  refine .alu (hO.plain lo (by simp)).1 fun t w1 => ?_
  refine .alu (hO.plain hi (by simp)).1 fun u w2 => .nil ?_
  rw [w2.dest, w2.rest lo hO.halves, w1.dest, w1.rest hi (Ne.symm hO.halves),
    w1.rest hi' hO.cross.2,
    w1.flags, hlo, hhi, hlo', hhi', BitVec.add_comm v w, ← pair_high_low (w + v), low_add, high_add]
  rfl

theorem run_subBody (hO : Operands lo hi lo' hi') (hv : pair (s.reg hi) (s.reg lo) = v)
    (hw : pair (s.reg hi') (s.reg lo') = w) :
    Runs sys (subBody lo hi lo' hi') s fun t => pair (t.reg hi) (t.reg lo) = v - w := by
  obtain ⟨hlo, hhi⟩ := halves_of_pair hv
  obtain ⟨hlo', hhi'⟩ := halves_of_pair hw
  refine .put rfl (hO.plain lo (by simp)).1 fun t w1 => ?_
  refine .alu (hO.plain hi (by simp)).1 fun u w2 => .nil ?_
  rw [w2.dest, w2.rest lo hO.halves, w1.dest, w1.rest hi (Ne.symm hO.halves),
    w1.rest hi' hO.cross.2,
    w1.flags, Shift.apply_lsl_zero, hlo, hhi, hlo', hhi', ← pair_high_low (v - w), low_sub,
      high_sub]
  rfl

theorem run_mulBody (hO : Operands lo hi lo' hi') (hv : pair (s.reg hi) (s.reg lo) = v)
    (hw : pair (s.reg hi') (s.reg lo') = w) :
    Runs sys (mulBody lo hi lo' hi') s fun t => pair (t.reg hi) (t.reg ip) = v * w := by
  obtain ⟨hlo, hhi⟩ := halves_of_pair hv
  obtain ⟨hlo', hhi'⟩ := halves_of_pair hw
  obtain ⟨-, i1, l1⟩ := hO.plain lo (by simp)
  obtain ⟨p2, i2, l2⟩ := hO.plain hi (by simp)
  obtain ⟨-, i3, l3⟩ := hO.plain lo' (by simp)
  obtain ⟨-, i4, l4⟩ := hO.plain hi' (by simp)
  have hil : ip ≠ lr := by decide
  refine .put rfl (by decide) fun t1 w1 => ?_
  refine .put rfl (by decide) fun t2 w2 => ?_
  refine .put rfl (by decide) fun t3 w3 => ?_
  refine .umull (by decide) p2 (Ne.symm i2) fun t4 hip hhi4 h4 => ?_
  refine .put rfl p2 fun t5 w5 => .nil ?_
  -- what each register holds when it is read
  have hlr : t4.reg lr = high v * low w + low v * high w := by
    rw [h4 lr (by decide) (Ne.symm l2), w3.dest, w2.dest, w2.rest ip hil, w1.dest, w1.rest hi i2,
      w1.rest lo' i3, hlo, hhi, hlo', hhi']
    simp [dataResult]
  have hl : ∀ q, q ≠ ip → q ≠ lr → t3.reg q = s.reg q := fun q h1 h2 => by
    rw [w3.rest q h2, w2.rest q h2, w1.rest q h1]
  rw [hl lo i1 l1, hl lo' i3 l3, hlo, hlo'] at hip hhi4
  rw [w5.dest, w5.rest ip (Ne.symm i2), hip, hhi4, hlr, mul_eq_pair v w]
  simp [dataResult, low, high]

end

/-! ## Agreement -/

section
variable {d r : BitVec 4} (hd : d.toNat < 11) (hr : r.toNat < 11) (form : Form) (imm : Word)
include hd hr

theorem disassemble_add64 :
    disassemble (buildAlu64 .add form (rowOf d) (rowOf r) imm) = some (fetch form d r imm ++
      addBody (heldLo d) (heldHi d) (srcLo form r) (srcHi form r) ++ storeRow d) :=
  disassemble_halves .add addBody (by decide) hd hr (by cases form <;> rfl)

theorem disassemble_sub64 :
    disassemble (buildAlu64 .sub form (rowOf d) (rowOf r) imm) = some (fetch form d r imm ++
      subBody (heldLo d) (heldHi d) (srcLo form r) (srcHi form r) ++ storeRow d) :=
  disassemble_halves .sub subBody (by decide) hd hr (by cases form <;> rfl)

/-- The code of a product on machine registers. -/
def emitProduct (rd rt : Row) : Code :=
  emit4 (thumb32MulT2 armIp rd.lo rt.hi) ++ (emit4 (thumb32MulT2 armLr rd.hi rt.lo) ++
    (emit2 (thumb16AddRegT2 armLr armIp) ++ (emit4 (thumb32UmullT2 armIp rd.hi rd.lo rt.lo) ++
      emit2 (thumb16AddRegT2 rd.hi armLr))))

omit hd hr in
theorem worksOn_mul : WorksOn emitA32MulR64 emitProduct
    (fun a rd => armBpfPutReg32 a.lo armIp ++ armBpfPutReg32 a.hi rd.hi) := fun a b => by
  simp only [emitA32MulR64, emitProduct, List.append_assoc]

theorem disassemble_mul64 :
    disassemble (buildAlu64 .mul form (rowOf d) (rowOf r) imm) = some (fetch form d r imm ++
      mulBody (heldLo d) (heldHi d) (srcLo form r) (srcHi form r) ++
        (putHalf d false ip ++ putHalf d true (heldHi d))) :=
  worksOn_mul.disassemble (fun d => putHalf d false ip ++ putHalf d true (heldHi d)) (by decide)
    (by decide) hd hr (by cases form <;> rfl)

end

theorem tame_body {d : BitVec 4} (lo hi : Reg) {body : Reg → Reg → Reg → Reg → List Inst}
    (hb : body ∈ [addBody, subBody, mulBody]) :
    tameLine d (body (heldLo d) (heldHi d) lo hi) = true := by
  simp only [List.mem_cons, List.not_mem_nil, or_false] at hb
  rcases hb with rfl | rfl | rfl <;> exact tameLine_of_dests (by
    simp [addBody, subBody, mulBody, Inst.quiet, Instr.quiet, Inst.dests, Instr.dests, tameRegs])

/-- Sums, differences and products agree. -/
theorem sum64_agrees {inst : EbpfInst} {op : Ebpf.AluOp} {form : Form} {x : Ebpf.State}
    (hd : inst.dst.toNat < 11) (hr : inst.src.toNat < 11)
    (hop : Op.ofCode inst.opcode = some (.alu64 op form)) (hsum : op ∈ [.add, .sub, .mul]) :
    Agrees inst x := by
  have hO := operands hd hr form
  simp only [List.mem_cons, List.not_mem_nil, or_false] at hsum
  rcases hsum with rfl | rfl | rfl
  · exact agrees_of_block hop hd hr (fun H => rfl) (tame_body _ _ (by simp))
      (disassemble_add64 hd hr form inst.imm) fun sys top c t h => run_addBody hO h.dst h.operand
  · exact agrees_of_block hop hd hr (fun H => rfl) (tame_body _ _ (by simp))
      (disassemble_sub64 hd hr form inst.imm) fun sys top c t h => run_subBody hO h.dst h.operand
  · exact agrees_of_halves hop hd hr (fun H => rfl) (tame_body _ _ (by simp))
      (Ne.symm hO.halves) (disassemble_mul64 hd hr form inst.imm) fun sys top c t h =>
      run_mulBody hO h.dst h.operand

/-- **64-bit sums, differences and products**: the code of `ADD64`, `SUB64` and `MUL64` computes
what the interpreter computes, for all registers, values and immediates. -/
theorem arith64_agrees (inst : EbpfInst) (op : Ebpf.AluOp) (form : Form)
    (hop : Op.ofCode inst.opcode = some (.alu64 op form)) (harith : op ∈ [.add, .sub, .mul])
    (hd : inst.dst.toNat < 11) (hr : inst.src.toNat < 11) (x : Ebpf.State) : Agrees inst x :=
  sum64_agrees hd hr hop harith

/-- `r7 *= r2`. -/
theorem arith64_agrees_mul :
    Agrees { opcode := 0x2f, dst := 7, src := 2, offset := 0, imm := 0 } mixedState :=
  arith64_agrees _ .mul .reg (by decide) (by decide) (by decide) (by decide) _

end BlueSwat.Jit
