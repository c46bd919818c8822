import BlueSwat.Jit.Proof.WordLow

/-!
# 64-bit constants

`emit_mov_i64` moves the halves of a constant to the registers of a row, or to those of `TMP_REG_1`
and from there to the stack. `constants_set`: the row then has the constant, whatever it is, and the
other rows and the memory stay. So do `LDDW` (`lddw_sets`) and `MOV64_IMM` (`mov64_imm_agrees`).
-/

set_option autoImplicit false

namespace BlueSwat.Jit

open Thumb Bytes
open Ebpf (EbpfInst Op Form)

/-- The code sets register `d` to `v`, and nothing else changes. -/
def Sets (c : Code) (d : BitVec 4) (v : BitVec 64) : Prop :=
  ∀ sys top x s, Mirrors top x s →
    ∃ t, runCode sys c s = some (t, false) ∧ Mirrors top (x.set d v) t

/-! ## The code -/

def movHalves (d : BitVec 4) (v : BitVec 64) : List Inst :=
  (movConst (heldLo d) (low v)).map .base ++ (movConst (heldHi d) (high v)).map .base

theorem disassemble_movI64 {d : BitVec 4} (hd : d.toNat < 11) (v : BitVec 64) :
    disassemble (emitMovI64 (rowOf d) v) = some (movHalves d v ++ storeRow d) := by
  obtain ⟨⟨hlo, -⟩, hhi, -⟩ := dstPair_low _ (dstPair_mem d hd)
  have h1 := disassemble_emitMovImm hlo (low v)
  have h2 := disassemble_emitMovImm hhi (high v)
  have hall := disassemble_seq (disassemble_seq h1 h2) (disassemble_getDst d hd).2.2
  simp only [emitMovI64, heldRow_eq d hd]
  exact hall

theorem tame_movHalves (d : BitVec 4) (v : BitVec 64) : tameLine d (movHalves d v) = true := by
  have hlo := tame_movConst d false (low v)
  have hhi := tame_movConst d true (high v)
  rw [movHalves, tameLine_append, Bool.and_eq_true]
  exact ⟨hlo, hhi⟩

theorem runs_movHalves {d : BitVec 4} (hd : d.toNat < 11) (v : BitVec 64) (sys : Sys) (s : State) :
    Runs sys (movHalves d v) s fun t => heldVal t d = v := by
  have hO := operands hd hd .reg
  refine (runs_movConst (hO.plain _ (by simp)).1 (low v) sys s).append fun t ht => ?_
  refine (runs_movConst (hO.plain _ (by simp)).1 (high v) sys t).mono fun u hu => ?_
  rw [heldVal, hu.1, hu.2.2 _ hO.halves, ht.1, pair_high_low]

theorem movI64_sets {d : BitVec 4} (hd : d.toNat < 11) (v : BitVec 64) :
    Sets (emitMovI64 (rowOf d) v) d v := by
  intro sys top x s hM
  obtain ⟨t, ht, hval⟩ := runs_movHalves hd v sys s
  obtain ⟨u, hu, hMu⟩ := hM.block hd (tame_movHalves d v) ht
  exact ⟨u, by rw [runCode_eq (disassemble_movI64 hd v), hu], hval ▸ hMu⟩

/-! ## Constants -/

/-- **64-bit constants** are right, for all values and destinations. -/
theorem constants_set (d : BitVec 4) (hd : d.toNat < 11) :
    (∀ v : BitVec 64, Sets (emitMovI64 (rowOf d) v) d v) ∧
      ∀ imm : Word, Sets (emitMovSeImm64 true (rowOf d) imm) d (imm.signExtend 64) :=
  ⟨movI64_sets hd, fun imm => movI64_sets hd (imm.signExtend 64)⟩

/-- Into `r3`, which is on the stack. -/
theorem constants_set_stacked : onStack 3 = true ∧
    Sets (emitMovI64 (rowOf 3) 0x0123456789abcdef) 3 0x0123456789abcdef :=
  ⟨by decide, (constants_set 3 (by decide)).1 _⟩

theorem mov64_imm_agrees {inst : EbpfInst} {x : Ebpf.State}
    (hop : Op.ofCode inst.opcode = some (.alu64 .mov .imm)) (hd : inst.dst.toNat < 11)
    (hr : inst.src.toNat < 11) : Agrees inst x := by
  rw [agrees_alu64_iff hop hd hr fun H => rfl]
  exact fun sys top s hM => movI64_sets hd _ sys top x s hM

/-- What `LDDW` loads: its own immediate, and the one of the slot after it. -/
theorem lddw_sets {J : JitState} {pc : Nat} (hop : Op.ofCode (J.insts pc).opcode = some .lddw)
    (hd : (J.insts pc).dst.toNat < 11) :
    Sets (buildInst J pc).1 (J.insts pc).dst
      (Ebpf.zext (J.insts pc).imm ||| Ebpf.zext (J.insts (pc + 1)).imm <<< 32) := by
  rw [buildInst, hop]
  simp only [buildOp, row_of_lt hd]
  exact movI64_sets hd _

end BlueSwat.Jit
