import BlueSwat.Lib.ByteOrder
import BlueSwat.Ebpf.Vm

/-!
# The eBPF instruction set

What the arithmetic, byte-order and conditional-jump instructions of `ebpf_inst.h` mean by the
eBPF instruction set, as a reference to compare the interpreter with. Nothing here is translated
from `ebpf_vm.c`.

One evaluator per operation serves both widths (`alu`); the 32-bit class works on the low halves
and zero-extends, the 64-bit class on whole registers with the immediate sign-extended. A division
by zero gives 0 and a modulo by zero its first operand; a shift takes its amount modulo the width.
-/

set_option autoImplicit false

namespace BlueSwat.Ebpf.Isa

open ByteOrder

/-! ## Operands -/

def operand32 (inst : EbpfInst) (src : BitVec 64) : Form → BitVec 32
  | .imm => inst.imm
  | .reg => u32 src

def operand64 (inst : EbpfInst) (src : BitVec 64) : Form → BitVec 64
  | .imm => sext inst.imm
  | .reg => src

/-- A shift amount below the width, a divisor other than zero. -/
def OperandOk {w : Nat} (b : BitVec w) : AluOp → Prop
  | .lsh | .rsh | .arsh => b.toNat < w
  | .div | .mod => b ≠ 0
  | _ => True

/-! ## Arithmetic -/

def alu {w : Nat} (op : AluOp) (a b : BitVec w) : BitVec w :=
  match op with
  | .add => a + b
  | .sub => a - b
  | .mul => a * b
  | .div => a / b
  | .or => a ||| b
  | .and => a &&& b
  | .lsh => a <<< (b.toNat % w)
  | .rsh => a >>> (b.toNat % w)
  | .mod => a % b
  | .xor => a ^^^ b
  | .mov => b
  | .arsh => a.sshiftRight (b.toNat % w)

/-- `LE` on a little-endian host: the low `n` bits. -/
def toLe (n : Nat) (dst : BitVec 64) : BitVec 64 := (dst.setWidth n).setWidth 64

/-- `BE` on a little-endian host: the low `n` bits, byte-swapped. -/
def toBe (n : Nat) (dst : BitVec 64) : BitVec 64 := swapBytes (n / 8) dst

/-- What an instruction of the 32-bit class assigns to `DST`. -/
def result32 (inst : EbpfInst) (dst src : BitVec 64) : Op → Option (BitVec 64)
  | .alu32 op form => some (zext (alu op (u32 dst) (operand32 inst src form)))
  | .neg32 => some (zext (-u32 dst))
  | .le => some (toLe inst.imm.toNat dst)
  | .be => some (toBe inst.imm.toNat dst)
  | _ => none

/-- What an instruction of the 64-bit class assigns to `DST`. -/
def result64 (inst : EbpfInst) (dst src : BitVec 64) : Op → Option (BitVec 64)
  | .alu64 op form => some (alu op dst (operand64 inst src form))
  | .neg64 => some (-dst)
  | _ => none

/-- The operands the 32-bit class is compared on: `LE` and `BE` exist for 16, 32 and 64 bits. -/
def Operands32 (inst : EbpfInst) (src : BitVec 64) : Op → Prop
  | .alu32 op form => OperandOk (operand32 inst src form) op
  | .le | .be => inst.imm = 16 ∨ inst.imm = 32 ∨ inst.imm = 64
  | _ => True

def Operands64 (inst : EbpfInst) (src : BitVec 64) : Op → Prop
  | .alu64 op form => OperandOk (operand64 inst src form) op
  | _ => True

/-! ## Conditional jumps -/

def holds (c : Cond) (a b : BitVec 64) : Bool :=
  match c with
  | .eq => a == b
  | .gt => b.ult a
  | .ge => b.ule a
  | .set => a &&& b != 0
  | .ne => a != b
  | .sgt => b.slt a
  | .sge => b.sle a
  | .lt => a.ult b
  | .le => a.ule b
  | .slt => a.slt b
  | .sle => a.sle b

end BlueSwat.Ebpf.Isa
