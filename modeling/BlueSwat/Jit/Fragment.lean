import BlueSwat.Jit.Proof.Rows
import BlueSwat.Jit.Proof.Templates
import BlueSwat.Lib.Thumb.Line

/-!
# One instruction on both sides

What it means that the code `build_inst` emits for an instruction does what the interpreter does:
from a machine state that mirrors the interpreter's, the code runs to its end and the machine
mirrors the interpreter's state after the instruction (`Agrees`). For a conditional jump the state
stays, and the branch is taken iff the interpreter jumps (`JumpAgrees`). The temporary registers and
the flags are arbitrary before the code.
-/

set_option autoImplicit false

namespace BlueSwat.Jit

open Thumb Bytes
open Ebpf (EbpfInst Op Cond Form Size effAddr)

/-- The machine keeps the interpreter's registers in their rows, and the rest of memory is the same;
the rows on the stack are the 64 bytes below `top`. -/
structure Mirrors (top : Word) (x : Ebpf.State) (s : State) : Prop where
  fp : s.reg fp = top
  aligned : top.toNat % 4 = 0
  rows : ∀ r, r.toNat < 11 → rowVal s r = x.reg r
  mem : ∀ a, ¬ Within a (top - 64) 64 → s.mem a = x.mem a

/-- The bytes that the interpreter accesses: where they start, and how many they are. -/
def accessed (inst : EbpfInst) (x : Ebpf.State) : Option Op → Word × Nat
  | some (.ldx size) => (effAddr (x.reg inst.src) inst.offset, size.bytes)
  | some (.st size) | some (.stx size) => (effAddr (x.reg inst.dst) inst.offset, size.bytes)
  | _ => (0, 0)

/-- They are not those of the rows, and the system lets the code access them. -/
def Clear (sys : Sys) (top : Word) (inst : EbpfInst) (x : Ebpf.State) : Prop :=
  let p := accessed inst x (Op.ofCode inst.opcode)
  ∀ a, Within a p.1 p.2 → ¬ Within a (top - 64) 64 ∧ sys.unpriv a = true

/-- The code for `inst` takes a machine that mirrors `x` to one that mirrors the state after `inst`,
if the interpreter has one. -/
def Agrees (inst : EbpfInst) (x : Ebpf.State) : Prop :=
  ∀ (J : JitState) (pc : Nat), J.insts pc = inst → ∀ H vm mem memLen x',
    Ebpf.execOp H vm mem memLen inst x (Op.ofCode inst.opcode) = .next x' →
    ∀ sys top s, Mirrors top x s → Clear sys top inst x →
      ∃ t, runCode sys (buildInst J pc).1 s = some (t, false) ∧ Mirrors top x' t

/-- The code for a conditional jump takes its branch iff the condition holds, and leaves the
registers and the memory. A jump by 0 with an immediate has no code; it goes where the next
instruction is. -/
def JumpAgrees (inst : EbpfInst) (cond : Cond) (form : Form) (x : Ebpf.State) : Prop :=
  ∀ (J : JitState) (pc : Nat), J.insts pc = inst → ∀ sys top s, Mirrors top x s →
    ∃ t taken, runCode sys (buildInst J pc).1 s = some (t, taken) ∧ Mirrors top x t ∧
      (form = .imm ∧ inst.offset = 0 ∨
        taken = cond.holds form (x.reg inst.dst) (x.reg inst.src) inst.imm)

/-- A state whose registers all differ, in both halves, and whose memory differs from octet to
octet. -/
def mixedState : Ebpf.State where
  pc := 1
  reg q := BitVec.ofNat 64 (0x300000005 * (q.toNat + 1))
  mem a := a.setWidth 8

/-! ## Parts of the code -/

def lr : Reg := 14

/-- Load the destination to `TMP_REG_1`, if it is on the stack. -/
def fetchDst (d : BitVec 4) : List Inst := (getRow d).map .base

/-- Load the source to `TMP_REG_2`, if it is on the stack. -/
def fetchSrc (r : BitVec 4) : List Inst :=
  if onStack r then [.base (.ldrd tmp2Lo tmp2Hi fp (slotAt r))] else []

/-- The registers of the second operand. -/
def srcLo (form : Form) (r : BitVec 4) : Reg :=
  if form = .imm ∨ onStack r = true then tmp2Lo else heldLo r

def srcHi (form : Form) (r : BitVec 4) : Reg :=
  if form = .imm ∨ onStack r = true then tmp2Hi else heldHi r

/-- Load both operands. -/
def fetch (form : Form) (d r : BitVec 4) (imm : Word) : List Inst :=
  match form with
  | .imm => (movSext tmp2Lo tmp2Hi imm).map .base ++ fetchDst d
  | .reg => fetchDst d ++ fetchSrc r

/-- Where the high or the low half of a row is in its slot. -/
def halfOff (hi : Bool) : Word := if hi then 4 else 0

def heldReg (d : BitVec 4) (hi : Bool) : Reg := if hi then heldHi d else heldLo d

/-- Load one half of a row to `q`, if the row is on the stack. -/
def fetchHalf (r : BitVec 4) (hi : Bool) (q : Reg) : List Inst :=
  if onStack r then [.base (.ldr q fp (slotAt r + halfOff hi))] else []

/-- The register that has the half then. -/
def halfReg (r : BitVec 4) (hi : Bool) (q : Reg) : Reg := if onStack r then q else heldReg r hi

/-- Store the destination, if it is on the stack. -/
def storeRow (d : BitVec 4) : List Inst := (putRow d).map .base

/-- Store one half of a row on the stack. -/
def storeHalf (rt : Reg) (off : Word) : Inst := .store .word false rt fp ⟨true, false, off⟩

/-- One half of the result is in `a`. -/
def putHalf (d : BitVec 4) (hi : Bool) (a : Reg) : List Inst :=
  if onStack d then [storeHalf a (slotAt d + halfOff hi)]
  else if a = heldReg d hi then [] else [.base (.movReg (heldReg d hi) a)]

/-- Quiet instructions that write only scratch registers, `lr` and those of `d`. -/
def tameLine (d : BitVec 4) (is : List Inst) : Bool :=
  is.all fun i => i.quiet && i.dests.all fun q =>
    scratch.contains q || q == lr || (!onStack d && (q == heldLo d || q == heldHi d))

end BlueSwat.Jit
