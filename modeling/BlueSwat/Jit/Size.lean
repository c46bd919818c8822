import BlueSwat.Lib.Assembly
import BlueSwat.Jit.Compile

/-!
# Code sizes

The number of bytes each instruction takes, as a table over its opcode, the rows of its registers
and its constants, and the layout that follows from it. Nothing here looks at emitted code;
`Proof/EmitSize` shows that the emitters keep to the table.

Let `d` and `s` be the rows of `dst` and `src`. A row on the stack costs one load of 4 bytes, and
one store of 4 bytes if it is written.
-/

set_option autoImplicit false

namespace BlueSwat.Jit

open Ebpf

/-- One load or store of a half that is on the stack. -/
def spill (r : Int) : Nat := if isStacked r then 4 else 0

/-- Where a half or a row is held during an operation. -/
def held (r t : Int) : Int := if isStacked r then t else r

def heldRow (r t : Row) : Row := if isStacked r.lo then t else r

/-- A constant: `movs`, `movw`, or `movw` and `movt`. -/
def immSize (rd : Int) (val : BitVec 32) : Nat :=
  if val.toNat ≤ 0xff ∧ 0 ≤ rd ∧ rd < 8 then 2 else if val.toNat ≤ 0xffff then 4 else 8

/-- The upper half of a sign-extended constant. -/
def signHalf (imm : BitVec 32) : BitVec 32 := if imm.msb then 0xffffffff else 0

/-- A sign-extended constant in `tmp2`. -/
def imm64Size (imm : BitVec 32) : Nat := immSize tmp2.lo imm + immSize tmp2.hi (signHalf imm)

/-- A result that is moved to a half that no operation left it in. -/
def putSize (r : Int) : Nat := if isStacked r then 4 else 2

def opSize (op : AluOp) (rd rn : Int) : Nat :=
  match op with
  | .add | .sub => 4
  | .or | .and => if rd < 8 ∧ rn < 8 then 2 else 4
  | _ => if lowReg rn ∧ lowReg rd then 2 else 4

def movSize (is64 : Bool) (form : Form) (d s : Row) (imm : BitVec 32) : Nat :=
  match form, is64 with
  | .reg, is64 =>
    if imm = 1 then immSize d.hi 0
    else if is64 then (if isStacked s.lo ∧ isStacked d.lo then 8 else 4)
    else spill s.lo + if held s.lo tmp.hi = d.lo then 0 else putSize d.lo
  | .imm, true =>
    immSize (heldRow d tmp).lo imm + immSize (heldRow d tmp).hi (signHalf imm) + spill d.lo
  | .imm, false => immSize d.lo imm

def divModSize (isDiv : Bool) (form : Form) (d s : Row) : Nat :=
  2 * spill d.lo + (match form with | .reg => spill s.lo | .imm => 4) + if isDiv then 4 else 8

def alu32Size (op : AluOp) (form : Form) (d s : Row) (imm : BitVec 32) : Nat :=
  match op, form with
  | .mov, form => movSize false form d s imm
  | .div, form => divModSize true form d s
  | .mod, form => divModSize false form d s
  | .lsh, .imm | .rsh, .imm | .arsh, .imm =>
    if imm.toInt > 31 ∨ imm = 0 then 0 else 2 + 2 * spill d.lo
  | op, .imm =>
    immSize tmp2.lo imm + 2 * spill d.lo + opSize op (heldRow d tmp).lo tmp2.lo
  | op, .reg =>
    2 * spill d.lo + spill s.lo + opSize op (heldRow d tmp).lo (held s.lo tmp2.lo)

def alu64Size (op : AluOp) (form : Form) (d s : Row) (imm : BitVec 32) : Nat :=
  match op, form with
  | .mov, form => movSize true form d s imm
  | .div, form => divModSize true form d s
  | .mod, form => divModSize false form d s
  | .lsh, .reg | .rsh, .reg => spill s.lo + spill d.lo + 32 + 2 * putSize d.lo
  | .arsh, .reg => spill s.lo + spill d.lo + 34 + 2 * putSize d.lo
  | .lsh, .imm => 2 * spill d.lo + if (imm.setWidth 16).toNat < 32 then 10 else 4
  | .rsh, .imm =>
    let v := (imm.setWidth 16).toNat
    2 * spill d.lo +
      if v = 0 then 0
      else if v < 32 then 12
      else (if v = 32 then 2 else 4) + immSize (heldRow d tmp).hi 0
  | .arsh, .imm =>
    let v := imm.toNat
    2 * spill d.lo + if v = 0 then 0 else if v < 32 then 12 else if v = 32 then 6 else 8
  | .mul, .imm => imm64Size imm + spill d.lo + 16 + putSize d.lo + spill d.lo
  | .mul, .reg => spill d.lo + spill s.lo + 16 + putSize d.lo + spill d.lo
  | op, .imm =>
    imm64Size imm + 2 * spill d.lo + opSize op (heldRow d tmp).lo tmp2.lo +
      opSize op (heldRow d tmp).hi tmp2.hi
  | op, .reg =>
    2 * spill d.lo + spill s.lo + opSize op (heldRow d tmp).lo (heldRow s tmp2).lo +
      opSize op (heldRow d tmp).hi (heldRow s tmp2).hi

/-- The sum of base and offset, where the offset does not fit. -/
def farSize (off : Int) : Nat := immSize tmp.hi (bits off) + 2

def loadSize (size : Size) (rd rm off : Int) : Nat :=
  match size with
  | .b => if (off ≤ 31 ∧ off ≥ -31) ∧ rd < 8 ∧ rm < 8 then 2 else 4
  | .h => if off ≤ 31 ∧ off ≥ -31 then 2 else 4
  | .w => 4
  | .dw => 8

/-- The load from base and offset, with what makes them fit in front of it. -/
def ldxBaseSize (size : Size) (rd rn off : Int) : Nat :=
  if ¬ isLdstImm off size then farSize off + loadSize size rd tmp.hi 0
  else if rd = rn then 2 + loadSize size rd tmp.hi off
  else loadSize size rd rn off

def ldxSize (size : Size) (d s : Row) (off : Int) : Nat :=
  spill s.lo + ldxBaseSize size (heldRow d tmp).lo (held s.lo tmp2.lo) off + spill d.lo

def strSize (size : Size) (d : Row) (off : Int) : Nat :=
  spill d.lo + (if isLdstImm off size then 0 else farSize off) + if size = .dw then 8 else 4

def cmpSize : Cond → Nat
  | .set => 12
  | .sgt | .sge | .slt | .sle => 6
  | _ => 4

/-- `JLT`, `JLE`, `JSLT` and `JSLE` have no branch. -/
def branchSize (instNum : Nat) (c : Cond) : Nat :=
  if jumpCond c = none then 0 else if useB4 instNum then 4 else 2

def jcondSize (instNum : Nat) (c : Cond) (form : Form) (d s : Row) (off : Int) (imm : BitVec 32) :
    Nat :=
  if form = .imm ∧ off = 0 then 0
  else
    (match form with | .reg => 2 * spill s.lo | .imm => imm64Size imm) + spill d.lo + cmpSize c +
      branchSize instNum c

/-- The size of instruction `pc`; an `EXIT` that is not the last takes `exit`. -/
def opcodeSize (insts : Nat → EbpfInst) (instNum : Nat) (exit pc : Nat) : Option Op → Nat :=
  let inst := insts pc
  let d := bpf2a32 bpfR0 inst.dst
  let s := bpf2a32 bpfR0 inst.src
  let off := inst.offset.toInt
  fun
  | some (.alu32 op form) => alu32Size op form d s inst.imm
  | some (.alu64 op form) => alu64Size op form d s inst.imm
  | some .neg32 => 2 + 2 * spill d.lo
  | some .neg64 => 8 + 2 * spill d.lo
  | some .lddw =>
    immSize (heldRow d tmp).lo inst.imm + immSize (heldRow d tmp).hi (insts (pc + 1)).imm +
      spill d.lo
  | some (.ldx size) => ldxSize size d s off
  | some (.st size) =>
    (if size = .dw then imm64Size inst.imm else immSize tmp2.lo inst.imm) + strSize size d off
  | some (.stx size) => spill s.lo + strSize size d off
  | some .ja => if off = 0 then 0 else 2
  | some (.jcond c form) => jcondSize instNum c form d s off inst.imm
  | some .exit => if pc + 1 = instNum then 0 else exit
  | some .call | some .le | some .be | none => 0

def instSize (insts : Nat → EbpfInst) (instNum : Nat) (exit pc : Nat) : Nat :=
  opcodeSize insts instNum exit pc (Op.ofCode (insts pc).opcode)

/-! ## Layout -/

/-- The opcodes `build_inst` returns -1 for. -/
def refusedOp (imm : BitVec 32) : Option Op → Bool
  | some .le | some .be => true
  | some (.alu32 .lsh .imm) | some (.alu32 .rsh .imm) | some (.alu32 .arsh .imm) => imm.toInt > 31
  | _ => false

def refused (inst : EbpfInst) : Bool := refusedOp inst.imm (Op.ofCode inst.opcode)

/-- The instruction after `i`; an `LDDW` takes two slots. -/
def nextInst (insts : Nat → EbpfInst) (i : Nat) : Nat :=
  if Op.ofCode (insts i).opcode = some .lddw then i + 2 else i + 1

/-- A program as the body's loop sees it: a refused instruction is the last one. -/
def listing (insts : Nat → EbpfInst) (instNum : Nat) : Assembly.Listing where
  num := instNum
  next := nextInst insts
  stops i := refused (insts i)
  lt_next i := by
    unfold nextInst
    split <;> omega

def prologueSize : Nat := 26
def epilogueSize : Nat := 8

/-- The places of the instructions and the end of the body, if instruction `i` takes `size i idx`
bytes at `idx`. -/
def layout (insts : Nat → EbpfInst) (instNum : Nat) (size : Nat → Nat → Nat) :
    List (Nat × Nat) × Nat :=
  (listing insts instNum).place size instNum 0 prologueSize

/-- The first pass: every `EXIT` but the last takes 2 bytes. -/
def preSize (insts : Nat → EbpfInst) (instNum : Nat) (i _idx : Nat) : Nat :=
  instSize insts instNum 2 i

/-- Where the first pass puts the epilogue. -/
def epilogueAt (insts : Nat → EbpfInst) (instNum : Nat) : Nat :=
  (layout insts instNum (preSize insts instNum)).2

/-- A branch over `off` bytes that has no condition. -/
def exitSize (off : Int) : Nat :=
  if off > -2048 ∧ off < 2046 then 2 else if off > -16777216 ∧ off < 16777214 then 4 else 0

/-- The second pass: an `EXIT` is as long as its distance to the epilogue asks for. -/
def genSize (insts : Nat → EbpfInst) (instNum : Nat) (i idx : Nat) : Nat :=
  instSize insts instNum (exitSize (epilogueAt insts instNum - idx - 4)) i

/-- The bytes the second pass writes. -/
def codeBytesOf (insts : Nat → EbpfInst) (instNum : Nat) : Nat :=
  (layout insts instNum (genSize insts instNum)).2 + epilogueSize

end BlueSwat.Jit
