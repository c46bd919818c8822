import BlueSwat.Jit.Emit

/-!
# The translation (`build_inst`, `jit_compile`)

The translation runs twice over the program. The first pass writes no code: it finds out where each
instruction ends, and keeps that in `offsets`, an array of bytes. The second pass writes the code,
and takes the distance of a jump from the array.
-/

set_option autoImplicit false

namespace BlueSwat.Jit

open Ebpf

/-- `jit_state`. `helper` is what the call base points to, and `offsets` all of memory as seen from
the array: a jump to the first instruction reads the element in front of it. -/
structure JitState where
  insts : Nat → EbpfInst
  instNum : Nat
  helper : BitVec 32 → BitVec 32
  beyond : Row
  jitCode : Code
  idx : Nat
  epilogueOffset : Nat
  offsets : Int → BitVec 8
  needGen : Bool

/-- `emit_bytes`. -/
def emit (s : JitState) (c : Code) : JitState :=
  { s with
    jitCode := if s.needGen then s.jitCode ++ c else s.jitCode
    idx := s.idx + 2 * c.length }

/-! ## Branches -/

def useB4 (instNum : Nat) : Prop := instNum > 20

instance (instNum : Nat) : Decidable (useB4 instNum) := inferInstanceAs (Decidable (_ > _))

def emitBCond (instNum : Nat) (off : Int) (cond : BitVec 4) : Code :=
  if ¬ useB4 instNum ∧ off ≥ -256 ∧ off ≤ 254 then emit2 (thumb16BT1 off cond)
  else if off > -1048576 ∧ off < 1048574 then emit4 (thumb32BwT3 off cond)
  else []

def emitB (off : Int) : Code :=
  if off > -2048 ∧ off < 2046 then emit2 (thumb16BT2 off)
  else if off > -16777216 ∧ off < 16777214 then emit4 (thumb32BwT4 off)
  else []

def emitJump (instNum : Nat) (jmpOff : Int) (op : Cond) : Code :=
  match jumpCond op with
  | some cond => emitBCond instNum jmpOff cond
  | none => []

def bpf2a32Offset (s : JitState) (bpfFrom bpfTo : Int) (bsize : Int) : Int :=
  if s.needGen = false then 0
  else (s.offsets bpfTo).toNat - ((s.offsets bpfFrom).toNat - bsize) - 4

def epilogueOffset (s : JitState) : Int :=
  if s.needGen = false then 0 else s.epilogueOffset - s.idx - 4

/-! ## One instruction -/

/-- The 32-bit shifts by an immediate. -/
def buildShift32 (dst : Row) (imm : BitVec 32) (opcode : BitVec 32) : Code × Int :=
  if imm.toInt > 31 then ([], -1)
  else if imm ≠ 0 then (emitAlu32Imm dst.lo (imm.setWidth 16) opcode, 0)
  else ([], 0)

/-- `mov`: an immediate of 1 in the register form asks for the high half to be cleared. -/
def buildMov (is64 : Bool) (form : Form) (dst src : Row) (imm : BitVec 32) : Code :=
  match form with
  | .reg => if imm = 1 then emitMovImm dst.hi 0 else emitMovReg64 is64 dst src
  | .imm => emitMovSeImm64 is64 dst imm

def buildAluOp (is64 : Bool) (op : AluOp) (form : Form) (dst src : Row) (imm : BitVec 32) : Code :=
  match form with
  | .imm => emitMovSeImm64 is64 tmp2 imm ++ emitAlu64Reg is64 dst tmp2 op
  | .reg => emitAlu64Reg is64 dst src op

/-- The cases of class `EBPF_CLS_ALU`. -/
def buildAlu32 (op : AluOp) (form : Form) (dst src : Row) (imm : BitVec 32) : Code × Int :=
  match op, form with
  | .mov, form => (buildMov false form dst src imm, 0)
  | .div, form => (emitU32DivMod dst src true form (imm.setWidth 16), 0)
  | .mod, form => (emitU32DivMod dst src false form (imm.setWidth 16), 0)
  | .lsh, .imm => buildShift32 dst imm 0x0000
  | .rsh, .imm => buildShift32 dst imm 0x0800
  | .arsh, .imm => buildShift32 dst imm 0x1000
  | op, form => (buildAluOp false op form dst src imm, 0)

/-- The cases of class `EBPF_CLS_ALU64`; a division is one of the low halves. -/
def buildAlu64 (op : AluOp) (form : Form) (dst src : Row) (imm : BitVec 32) : Code :=
  match op, form with
  | .mov, form => buildMov true form dst src imm
  | .div, form => emitU32DivMod dst src true form (imm.setWidth 16)
  | .mod, form => emitU32DivMod dst src false form (imm.setWidth 16)
  | .lsh, .reg => emitLsh64Reg dst src
  | .lsh, .imm => emitLsh64Imm dst (imm.setWidth 16)
  | .rsh, .reg => emitA32RshR64 dst src
  | .rsh, .imm => emitA32RshI64 dst (imm.setWidth 16)
  | .arsh, .reg => emitA32ArshR64 dst src
  | .arsh, .imm => emitA32ArshI64 dst imm
  | .mul, .imm => emitMovSeImm64 true tmp2 imm ++ emitA32MulR64 dst tmp2
  | .mul, .reg => emitA32MulR64 dst src
  | op, form => buildAluOp true op form dst src imm

def buildLdx (dst src : Row) (off : Int) (size : Size) : Code :=
  let (c, rn) := armBpfGetReg32 src.lo tmp2.lo
  c ++ emitLdxReg dst rn off size

def buildSt (dst : Row) (off : Int) (imm : BitVec 32) (size : Size) : Code :=
  (match size with
    | .dw => emitMovSeImm64 true tmp2 imm
    | .w | .h | .b => emitMovImm tmp2.lo imm) ++ emitStrReg dst.lo tmp2 off size

def buildStx (dst src : Row) (off : Int) (size : Size) : Code :=
  let (c, rs) := armBpfGetReg64 src tmp2
  c ++ emitStrReg dst.lo rs off size

/-- What a conditional jump emits in front of its branch. -/
def buildCompare (dst src : Row) (imm : BitVec 32) (cond : Cond) (form : Form) : Code :=
  let (c1, rm, rn) := match form with
    | .reg =>
      let (c1, rm) := armBpfGetReg32 src.hi tmp2.hi
      let (c2, rn) := armBpfGetReg32 src.lo tmp2.lo
      (c1 ++ c2, rm, rn)
    | .imm => (emitMovSeImm64 true tmp2 imm, tmp2.hi, tmp2.lo)
  let (c2, rd) := armBpfGetReg64 dst tmp
  c1 ++ c2 ++ emitCmpCond rd.hi rd.lo rm rn cond

/-- The jumps and `EXIT`: what is in front of the branch, and the branch. -/
def buildJump (s : JitState) (pc : Nat) : Op → Code × Code
  | .ja =>
    let off := (s.insts pc).offset.toInt
    ([], if off = 0 then [] else emitB (bpf2a32Offset s pc (pc + off) 2))
  | .jcond cond form =>
    let inst := s.insts pc
    let off := inst.offset.toInt
    if form = .imm ∧ off = 0 then ([], [])
    else
      (buildCompare (bpf2a32 s.beyond inst.dst) (bpf2a32 s.beyond inst.src) inst.imm cond form,
        emitJump s.instNum (bpf2a32Offset s pc (pc + off) (if useB4 s.instNum then 4 else 2)) cond)
  | .exit => ([], if pc + 1 = s.instNum then [] else emitB (epilogueOffset s))
  | _ => ([], [])

/-- `EBPF_OP_CALL`; three pairs are pushed, and `r5` to `r3` of the call are on the stack. -/
def buildCall (func : BitVec 32) : Code :=
  let row := bpf2a32 bpfR0
  emitMovReg64 true (row 0) (row 1) ++ emitMovReg64 true (row 1) (row 2) ++
    emitPushR64 (row 5) ++ emitPushR64 (row 4) ++ emitPushR64 (row 3) ++
    emitMovImm tmp.lo func ++ emit2 (thumb16BlxRegT1 tmp.lo) ++ emitAddImm armSp armSp 24

/-- The cases of `build_inst`: the code of an instruction and the value returned, 1 for the two
slots of `LDDW` and -1 for an instruction that is refused. An opcode without a case emits
nothing. -/
def buildOp (s : JitState) (pc : Nat) : Option Op → Code × Int :=
  let inst := s.insts pc
  let dst := bpf2a32 s.beyond inst.dst
  let src := bpf2a32 s.beyond inst.src
  let off := inst.offset.toInt
  let imm := inst.imm
  fun
  | some (.alu32 op form) => buildAlu32 op form dst src imm
  | some (.alu64 op form) => (buildAlu64 op form dst src imm, 0)
  | some .neg32 => (emitAlu32Imm dst.lo 0 0x4240, 0)
  | some .neg64 => (emitA32Neg64 dst, 0)
  | some .le | some .be => ([], -1)
  | some .lddw =>
    (emitMovI64 dst (imm.setWidth 64 ||| (s.insts (pc + 1)).imm.setWidth 64 <<< 32), 1)
  | some (.ldx size) => (buildLdx dst src off size, 0)
  | some (.st size) => (buildSt dst off imm size, 0)
  | some (.stx size) => (buildStx dst src off size, 0)
  | some .call => (buildCall (s.helper imm), 0)
  | some op =>
    let (c, branch) := buildJump s pc op
    (c ++ branch, 0)
  | none => ([], 0)

def buildInst (s : JitState) (pc : Nat) : Code × Int :=
  buildOp s pc (Op.ofCode (s.insts pc).opcode)

/-! ## The program -/

def buildPrologue : Code :=
  emit4 (thumb32PushwT2 calleePushMask) ++ emitMovReg armSp armFp ++ emitMovImm bpfR1.hi 0 ++
    emitSubImm bpfR1.lo armSp scratchSize ++ emitSubImm armSp armSp ebpfStackSize ++
    emitMovReg64 true bpfFp bpfR1 ++ emitMovReg armR0 bpfR1.lo ++ emitMovImm bpfR1.hi 0

def buildEpilogue : Code := emitMovReg armFp armSp ++ emit4 (thumb32PopwT2 calleePopMask)

/-- The end of instruction `i`, cut to a byte. -/
def recordOffset (s : JitState) (i : Nat) : JitState :=
  if s.needGen then s
  else { s with offsets := fun j => if j = i then BitVec.ofNat 8 s.idx else s.offsets j }

/-- One round of `build_body`: the state after it, and the instruction of the next round. -/
def buildRound (s : JitState) (i : Nat) : JitState × Option Nat :=
  let (c, ret) := buildInst s i
  if ret > 0 then (recordOffset (emit s c) (i + 1), some (i + 2))
  else (recordOffset (emit s c) i, if ret < 0 then none else some (i + 1))

/-- The loop from instruction `i` on; it has at most `fuel` rounds left. -/
def buildFrom : Nat → Nat → JitState → JitState
  | 0, _, s => s
  | fuel + 1, i, s =>
    if i < s.instNum then
      match buildRound s i with
      | (s', some i') => buildFrom fuel i' s'
      | (s', none) => s'
    else s

def buildBody (s : JitState) : JitState := buildFrom s.instNum 0 s

/-- The state after the first pass. -/
def prePass (s : JitState) : JitState :=
  buildBody (emit { s with idx := 0, needGen := false } buildPrologue)

/-- The state in which the second pass enters the body. -/
def genStart (s : JitState) : JitState :=
  emit { s with epilogueOffset := s.idx, jitCode := [], idx := 0, needGen := true } buildPrologue

def jitCompile (s : JitState) : JitState := emit (buildBody (genStart (prePass s))) buildEpilogue

/-- The state `gen_jit_code` calls `jit_compile` in; around the zeroed array lies `stray`. -/
def genJitState (insts : Nat → EbpfInst) (instNum : Nat) (helper : BitVec 32 → BitVec 32)
    (beyond : Row) (stray : Int → BitVec 8) : JitState where
  insts
  instNum
  helper
  beyond
  jitCode := []
  idx := 0
  epilogueOffset := 0
  offsets j := if 0 ≤ j ∧ j < 4 * instNum + 16 then 0 else stray j
  needGen := false

/-- `code_size` in `jit_mem_allocate`. -/
def codeSize (instNum : Nat) : Nat := 10 * instNum + 16

end BlueSwat.Jit
