import BlueSwat.Ebpf.Vm
import BlueSwat.Jit.Compile
import BlueSwat.Lib.Thumb.Run

/-!
# Validating the code of a policy

The instructions that the policies are made of, as the Thumb instructions that should stand for them
(templates), and a check that walks over a program along all its paths and compares the code with
the templates. `r0` to `r10` are `bpf2a32` rows; an operation on a row that is kept on the stack
goes through `TMP_REG_1`, and `TMP_REG_2` holds immediates.

The generated code does not keep whole values: a load writes the low word of its row only, and
`JEQ`, `JNE` and `JGT` look at low words only. The check keeps, for each register, what is known of
its row (`Know`), and refuses an instruction that needs more than that.
-/

set_option autoImplicit false

namespace BlueSwat.Jit

open Ebpf Thumb

/-! ## Rows -/

def rowOf (r : BitVec 4) : Row := bpf2a32 bpfR0 r

def onStack (r : BitVec 4) : Bool := decide (isStacked (rowOf r).lo)

/-- The pairs `TMP_REG_1` and `TMP_REG_2`, the frame pointer, and the register for results that are
not kept. -/
def tmpLo : Reg := 6
def tmpHi : Reg := 7
def tmp2Lo : Reg := 8
def tmp2Hi : Reg := 9
def fp : Reg := 11
def ip : Reg := 12

/-- The registers that hold the halves of a row during an operation. -/
def heldLo (r : BitVec 4) : Reg := if onStack r then tmpLo else BitVec.ofInt 4 (rowOf r).lo

def heldHi (r : BitVec 4) : Reg := if onStack r then tmpHi else BitVec.ofInt 4 (rowOf r).hi

/-- Where the low word of a row on the stack is, from `fp`; the high word follows. -/
def slotAt (r : BitVec 4) : Word := BitVec.ofInt 32 (rowOf r).lo

def getRow (r : BitVec 4) : List Instr :=
  if onStack r then [.ldrd tmpLo tmpHi fp (slotAt r)] else []

def putRow (r : BitVec 4) : List Instr :=
  if onStack r then [.strd tmpLo tmpHi fp (slotAt r)] else []

/-! ## Templates -/

def movConst (rd : Reg) (v : Word) : List Instr :=
  if v.toNat ≤ 0xff ∧ rd.toNat < 8 then [.movImm true rd v]
  else .movImm false rd ((v.setWidth 16).setWidth 32) ::
    if v.toNat > 0xffff then [.movTop rd ((v >>> 16).setWidth 16)] else []

/-- A sign-extended immediate in a pair of registers. -/
def movSext (lo hi : Reg) (imm : Word) : List Instr :=
  movConst lo imm ++ movConst hi (if imm.msb then -1 else 0)

/-- The operation on the registers `lo` and `hi`; an immediate is in `TMP_REG_2`. -/
def aluBody (lo hi : Reg) : Ebpf.AluOp → List Instr
  | .add => [.alu .add true lo tmp2Lo lo, .alu .adc false hi tmp2Hi hi]
  | .and => [.alu .and false lo lo tmp2Lo, .alu .and false hi hi tmp2Hi]
  | .lsh => [.movReg hi lo, .alu .eor true lo lo lo]
  | .rsh => .movReg lo hi :: movConst hi 0
  | .arsh => [.movReg lo hi, .asr true hi hi 31]
  | _ => []

/-- `dst op= imm`, up to the store of a row on the stack. -/
def aluTemplate (op : Ebpf.AluOp) (dst : BitVec 4) (imm : Word) : List Instr :=
  match op with
  | .mov => movSext (heldLo dst) (heldHi dst) imm
  | .add | .and => movSext tmp2Lo tmp2Hi imm ++ getRow dst ++ aluBody (heldLo dst) (heldHi dst) op
  | _ => getRow dst ++ aluBody (heldLo dst) (heldHi dst) op

/-- `dst = *(u32 *)(src + off)` with the base in a register; the base is copied if the load writes
over it. -/
def loadTemplate (dst src : BitVec 4) (off : Word) : List Instr :=
  if heldLo dst = heldLo src then [.movReg tmpHi (heldLo src), .ldrt (heldLo dst) tmpHi off]
  else [.ldrt (heldLo dst) (heldLo src) off]

/-- The second operand of a comparison: what fetches it, and the registers of its halves. -/
def operand (form : Form) (src : BitVec 4) (imm : Word) : List Instr × Reg × Reg :=
  match form with
  | .imm => (movSext tmp2Lo tmp2Hi imm, tmp2Lo, tmp2Hi)
  | .reg =>
    if onStack src then
      ([.ldr tmp2Hi fp (slotAt src + 4), .ldr tmp2Lo fp (slotAt src)], tmp2Lo, tmp2Hi)
    else ([], heldLo src, heldHi src)

/-- The comparison with the operand in `rn` and `rm`. -/
def cmpBody (cond : Cond) (lo hi rn rm : Reg) : List Instr :=
  match cond with
  | .sgt => [.cmp rn lo, .alu .sbc true ip rm hi]
  | _ => [.cmp hi rm, .cmp lo rn]

def cmpTemplate (cond : Cond) (form : Form) (dst src : BitVec 4) (imm : Word) : List Instr :=
  let (is, rn, rm) := operand form src imm
  is ++ getRow dst ++ cmpBody cond (heldLo dst) (heldHi dst) rn rm

def prologueHead : Instr := .push 0x4bf0

def prologueMid : List Instr :=
  [.movReg fp sp, .movImm true 3 0, .subImm 2 sp 80, .subImm sp sp 256]

def prologueSlot : Instr := .strd 2 3 fp (slotAt 10)

def prologueTail : List Instr := [.movReg 2 0, .movImm true 3 0]

def epilogueMov : Instr := .movReg sp fp

def epiloguePop : Instr := .pop 0x8bf0

/-! ## What is known of a row -/

/-- `base`: the address of the struct. `val exact small`: the low word of the row is that of the
register; it is the register if `exact`, and the register is below `2^32` if `small`. -/
inductive Know where
  | nothing
  | base
  | val (exact small : Bool)
deriving DecidableEq

def Know.exact : Know → Bool
  | .val e _ => e
  | _ => false

def Know.small : Know → Bool
  | .val _ s => s
  | _ => false

/-- What is known of a row after `op= imm`; `none` if the code for it may differ. -/
def Know.alu (op : Ebpf.AluOp) (imm : Word) (k : Know) : Option Know :=
  match op, k with
  | .mov, _ => some (.val true (!imm.msb))
  | .add, .val e _ => some (.val e false)
  | .and, .val _ _ => if imm.msb then none else some (.val true true)
  | .lsh, .val _ _ => if imm = 32 then some (.val true false) else none
  | .rsh, .val true _ => if imm = 32 then some (.val true true) else none
  | .arsh, .val true _ => if imm = 32 then some (.val true false) else none
  | _, _ => none

def operandSmall (form : Form) (src : Know) (imm : Word) : Bool :=
  match form with
  | .imm => !imm.msb
  | .reg => src.small

def operandExact (form : Form) (src : Know) : Bool :=
  match form with
  | .imm => true
  | .reg => src.exact

/-- The branch condition of a comparison that the code decides. -/
def decides (cond : Cond) (form : Form) (dst src : Know) (imm : Word) : Option (BitVec 4) :=
  match cond with
  | .eq => if dst.small && operandSmall form src imm then some condEq else none
  | .ne => if dst.small && operandSmall form src imm then some condNe else none
  | .gt => if dst.small && operandSmall form src imm then some condHi else none
  | .sgt => if dst.exact && operandExact form src then some condLt else none
  | _ => none

/-! ## The check -/

/-- Registers that no row uses. -/
def scratch : List Reg := [tmpLo, tmpHi, tmp2Lo, tmp2Hi, ip]

/-- Instructions that write only scratch registers and those of `r`. -/
def tame (r : BitVec 4) (is : List Instr) : Bool :=
  is.all fun i => i.quiet && i.dests.all fun q =>
    scratch.contains q || (!onStack r && (q == heldLo r || q == heldHi r))

/-- Instructions that write only scratch registers. -/
def idle (is : List Instr) : Bool := is.all fun i => i.quiet && i.dests.all (scratch.contains ·)

section
variable (asm : List EbpfInst) (code : Code) (place : Nat → Nat) (fields : List Nat)

/-- The template `is` with the store of row `r` stands between instruction `pc` and the next one. -/
def blockAt (pc : Nat) (r : BitVec 4) (is : List Instr) : Bool :=
  decide (r.toNat < 11) && tame r is && scan code (place pc)
    (is ++ putRow r) == some (place (pc + 1))

/-- The instructions `is` and a branch stand between instruction `pc` and the next one; the branch
goes to instruction `target`. -/
def branchAt (pc target : Nat) (is : List Instr) (cond : BitVec 4) : Bool :=
  idle is && match scan code (place pc) is with
    | none => false
    | some k => match instrAt code k with
      | some (.b c off, len) =>
        c == cond && k + len == place (pc + 1) &&
          BitVec.ofNat 32 k + 4 + off == BitVec.ofNat 32 (place target)
      | _ => false

/-- Walk over the program from instruction `pc` on; `τ` is what is known of the rows. -/
def check : Nat → Nat → (BitVec 4 → Know) → Bool
  | 0, _, _ => false
  | fuel + 1, pc, τ => match asm[pc]? with
    | none => false
    | some inst =>
      let dst := inst.dst
      let src := inst.src
      match Op.ofCode inst.opcode with
      | some .exit => (τ 0).exact && (scan code (place pc) [epilogueMov, epiloguePop]).isSome
      | some (.ldx .w) =>
        τ src == .base && !onStack src && decide (src.toNat < 11) &&
          fields.contains inst.offset.toNat &&
          blockAt code place pc dst (loadTemplate dst src (inst.offset.setWidth 32)) &&
          check fuel (pc + 1) (fun r => if r = dst then .val false true else τ r)
      | some (.alu64 op .imm) => match Know.alu op inst.imm (τ dst) with
        | none => false
        | some k =>
          blockAt code place pc dst (aluTemplate op dst inst.imm) &&
            check fuel (pc + 1) (fun r => if r = dst then k else τ r)
      | some (.jcond cond form) => match decides cond form (τ dst) (τ src) inst.imm with
        | none => false
        | some c =>
          let target := (BitVec.ofNat 16 (pc + 1) + inst.offset).toNat
          decide (dst.toNat < 11) && decide (src.toNat < 11) &&
            branchAt code place pc target (cmpTemplate cond form dst src inst.imm) c &&
            check fuel (pc + 1) τ && check fuel target τ
      | _ => false

end

/-- The code starts with the prologue. -/
def prologueAt (code : Code) (off : Nat) : Bool :=
  scan code 0 (prologueHead :: (prologueMid ++ prologueSlot :: prologueTail)) == some off

/-- Where the first pass puts the instructions. -/
def placeOf (s : JitState) (i : Nat) : Nat :=
  if i = 0 then 26 else ((prePass s).offsets (i - 1)).toNat

/-- Instruction `pc` is translated from the program alone. -/
def enclosed (inst : EbpfInst) (n pc : Nat) : Bool :=
  decide (inst.dst.toNat < 15) && decide (inst.src.toNat < 15) &&
    match Op.ofCode inst.opcode with
    | some .call | some .lddw => false
    | some .ja | some (.jcond _ _) =>
      decide (0 ≤ pc + inst.offset.toInt) && decide (pc + inst.offset.toInt < n)
    | _ => true

/-- The code of a program agrees with the templates on all its paths; `fields` are the offsets of
the words that the program may read. -/
def validated (bytes : List (BitVec 8)) (fields : List Nat) : Bool :=
  let n := bytes.length / 8
  let insts := instAt (codeBytes bytes fun _ => 0)
  let s := genJitState insts n (fun _ => 0) bpfR0 fun _ => 0
  let code := (jitCompile s).jitCode
  decide (n < 2 ^ 16) && (List.range n).all (fun i => enclosed (insts i) n i) &&
    prologueAt code (placeOf s 0) &&
    check (disasm bytes) code (placeOf s) fields 64 0 fun r => if r = 1 then .base else .nothing

end BlueSwat.Jit
