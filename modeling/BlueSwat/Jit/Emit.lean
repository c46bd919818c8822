import BlueSwat.Ebpf.Inst
import BlueSwat.Jit.Thumb2

/-!
# The emitters (`jit_thumb2.c`)

An emitter returns the halfwords that it adds to the code. Only the branches look at the state of
the translation; they are in `Compile`.

An eBPF register is a row of `bpf2a32`: a pair of machine registers for its high and its low half,
or two negative offsets from `fp` if it is kept on the stack. A row that is taken from the stack is
loaded to one of the two temporary pairs, and stored back after the operation.
-/

set_option autoImplicit false

namespace BlueSwat.Jit

open Ebpf

abbrev Code := List (BitVec 16)

def emit2 (x : BitVec 16) : Code := [x]

/-- The upper halfword comes first. -/
def emit4 (x : BitVec 32) : Code := [x.extractLsb' 16 16, x.extractLsb' 0 16]

/-! ## Register rows -/

structure Row where
  hi : Int
  lo : Int
deriving DecidableEq

/-- `STACK_OFFSET(k)`. -/
def stackOffset (k : Nat) : Int := -4 - k * 4

/-- `bpf2a32`; the table has 15 rows, and what lies behind it is `beyond`. -/
def bpf2a32 (beyond : Row) (reg : BitVec 4) : Row :=
  match reg.toNat with
  | 0 => ⟨1, 0⟩
  | 1 => ⟨3, 2⟩
  | 2 => ⟨stackOffset 0, stackOffset 1⟩
  | 3 => ⟨stackOffset 2, stackOffset 3⟩
  | 4 => ⟨stackOffset 4, stackOffset 5⟩
  | 5 => ⟨stackOffset 6, stackOffset 7⟩
  | 6 => ⟨5, 4⟩
  | 7 => ⟨stackOffset 8, stackOffset 9⟩
  | 8 => ⟨stackOffset 10, stackOffset 11⟩
  | 9 => ⟨stackOffset 12, stackOffset 13⟩
  | 10 => ⟨stackOffset 14, stackOffset 15⟩
  -- `BPF_REG_AX`, the temporary pairs and `TCALL_CNT`
  | 11 => ⟨stackOffset 18, stackOffset 19⟩
  | 12 => ⟨7, 6⟩
  | 13 => ⟨9, 8⟩
  | 14 => ⟨stackOffset 16, stackOffset 17⟩
  | _ => beyond

def scratchSize : Int := 80
def ebpfStackSize : Int := 256

/-- `TMP_REG_1` and `TMP_REG_2`. -/
def tmp : Row := ⟨7, 6⟩
def tmp2 : Row := ⟨9, 8⟩

/-- The rows of `r0` to `r5` and `r10` that the prologue and calls name. -/
def bpfR0 : Row := ⟨1, 0⟩
def bpfR1 : Row := ⟨3, 2⟩
def bpfFp : Row := ⟨stackOffset 14, stackOffset 15⟩

def isStacked (reg : Int) : Prop := reg < 0

instance (reg : Int) : Decidable (isStacked reg) := inferInstanceAs (Decidable (reg < 0))

/-! ## Single instructions -/

def emitLdrI (rt rn off : Int) : Code :=
  if off = 0 then emit4 (0xf8d00000 ||| bits rn <<< 16 ||| bits rt <<< 12 ||| field off 0 0xfff)
  else emit4 (thumb32LdrImmT4 rt rn off)

def emitLdrbI (rt rn off : Int) : Code :=
  if (off ≤ 31 ∧ off ≥ -31) ∧ rt < 8 ∧ rn < 8 then emit2 (thumb16LdrbImmT1 rt rn off)
  else if off ≤ 0xff ∧ off ≥ -0xff then emit4 (thumb32LdrbImmT3 rt rn off)
  else if off ≤ 0xfff ∧ off ≥ -0xfff then
    emit4 (0xf8900000 ||| bits rn <<< 16 ||| bits rt <<< 12 ||| bits off)
  else []

def emitLdrhI (rt rn off : Int) : Code :=
  if off ≤ 31 ∧ off ≥ -31 then
    emit2 ((0x8800 ||| field off 0 31 <<< 6 ||| bits rn <<< 3 ||| bits rt).setWidth 16)
  else if off ≤ 0xff ∧ off ≥ -0xff then
    emit4 (0xf8300000 ||| bits rn <<< 16 ||| bits rt <<< 12 ||| 0b1110 <<< 8 ||| field off 0 0xff)
  else if off ≤ 0xfff ∧ off ≥ -0xfff then
    emit4 (0xf8b00000 ||| bits rn <<< 16 ||| bits rt <<< 12 ||| field off 0 0xfff)
  else []

def emitLdrdI (rt : Row) (rn off : Int) : Code := emit4 (thumb32LdrdImmT1 rt.hi rt.lo rn off)

/-- `imm8` is a `u8`. -/
def emitStrI (rnSrc rt off : Int) : Code :=
  emit4 (0xf8400000 ||| bits rnSrc <<< 16 ||| bits rt <<< 12 |||
    (0b1000 ||| puw (off ≠ 0) (off > 0)) <<< 8 ||| field off.natAbs 0 0xff)

def emitStrdI (rnSrc : Row) (rtDst off : Int) : Code :=
  emit4 (thumb32StrdImmT1 rnSrc.hi rnSrc.lo rtDst off)

/-- `movw` and `movt`, whose immediate is `i4:i:i3:i8`. -/
def movHalf (opcode : BitVec 32) (rd : BitVec 8) (v : BitVec 16) : BitVec 32 :=
  opcode ||| (v &&& 0x0800).setWidth 32 >>> 11 <<< 26 |||
    (v &&& 0xf000).setWidth 32 >>> 12 <<< 16 ||| (v &&& 0x0700).setWidth 32 >>> 8 <<< 12 |||
    rd.setWidth 32 <<< 8 ||| (v &&& 0x00ff).setWidth 32

/-- `emit_mov_imm`; the register is a `u8` here, so a stack offset is a large number. -/
def emitMovImm (rd : Int) (val : BitVec 32) : Code :=
  let rd8 : BitVec 8 := BitVec.ofInt 8 rd
  if val.toNat ≤ 0xff ∧ rd8.toNat < 8 then
    emit2 ((0x2000 ||| rd8.setWidth 32 <<< 8 ||| val).setWidth 16)
  else
    emit4 (movHalf 0xf2400000 rd8 (val.setWidth 16)) ++
      if val.toNat > 0xffff then emit4 (movHalf 0xf2c00000 rd8 ((val >>> 16).setWidth 16)) else []

def emitMovReg (src dst : Int) : Code :=
  if dst ≠ armSp ∧ src ≠ armSp then emit2 (thumb16MovRegT1 dst src)
  else emit4 (thumb32MovwRegT3 dst src flagNos)

def emitSubImm (dst src val : Int) : Code :=
  if val < 0 ∨ val > 4095 then []
  else if (dst < 8 ∧ dst ≥ 0 ∧ src < 8 ∧ src ≥ 0) ∧ dst = src ∧ val ≤ 0xff then
    emit2 (thumb16SubImmT2 dst val)
  else if (dst < 8 ∧ dst ≥ 0 ∧ src < 8 ∧ src ≥ 0) ∧ val ≤ 0x7 then
    emit2 (thumb16SubImmT1 dst src val)
  else emit4 (thumb32SubwImmT4 dst src val)

def emitAddImm (dst src val : Int) : Code :=
  if (val ≥ 0 ∧ val ≤ 255) ∧ dst = src ∧ dst < 8 then emit2 (thumb16AddImmT2 dst val)
  else if val ≥ 0 ∧ val ≤ 4095 then emit4 (thumb32AddImmT4 dst src val)
  else []

def emitCmpReg (rn rm : Int) : Code :=
  if rn < 0x8 ∧ rm < 0x8 then emit2 (thumb16CmpRegT1 rn rm) else emit2 (thumb16CmpRegT2 rn rm)

/-! ## Rows in and out of registers -/

/-- `arm_bpf_get_reg32`: the code and the register that holds the half. -/
def armBpfGetReg32 (reg tmp : Int) : Code × Int :=
  if isStacked reg then (emitLdrI tmp armFp reg, tmp) else ([], reg)

def armBpfPutReg32 (reg src : Int) : Code :=
  if isStacked reg then emitStrI armFp src reg
  else if reg ≠ src then emitMovReg src reg
  else []

def armBpfGetReg64 (reg tmp : Row) : Code × Row :=
  if isStacked reg.lo then (emitLdrdI tmp armFp reg.lo, tmp) else ([], reg)

def emitA32MovReg (src dst : Int) : Code :=
  let (c, rt) := armBpfGetReg32 src tmp.hi
  c ++ armBpfPutReg32 dst rt

def armBpfPutReg64 (reg src : Row) : Code :=
  if isStacked reg.lo then emitStrdI src armFp reg.lo
  else
    (if reg.lo ≠ src.lo then emitA32MovReg src.lo reg.lo else []) ++
      if reg.hi ≠ src.hi then emitA32MovReg src.hi reg.hi else []

/-! ## Arithmetic -/

/-- The 16-bit forms of the operations that the emitter tests with `> 0`: `r0` is taken for a
register that has none. -/
def lowReg (r : Int) : Prop := r > 0 ∧ r < 8

instance (r : Int) : Decidable (lowReg r) := inferInstanceAs (Decidable (_ ∧ _))

def emitAddReg (dst src : Int) (is64 hi : Bool) : Code :=
  if is64 then
    if hi then emit4 (0xeb400000 ||| bits src <<< 16 ||| bits dst <<< 8 ||| bits dst)
    else emit4 (0xeb100000 ||| bits src <<< 16 ||| bits dst <<< 8 ||| bits dst)
  else emit2 (thumb16AddRegT2 dst src)

def emitSubReg (dst src : Int) (is64 hi : Bool) : Code :=
  if is64 ∧ hi = false then emit4 (thumb32SubRegT2 dst dst src 0 srtypeLsl flagS)
  else if is64 ∧ hi then emit4 (thumb32SbcwT2 dst dst src 0 srtypeLsl flagNos)
  else if src < 8 ∧ dst < 8 then emit2 (thumb16SubRegT1 dst dst src)
  else emit4 (thumb32SubRegT2 dst dst src 0 srtypeLsl flagNos)

def emitOrrReg (dst src : Int) : Code :=
  if dst < 8 ∧ src < 8 then emit2 (thumb16OrrRegT1 dst src)
  else emit4 (thumb32OrrwRegT2 dst dst src 0 srtypeLsl flagNos)

def emitAndReg (dst src : Int) : Code :=
  if dst < 8 ∧ src < 8 then emit2 (thumb16AndRegT1 dst src)
  else emit4 (thumb32AndRegT2 dst dst src 0 srtypeLsl flagNos)

/-- A case of the `switch` with a 16-bit form for low registers. -/
def emitLowOr (narrow : BitVec 32) (wide : BitVec 32) (rd rn : Int) : Code :=
  if lowReg rn ∧ lowReg rd then emit2 ((narrow ||| bits rn <<< 3 ||| bits rd).setWidth 16)
  else emit4 wide

/-- The `switch` of `emit_alu32_reg`. -/
def emitAluOp (rd rn : Int) (is64 hi : Bool) : AluOp → Code
  | .add => emitAddReg rd rn is64 hi
  | .sub => emitSubReg rd rn is64 hi
  | .or => emitOrrReg rd rn
  | .and => emitAndReg rd rn
  | .xor => emitLowOr 0x4040 (thumb32EorRegT2 rd rn rd 0 srtypeRor flagNos) rd rn
  | .mul => emitLowOr 0x4340 (thumb32MulT2 rd rn rd) rd rn
  | .lsh => emitLowOr 0x4080 (thumb32LslwRegT2 rd rd rn flagNos) rd rn
  | .rsh => emitLowOr 0x40c0 (thumb32LsrwRegT2 rd rd rn flagNos) rd rn
  | .arsh => emitLowOr 0x4100 (thumb32AsrwRegT2 rd rd rn flagNos) rd rn
  | _ => []

def emitAlu32Reg (dst src : Int) (is64 hi : Bool) (op : AluOp) : Code :=
  let (c1, rn) := armBpfGetReg32 src tmp.lo
  let (c2, rd) := armBpfGetReg32 dst tmp.hi
  c1 ++ c2 ++ emitAluOp rd rn is64 hi op ++ armBpfPutReg32 dst rd

/-- In the 32-bit case the low halves are combined as in the 64-bit one. -/
def emitAlu64Reg (is64 : Bool) (dst src : Row) (op : AluOp) : Code :=
  let (c1, rd) := armBpfGetReg64 dst tmp
  if is64 then
    let (c2, rs) := armBpfGetReg64 src tmp2
    c1 ++ c2 ++ emitAlu32Reg rd.lo rs.lo true false op ++ emitAlu32Reg rd.hi rs.hi true true op ++
      armBpfPutReg64 dst rd
  else
    let (c2, rs) := armBpfGetReg32 src.lo tmp2.lo
    c1 ++ c2 ++ emitAlu32Reg rd.lo rs true false op ++ armBpfPutReg64 dst rd

/-- The opcode of a 16-bit shift by an immediate, or `NEG`. -/
def emitAlu32Imm (dst : Int) (val : BitVec 16) (opcode : BitVec 32) : Code :=
  let (c, rd) := armBpfGetReg32 dst tmp.hi
  c ++ emit2 ((opcode ||| val.setWidth 32 <<< 6 ||| bits rd <<< 3 ||| bits rd).setWidth 16) ++
    armBpfPutReg32 dst rd

def emitU32DivMod (dst src : Row) (isDiv : Bool) (form : Form) (imm : BitVec 16) : Code :=
  let (c1, rdLo) := armBpfGetReg32 dst.lo tmp2.lo
  let (c2, rt) := match form with
    | .reg => armBpfGetReg32 src.lo tmp2.hi
    | .imm => (emitMovImm tmp2.hi (imm.setWidth 32), tmp2.hi)
  let c3 :=
    if isDiv then emit4 (0xfbb0f0f0 ||| bits rdLo <<< 16 ||| bits rdLo <<< 8 ||| bits rt)
    else emit4 (0xfbb0f0f0 ||| bits rdLo <<< 16 ||| bits armIp <<< 8 ||| bits rt) ++
      emit4 (0xfb000010 ||| bits rdLo <<< 16 ||| bits armIp <<< 12 ||| bits rdLo <<< 8 ||| bits rt)
  c1 ++ c2 ++ c3 ++ armBpfPutReg32 dst.lo rdLo

/-! ## 64-bit shifts, negation and multiplication -/

/-- `_emit_lsh64_reg`; the second partial shift is to the left, too. -/
def emitLsh64Reg (dst src : Row) : Code :=
  let (c1, rt) := armBpfGetReg32 src.lo tmp2.lo
  let (c2, rd) := armBpfGetReg64 dst tmp
  c1 ++ c2 ++
    emit4 (0xf1a00000 ||| bits rt <<< 16 ||| bits armIp <<< 8 ||| 32) ++
    emit4 (thumb32LslwRegT2 tmp2.hi rd.hi rt flagNos) ++
    emit4 (thumb32LslwRegT2 armIp rd.lo armIp flagNos) ++
    emit4 (thumb32OrrwRegT2 armIp tmp2.hi armIp 0 srtypeLsl flagNos) ++
    emit4 (0xf1c00000 ||| bits rt <<< 16 ||| bits tmp2.hi <<< 8 ||| 32) ++
    emit4 (thumb32LslwRegT2 tmp2.hi rd.lo tmp2.hi flagNos) ++
    emit4 (thumb32OrrwRegT2 armIp tmp2.hi armIp 0 srtypeLsl flagNos) ++
    emit4 (thumb32LslwRegT2 tmp2.hi rd.lo rt flagNos) ++
    armBpfPutReg32 dst.lo tmp2.hi ++ armBpfPutReg32 dst.hi armIp

/-- `_emit_lsh64_imm`; `imm2` of the first shift is put in the field of the shift type. -/
def emitLsh64Imm (dst : Row) (val : BitVec 16) : Code :=
  let (c, rd) := armBpfGetReg64 dst tmp
  let v := val.toNat
  let body :=
    if v < 32 then
      emit4 (0xea5f0000 ||| field v 2 0b111 <<< 12 ||| bits tmp2.hi <<< 8 |||
        field v 0 0b11 <<< 4 |||
        bits rd.hi) ++
      emit4 (0xea500010 ||| bits tmp2.hi <<< 16 ||| field (32 - v) 2 0b111 <<< 12 |||
        bits rd.hi <<< 8 ||| field (32 - v) 0 0b11 <<< 6 ||| bits rd.lo) ++
      emit2 ((bits v <<< 6 ||| bits rd.lo <<< 3 ||| bits rd.lo).setWidth 16)
    else
      (if v = 32 then emitMovReg rd.lo rd.hi
        else emit2 ((bits (v - 32) <<< 6 ||| bits rd.lo <<< 3 ||| bits rd.hi).setWidth 16)) ++
      emit2 ((0x4040 ||| bits rd.lo <<< 3 ||| bits rd.lo).setWidth 16)
  c ++ body ++ armBpfPutReg64 dst rd

def emitA32RshR64 (dst src : Row) : Code :=
  let (c1, rt) := armBpfGetReg32 src.lo tmp2.lo
  let (c2, rd) := armBpfGetReg64 dst tmp
  c1 ++ c2 ++
    emit4 (thumb32RsbwImmT2 armIp rt 32 flagS) ++
    emit4 (thumb32SubwImmT4 tmp2.hi rt 32) ++
    emit4 (thumb32LsrwRegT2 armLr rd.lo rt flagS) ++
    emit4 (thumb32LslwRegT2 rd.hi rd.hi armIp flagS) ++
    emit4 (thumb32OrrwRegT2 armLr armLr rd.hi 0 srtypeLsl flagS) ++
    emit4 (thumb32LsrwRegT2 rd.hi rd.hi tmp2.hi flagS) ++
    emit4 (thumb32OrrwRegT2 armLr armLr rd.hi 0 srtypeLsl flagS) ++
    emit4 (thumb32LsrwRegT2 armIp rd.hi rt flagS) ++
    armBpfPutReg32 dst.lo armLr ++ armBpfPutReg32 dst.hi armIp

def emitA32RshI64 (dst : Row) (val : BitVec 16) : Code :=
  let (c, rd) := armBpfGetReg64 dst tmp
  let v := val.toNat
  let body :=
    if v = 0 then []
    else if v < 32 then
      emit4 (thumb32LsrwImmT2 tmp2.lo rd.lo v flagNos) ++
      emit4 (thumb32OrrwRegT2 rd.lo tmp2.lo rd.hi (32 - v) srtypeLsl flagNos) ++
      emit4 (thumb32LsrwImmT2 rd.hi rd.hi v flagNos)
    else if v = 32 then emitMovReg rd.hi rd.lo ++ emitMovImm rd.hi 0
    else emit4 (thumb32LsrwImmT2 rd.lo rd.hi (v - 32) flagNos) ++ emitMovImm rd.hi 0
  c ++ body ++ armBpfPutReg64 dst rd

def emitA32ArshR64 (dst src : Row) : Code :=
  let (c1, rt) := armBpfGetReg32 src.lo tmp2.lo
  let (c2, rd) := armBpfGetReg64 dst tmp
  c1 ++ c2 ++
    emit4 (thumb32RsbwImmT2 armIp rt 32 flagS) ++
    emit4 (thumb32SubwImmT4 tmp2.hi rt 32) ++
    emit4 (thumb32LsrwRegT2 armLr rd.lo rt flagS) ++
    emit4 (thumb32LslwRegT2 rd.hi rd.hi tmp2.hi flagNos) ++
    emit4 (thumb32OrrwRegT2 armLr armLr rd.hi 0 srtypeLsl flagS) ++
    emit4 (thumb32AsrwRegT2 rd.hi rd.hi tmp2.hi flagNos) ++
    emit2 (thumb16ItT1 condPl 0b1000) ++
    emit4 (thumb32OrrwRegT2 armLr armLr rd.hi 0 srtypeLsl flagS) ++
    emit4 (thumb32AsrwRegT2 armIp rd.hi rt flagS) ++
    armBpfPutReg32 dst.lo armLr ++ armBpfPutReg32 dst.hi armIp

def emitA32ArshI64 (dst : Row) (val : BitVec 32) : Code :=
  let (c, rd) := armBpfGetReg64 dst tmp
  let v := val.toNat
  let body :=
    if v = 0 then []
    else if v < 32 then
      emit4 (thumb32LsrwImmT2 tmp2.lo rd.lo v flagS) ++
      emit4 (thumb32OrrwRegT2 rd.lo tmp2.lo rd.hi (32 - v) srtypeLsl flagS) ++
      emit4 (thumb32AsrwImmT2 rd.hi rd.hi v flagS)
    else if v = 32 then emitMovReg rd.hi rd.lo ++ emit4 (thumb32AsrwImmT2 rd.hi rd.hi 31 flagS)
    else
      emit4 (thumb32AsrwImmT2 rd.lo rd.hi (v - 32) flagS) ++
      emit4 (thumb32AsrwImmT2 rd.hi rd.hi 31 flagS)
  c ++ body ++ armBpfPutReg64 dst rd

/-- `emit_a32_neg64`; the high half is negated without the borrow. -/
def emitA32Neg64 (dst : Row) : Code :=
  let (c, rd) := armBpfGetReg64 dst tmp
  c ++ emit4 (thumb32RsbwImmT2 rd.lo rd.lo 0 flagS) ++
    emit4 (thumb32RsbwImmT2 rd.hi rd.hi 0 flagS) ++ armBpfPutReg64 dst rd

def emitA32MulR64 (dst src : Row) : Code :=
  let (c1, rd) := armBpfGetReg64 dst tmp
  let (c2, rt) := armBpfGetReg64 src tmp2
  c1 ++ c2 ++
    emit4 (thumb32MulT2 armIp rd.lo rt.hi) ++
    emit4 (thumb32MulT2 armLr rd.hi rt.lo) ++
    emit2 (thumb16AddRegT2 armLr armIp) ++
    emit4 (thumb32UmullT2 armIp rd.hi rd.lo rt.lo) ++
    emit2 (thumb16AddRegT2 rd.hi armLr) ++
    armBpfPutReg32 dst.lo armIp ++ armBpfPutReg32 dst.hi rd.hi

/-! ## Moves -/

def emitMovReg64 (is64 : Bool) (dst src : Row) : Code :=
  if is64 = false then emitA32MovReg src.lo dst.lo
  else if isStacked src.lo ∧ isStacked dst.lo then
    emitLdrdI tmp armFp src.lo ++ emitStrdI tmp armFp dst.lo
  else if isStacked src.lo then emitLdrdI dst armFp src.lo
  else if isStacked dst.lo then emitStrdI src armFp dst.lo
  else emitMovReg src.lo dst.lo ++ emitMovReg src.hi dst.hi

def emitMovI64 (dst : Row) (val : BitVec 64) : Code :=
  let rd := if isStacked dst.lo then tmp else dst
  emitMovImm rd.lo (val.setWidth 32) ++ emitMovImm rd.hi ((val >>> 32).setWidth 32) ++
    armBpfPutReg64 dst rd

/-- `emit_mov_se_imm64`; the 32-bit move does not look whether its register is on the stack. -/
def emitMovSeImm64 (is64 : Bool) (dst : Row) (val : BitVec 32) : Code :=
  if is64 then emitMovI64 dst (val.signExtend 64) else emitMovImm dst.lo val

/-- `emit_push_r64`. -/
def emitPushR64 (src : Row) : Code :=
  let (c, rt) := armBpfGetReg64 src tmp2
  let regSet := (1 <<< rt.lo.toNat ||| 1 <<< rt.hi.toNat : BitVec 32)
  c ++
    if (rt.hi = armLr ∨ rt.hi < 8) ∧ (rt.lo = armLr ∨ rt.lo < 8) then
      emit2 (thumb16PushT1 regSet)
    else emit4 (thumb32PushwT2 regSet)

/-! ## Loads and stores -/

/-- The `off_max` of `is_ldst_imm`. -/
def offMax : Size → Int
  | .b | .w => 0xfff
  | .h => 0xff
  | .dw => 0xfff - 4

/-- `is_ldst_imm`. -/
def isLdstImm (off : Int) (size : Size) : Prop :=
  -offMax size ≤ off ∧ off ≤ offMax size

instance (off : Int) (size : Size) : Decidable (isLdstImm off size) :=
  inferInstanceAs (Decidable (_ ∧ _))

/-- The base and the offset of a load: an offset that does not fit is added to the base first, and
a base that the load overwrites is copied. -/
def ldxBase (rd : Row) (src off : Int) (sz : Size) : Code × Int × Int :=
  if ¬ isLdstImm off sz then
    (emitMovImm tmp.hi (bits off) ++ emitAddReg tmp.hi src false false, tmp.hi, 0)
  else if rd.lo = src then (emitA32MovReg src tmp.hi, tmp.hi, off)
  else ([], src, off)

def emitLoad (rd : Row) (rm off : Int) : Size → Code
  | .b => emitLdrbI rd.lo rm off
  | .h => emitLdrhI rd.lo rm off
  | .w => emitLdrI rd.lo rm off
  | .dw => emitLdrI rd.lo rm off ++ emitLdrI rd.hi rm (off + 4)

def emitLdxReg (dst : Row) (src off : Int) (sz : Size) : Code :=
  let rd := if isStacked dst.lo then tmp else dst
  let (c, rm, off) := ldxBase rd src off sz
  c ++ emitLoad rd rm off sz ++ armBpfPutReg64 dst rd

/-- The value and the base are handed to the encoders in each other's place. -/
def emitStore (src : Row) (rd off : Int) : Size → Code
  | .b => emit4 (thumb32StrbImmT3 src.lo rd off)
  | .h => emit4 (thumb32StrhImmT3 src.lo rd off)
  | .w => emitStrI src.lo rd off
  | .dw => emitStrI src.lo rd off ++ emitStrI src.hi rd (off + 4)

def emitStrReg (dst : Int) (src : Row) (off : Int) (sz : Size) : Code :=
  let (c1, rd) := armBpfGetReg32 dst tmp.lo
  if ¬ isLdstImm off sz then
    c1 ++ emitMovImm tmp.hi (bits off) ++ emitAddReg tmp.hi rd false false ++
      emitStore src tmp.hi 0 sz
  else c1 ++ emitStore src rd off sz

/-! ## Comparisons -/

/-- `_emit_cmp_cond` of a jump of class `JMP`: `rd:rt` is compared with `rm:rn`. The equality and
the unsigned comparisons compare the low halves whatever the high ones are, and `JSET` adds. -/
def emitCmpCond (rd rt rm rn : Int) : Cond → Code
  | .set =>
    emit4 (thumb32AddwRegT3 armIp rt rn 0 srtypeLsl flagNos) ++
      emit4 (thumb32AddwRegT3 armLr rd rm 0 srtypeLsl flagNos) ++
      emit4 (thumb32OrrwRegT2 armIp armLr armIp 0 srtypeLsl flagS)
  | .eq | .ne | .gt | .ge | .le | .lt => emitCmpReg rd rm ++ emitCmpReg rt rn
  | .sle | .sgt => emitCmpReg rn rt ++ emit4 (thumb32SbcwT2 armIp rm rd 0 srtypeLsl flagS)
  | .slt | .sge => emitCmpReg rt rn ++ emit4 (thumb32SbcwT2 armIp rd rm 0 srtypeLsl flagS)

/-- The condition under which `_emit_jump` branches. Its operation is an `s8`, so the cases of the
operations from `0x80` on, `JLT`, `JLE`, `JSLT` and `JSLE`, are never taken. -/
def jumpCond : Cond → Option (BitVec 4)
  | .ne | .set => some condNe
  | .eq => some condEq
  | .gt => some condHi
  | .ge => some condCs
  | .sgt => some condLt
  | .sge => some condGe
  | .le | .lt | .slt | .sle => none

end BlueSwat.Jit
