import Mathlib.Data.BitVec

/-!
# The Thumb-2 encoders (`jit_thumb2.h`)

Each function or-s its operands into an opcode, as the header does it. Registers are `s8` and
offsets `s16` or `s32`: they are integers here, and are widened to 32 bits where the C text shifts
them, so that a register that should have been loaded from its stack slot first, a negative number,
spills over the other fields as it does there. The 16-bit encoders cut their result.
-/

set_option autoImplicit false

namespace BlueSwat.Jit

/-- An operand, widened to `int`. -/
def bits (x : Int) : BitVec 32 := BitVec.ofInt 32 x

/-- `(x >> n) & mask`. -/
def field (x : Int) (n : Nat) (mask : BitVec 32) : BitVec 32 := (bits x).sshiftRight n &&& mask

/-! ## Registers, conditions and shift types -/

def armR0 : Int := 0
def armFp : Int := 11
def armIp : Int := 12
def armSp : Int := 13
def armLr : Int := 14

def condEq : BitVec 4 := 0b0000
def condNe : BitVec 4 := 0b0001
def condCs : BitVec 4 := 0b0010
def condPl : BitVec 4 := 0b0101
def condHi : BitVec 4 := 0b1000
def condGe : BitVec 4 := 0b1010
def condLt : BitVec 4 := 0b1011

def srtypeLsl : BitVec 32 := 0
def srtypeRor : BitVec 32 := 3

def flagNos : BitVec 32 := 0
def flagS : BitVec 32 := 1

/-- `CALLEE_MASK`: `r4`-`r9` and `fp`. -/
def calleeMask : BitVec 32 :=
  1 <<< 4 ||| 1 <<< 5 ||| 1 <<< 6 ||| 1 <<< 7 ||| 1 <<< 8 ||| 1 <<< 9 ||| 1 <<< 11

def calleePushMask : BitVec 32 := calleeMask ||| 1 <<< 14
def calleePopMask : BitVec 32 := calleeMask ||| 1 <<< 15

/-! ## Data processing with registers -/

/-- The shape that the wide three-register instructions share: `imm3:imm2` is the shift. -/
def thumb32Reg (opcode : BitVec 32) (rd rn rm shiftImm5 : Int) (srtype flag : BitVec 32) :
    BitVec 32 :=
  opcode ||| flag <<< 20 ||| bits rn <<< 16 ||| field shiftImm5 2 0b111 <<< 12 ||| bits rd <<< 8 |||
    field shiftImm5 0 0b11 <<< 6 ||| srtype <<< 4 ||| bits rm

def thumb32SbcwT2 := thumb32Reg 0xeb600000
def thumb32AddwRegT3 := thumb32Reg 0xeb000000
def thumb32AndRegT2 := thumb32Reg 0xea000000
def thumb32SubRegT2 := thumb32Reg 0xeba00000
def thumb32EorRegT2 := thumb32Reg 0xea800000

/-- The one of the family that checks its shift. -/
def thumb32OrrwRegT2 (rd rn rm shiftImm5 : Int) (srtype flag : BitVec 32) : BitVec 32 :=
  if shiftImm5 < 0 ∨ shiftImm5 > 0b11111 then -1
  else thumb32Reg 0xea400000 rd rn rm shiftImm5 srtype flag

def thumb32UmullT2 (rdLo rdHi rn rm : Int) : BitVec 32 :=
  0xfba00000 ||| bits rn <<< 16 ||| bits rdLo <<< 12 ||| bits rdHi <<< 8 ||| bits rm

/-- `_thumb32_MUL_T2` and `_thumb32_MUL_REG_T2`. -/
def thumb32MulT2 (rd rn rm : Int) : BitVec 32 :=
  0xfb00f000 ||| bits rn <<< 16 ||| bits rd <<< 8 ||| bits rm

/-- The shape of the shifts by a register. -/
def thumb32ShiftReg (opcode : BitVec 32) (rd rn rm : Int) (flag : BitVec 32) : BitVec 32 :=
  opcode ||| flag <<< 20 ||| bits rn <<< 16 ||| bits rd <<< 8 ||| bits rm

def thumb32AsrwRegT2 := thumb32ShiftReg 0xfa40f000
def thumb32LslwRegT2 := thumb32ShiftReg 0xfa00f000
def thumb32LsrwRegT2 := thumb32ShiftReg 0xfa20f000

/-- The shape of the shifts by an immediate. -/
def thumb32ShiftImm (opcode : BitVec 32) (rd rm imm5 : Int) (flag : BitVec 32) : BitVec 32 :=
  opcode ||| flag <<< 20 ||| field imm5 2 0b111 <<< 12 ||| bits rd <<< 8 |||
    field imm5 0 0b11 <<< 6 ||| bits rm

def thumb32AsrwImmT2 := thumb32ShiftImm 0xea4f0020

def thumb32LsrwImmT2 (rd rm shiftImm5 : Int) (flag : BitVec 32) : BitVec 32 :=
  if shiftImm5 < 0 ∨ shiftImm5 > 0b11111 then -1
  else thumb32ShiftImm 0xea4f0010 rd rm shiftImm5 flag

def thumb32MovwRegT3 (rd rm : Int) (flag : BitVec 32) : BitVec 32 :=
  0xea4f0000 ||| flag <<< 20 ||| bits rd <<< 8 ||| bits rm

def thumb16MovRegT1 (rd rm : Int) : BitVec 16 :=
  (0x4600 ||| field rd 3 1 <<< 7 ||| bits rm <<< 3 ||| field rd 0 0b111).setWidth 16

def thumb16AddRegT2 (rdn rm : Int) : BitVec 16 :=
  (0x4400 ||| field rdn 3 1 <<< 7 ||| bits rm <<< 3 ||| field rdn 0 0b111).setWidth 16

def thumb16SubRegT1 (rd rn rm : Int) : BitVec 16 :=
  (0x1a00 ||| bits rm <<< 6 ||| bits rn <<< 3 ||| bits rd).setWidth 16

def thumb16AndRegT1 (rdn rm : Int) : BitVec 16 :=
  (0x4000 ||| bits rm <<< 3 ||| bits rdn).setWidth 16

/-- `RDn` is shifted by 4, not by 3. -/
def thumb16OrrRegT1 (rdn rm : Int) : BitVec 16 :=
  (0x4300 ||| field rdn 0 0b111 <<< 4 ||| field rm 0 0b111).setWidth 16

def thumb16CmpRegT1 (rn rm : Int) : BitVec 16 :=
  (0x4280 ||| bits rm <<< 3 ||| bits rn).setWidth 16

def thumb16CmpRegT2 (rn rm : Int) : BitVec 16 :=
  (0x4500 ||| field rn 3 1 <<< 7 ||| bits rm <<< 3 ||| field rn 0 0b111).setWidth 16

/-! ## Data processing with immediates -/

/-- The shape of the instructions with a 12-bit immediate `i:imm3:imm8`; `mask3` is what the
encoder keeps of `imm3`. -/
def thumb32Imm12 (opcode : BitVec 32) (mask3 : BitVec 32) (rd rn imm12 : Int) : BitVec 32 :=
  opcode ||| field imm12 11 1 <<< 26 ||| bits rn <<< 16 ||| field imm12 8 mask3 <<< 12 |||
    bits rd <<< 8 ||| field imm12 0 0xff

def thumb32AddImmT4 := thumb32Imm12 0xf2000000 0b111

/-- `imm3` is cut to two bits, and the flag is not used. -/
def thumb32SubwImmT4 := thumb32Imm12 0xf2a00000 0b11

def thumb32RsbwImmT2 (rd rn shiftImm12 : Int) (flag : BitVec 32) : BitVec 32 :=
  thumb32Imm12 0xf1c00000 0b111 rd rn shiftImm12 ||| flag <<< 20

def thumb16AddImmT2 (rdn imm8 : Int) : BitVec 16 :=
  (0x3000 ||| bits rdn <<< 8 ||| field imm8 0 0xff).setWidth 16

def thumb16SubImmT1 (rd rn imm3 : Int) : BitVec 16 :=
  (0x1e00 ||| field imm3 0 0b111 <<< 6 ||| bits rn <<< 3 ||| bits rd).setWidth 16

def thumb16SubImmT2 (rdn imm8 : Int) : BitVec 16 :=
  (0x3800 ||| bits rdn <<< 8 ||| field imm8 0 0xff).setWidth 16

def thumb16ItT1 (cond : BitVec 4) (mask : BitVec 32) : BitVec 16 :=
  (0xbf00 ||| cond.setWidth 32 <<< 4 ||| mask).setWidth 16

/-! ## Branches -/

def thumb16BT1 (offImm9 : Int) (cond : BitVec 4) : BitVec 16 :=
  (0xd000 ||| cond.setWidth 32 <<< 8 ||| field offImm9 1 0xff).setWidth 16

def thumb16BT2 (offImm12 : Int) : BitVec 16 :=
  (0xe000 ||| field offImm12 1 0x7ff).setWidth 16

def thumb16BlxRegT1 (rm : Int) : BitVec 16 := (0x4780 ||| bits rm <<< 3).setWidth 16

/-- The sign of an offset, `off < 0`. -/
def sign (off : Int) : BitVec 32 := if off < 0 then 1 else 0

def thumb32BwT3 (offImm20 : Int) (cond : BitVec 4) : BitVec 32 :=
  0xf0008000 ||| sign offImm20 <<< 26 ||| cond.setWidth 32 <<< 22 |||
    field offImm20 12 0x3f <<< 16 ||| field offImm20 18 1 <<< 13 ||| field offImm20 19 1 <<< 11 |||
    field offImm20 1 0x7ff

/-- The opcode is the one of the conditional branch. -/
def thumb32BwT4 (offImm23 : Int) : BitVec 32 :=
  let s := sign offImm23
  let j1 := (~~~field offImm23 18 1 ^^^ s) &&& 1
  let j2 := (~~~field offImm23 19 1 ^^^ s) &&& 1
  0xf0008000 ||| s <<< 26 ||| field offImm23 12 0x3ff <<< 16 ||| j1 <<< 13 ||| j2 <<< 11 |||
    field offImm23 1 0x7ff

/-! ## Loads and stores -/

/-- `P`, `U` and `W` of an offset, `P:U:W`: no write-back. Some encoders count 0 as positive. -/
def puw (p u : Prop) [Decidable p] [Decidable u] : BitVec 32 :=
  (if p then 0b100 else 0) ||| (if u then 0b010 else 0)

def thumb16PushT1 (regMask : BitVec 32) : BitVec 16 :=
  (0xb400 ||| (regMask >>> 14 &&& 1) <<< 8 ||| (regMask &&& 0xff)).setWidth 16

def thumb32PushwT2 (regMask : BitVec 32) : BitVec 32 :=
  0xe92d0000 ||| (regMask >>> 14 &&& 1) <<< 14 ||| (regMask &&& 0x1fff)

def thumb32PopwT2 (regMask : BitVec 32) : BitVec 32 :=
  0xe8bd0000 ||| (regMask >>> 15 &&& 1) <<< 15 ||| (regMask >>> 14 &&& 1) <<< 14 |||
    (regMask &&& 0x1fff)

def thumb16LdrbImmT1 (rt rn offImm5 : Int) : BitVec 16 :=
  (0x7800 ||| bits offImm5 <<< 6 ||| bits rn <<< 3 ||| bits rt).setWidth 16

def thumb32LdrbImmT3 (rt rn offImm8 : Int) : BitVec 32 :=
  0xf8100000 ||| bits rn <<< 16 ||| bits rt <<< 12 ||| (0b1000 ||| puw True (offImm8 ≥ 0)) <<< 8 |||
    bits offImm8.natAbs

def thumb32LdrImmT4 (rt rn offImm8 : Int) : BitVec 32 :=
  0xf8500800 ||| bits rn <<< 16 ||| bits rt <<< 12 ||| puw (offImm8 ≠ 0) (offImm8 ≥ 0) <<< 8 |||
    bits offImm8.natAbs

def thumb32LdrdImmT1 (rtHi rtLo rn offImm8 : Int) : BitVec 32 :=
  0xe8500000 ||| (0b0010 ||| puw (offImm8 ≠ 0) (offImm8 > 0) <<< 1) <<< 21 ||| bits rn <<< 16 |||
    bits rtLo <<< 12 ||| bits rtHi <<< 8 ||| field offImm8.natAbs 2 0xff

/-- `_thumb32_STRB_IMM_T3` and `_thumb32_STRH_IMM_T3`: the flags are `0b111` for every offset, and
the first argument, the value, is put where the base register belongs. -/
def thumb32StrNarrow (opcode : BitVec 32) (rn rt offImm8 : Int) : BitVec 32 :=
  opcode ||| bits rn <<< 16 ||| bits rt <<< 12 |||
    (0b111 ||| puw (offImm8 ≠ 0) (offImm8 > 0)) <<< 8 ||| bits offImm8.natAbs

def thumb32StrbImmT3 := thumb32StrNarrow 0xf8000800
def thumb32StrhImmT3 := thumb32StrNarrow 0xf8200800

def thumb32StrdImmT1 (rnHi rnLo rtDst offImm8 : Int) : BitVec 32 :=
  0xe8400000 ||| puw (offImm8 ≠ 0) (offImm8 > 0) <<< 22 ||| bits rtDst <<< 16 |||
    bits rnLo <<< 12 ||| bits rnHi <<< 8 ||| field offImm8.natAbs 2 0xff

end BlueSwat.Jit
