import BlueSwat.Lib.Bytes
import BlueSwat.Lib.Machine

/-!
# A subset of the ARMv7-M Thumb instruction set

Decoding and execution of the instructions that move constants, registers and words on the stack,
add, subtract, compare and branch. `decode` gives `none` for every encoding that is not in the
subset, and for the register choices that the architecture calls unpredictable. Code and data are in
one memory.

What is left to the system is a parameter: `unpriv` are the addresses that an unprivileged access
may read (`LDRT`). An instruction that has no meaning, or faults, ends the run.
-/

set_option autoImplicit false

namespace Thumb

open Machine

abbrev Word := BitVec 32

abbrev Half := BitVec 16

/-- `r13` is the stack pointer, `r14` the link register. -/
abbrev Reg := BitVec 4

abbrev Mem := Word → BitVec 8

inductive AluOp where
  | and | eor | add | adc | sbc
deriving DecidableEq, Repr

/-- The field `s` is set where the instruction sets the flags. -/
inductive Instr where
  | movImm (s : Bool) (rd : Reg) (imm : Word)
  | movTop (rd : Reg) (imm : Half)
  | movReg (rd rm : Reg)
  | alu (op : AluOp) (s : Bool) (rd rn rm : Reg)
  | cmp (rn rm : Reg)
  | asr (s : Bool) (rd rm : Reg) (n : Nat)
  | subImm (rd rn : Reg) (imm : Word)
  | ldr (rt rn : Reg) (off : Word)
  | ldrt (rt rn : Reg) (off : Word)
  | ldrd (rt rt2 rn : Reg) (off : Word)
  | strd (rt rt2 rn : Reg) (off : Word)
  | push (regs : BitVec 16)
  | pop (regs : BitVec 16)
  | b (cond : BitVec 4) (off : Word)
deriving DecidableEq, Repr

/-! ## Decoding -/

/-- The condition of a branch that is always taken. -/
def always : BitVec 4 := 14

/-- `r13` and `r15`, which most instructions do not take. -/
def special (r : Reg) : Bool := r == 13 || r == 15

def guarded (bad : Bool) (i : Instr) : Option Instr := if bad then none else some i

/-- The first of the halfwords of a 32-bit instruction. -/
def isWide (h : Half) : Bool := 0b11101 ≤ (h.extractLsb' 11 5).toNat

def decode16 (h : Half) : Option Instr :=
  let lo (k : Nat) : Reg := (h.extractLsb' k 3).setWidth 4
  let rm : Reg := h.extractLsb' 3 4
  let rd : Reg := h.extractLsb' 7 1 ++ h.extractLsb' 0 3
  if h.extractLsb' 11 5 = 0b00100 then some (.movImm true (lo 8) ((h.extractLsb' 0 8).setWidth 32))
  else if h.extractLsb' 6 10 = 0b0100000001 then some (.alu .eor true (lo 0) (lo 0) (lo 3))
  else if h.extractLsb' 6 10 = 0b0100001010 then some (.cmp (lo 0) (lo 3))
  else if h.extractLsb' 8 8 = 0b01000101 then
    guarded (rd == 15 || rm == 15 || (rd.toNat < 8 && rm.toNat < 8)) (.cmp rd rm)
  else if h.extractLsb' 8 8 = 0b01000110 then guarded (rd == 15 || rm == 15) (.movReg rd rm)
  else if h.extractLsb' 12 4 = 0b1101 then
    guarded (14 ≤ (h.extractLsb' 8 4).toNat)
      (.b (h.extractLsb' 8 4) ((h.extractLsb' 0 8 ++ 0#1).signExtend 32))
  else if h.extractLsb' 11 5 = 0b11100 then
    some (.b always ((h.extractLsb' 0 11 ++ 0#1).signExtend 32))
  else none

/-- The offset of a memory access: `imm8` is added or subtracted. -/
def memOff (add : Bool) (imm : Word) : Word := if add then imm else -imm

/-- Data processing with a shifted register. -/
def decodeShifted (h1 h2 : Half) : Option Instr :=
  let op := h1.extractLsb' 5 4
  let s := h1.getLsbD 4
  let rn : Reg := h1.extractLsb' 0 4
  let rd : Reg := h2.extractLsb' 8 4
  let rm : Reg := h2.extractLsb' 0 4
  let shift := h2.extractLsb' 12 3 ++ h2.extractLsb' 6 2
  let type := h2.extractLsb' 4 2
  if op = 0b0010 ∧ rn = 15 then
    if type = 0b00 ∧ shift = 0 then
      guarded (s || rd == 15 || rm == 15 || (rd == 13 && rm == 13)) (.movReg rd rm)
    else if type = 0b10 then
      guarded (special rd || special rm) (.asr s rd rm (if shift = 0 then 32 else shift.toNat))
    else none
  else if type = 0b00 ∧ shift = 0 then
    let bad := special rd || special rn || special rm
    if op = 0b0000 then guarded bad (.alu .and s rd rn rm)
    else if op = 0b1000 then guarded bad (.alu .add s rd rn rm)
    else if op = 0b1010 then guarded bad (.alu .adc s rd rn rm)
    else if op = 0b1011 then guarded bad (.alu .sbc s rd rn rm)
    else none
  else none

/-- Data processing with an immediate of 12 or 16 bits. -/
def decodePlain (h1 h2 : Half) : Option Instr :=
  let rn : Reg := h1.extractLsb' 0 4
  let rd : Reg := h2.extractLsb' 8 4
  let imm12 := h1.extractLsb' 10 1 ++ h2.extractLsb' 12 3 ++ h2.extractLsb' 0 8
  let imm16 := h1.extractLsb' 0 4 ++ imm12
  if h1.extractLsb' 4 6 = 0b101010 then
    guarded (rn == 15 || rd == 15 || (rd == 13 && rn != 13)) (.subImm rd rn (imm12.setWidth 32))
  else if h1.extractLsb' 4 6 = 0b100100 then
    guarded (special rd) (.movImm false rd (imm16.setWidth 32))
  else if h1.extractLsb' 4 6 = 0b101100 then guarded (special rd) (.movTop rd imm16)
  else none

def decodeBranch (h1 h2 : Half) : Option Instr :=
  let s := h1.extractLsb' 10 1
  let j1 := h2.extractLsb' 13 1
  let j2 := h2.extractLsb' 11 1
  let imm11 := h2.extractLsb' 0 11
  if h2.getLsbD 12 then
    some (.b always
      ((s ++ ~~~(j1 ^^^ s) ++ ~~~(j2 ^^^ s) ++ h1.extractLsb' 0 10 ++ imm11 ++ 0#1).signExtend 32))
  else
    guarded (14 ≤ (h1.extractLsb' 6 4).toNat)
      (.b (h1.extractLsb' 6 4) ((s ++ j2 ++ j1 ++ h1.extractLsb' 0 6 ++ imm11 ++
        0#1).signExtend 32))

/-- Loads and stores of one or two words, and of a list. -/
def decodeMem (h1 h2 : Half) : Option Instr :=
  let rn : Reg := h1.extractLsb' 0 4
  let rt : Reg := h2.extractLsb' 12 4
  let rt2 : Reg := h2.extractLsb' 8 4
  let imm8 := h2.extractLsb' 0 8
  let add := h1.getLsbD 7
  if h1 = 0xe92d then guarded (h2.getLsbD 15 || h2.getLsbD 13) (.push h2)
  else if h1 = 0xe8bd then guarded (h2.getLsbD 13 || (h2.getLsbD 15 && h2.getLsbD 14)) (.pop h2)
  else if h1.extractLsb' 8 8 = 0xe9 ∧ h1.extractLsb' 4 3 = 0b101 then
    guarded (special rt || special rt2 || rt == rt2 || rn == 15)
      (.ldrd rt rt2 rn (memOff add ((imm8 ++ 0#2).setWidth 32)))
  else if h1.extractLsb' 8 8 = 0xe9 ∧ h1.extractLsb' 4 3 = 0b100 then
    guarded (special rt || special rt2 || rn == 15)
      (.strd rt rt2 rn (memOff add ((imm8 ++ 0#2).setWidth 32)))
  else if h1.extractLsb' 4 12 = 0xf85 ∧ h2.extractLsb' 8 4 = 0b1100 then
    guarded (special rt || rn == 15) (.ldr rt rn (memOff false (imm8.setWidth 32)))
  else if h1.extractLsb' 4 12 = 0xf85 ∧ h2.extractLsb' 8 4 = 0b1110 then
    guarded (special rt || rn == 15) (.ldrt rt rn (memOff true (imm8.setWidth 32)))
  else none

def decode32 (h1 h2 : Half) : Option Instr :=
  if h1.extractLsb' 9 7 = 0b1110101 then if h2.getLsbD 15 then none else decodeShifted h1 h2
  else if h1.extractLsb' 11 5 = 0b11110 then
    if h2.extractLsb' 14 2 = 0b10 then decodeBranch h1 h2
    else if h2.getLsbD 15 then none
    else decodePlain h1 h2
  else decodeMem h1 h2

/-- The instruction that two halfwords begin with, and its length in bytes. -/
def decode (h1 h2 : Half) : Option (Instr × Nat) :=
  if isWide h1 then (decode32 h1 h2).map (·, 4) else (decode16 h1).map (·, 2)

/-! ## States -/

structure Flags where
  n : Bool
  z : Bool
  c : Bool
  v : Bool

structure State where
  reg : Reg → Word
  pc : Word
  flags : Flags
  mem : Mem

def sp : Reg := 13

/-- A word written to the stack pointer loses its two low bits. -/
def State.set (s : State) (r : Reg) (v : Word) : State :=
  { s with reg := fun r' => if r' = r then (if r = sp then v &&& 0xfffffffc else v) else s.reg r' }

def State.skip (s : State) (len : Nat) : State := { s with pc := s.pc + BitVec.ofNat 32 len }

def word (M : Mem) (a : Word) : Word := BitVec.ofNat 32 (Bytes.read M a 4)

def half (M : Mem) (a : Word) : Half := BitVec.ofNat 16 (Bytes.read M a 2)

def writeWord (M : Mem) (a v : Word) : Mem := Bytes.write M a 4 (v.setWidth 64)

/-! ## Execution -/

/-- `AddWithCarry`: the sum, its carry and its overflow. -/
def addWithCarry (x y : Word) (c : Bool) : Word × Bool × Bool :=
  let r := x + y + BitVec.ofNat 32 c.toNat
  (r, r.toNat != x.toNat + y.toNat + c.toNat, r.toInt != x.toInt + y.toInt + c.toNat)

/-- `ConditionPassed`. -/
def Flags.passes (f : Flags) (cond : BitVec 4) : Bool :=
  let base := match (cond.extractLsb' 1 3).toNat with
    | 0 => f.z
    | 1 => f.c
    | 2 => f.n
    | 3 => f.v
    | 4 => f.c && !f.z
    | 5 => f.n == f.v
    | 6 => f.n == f.v && !f.z
    | _ => true
  if cond.getLsbD 0 && cond != 15 then !base else base

/-- The result of a logical operation or a move, with the carry `c`. -/
def Flags.logical (f : Flags) (r : Word) (c : Bool) : Flags := ⟨r.msb, r == 0, c, f.v⟩

def Flags.arith (r : Word × Bool × Bool) : Flags := ⟨r.1.msb, r.1 == 0, r.2.1, r.2.2⟩

/-- The result and the flags of an operation on `x` and `y`. -/
def aluResult (op : AluOp) (f : Flags) (x y : Word) : Word × Flags :=
  let arith (r : Word × Bool × Bool) := (r.1, Flags.arith r)
  match op with
  | .and => (x &&& y, f.logical (x &&& y) f.c)
  | .eor => (x ^^^ y, f.logical (x ^^^ y) f.c)
  | .add => arith (addWithCarry x y false)
  | .adc => arith (addWithCarry x y f.c)
  | .sbc => arith (addWithCarry x (~~~y) f.c)

/-- The registers of a list, lowest first. -/
def regList (regs : BitVec 16) : List Reg :=
  ((List.range 16).filter fun r => regs.getLsbD r).map (BitVec.ofNat 4)

def storeAll (M : Mem) : Word → List Word → Mem
  | _, [] => M
  | a, v :: vs => storeAll (writeWord M a v) (a + 4) vs

/-- Load the registers of a list from `a` on; `r15` is not written. -/
def loadAll (M : Mem) : Word → List Reg → State → State
  | _, [], s => s
  | a, r :: rs, s => loadAll M (a + 4) rs (if r = 15 then s else s.set r (word M a))

def aligned (a : Word) : Bool := a.toNat % 4 == 0

/-- An instruction of `len` bytes; `none` is a fault. -/
def exec (unpriv : Word → Bool) (s : State) (len : Nat) : Instr → Option State
  | .movImm set rd imm =>
    let f := if set then s.flags.logical imm s.flags.c else s.flags
    some ({ s.set rd imm with flags := f }.skip len)
  | .movTop rd imm => some ((s.set rd (imm ++ (s.reg rd).extractLsb' 0 16)).skip len)
  | .movReg rd rm => some ((s.set rd (s.reg rm)).skip len)
  | .alu op set rd rn rm =>
    let (r, f) := aluResult op s.flags (s.reg rn) (s.reg rm)
    some ({ s.set rd r with flags := if set then f else s.flags }.skip len)
  | .cmp rn rm =>
    some ({ s with flags := .arith (addWithCarry (s.reg rn) (~~~s.reg rm) true) }.skip len)
  | .asr set rd rm n =>
    let r := (s.reg rm).sshiftRight n
    let f := if set then s.flags.logical r ((s.reg rm).sshiftRight (n - 1) |>.getLsbD 0)
      else s.flags
    some ({ s.set rd r with flags := f }.skip len)
  | .subImm rd rn imm => some ((s.set rd (s.reg rn - imm)).skip len)
  | .ldr rt rn off => some ((s.set rt (word s.mem (s.reg rn + off))).skip len)
  | .ldrt rt rn off =>
    let a := s.reg rn + off
    if unpriv a && unpriv (a + 1) && unpriv (a + 2) && unpriv (a + 3) then
      some ((s.set rt (word s.mem a)).skip len)
    else none
  | .ldrd rt rt2 rn off =>
    let a := s.reg rn + off
    if aligned a then
      some (((s.set rt (word s.mem a)).set rt2 (word s.mem (a + 4))).skip len)
    else none
  | .strd rt rt2 rn off =>
    let a := s.reg rn + off
    if aligned a then
      some ({ s with mem := storeAll s.mem a [s.reg rt, s.reg rt2] }.skip len)
    else none
  | .push regs =>
    let a := s.reg sp - BitVec.ofNat 32 (4 * (regList regs).length)
    if aligned a then
      some (({ s with mem := storeAll s.mem a ((regList regs).map s.reg) }.set sp a).skip len)
    else none
  | .pop regs =>
    let a := s.reg sp
    let count := (regList regs).length
    let s' := (loadAll s.mem a (regList regs) s).set sp (a + BitVec.ofNat 32 (4 * count))
    if aligned a then
      if regs.getLsbD 15 then
        -- the word for the program counter is the last one, and its low bit selects Thumb
        let target := word s.mem (a + BitVec.ofNat 32 (4 * (count - 1)))
        if target.getLsbD 0 then some { s' with pc := target &&& 0xfffffffe } else none
      else some (s'.skip len)
    else none
  | .b cond off =>
    if s.flags.passes cond then some { s with pc := s.pc + 4 + off } else some (s.skip len)

/-- One instruction at the program counter. -/
def step (unpriv : Word → Bool) (s : State) : Outcome State Unit :=
  match decode (half s.mem s.pc) (half s.mem (s.pc + 2)) with
  | none => .done ()
  | some (i, len) => match exec unpriv s len i with
    | none => .done ()
    | some s' => .next s'

end Thumb
