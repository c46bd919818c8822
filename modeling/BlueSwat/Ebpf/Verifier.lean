import BlueSwat.Ebpf.Vm

/-!
# The verifier of runtime policies (`ifw_verify_policy`)

Both ports carry the same text. The loop visits the slots of the program in order, except that it
moves over the second slot of an `LDDW` without looking at it (`visited`). The diagnostic codes
are the source's.
-/

set_option autoImplicit false

namespace BlueSwat.Ebpf

def ifwRuntimeMaxInsts : Nat := 64

/-- `load_sz`: the size of a load, 0 for any other opcode. -/
def loadSz (op : BitVec 8) : Nat :=
  if op = (Op.ldx .dw).code then 8
  else if op = (Op.ldx .w).code then 4
  else if op = (Op.ldx .h).code then 2
  else if op = (Op.ldx .b).code then 1
  else 0

/-- The opcodes of the store `switch`. -/
def isStore (op : BitVec 8) : Bool :=
  Size.all.any fun size => op == (Op.st size).code || op == (Op.stx size).code

/-- The checks on a load: only from `r1` inside the input memory or from `r10` inside the stack. -/
def verifyLoad (inst : EbpfInst) (memSize : Nat) : Option Int :=
  let sz := loadSz inst.opcode
  let off := inst.offset.toInt
  if sz = 0 then none
  else if inst.src = 1 then
    if off < 0 ∨ off + sz > memSize then some (-15) else none
  else if inst.src = 10 then
    if off ≥ 0 ∨ sz + off > 0 ∨ -off > stackSize then some (-16) else none
  else some (-17)

/-- What the loop body does with the instruction in slot `pc`. -/
inductive Check where
  | reject (err : Int)
  | exit
  | lddw
  | ok
deriving DecidableEq

def verifyInst (inst : EbpfInst) (pc numInsts memSize : Nat) : Check :=
  let op := inst.opcode
  if inst.dst.toNat ≥ maxBpfReg ∨ inst.src.toNat ≥ maxBpfReg then .reject (-12)
  else if op = Op.call.code then .reject (-13)
  else if op = Op.exit.code then .exit
  else if isStore op then .reject (-14)
  else match verifyLoad inst memSize with
    | some err => .reject err
    | none =>
      if op = Op.lddw.code then
        if pc + 1 ≥ numInsts then .reject (-18) else .lddw
      else if op &&& clsMask = clsJmp then
        if inst.offset.toInt < 0 then .reject (-19)
        else if (pc : Int) + 1 + inst.offset.toInt ≥ numInsts then .reject (-20)
        else .ok
      else .ok

/-- The loop from slot `pc` on; `pc` grows in every round, so `num_insts` rounds are enough. -/
def verifyLoop (code : Nat → BitVec 8) (numInsts memSize : Nat) : Nat → Nat → Bool → Int
  | 0, _, seenExit => if seenExit then 0 else -21
  | fuel + 1, pc, seenExit =>
    if pc < numInsts then
      match verifyInst (instAt code pc) pc numInsts memSize with
      | .reject err => err
      | .exit => verifyLoop code numInsts memSize fuel (pc + 1) true
      | .lddw => verifyLoop code numInsts memSize fuel (pc + 2) seenExit
      | .ok => verifyLoop code numInsts memSize fuel (pc + 1) seenExit
    else if seenExit then 0 else -21

/-- `ifw_verify_policy(code, len, mem_size)`; `none` is a null `code`. -/
def ifwVerifyPolicy (code : Option (Nat → BitVec 8)) (len : BitVec 32) (memSize : Nat) : Int :=
  match code with
  | none => -10
  | some code =>
    if len = 0 ∨ len.toNat % 8 ≠ 0 then -10
    else
      let numInsts := len.toNat / 8
      if numInsts > ifwRuntimeMaxInsts then -11
      else verifyLoop code numInsts memSize numInsts 0 false

/-- The firewall's interpreter VM: `ebpf_create` zeroes it and no helper is registered. -/
def defaultVm (code : Nat → BitVec 8) : EbpfVm where
  insts := code
  boundsCheckEnabled := false
  helperFunc := fun _ _ _ => none

def isLddw (code : Nat → BitVec 8) (i : Nat) : Bool := (instAt code i).opcode == Op.lddw.code

/-- Slot `i` is one the verifier looks at: not the second slot of an `LDDW` it looked at. -/
def visited (code : Nat → BitVec 8) : Nat → Bool
  | 0 => true
  | i + 1 => !(visited code i && isLddw code i)

def nextSlot (code : Nat → BitVec 8) (i : Nat) : Nat := if isLddw code i then i + 2 else i + 1

end BlueSwat.Ebpf
