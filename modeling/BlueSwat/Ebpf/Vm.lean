import BlueSwat.Lib.Bytes
import BlueSwat.Lib.Machine
import BlueSwat.Ebpf.Inst

/-!
# The interpreter (`ebpf_vm.c`)

`ebpf_vm_exec` as a step machine over registers, a 16-bit program counter and byte memory. The
target is the nRF52840: little-endian, 32-bit pointers (`uintptr`), 64-bit VM registers.

What the C text leaves to its surroundings is a parameter:

* `Host.stack`, where the compiler puts the local array `stack`;
* `Host.wildShift`, the value of a shift by an amount not below the operand's width, which C does
  not define;
* the memory itself, a total function: a load never faults here, and one from an address that is
  unmapped or not aligned still reads something. On the processor it may fault, so what is proved of
  a run holds where its loads are mapped and aligned.

A division by zero and a call without a helper table have no value in C: the run ends in `trap`.
-/

set_option autoImplicit false

namespace BlueSwat.Ebpf

open Machine

abbrev Addr := BitVec 32

abbrev Mem := Addr → BitVec 8

/-- `STACK_SIZE`; `stack` is an array of `(STACK_SIZE + 7) / 8` words of 8 bytes. -/
def stackSize : Nat := 128

def maxBpfReg : Nat := 11

/-- What the C text of the interpreter does not fix (module doc). -/
structure Host where
  stack : Addr
  wildShift : AluOp → Form → BitVec 64 → BitVec 64 → BitVec 64

/-- Where a run finds its input memory of `size` bytes and its stack: two separate objects. -/
structure Placement (size : Nat) where
  host : Host
  mem : Addr
  separate : ∀ a, Bytes.Within a mem size → ¬ Bytes.Within a host.stack stackSize

/-- `struct ebpf_vm`, as far as the interpreter reads it. `helperFunc` is the helper table: the
index and the five arguments give a value and the memory after the call; `none` is a call through
a null pointer. -/
structure EbpfVm where
  insts : Nat → BitVec 8
  boundsCheckEnabled : Bool
  helperFunc : BitVec 32 → (Fin 5 → BitVec 32) → Mem → Option (BitVec 32 × Mem)

/-- The interpreter's locals and the memory. The 4-bit register fields index the 16 entries of
`reg` (`MAX_BPF_EXT_REG`). -/
structure State where
  pc : BitVec 16
  reg : BitVec 4 → BitVec 64
  mem : Mem

/-- How a run ends: `return reg[0]` at `EXIT`, `return -1`, or undefined behaviour. -/
inductive Ret where
  | exit (v : BitVec 64)
  | fail
  | trap
deriving DecidableEq

def Ret.value : Ret → Option (BitVec 64)
  | .exit v => some v
  | .fail => some (-1)
  | .trap => none

/-! ## Arithmetic -/

/-- What an arithmetic case does: assign `DST`, `return -1`, or divide by zero. -/
inductive AluRes where
  | val (v : BitVec 64)
  | fail
  | trap
deriving DecidableEq

def u32 (x : BitVec 64) : BitVec 32 := x.setWidth 32

def zext (x : BitVec 32) : BitVec 64 := x.setWidth 64

/-- `x` of an `s32` where a `u64` is wanted. -/
def sext (x : BitVec 32) : BitVec 64 := x.signExtend 64

/-- C's `a / b` and `a % b` on unsigned operands: no value for `b = 0`. -/
def divide {n : Nat} (f : BitVec n → BitVec n → BitVec n) (a b : BitVec n)
    (k : BitVec n → BitVec 64) : AluRes :=
  if b = 0 then .trap else .val (k (f a b))

def alu32 (H : Host) (op : AluOp) (form : Form) (dst src : BitVec 64) (imm : BitVec 32) : AluRes :=
  let a := u32 dst
  let b := match form with
    | .imm => imm
    | .reg => u32 src
  match op with
  | .add => .val (zext (a + b))
  | .sub => .val (zext (a - b))
  | .mul => .val (zext (a * b))
  | .div => match form with
    | .imm => divide (· / ·) a b zext
    -- the test is on the whole register, the division on its low half
    | .reg => if src = 0 then .fail else divide (· / ·) a b zext
  | .or => .val (zext (a ||| b))
  -- `&&`, not `&`
  | .and => .val (if a ≠ 0 ∧ b ≠ 0 then 1 else 0)
  | .lsh => .val (if b.toNat < 32 then zext (a <<< b.toNat) else H.wildShift op form dst (zext b))
  | .rsh => .val (if b.toNat < 32 then zext (a >>> b.toNat) else H.wildShift op form dst (zext b))
  | .mod => match form with
    | .imm => divide (· % ·) a b zext
    | .reg => if src = 0 then .fail else divide (· % ·) a b zext
  | .xor => .val (zext (a ^^^ b))
  | .mov => .val (zext b)
  | .arsh =>
    -- the amount is `IMM` or the whole `SRC`
    let n := match form with
      | .imm => sext imm
      | .reg => src
    .val (if n.toNat < 32 then zext (a.sshiftRight n.toNat) else H.wildShift op form dst n)

def alu64 (H : Host) (op : AluOp) (form : Form) (dst src : BitVec 64) (imm : BitVec 32) : AluRes :=
  let b := match form with
    | .imm => sext imm
    | .reg => src
  match op with
  | .add => .val (dst + b)
  | .sub => .val (dst - b)
  | .mul => .val (dst * b)
  | .div => match form with
    | .imm => divide (· / ·) dst b id
    -- `DIV64_REG` tests `SRC` and divides by `IMM`
    | .reg => if src = 0 then .fail else divide (· / ·) dst (sext imm) id
  | .or => .val (dst ||| b)
  | .and => .val (dst &&& b)
  | .lsh => .val (if b.toNat < 64 then dst <<< b.toNat else H.wildShift op form dst b)
  | .rsh => .val (if b.toNat < 64 then dst >>> b.toNat else H.wildShift op form dst b)
  | .mod => match form with
    | .imm => divide (· % ·) dst b id
    | .reg => if src = 0 then .fail else divide (· % ·) dst b id
  | .xor => .val (dst ^^^ b)
  | .mov => .val b
  | .arsh => .val (if b.toNat < 64 then dst.sshiftRight b.toNat else H.wildShift op form dst b)

/-- `__swap16`, `__swap32` and `__swap64`: the `n` low bytes of `x` in reverse order. -/
def swap16 (x : BitVec 16) : BitVec 16 := ((x &&& 0x00ff) <<< 8) ||| ((x &&& 0xff00) >>> 8)

def swap32 (x : BitVec 32) : BitVec 32 :=
  ((x &&& 0x000000ff) <<< 24) ||| ((x &&& 0x0000ff00) <<< 8) |||
    ((x &&& 0x00ff0000) >>> 8) ||| ((x &&& 0xff000000) >>> 24)

def swap64 (x : BitVec 64) : BitVec 64 :=
  ((x &&& 0x00000000000000ff) <<< 56) ||| ((x &&& 0x000000000000ff00) <<< 40) |||
    ((x &&& 0x0000000000ff0000) <<< 24) ||| ((x &&& 0x00000000ff000000) <<< 8) |||
    ((x &&& 0x000000ff00000000) >>> 8) ||| ((x &&& 0x0000ff0000000000) >>> 24) |||
    ((x &&& 0x00ff000000000000) >>> 40) ||| ((x &&& 0xff00000000000000) >>> 56)

/-- `EBPF_OP_LE`: `my_htole*` is the identity here, for every `IMM`. -/
def toLe (dst : BitVec 64) (_imm : BitVec 32) : BitVec 64 := dst

def toBe (dst : BitVec 64) (imm : BitVec 32) : BitVec 64 :=
  if imm = 16 then (swap16 (dst.setWidth 16)).setWidth 64
  else if imm = 32 then zext (swap32 (u32 dst))
  else if imm = 64 then swap64 dst
  else dst

/-- The condition of a conditional jump. The unsigned order compares with `(u32)IMM`, everything
else with the sign-extended `IMM`. -/
def Cond.holds (c : Cond) (form : Form) (dst src : BitVec 64) (imm : BitVec 32) : Bool :=
  let s := match form with
    | .imm => sext imm
    | .reg => src
  let u := match form with
    | .imm => zext imm
    | .reg => src
  match c with
  | .eq => dst == s
  | .gt => u.ult dst
  | .ge => u.ule dst
  | .lt => dst.ult u
  | .le => dst.ule u
  | .set => (dst &&& s) != 0
  | .ne => dst != s
  | .sgt => s.slt dst
  | .sge => s.sle dst
  | .slt => dst.slt s
  | .sle => dst.sle s

/-! ## Memory -/

/-- `(uintptr)(base + inst->offset)`. -/
def effAddr (base : BitVec 64) (offset : BitVec 16) : Addr :=
  (base + offset.signExtend 64).setWidth 32

/-- `bounds_check`: `size` and `mem_len` are added to `u64 *` pointers. -/
def boundsCheck (vm : EbpfVm) (addr : Addr) (size : Nat) (mem : Addr) (memLen : BitVec 32)
    (stack : Addr) : Bool :=
  if !vm.boundsCheckEnabled then true
  else if mem ≠ 0 ∧ mem.ule addr ∧ (addr + BitVec.ofNat 32 (8 * size)).ule (mem + 8 * memLen) then
    true
  else
    stack.ule addr &&
      (addr + BitVec.ofNat 32 (8 * size)).ule (stack + BitVec.ofNat 32 (8 * stackSize))

/-! ## One instruction -/

namespace State

/-- `DST = v`. -/
def set (s : State) (r : BitVec 4) (v : BitVec 64) : State :=
  { s with reg := fun r' => if r' = r then v else s.reg r' }

def jump (s : State) (n : BitVec 16) : State := { s with pc := s.pc + n }

/-- `*(..)addr = v` of `n` bytes. -/
def store (s : State) (addr : Addr) (n : Nat) (v : BitVec 64) : State :=
  { s with mem := Bytes.write s.mem addr n v }

def alu (s : State) (dst : BitVec 4) : AluRes → Outcome State Ret
  | .val v => .next (s.set dst v)
  | .fail => .done .fail
  | .trap => .done .trap

end State

def EbpfVm.fetch (vm : EbpfVm) (pc : BitVec 16) : EbpfInst := instAt vm.insts pc.toNat

/-- `BOUNDS_CHECK_LOAD` / `BOUNDS_CHECK_STORE`: both test the address `SRC + offset`. -/
def checked (H : Host) (vm : EbpfVm) (mem : Addr) (memLen : BitVec 32) (inst : EbpfInst) (s : State)
    (size : Size) (k : State) : Outcome State Ret :=
  if boundsCheck vm (effAddr (s.reg inst.src) inst.offset) size.bytes mem memLen H.stack then
    .next k
  else .done .fail

/-- The cases of the interpreter's `switch`, on the state after `pc++`. Loads and stores do not
fault, whatever their address. -/
def execOp (H : Host) (vm : EbpfVm) (mem : Addr) (memLen : BitVec 32) (inst : EbpfInst)
    (s : State) : Option Op → Outcome State Ret
  | none => .next s
  | some (.alu32 op form) =>
    s.alu inst.dst (alu32 H op form (s.reg inst.dst) (s.reg inst.src) inst.imm)
  | some .neg32 => .next (s.set inst.dst (zext (u32 (-s.reg inst.dst))))
  | some .le => .next (s.set inst.dst (toLe (s.reg inst.dst) inst.imm))
  | some .be => .next (s.set inst.dst (toBe (s.reg inst.dst) inst.imm))
  | some (.alu64 op form) =>
    s.alu inst.dst (alu64 H op form (s.reg inst.dst) (s.reg inst.src) inst.imm)
  | some .neg64 => .next (s.set inst.dst (-s.reg inst.dst))
  | some (.ldx size) => checked H vm mem memLen inst s size
      (s.set inst.dst
        (.ofNat 64 (Bytes.read s.mem (effAddr (s.reg inst.src) inst.offset) size.bytes)))
  | some (.st size) => checked H vm mem memLen inst s size
      (s.store (effAddr (s.reg inst.dst) inst.offset) size.bytes (sext inst.imm))
  | some (.stx size) => checked H vm mem memLen inst s size
      (s.store (effAddr (s.reg inst.dst) inst.offset) size.bytes (s.reg inst.src))
  | some .lddw =>
    -- the second slot's `imm` is the upper half, and `pc` moves over it
    .next ((s.set inst.dst (zext inst.imm ||| (zext (vm.fetch s.pc).imm <<< 32))).jump 1)
  | some .ja => .next (s.jump inst.offset)
  | some (.jcond c form) =>
    .next (if c.holds form (s.reg inst.dst) (s.reg inst.src) inst.imm
      then s.jump inst.offset else s)
  | some .call =>
    match vm.helperFunc inst.imm (fun i => u32 (s.reg (BitVec.ofNat 4 (i + 1)))) s.mem with
    | none => .done .trap
    | some (v, M) => .next { s.set 0 (zext v) with mem := M }
  | some .exit => .done (.exit (s.reg 0))

/-- The body of the interpreter's loop. -/
def vmStep (H : Host) (vm : EbpfVm) (mem : Addr) (memLen : BitVec 32) (s : State) :
    Outcome State Ret :=
  let inst := vm.fetch s.pc
  execOp H vm mem memLen inst (s.jump 1) (Op.ofCode inst.opcode)

/-- The locals at the start: `reg[1]` is `mem`, `reg[10]` the end of the zeroed `stack`. -/
def initState (H : Host) (M : Mem) (mem : Addr) : State where
  pc := 0
  reg := fun r =>
    if r = 1 then zext mem
    else if r = 10 then zext (H.stack + BitVec.ofNat 32 stackSize)
    else 0
  mem := fun a => if Bytes.Within a H.stack stackSize then 0 else M a

/-- `ebpf_vm_exec(vm, mem, mem_len)` with memory `M`, for at most `fuel` instructions. -/
def ebpfVmExec (H : Host) (vm : EbpfVm) (fuel : Nat) (M : Mem) (mem : Addr) (memLen : BitVec 32) :
    Option (State × Ret) :=
  run (vmStep H vm mem memLen) fuel (initState H M mem)

end BlueSwat.Ebpf
