import Mathlib.Data.BitVec

/-!
# eBPF instructions (`ebpf_inst.h`)

The instruction record, the opcodes and their decoding. An opcode is a class, a source flag or a
size, and an operation, or-ed together as the header does it; `Op.code` is the header's table and
`Op.ofCode` the interpreter's `switch`, which has no `default`: an opcode with no `case` is `none`.

Code is a pointer to bytes, `Nat → BitVec 8`: nothing marks the end of a program, and the bytes
behind it are whatever the memory holds there.
-/

set_option autoImplicit false

namespace BlueSwat.Ebpf

structure EbpfInst where
  opcode : BitVec 8
  dst : BitVec 4
  src : BitVec 4
  offset : BitVec 16
  imm : BitVec 32
deriving DecidableEq, Repr

/-- The `i`-th instruction of `(struct ebpf_inst *)code` on a little-endian target. -/
def instAt (code : Nat → BitVec 8) (i : Nat) : EbpfInst where
  opcode := code (8 * i)
  dst := (code (8 * i + 1)).extractLsb' 0 4
  src := (code (8 * i + 1)).extractLsb' 4 4
  offset := code (8 * i + 3) ++ code (8 * i + 2)
  imm := code (8 * i + 7) ++ code (8 * i + 6) ++ code (8 * i + 5) ++ code (8 * i + 4)

/-- A pointer to an array of `bytes`; what lies behind the array is `rest`. -/
def codeBytes (bytes : List (BitVec 8)) (rest : Nat → BitVec 8) (i : Nat) : BitVec 8 :=
  (bytes[i]?).getD (rest i)

def disasm (bytes : List (BitVec 8)) : List EbpfInst :=
  (List.range (bytes.length / 8)).map (instAt (codeBytes bytes fun _ => 0))

/-! ## Operations -/

/-- `EBPF_SRC_IMM` / `EBPF_SRC_REG`. -/
inductive Form where
  | imm | reg
deriving DecidableEq, Repr

inductive Size where
  | w | h | b | dw
deriving DecidableEq, Repr

/-- The two-operand `EBPF_ALU_*` operations. -/
inductive AluOp where
  | add | sub | mul | div | or | and | lsh | rsh | mod | xor | mov | arsh
deriving DecidableEq, Repr

inductive Cond where
  | eq | gt | ge | set | ne | sgt | sge | lt | le | slt | sle
deriving DecidableEq, Repr

/-- The opcodes `ebpf_vm_exec` has a `case` for. -/
inductive Op where
  | alu32 (op : AluOp) (form : Form)
  | neg32
  | le
  | be
  | alu64 (op : AluOp) (form : Form)
  | neg64
  | ldx (size : Size)
  | st (size : Size)
  | stx (size : Size)
  | lddw
  | ja
  | jcond (cond : Cond) (form : Form)
  | call
  | exit
deriving DecidableEq, Repr

/-! ## Opcode numbers -/

def clsMask : BitVec 8 := 0x07
def clsLd : BitVec 8 := 0x00
def clsLdx : BitVec 8 := 0x01
def clsSt : BitVec 8 := 0x02
def clsStx : BitVec 8 := 0x03
def clsAlu : BitVec 8 := 0x04
def clsJmp : BitVec 8 := 0x05
def clsAlu64 : BitVec 8 := 0x07
def modeImm : BitVec 8 := 0x00
def modeMem : BitVec 8 := 0x60

def Form.code : Form → BitVec 8
  | .imm => 0x00
  | .reg => 0x08

def Size.code : Size → BitVec 8
  | .w => 0x00
  | .h => 0x08
  | .b => 0x10
  | .dw => 0x18

def AluOp.code : AluOp → BitVec 8
  | .add => 0x00
  | .sub => 0x10
  | .mul => 0x20
  | .div => 0x30
  | .or => 0x40
  | .and => 0x50
  | .lsh => 0x60
  | .rsh => 0x70
  | .mod => 0x90
  | .xor => 0xa0
  | .mov => 0xb0
  | .arsh => 0xc0

def Cond.code : Cond → BitVec 8
  | .eq => 0x10
  | .gt => 0x20
  | .ge => 0x30
  | .set => 0x40
  | .ne => 0x50
  | .sgt => 0x60
  | .sge => 0x70
  | .lt => 0xa0
  | .le => 0xb0
  | .slt => 0xc0
  | .sle => 0xd0

def Op.code : Op → BitVec 8
  | .alu32 op form => clsAlu ||| form.code ||| op.code
  | .neg32 => clsAlu ||| 0x80
  | .le => clsAlu ||| Form.imm.code ||| 0xd0
  | .be => clsAlu ||| Form.reg.code ||| 0xd0
  | .alu64 op form => clsAlu64 ||| form.code ||| op.code
  | .neg64 => clsAlu64 ||| 0x80
  | .ldx size => clsLdx ||| modeMem ||| size.code
  | .st size => clsSt ||| modeMem ||| size.code
  | .stx size => clsStx ||| modeMem ||| size.code
  | .lddw => clsLd ||| modeImm ||| Size.dw.code
  | .ja => clsJmp ||| 0x00
  | .jcond cond form => clsJmp ||| form.code ||| cond.code
  | .call => clsJmp ||| 0x80
  | .exit => clsJmp ||| 0x90

def Size.bytes : Size → Nat
  | .w => 4
  | .h => 2
  | .b => 1
  | .dw => 8

def Form.all : List Form := [.imm, .reg]
def Size.all : List Size := [.w, .h, .b, .dw]
def AluOp.all : List AluOp :=
  [.add, .sub, .mul, .div, .or, .and, .lsh, .rsh, .mod, .xor, .mov, .arsh]
def Cond.all : List Cond := [.eq, .gt, .ge, .set, .ne, .sgt, .sge, .lt, .le, .slt, .sle]

def Op.all : List Op :=
  AluOp.all.flatMap (fun op => Form.all.map (.alu32 op)) ++ [.neg32, .le, .be] ++
    AluOp.all.flatMap (fun op => Form.all.map (.alu64 op)) ++ [.neg64] ++
    Size.all.map .ldx ++ Size.all.map .st ++ Size.all.map .stx ++ [.lddw, .ja] ++
    Cond.all.flatMap (fun c => Form.all.map (.jcond c)) ++ [.call, .exit]

/-- The `case` an opcode selects. -/
def Op.ofCode (c : BitVec 8) : Option Op := Op.all.find? fun op => op.code == c

theorem Form.mem_all (form : Form) : form ∈ Form.all := by cases form <;> simp [Form.all]

theorem Size.mem_all (size : Size) : size ∈ Size.all := by cases size <;> simp [Size.all]

theorem AluOp.mem_all (op : AluOp) : op ∈ AluOp.all := by cases op <;> simp [AluOp.all]

theorem Cond.mem_all (cond : Cond) : cond ∈ Cond.all := by cases cond <;> simp [Cond.all]

theorem Op.mem_all (op : Op) : op ∈ Op.all := by
  cases op <;> simp [Op.all, Form.mem_all, Size.mem_all, AluOp.mem_all, Cond.mem_all]

theorem Op.code_of_ofCode {c : BitVec 8} {op : Op} (h : Op.ofCode c = some op) : op.code = c := by
  simpa using List.find?_some h

/-- The case labels are distinct: every opcode constant selects its own case. -/
theorem Op.ofCode_code (op : Op) : Op.ofCode op.code = some op := by
  have key : ∀ o ∈ Op.all, Op.ofCode o.code = some o := by decide
  exact key op (Op.mem_all op)

theorem Op.ofCode_eq_some {c : BitVec 8} {op : Op} : Op.ofCode c = some op ↔ c = op.code :=
  ⟨fun h => (Op.code_of_ofCode h).symm, fun h => h ▸ Op.ofCode_code op⟩

theorem Op.code_jmp (op : Op) (h : op = .ja ∨ ∃ c f, op = .jcond c f) :
    op.code &&& clsMask = clsJmp := by
  rcases h with rfl | ⟨c, f, rfl⟩
  · decide
  · cases c <;> cases f <;> decide

end BlueSwat.Ebpf
