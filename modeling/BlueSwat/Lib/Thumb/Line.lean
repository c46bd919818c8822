import BlueSwat.Lib.Thumb.Run

/-!
# Straight-line Thumb code

More of the instruction set: operations on shifted registers, shifts, products, division, reversed
subtraction, and loads and stores of bytes, halfwords and words with all their addressing modes.
`disassemble` takes a whole piece of code apart, and `runLine` runs it from its start: to its end,
or to a branch that is taken. Code that is cut off within an instruction, has an encoding outside of
the subset, faults, or leaves the piece in another way has no run.

The instructions of `Thumb.decode` are decoded and executed as there. `Sys` has what is left to the
system: the addresses that an access without privilege may use, and whether a division by zero
traps. Accesses need not be aligned.
-/

set_option autoImplicit false

namespace Thumb

/-! ## Instructions -/

/-- A shifted register; `rrx` shifts the carry in. -/
inductive Shift where
  | lsl (n : Nat)
  | lsr (n : Nat)
  | asr (n : Nat)
  | ror (n : Nat)
  | rrx
deriving DecidableEq, Repr

inductive DataOp where
  | and | orr | eor | add | adc | sbc | sub
deriving DecidableEq, Repr

inductive Width where
  | byte | half | word
deriving DecidableEq, Repr

def Width.bytes : Width → Nat
  | .byte => 1
  | .half => 2
  | .word => 4

/-- The address of an access: the offset is added before it (`pre`) or after it, and the sum is
written back to the base if `wback`. -/
structure Index where
  pre : Bool
  wback : Bool
  off : Word
deriving DecidableEq, Repr

/-- The field `s` is set where the instruction sets the flags. `held` is an instruction under an
`IT` for one instruction. -/
inductive Inst where
  | base (i : Instr)
  | data (op : DataOp) (s : Bool) (rd rn rm : Reg) (sh : Shift)
  | shift (s : Bool) (rd rm : Reg) (sh : Shift)
  | shiftReg (s : Bool) (type : BitVec 2) (rd rn rm : Reg)
  | mul (s : Bool) (rd rn rm : Reg)
  | umull (lo hi rn rm : Reg)
  | udiv (rd rn rm : Reg)
  | mls (rd rn rm ra : Reg)
  | rsb (s : Bool) (rd rn : Reg) (imm : Word)
  | load (w : Width) (unpriv : Bool) (rt rn : Reg) (ix : Index)
  | store (w : Width) (unpriv : Bool) (rt rn : Reg) (ix : Index)
  | bl (off : Word)
  | held (cond : BitVec 4) (i : Inst)
deriving DecidableEq, Repr

/-! ## Decoding -/

/-- `DecodeImmShift`. -/
def immShift (type : BitVec 2) (imm5 : BitVec 5) : Shift :=
  let n := if imm5 = 0 then 32 else imm5.toNat
  match type.toNat with
  | 0 => .lsl imm5.toNat
  | 1 => .lsr n
  | 2 => .asr n
  | _ => if imm5 = 0 then .rrx else .ror imm5.toNat

def only (bad : Bool) (i : Inst) : Option Inst := if bad then none else some i

def decodeNarrow (h : Half) : Option Inst :=
  let lo (k : Nat) : Reg := (h.extractLsb' k 3).setWidth 4
  let rm : Reg := h.extractLsb' 3 4
  let rd : Reg := h.extractLsb' 7 1 ++ h.extractLsb' 0 3
  let imm5 := h.extractLsb' 6 5
  match decode16 h with
  | some i => some (.base i)
  | none =>
    if h.extractLsb' 13 3 = 0b000 ∧ h.extractLsb' 11 2 ≠ 0b11 then
      some (.shift true (lo 0) (lo 3) (immShift (h.extractLsb' 11 2) imm5))
    else if h.extractLsb' 9 7 = 0b0001101 then some (.data .sub true (lo 0) (lo 3) (lo 6) (.lsl 0))
    else if h.extractLsb' 6 10 = 0b0100000000 then
      some (.data .and true (lo 0) (lo 0) (lo 3) (.lsl 0))
    else if h.extractLsb' 6 10 = 0b0100000010 then some (.shiftReg true 0 (lo 0) (lo 0) (lo 3))
    else if h.extractLsb' 6 10 = 0b0100000011 then some (.shiftReg true 1 (lo 0) (lo 0) (lo 3))
    else if h.extractLsb' 6 10 = 0b0100000100 then some (.shiftReg true 2 (lo 0) (lo 0) (lo 3))
    else if h.extractLsb' 6 10 = 0b0100001001 then some (.rsb true (lo 0) (lo 3) 0)
    else if h.extractLsb' 6 10 = 0b0100001100 then
      some (.data .orr true (lo 0) (lo 0) (lo 3) (.lsl 0))
    else if h.extractLsb' 6 10 = 0b0100001101 then some (.mul true (lo 0) (lo 3) (lo 0))
    else if h.extractLsb' 8 8 = 0b01000100 then
      only (rd == 15 || rm == 15) (.data .add false rd rd rm (.lsl 0))
    else if h.extractLsb' 11 5 = 0b01111 then
      some (.load .byte false (lo 0) (lo 3) ⟨true, false, imm5.setWidth 32⟩)
    else if h.extractLsb' 11 5 = 0b10001 then
      some (.load .half false (lo 0) (lo 3) ⟨true, false, (imm5 ++ 0#1).setWidth 32⟩)
    else none

/-- Data processing with a shifted register. -/
def decodeData (h1 h2 : Half) : Option Inst :=
  let op := h1.extractLsb' 5 4
  let s := h1.getLsbD 4
  let rn : Reg := h1.extractLsb' 0 4
  let rd : Reg := h2.extractLsb' 8 4
  let rm : Reg := h2.extractLsb' 0 4
  let sh := immShift (h2.extractLsb' 4 2) (h2.extractLsb' 12 3 ++ h2.extractLsb' 6 2)
  let bad := special rd || special rn || special rm
  if op = 0b0010 ∧ rn = 15 then only (special rd || special rm) (.shift s rd rm sh)
  else if op = 0b0000 then only bad (.data .and s rd rn rm sh)
  else if op = 0b0010 then only bad (.data .orr s rd rn rm sh)
  else if op = 0b0100 then only bad (.data .eor s rd rn rm sh)
  else if op = 0b1000 then only bad (.data .add s rd rn rm sh)
  else if op = 0b1010 then only bad (.data .adc s rd rn rm sh)
  else if op = 0b1011 then only bad (.data .sbc s rd rn rm sh)
  else if op = 0b1101 then only bad (.data .sub s rd rn rm sh)
  else none

/-- Subtractions of, and from, an immediate of 8 bits. -/
def decodeImm (h1 h2 : Half) : Option Inst :=
  let s := h1.getLsbD 4
  let rn : Reg := h1.extractLsb' 0 4
  let rd : Reg := h2.extractLsb' 8 4
  let imm : Word := (h2.extractLsb' 0 8).setWidth 32
  let bad := special rd || special rn
  if h1.getLsbD 10 || h2.extractLsb' 12 3 != 0 then none
  else if h1.extractLsb' 5 5 = 0b01101 then only (bad || s) (.base (.subImm rd rn imm))
  else if h1.extractLsb' 5 5 = 0b01110 then only bad (.rsb s rd rn imm)
  else none

/-- A byte, a halfword or a word at an offset of 12 bits, or of 8 bits with all addressing modes. -/
def decodeAccess (h1 h2 : Half) : Option Inst :=
  let rn : Reg := h1.extractLsb' 0 4
  let rt : Reg := h2.extractLsb' 12 4
  let w : Option Width := match (h1.extractLsb' 5 2).toNat with
    | 0 => some .byte
    | 1 => some .half
    | 2 => some .word
    | _ => none
  let inst := if h1.getLsbD 4 then Inst.load else Inst.store
  let p := h2.getLsbD 10
  let u := h2.getLsbD 9
  let wb := h2.getLsbD 8
  let imm8 : Word := (h2.extractLsb' 0 8).setWidth 32
  w.bind fun w =>
    if special rt || rn == 15 then none
    else if h1.getLsbD 7 then
      some (inst w false rt rn ⟨true, false, (h2.extractLsb' 0 12).setWidth 32⟩)
    else if !h2.getLsbD 11 || (!p && !wb) || (wb && rn == rt) then none
    else some (inst w (p && u && !wb) rt rn ⟨p, wb, memOff u imm8⟩)

/-- Shifts by a register, products and division. -/
def decodeMul (h1 h2 : Half) : Option Inst :=
  let rn : Reg := h1.extractLsb' 0 4
  let ra : Reg := h2.extractLsb' 12 4
  let rd : Reg := h2.extractLsb' 8 4
  let rm : Reg := h2.extractLsb' 0 4
  let op2 := h2.extractLsb' 4 4
  let bad := special rd || special rn || special rm
  if h1.extractLsb' 7 9 = 0b111110100 ∧ ra = 15 ∧ op2 = 0 then
    only bad (.shiftReg (h1.getLsbD 4) (h1.extractLsb' 5 2) rd rn rm)
  else if h1.extractLsb' 4 12 = 0xfb0 ∧ ra = 15 ∧ op2 = 0 then only bad (.mul false rd rn rm)
  else if h1.extractLsb' 4 12 = 0xfb0 ∧ op2 = 1 then only (bad || special ra) (.mls rd rn rm ra)
  else if h1.extractLsb' 4 12 = 0xfba ∧ op2 = 0 then
    only (bad || special ra || ra == rd) (.umull ra rd rn rm)
  else if h1.extractLsb' 4 12 = 0xfbb ∧ ra = 15 ∧ op2 = 15 then only bad (.udiv rd rn rm)
  else none

def decodeWide (h1 h2 : Half) : Option Inst :=
  match decode32 h1 h2 with
  | some i => some (.base i)
  | none =>
    if h1.extractLsb' 9 7 = 0b1110101 then if h2.getLsbD 15 then none else decodeData h1 h2
    else if h1.extractLsb' 11 5 = 0b11110 then
      if h2.extractLsb' 14 2 = 0b11 then
        let s := h1.extractLsb' 10 1
        let i1 := ~~~(h2.extractLsb' 13 1 ^^^ s)
        let i2 := ~~~(h2.extractLsb' 11 1 ^^^ s)
        only (!h2.getLsbD 12)
          (.bl ((s ++ i1 ++ i2 ++ h1.extractLsb' 0 10 ++ h2.extractLsb' 0 11 ++ 0#1).signExtend 32))
      else if h2.getLsbD 15 then none
      else decodeImm h1 h2
    else if h1.extractLsb' 8 8 = 0xf8 then decodeAccess h1 h2
    else decodeMul h1 h2

/-- The condition of an `IT` for one instruction. -/
def itCond (h : Half) : Option (BitVec 4) :=
  if h.extractLsb' 8 8 = 0xbf ∧ h.extractLsb' 0 4 = 0b1000 ∧ (h.extractLsb' 4 4).toNat < 14 then
    some (h.extractLsb' 4 4)
  else none

/-- The instructions of a piece of code. What stands under an `IT` is a wide instruction here: the
narrow ones would not set the flags. -/
def disassemble : List Half → Option (List Inst)
  | [] => some []
  | h1 :: hs =>
    if isWide h1 then match hs with
      | h2 :: hs => (decodeWide h1 h2).bind fun i => (disassemble hs).map (i :: ·)
      | [] => none
    else match itCond h1, hs with
      | some c, h2 :: h3 :: hs =>
        if isWide h2 then (decodeWide h2 h3).bind fun i => (disassemble hs).map (.held c i :: ·)
        else none
      | some _, _ => none
      | none, hs => (decodeNarrow h1).bind fun i => (disassemble hs).map (i :: ·)

/-! ## Execution -/

/-- `Shift_C`: the shifted word and the carry. -/
def Shift.apply (x : Word) (c : Bool) : Shift → Word × Bool
  | .lsl n => (x <<< n, if n = 0 then c else decide (n ≤ 32) && x.getLsbD (32 - n))
  | .lsr n => (x >>> n, if n = 0 then c else x.getLsbD (n - 1))
  | .asr n => (x.sshiftRight n, if n = 0 then c else (x.sshiftRight (n - 1)).getLsbD 0)
  | .ror n => (x.rotateRight n, if n = 0 then c else (x.rotateRight n).msb)
  | .rrx => (BitVec.ofBool c ++ x.extractLsb' 1 31, x.getLsbD 0)

/-- A shift by the low byte of a register. -/
def regShift (type : BitVec 2) (y : Word) : Shift :=
  let n := (y.extractLsb' 0 8).toNat
  match type.toNat with
  | 0 => .lsl n
  | 1 => .lsr n
  | 2 => .asr n
  | _ => .ror n

def dataResult (op : DataOp) (f : Flags) (x : Word) (y : Word × Bool) : Word × Flags :=
  let logical (r : Word) := (r, f.logical r y.2)
  let arith (r : Word × Bool × Bool) := (r.1, Flags.arith r)
  match op with
  | .and => logical (x &&& y.1)
  | .orr => logical (x ||| y.1)
  | .eor => logical (x ^^^ y.1)
  | .add => arith (addWithCarry x y.1 false)
  | .adc => arith (addWithCarry x y.1 f.c)
  | .sbc => arith (addWithCarry x (~~~y.1) f.c)
  | .sub => arith (addWithCarry x (~~~y.1) true)

/-- Write a result, and the flags if `set`. -/
def State.put (s : State) (set : Bool) (rd : Reg) (r : Word × Flags) : State :=
  { s.set rd r.1 with flags := if set then r.2 else s.flags }

structure Sys where
  unpriv : Word → Bool
  divTrap : Bool

/-- The `n` bytes at `a` may be accessed; privilege is used unless `unpriv`. -/
def Sys.allows (sys : Sys) (unpriv : Bool) (a : Word) (n : Nat) : Bool :=
  !unpriv || (List.range n).all fun k => sys.unpriv (a + BitVec.ofNat 32 k)

def Index.addr (ix : Index) (b : Word) : Word := if ix.pre then b + ix.off else b

def State.writeBack (s : State) (rn : Reg) (ix : Index) : State :=
  if ix.wback then s.set rn (s.reg rn + ix.off) else s

/-- Neither a branch nor a list of registers. -/
def Instr.straight : Instr → Bool
  | .push .. | .pop .. | .b .. => false
  | _ => true

def Inst.exec (sys : Sys) (s : State) : Inst → Option State
  | .base i => if i.straight then Thumb.exec sys.unpriv s 0 i else none
  | .data op set rd rn rm sh =>
    some (s.put set rd (dataResult op s.flags (s.reg rn) (sh.apply (s.reg rm) s.flags.c)))
  | .shift set rd rm sh =>
    let (r, c) := sh.apply (s.reg rm) s.flags.c
    some (s.put set rd (r, s.flags.logical r c))
  | .shiftReg set type rd rn rm =>
    let (r, c) := (regShift type (s.reg rm)).apply (s.reg rn) s.flags.c
    some (s.put set rd (r, s.flags.logical r c))
  | .mul set rd rn rm =>
    let r := s.reg rn * s.reg rm
    some (s.put set rd (r, s.flags.logical r s.flags.c))
  | .umull lo hi rn rm =>
    let r := (s.reg rn).setWidth 64 * (s.reg rm).setWidth 64
    some ((s.set lo (r.setWidth 32)).set hi ((r >>> 32).setWidth 32))
  | .udiv rd rn rm =>
    if sys.divTrap && s.reg rm == 0 then none else some (s.set rd (s.reg rn / s.reg rm))
  | .mls rd rn rm ra => some (s.set rd (s.reg ra - s.reg rn * s.reg rm))
  | .rsb set rd rn imm =>
    let r := addWithCarry (~~~s.reg rn) imm true
    some (s.put set rd (r.1, Flags.arith r))
  | .load w unpriv rt rn ix =>
    let a := ix.addr (s.reg rn)
    if sys.allows unpriv a w.bytes then
      some ((s.writeBack rn ix).set rt (BitVec.ofNat 32 (Bytes.read s.mem a w.bytes)))
    else none
  | .store w unpriv rt rn ix =>
    let a := ix.addr (s.reg rn)
    if sys.allows unpriv a w.bytes then
      some { s.writeBack rn ix with mem := Bytes.write s.mem a w.bytes ((s.reg rt).setWidth 64) }
    else none
  | .bl _ => none
  | .held cond i => if s.flags.passes cond then i.exec sys s else some s

/-- The state at the end of the instructions, or at a branch that is taken (`true`). -/
def runLine (sys : Sys) : List Inst → State → Option (State × Bool)
  | [], s => some (s, false)
  | .base (.b cond _) :: is, s => if s.flags.passes cond then some (s, true) else runLine sys is s
  | i :: is, s => (i.exec sys s).bind (runLine sys is)

def runCode (sys : Sys) (code : List Half) (s : State) : Option (State × Bool) :=
  (disassemble code).bind fun is => runLine sys is s

@[simp] theorem Shift.apply_lsl_zero (x : Word) (c : Bool) : (Shift.lsl 0).apply x c = (x, c) := by
  rw [Shift.apply, BitVec.shiftLeft_zero, if_pos rfl]

@[simp] theorem addWithCarry_false (x y : Word) : (addWithCarry x y false).1 = x + y :=
  BitVec.add_zero _

theorem addWithCarry_sub (x y : Word) : (addWithCarry x (~~~y) true).1 = x - y := by
  rw [BitVec.sub_eq_add_neg, BitVec.neg_eq_not_add, ← BitVec.add_assoc]
  rfl

theorem addWithCarry_not (x y : Word) : (addWithCarry (~~~x) y true).1 = y - x := by
  rw [← addWithCarry_sub]
  exact congrArg (· + 1#32) (BitVec.add_comm _ _)

/-! ## Pieces of code -/

theorem disassemble_append {c c' : List Half} {is : List Inst} (h : disassemble c = some is) :
    disassemble (c ++ c') = (disassemble c').map (is ++ ·) := by
  -- the instruction in front is the same, and the rest is a piece itself
  have step : ∀ {o : Option Inst} {hs : List Half} {f : Inst → Inst} {is : List Inst},
      (∀ {is}, disassemble hs = some is → disassemble (hs ++ c') = (disassemble c').map (is ++ ·)) →
      (o.bind fun i => (disassemble hs).map (f i :: ·)) = some is →
      (o.bind fun i => (disassemble (hs ++ c')).map (f i :: ·)) =
        (disassemble c').map (is ++ ·) := by
    intro o hs f is ih h
    obtain ⟨i, rfl, h⟩ := Option.bind_eq_some_iff.1 h
    obtain ⟨js, hjs, rfl⟩ := Option.map_eq_some_iff.1 h
    rw [Option.bind_some, ih hjs, Option.map_map]
    rfl
  fun_induction disassemble c generalizing is with
  | case1 =>
    cases h
    simp
  | case2 h1 hw h2 hs ih =>
    rw [List.cons_append, List.cons_append, disassemble, if_pos hw]
    exact step (f := id) ih h
  | case4 h1 hn cond h2 h3 hs hit hw ih =>
    rw [List.cons_append, List.cons_append, List.cons_append, disassemble, if_neg hn, hit]
    simp only [if_pos hw]
    exact step ih h
  | case7 h1 hn hs hit ih =>
    rw [List.cons_append, disassemble.eq_def]
    simp only [hn, hit]
    exact step (f := id) ih h
  | case3 | case5 | case6 => cases h

theorem disassemble_seq {c c' : List Half} {is js : List Inst} (h : disassemble c = some is)
    (h' : disassemble c' = some js) : disassemble (c ++ c') = some (is ++ js) := by
  rw [disassemble_append h, h']
  rfl

section
variable {sys : Sys} {i : Inst} {is js : List Inst} {s t : State} {b : Bool}

theorem runLine_cons (h : ∀ cond off, i ≠ .base (.b cond off)) :
    runLine sys (i :: is) s = (i.exec sys s).bind (runLine sys is) := by
  cases i with
  | base i => cases i <;> first | rfl | exact absurd rfl (h _ _)
  | _ => rfl

theorem runLine_append :
    runLine sys (is ++ js) s =
      (runLine sys is s).bind fun p => if p.2 then some p else runLine sys js p.1 := by
  induction is generalizing s with
  | nil => rfl
  | cons i is ih =>
    by_cases hb : ∃ cond off, i = .base (.b cond off)
    · obtain ⟨cond, off, rfl⟩ := hb
      rw [List.cons_append, runLine, runLine]
      split
      · rfl
      · exact ih
    · have hb' : ∀ cond off, i ≠ .base (.b cond off) := fun c o e => hb ⟨c, o, e⟩
      rw [List.cons_append, runLine_cons hb', runLine_cons hb', Option.bind_assoc]
      exact congrArg _ (funext fun u => ih)

/-- Run one piece after the other. -/
theorem runLine_seq (h : runLine sys is s = some (t, false)) :
    runLine sys (is ++ js) s = runLine sys js t := by
  rw [runLine_append, h]
  rfl

/-- A branch is taken iff its condition holds. -/
theorem runLine_branch (cond : BitVec 4) (off : Word) (s : State) :
    runLine sys [.base (.b cond off)] s = some (s, s.flags.passes cond) := by
  rw [runLine]
  split
  · rename_i h
    rw [h]
  · rename_i h
    rw [Bool.eq_false_iff.2 h]
    rfl

theorem runCode_eq {c : List Half} (h : disassemble c = some is) :
    runCode sys c s = runLine sys is s := by rw [runCode, h]; rfl

/-! ## What a piece of code leaves alone -/

/-- Neither a store nor a branch. -/
def Inst.quiet : Inst → Bool
  | .base i => i.quiet
  | .store .. | .bl _ => false
  | .held _ i => i.quiet
  | _ => true

/-- The registers that a quiet instruction writes. -/
def Inst.dests : Inst → List Reg
  | .base i => i.dests
  | .data _ _ rd _ _ _ | .shift _ rd _ _ | .shiftReg _ _ rd _ _ | .mul _ rd _ _ | .udiv rd _ _
  | .mls rd _ _ _ | .rsb _ rd _ _ => [rd]
  | .umull lo hi _ _ => [lo, hi]
  | .load _ _ rt rn _ => [rt, rn]
  | .held _ i => i.dests
  | _ => []

theorem Instr.straight_of_quiet {i : Instr} (h : i.quiet = true) : i.straight = true := by
  cases i <;> first | rfl | cases h

theorem Inst.exec_frame (hq : i.quiet = true) (h : i.exec sys s = some t) :
    t.mem = s.mem ∧ ∀ r, r ∉ i.dests → t.reg r = s.reg r := by
  induction i with
  | base i =>
    rw [Inst.exec, if_pos (Instr.straight_of_quiet hq)] at h
    exact Thumb.exec_frame hq h
  | store | bl => cases hq
  | held cond i ih =>
    rw [Inst.exec] at h
    split at h
    · exact ih hq h
    · cases h
      exact ⟨rfl, fun _ _ => rfl⟩
  | udiv =>
    obtain ⟨-, ⟨⟩⟩ := Option.ite_none_left_eq_some.1 h
    exact ⟨rfl, fun r hr => set_reg_of_ne _ fun e => hr (by simp [e, Inst.dests])⟩
  | umull =>
    cases h
    refine ⟨rfl, fun r hr => (set_reg_of_ne _ fun e => hr ?_).trans
      (set_reg_of_ne _ fun e => hr ?_)⟩
      <;> simp [e, Inst.dests]
  | load w unpriv rt rn ix =>
    obtain ⟨-, ⟨⟩⟩ := Option.ite_none_right_eq_some.1 h
    have hw : ∀ r, r ≠ rn → (s.writeBack rn ix).reg r = s.reg r := fun r hr => by
      unfold State.writeBack
      split
      · exact set_reg_of_ne _ hr
      · rfl
    refine ⟨?_, fun r hr => (set_reg_of_ne _ fun e => hr ?_).trans (hw r fun e => hr ?_)⟩
    · unfold State.writeBack
      split <;> rfl
    · simp [e, Inst.dests]
    · simp [e, Inst.dests]
  | _ =>
    cases h
    exact ⟨rfl, fun r hr => set_reg_of_ne _ fun e => hr (by simp [e, Inst.dests])⟩

/-- **What quiet code leaves alone.** -/
theorem runLine_frame (hq : ∀ i ∈ is, i.quiet = true) (h : runLine sys is s = some (t, b)) :
    t.mem = s.mem ∧ ∀ r, r ∉ is.flatMap Inst.dests → t.reg r = s.reg r := by
  induction is generalizing s with
  | nil =>
    cases h
    exact ⟨rfl, fun _ _ => rfl⟩
  | cons i is ih =>
    have hi := hq i List.mem_cons_self
    rw [runLine_cons fun _ _ e => by subst e; cases hi] at h
    obtain ⟨u, h1, h2⟩ := Option.bind_eq_some_iff.1 h
    obtain ⟨hm, hr⟩ := ih (fun j hj => hq j (List.mem_cons_of_mem _ hj)) h2
    obtain ⟨hm', hr'⟩ := Inst.exec_frame hi h1
    refine ⟨hm.trans hm', fun r hn => ?_⟩
    rw [List.flatMap_cons, List.mem_append, not_or] at hn
    exact (hr r hn.2).trans (hr' r hn.1)

/-- Quiet instructions of `Thumb.decode` run as `compute` runs them. -/
theorem runLine_base {is : List Instr} (hq : ∀ i ∈ is, i.quiet = true) :
    runLine sys (is.map .base) s = (compute sys.unpriv is s).map (·, false) := by
  induction is generalizing s with
  | nil => rfl
  | cons i is ih =>
    have hi := hq i List.mem_cons_self
    have hb : ∀ cond off, Inst.base i ≠ .base (.b cond off) := by
      rintro cond off ⟨⟩
      cases hi
    rw [List.map_cons, runLine_cons hb, Inst.exec, if_pos (Instr.straight_of_quiet hi), compute]
    cases Thumb.exec sys.unpriv s 0 i with
    | none => rfl
    | some u => exact ih fun j hj => hq j (List.mem_cons_of_mem _ hj)

end

/-! ## One instruction after the other -/

/-- From `s` to `t`, register `rd` and the flags are written. -/
structure Writes (s : State) (rd : Reg) (v : Word) (f : Flags) (t : State) : Prop where
  dest : t.reg rd = v
  rest : ∀ q, q ≠ rd → t.reg q = s.reg q
  flags : t.flags = f

section
variable {sys : Sys} {i : Inst} {s t : State} {rd : Reg} {v : Word} {f : Flags}

theorem writes_set (s : State) (h : rd ≠ sp) (v : Word) : Writes s rd v s.flags (s.set rd v) :=
  ⟨(if_pos rfl).trans (if_neg h), fun _ hq => if_neg hq, rfl⟩

theorem writes_put (s : State) (h : rd ≠ sp) (set : Bool) (r : Word × Flags) :
    Writes s rd r.1 (if set then r.2 else s.flags) (s.put set rd r) :=
  ⟨(writes_set s h r.1).dest, (writes_set s h r.1).rest, rfl⟩

theorem Writes.congr {w : Word} (h : Writes s rd v f t) (e : v = w) : Writes s rd w f t := e ▸ h

/-- The registers outside of `rs` stay as in `r`. -/
theorem Writes.keep {r : State} (h : Writes s rd v f t) (rs : List Reg) (hrd : rd ∈ rs)
    (k : ∀ q, q ∉ rs → s.reg q = r.reg q) : ∀ q, q ∉ rs → t.reg q = r.reg q := fun q hq =>
  (h.rest q fun e => hq (e ▸ hrd)).trans (k q hq)

theorem Writes.skip (h : Writes s rd v f t) (n : Nat) : Writes s rd v f (t.skip n) :=
  ⟨h.dest, h.rest, h.flags⟩

theorem runLine_step (he : i.exec sys s = some t) (is : List Inst) :
    runLine sys (i :: is) s = runLine sys is t := by
  rw [runLine_cons, he]
  · rfl
  · rintro cond off rfl
    cases he

/-- From `s` the instructions run to their end, to a state in `P`. -/
def Runs (sys : Sys) (is : List Inst) (s : State) (P : State → Prop) : Prop :=
  ∃ t, runLine sys is s = some (t, false) ∧ P t

namespace Runs

variable {is js : List Inst} {P Q : State → Prop}

theorem nil (h : P s) : Runs sys [] s P := ⟨s, rfl, h⟩

theorem after (h : runLine sys is s = some (t, false)) (k : Runs sys js t P) :
    Runs sys (is ++ js) s P := by
  obtain ⟨u, hu, hp⟩ := k
  exact ⟨u, by rw [runLine_seq h, hu], hp⟩

theorem append (h : Runs sys is s Q) (k : ∀ t, Q t → Runs sys js t P) :
    Runs sys (is ++ js) s P := by
  obtain ⟨t, ht, hq⟩ := h
  exact after ht (k t hq)

theorem mono (h : Runs sys is s Q) (k : ∀ t, Q t → P t) : Runs sys is s P :=
  h.imp fun t ht => ⟨ht.1, k t ht.2⟩

theorem step (he : i.exec sys s = some t) (k : Runs sys is t P) : Runs sys (i :: is) s P := by
  obtain ⟨u, hu, hp⟩ := k
  exact ⟨u, by rw [runLine_step he, hu], hp⟩

theorem put {set : Bool} {r : Word × Flags} (he : i.exec sys s = some (s.put set rd r))
    (h : rd ≠ sp)
    (k : ∀ t, Writes s rd r.1 (if set then r.2 else s.flags) t → Runs sys is t P) :
    Runs sys (i :: is) s P :=
  step he (k _ (writes_put s h set r))

theorem set (he : i.exec sys s = some (s.set rd v)) (h : rd ≠ sp)
    (k : ∀ t, Writes s rd v s.flags t → Runs sys is t P) : Runs sys (i :: is) s P :=
  step he (k _ (writes_set s h v))

theorem skip (he : i.exec sys s = some ((s.set rd v).skip 0)) (h : rd ≠ sp)
    (k : ∀ t, Writes s rd v s.flags t → Runs sys is t P) : Runs sys (i :: is) s P :=
  step he (k _ ((writes_set s h v).skip 0))

theorem alu {op : AluOp} {set : Bool} {rn rm : Reg} (h : rd ≠ sp)
    (k : ∀ t, Writes s rd (aluResult op s.flags (s.reg rn) (s.reg rm)).1
      (if set then (aluResult op s.flags (s.reg rn) (s.reg rm)).2 else s.flags) t →
        Runs sys is t P) :
    Runs sys (.base (.alu op set rd rn rm) :: is) s P :=
  step rfl (k _ ((writes_put s h set (aluResult op s.flags (s.reg rn) (s.reg rm))).skip 0))

/-- A comparison writes the flags only. -/
theorem cmp {rn rm : Reg}
    (k : ∀ t, t.flags = .arith (addWithCarry (s.reg rn) (~~~s.reg rm) true) →
      (∀ q, t.reg q = s.reg q) → Runs sys is t P) : Runs sys (.base (.cmp rn rm) :: is) s P :=
  step rfl (k _ rfl fun _ => rfl)

/-- An instruction under a condition. -/
theorem held {cond : BitVec 4} {u : State} (hi : i.exec sys s = some u) (hw : Writes s rd v f u)
    (k : ∀ t, t.reg rd = (if s.flags.passes cond then v else s.reg rd) →
      (∀ q, q ≠ rd → t.reg q = s.reg q) → Runs sys is t P) : Runs sys (.held cond i :: is) s P := by
  by_cases hc : s.flags.passes cond = true
  · refine step (t := u) (by rw [Inst.exec, if_pos hc, hi]) (k u ?_ hw.rest)
    rw [if_pos hc, hw.dest]
  · refine step (t := s) (by rw [Inst.exec, if_neg hc]) (k s ?_ fun _ _ => rfl)
    rw [if_neg hc]

theorem movImm {set : Bool} {imm : Word} (h : rd ≠ sp)
    (k : ∀ t, Writes s rd imm (if set then s.flags.logical imm s.flags.c else s.flags) t →
      Runs sys is t P) : Runs sys (.base (.movImm set rd imm) :: is) s P :=
  step rfl (k _ ((writes_put s h set (imm, _)).skip 0))

theorem asr {set : Bool} {rm : Reg} {n : Nat} (h : rd ≠ sp)
    (k : ∀ t f, Writes s rd ((s.reg rm).sshiftRight n) f t → Runs sys is t P) :
    Runs sys (.base (.asr set rd rm n) :: is) s P :=
  step rfl (k _ _ ((writes_put s h set ((s.reg rm).sshiftRight n, _)).skip 0))

theorem umull {lo hi rn rm : Reg} (hlo : lo ≠ sp) (hhi : hi ≠ sp) (hne : lo ≠ hi)
    (k : ∀ t, t.reg lo = ((s.reg rn).setWidth 64 * (s.reg rm).setWidth 64).setWidth 32 →
      t.reg hi = (((s.reg rn).setWidth 64 * (s.reg rm).setWidth 64) >>> 32).setWidth 32 →
      (∀ q, q ≠ lo → q ≠ hi → t.reg q = s.reg q) → Runs sys is t P) :
    Runs sys (.umull lo hi rn rm :: is) s P := by
  refine step rfl (k _ ?_ (writes_set _ hhi _).dest fun q h1 h2 => ?_)
  · exact ((writes_set _ hhi _).rest lo hne).trans (writes_set _ hlo _).dest
  · exact ((writes_set _ hhi _).rest q h2).trans ((writes_set _ hlo _).rest q h1)

end Runs

end

end Thumb
