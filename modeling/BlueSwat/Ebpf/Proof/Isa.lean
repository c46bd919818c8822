import BlueSwat.Ebpf.Isa
import BlueSwat.Ebpf.Proof.Step

/-!
# The interpreter against the instruction set

Each arithmetic, byte-order and conditional-jump instruction of `ebpf_vm_exec`, compared with
`Isa` on every input. Most cases compute the same value. They differ in four places, and the
conditions under which they agree nevertheless are exact:

* `AND` of the 32-bit class is `&&`, `LE` does not truncate, and `ARSH_REG` shifts by the whole
  source register (`Agrees32`);
* `DIV64_REG` divides by the immediate (`Agrees64`);
* `JGT`, `JGE`, `JLT` and `JLE` zero-extend the immediate (`AgreesJump`).

A shift by too large an amount has no value in C, so a step is right only if it is so for every
`Host`.
-/

set_option autoImplicit false

namespace BlueSwat.Ebpf

open Machine ByteOrder

instance : Inhabited Host := ⟨⟨0, fun _ _ _ _ => 0⟩⟩

/-! ## Assignments -/

theorem State.set_inj {s : State} {r : BitVec 4} {v v' : BitVec 64} :
    s.set r v = s.set r v' ↔ v = v' := by
  constructor
  · intro h
    simpa [State.set] using congrFun (congrArg State.reg h) r
  · rintro rfl
    rfl

theorem State.alu_eq_next {s : State} {r : BitVec 4} {a : AluRes} {v : BitVec 64} :
    s.alu r a = .next (s.set r v) ↔ a = .val v := by
  cases a with
  | val v' => simp [State.alu, State.set_inj]
  | fail => simp [State.alu]
  | trap => simp [State.alu]

/-! ## Immediates -/

theorem sext_of_lt {x : BitVec 32} (h : x.toNat < 2 ^ 31) : sext x = zext x := by
  have hm : x.msb = false := by
    rw [BitVec.msb_eq_decide]
    exact decide_eq_false (by omega)
  exact BitVec.signExtend_eq_setWidth_of_msb_false hm

/-! ## Byte order -/

theorem getLsbD_swap16 (x : BitVec 16) {i : Nat} (hi : i < 16) :
    (swap16 x).getLsbD i = x.getLsbD (8 * (1 - i / 8) + i % 8) := by
  have e : swap16 x = byteOf 0 x <<< (8 * 1) ||| byteOf 1 x >>> (8 * 1) := rfl
  simp only [e, BitVec.getLsbD_or, getLsbD_byteOf_shiftLeft _ _ x hi, getLsbD_byteOf_ushiftRight]
  have hq : i / 8 < 2 := by omega
  generalize i / 8 = q at hq ⊢
  match q, hq with
  | 0, _ | 1, _ => simp

theorem getLsbD_swap32 (x : BitVec 32) {i : Nat} (hi : i < 32) :
    (swap32 x).getLsbD i = x.getLsbD (8 * (3 - i / 8) + i % 8) := by
  have e : swap32 x = byteOf 0 x <<< (8 * 3) ||| byteOf 1 x <<< (8 * 1) |||
    byteOf 2 x >>> (8 * 1) ||| byteOf 3 x >>> (8 * 3) := rfl
  simp only [e, BitVec.getLsbD_or, getLsbD_byteOf_shiftLeft _ _ x hi, getLsbD_byteOf_ushiftRight]
  have hq : i / 8 < 4 := by omega
  generalize i / 8 = q at hq ⊢
  match q, hq with
  | 0, _ | 1, _ | 2, _ | 3, _ => simp

theorem getLsbD_swap64 (x : BitVec 64) {i : Nat} (hi : i < 64) :
    (swap64 x).getLsbD i = x.getLsbD (8 * (7 - i / 8) + i % 8) := by
  have e : swap64 x = byteOf 0 x <<< (8 * 7) ||| byteOf 1 x <<< (8 * 5) |||
    byteOf 2 x <<< (8 * 3) ||| byteOf 3 x <<< (8 * 1) ||| byteOf 4 x >>> (8 * 1) |||
    byteOf 5 x >>> (8 * 3) ||| byteOf 6 x >>> (8 * 5) ||| byteOf 7 x >>> (8 * 7) := rfl
  simp only [e, BitVec.getLsbD_or, getLsbD_byteOf_shiftLeft _ _ x hi, getLsbD_byteOf_ushiftRight]
  have hq : i / 8 < 8 := by omega
  generalize i / 8 = q at hq ⊢
  match q, hq with
  | 0, _ | 1, _ | 2, _ | 3, _ | 4, _ | 5, _ | 6, _ | 7, _ => simp

/-- A swap of the low `k` bytes at their own width, zero-extended. -/
theorem setWidth_swap {k : Nat} (hk : 8 * k ≤ 64) (x : BitVec 64)
    {f : BitVec (8 * k) → BitVec (8 * k)}
    (hf : ∀ (y : BitVec (8 * k)) {i : Nat}, i < 8 * k →
      (f y).getLsbD i = y.getLsbD (8 * (k - 1 - i / 8) + i % 8)) :
    (f (x.setWidth (8 * k))).setWidth 64 = swapBytes k x := by
  apply BitVec.eq_of_getLsbD_eq
  intro i hi
  rw [getLsbD_swapBytes hk, BitVec.getLsbD_setWidth]
  by_cases h : i < 8 * k
  · have hj : 8 * (k - 1 - i / 8) + i % 8 < 8 * k := by omega
    rw [hf _ h, BitVec.getLsbD_setWidth]
    simp [h, hi, hj]
  · simp [h, BitVec.getLsbD_of_ge _ i (Nat.le_of_not_lt h)]

theorem toBe_eq_isa {imm : BitVec 32} (h : imm = 16 ∨ imm = 32 ∨ imm = 64) (dst : BitVec 64) :
    toBe dst imm = Isa.toBe imm.toNat dst := by
  rcases h with rfl | rfl | rfl
  · exact setWidth_swap (k := 2) (by decide) dst fun y _ hi => getLsbD_swap16 y hi
  · exact setWidth_swap (k := 4) (by decide) dst fun y _ hi => getLsbD_swap32 y hi
  · have h64 := setWidth_swap (k := 8) (by decide) dst fun y _ hi => getLsbD_swap64 y hi
    rwa [BitVec.setWidth_eq, BitVec.setWidth_eq] at h64

theorem isa_toLe_eq_iff {n : Nat} (dst : BitVec 64) :
    dst = Isa.toLe n dst ↔ dst.toNat < 2 ^ n := by
  rw [← BitVec.toNat_inj]
  simp only [Isa.toLe, BitVec.toNat_setWidth]
  have hd := dst.isLt
  have hle := Nat.mod_le dst.toNat (2 ^ n)
  rw [Nat.mod_eq_of_lt (show dst.toNat % 2 ^ n < 2 ^ 64 by omega)]
  constructor
  · intro h
    rw [h]
    exact Nat.mod_lt _ (Nat.two_pow_pos n)
  · intro h
    exact (Nat.mod_eq_of_lt h).symm

/-! ## The 32-bit class -/

/-- Where the 32-bit class of the interpreter is that of the instruction set. -/
def Agrees32 (inst : EbpfInst) (dst src : BitVec 64) : Op → Prop
  | .alu32 .and form =>
    u32 dst = 0 ∨ Isa.operand32 inst src form = 0 ∨ u32 dst &&& Isa.operand32 inst src form = 1
  | .alu32 .arsh .reg => src.toNat < 32
  | .le => dst.toNat < 2 ^ inst.imm.toNat
  | _ => True

section
variable {inst : EbpfInst} {dst src : BitVec 64}

/-- `&&` is `&` exactly when an operand is zero or the low bit is all they share. -/
theorem logicalAnd_eq_iff (a b : BitVec 32) :
    (if a ≠ 0 ∧ b ≠ 0 then 1 else 0) = zext (a &&& b) ↔ a = 0 ∨ b = 0 ∨ a &&& b = 1 := by
  by_cases ha : a = 0
  · subst ha
    simp [zext]
  by_cases hb : b = 0
  · subst hb
    simp [zext]
  rw [if_pos ⟨ha, hb⟩, show (1 : BitVec 64) = zext 1 from rfl, zext_inj]
  simp only [ha, hb, false_or]
  exact eq_comm

theorem alu32_eq_isa_iff {op : AluOp} {form : Form}
    (hok : Isa.OperandOk (Isa.operand32 inst src form) op) :
    (∀ H, alu32 H op form dst src inst.imm =
        .val (zext (Isa.alu op (u32 dst) (Isa.operand32 inst src form)))) ↔
      Agrees32 inst dst src (.alu32 op form) := by
  -- the operand of the interpreter's `switch` is the one of the instruction set
  cases op with
  | add | sub | mul | or | xor | mov => cases form <;> exact ⟨fun _ => trivial, fun _ _ => rfl⟩
  | and =>
    rw [Agrees32, ← logicalAnd_eq_iff]
    cases form <;> exact ⟨fun h => AluRes.val.inj (h default), fun h _ => congrArg AluRes.val h⟩
  | lsh | rsh =>
    refine ⟨fun _ => trivial, fun _ H => ?_⟩
    simp only [Isa.alu, Nat.mod_eq_of_lt hok]
    cases form <;> exact congrArg AluRes.val (if_pos hok)
  | div | mod =>
    refine ⟨fun _ => trivial, fun _ H => ?_⟩
    cases form with
    | imm => exact if_neg hok
    | reg =>
      have hs : src ≠ 0 := fun h => hok (by rw [h]; rfl)
      simp only [alu32, if_neg hs]
      exact if_neg hok
  | arsh =>
    cases form with
    | imm =>
      refine ⟨fun _ => trivial, fun _ H => ?_⟩
      have hn : inst.imm.toNat < 32 := hok
      have e : (sext inst.imm).toNat = inst.imm.toNat := by
        rw [sext_of_lt (by omega), toNat_zext]
      simp only [alu32, Isa.alu, Isa.operand32, e, if_pos hn, Nat.mod_eq_of_lt hn]
    | reg =>
      have hu : (u32 src).toNat < 32 := hok
      simp only [Agrees32, alu32, Isa.alu, Isa.operand32, AluRes.val.injEq,
        Nat.mod_eq_of_lt hu]
      constructor
      · intro h
        apply Classical.byContradiction
        intro hs
        -- a compiler may give the undefined shift any value
        have h0 := h ⟨0, fun _ _ _ _ => zext ((u32 dst).sshiftRight (u32 src).toNat) + 1⟩
        rw [if_neg hs] at h0
        exact absurd h0 (by simp)
      · intro hs H
        have e : (u32 src).toNat = src.toNat := by
          rw [u32, BitVec.toNat_setWidth, Nat.mod_eq_of_lt (by omega)]
        rw [if_pos hs, e]

end

/-- **The 32-bit class**: an instruction sets `DST` to the result of the instruction set, and
changes nothing else but the program counter, exactly when `Agrees32` holds. -/
theorem step_result32_iff {vm : EbpfVm} {s : State} {inst : EbpfInst} {op : Op} {v : BitVec 64}
    (mem : Addr) (memLen : BitVec 32) (hi : vm.fetch s.pc = inst) (hop : inst.opcode = op.code)
    (hv : Isa.result32 inst (s.reg inst.dst) (s.reg inst.src) op = some v)
    (hok : Isa.Operands32 inst (s.reg inst.src) op) :
    (∀ H, vmStep H vm mem memLen s = .next ((s.jump 1).set inst.dst v)) ↔
      Agrees32 inst (s.reg inst.dst) (s.reg inst.src) op := by
  simp only [vmStep_of op hi hop]
  cases op with
  | alu32 op form =>
    cases hv
    rw [← alu32_eq_isa_iff hok]
    exact forall_congr' fun H => State.alu_eq_next
  | neg32 =>
    cases hv
    refine ⟨fun _ => trivial, fun _ H => ?_⟩
    have e : u32 (-s.reg inst.dst) = -u32 (s.reg inst.dst) := by
      simp [u32, BitVec.setWidth_neg_of_le]
    rw [← e]
    rfl
  | le =>
    cases hv
    rw [Agrees32, ← isa_toLe_eq_iff]
    refine ⟨fun h => ?_, fun h H => ?_⟩
    · exact State.set_inj.mp (Outcome.next.inj (h default))
    · exact congrArg Outcome.next (State.set_inj.mpr h)
  | be =>
    cases hv
    refine ⟨fun _ => trivial, fun _ H => ?_⟩
    exact congrArg Outcome.next (State.set_inj.mpr (toBe_eq_isa hok _))
  | _ => cases hv

/-- A program of one instruction, with `r0` for `DST` and the other registers for `SRC`. -/
def oneInst (bytes : List (BitVec 8)) : EbpfVm where
  insts := codeBytes bytes fun _ => 0
  boundsCheckEnabled := false
  helperFunc := fun _ _ _ => none

def regState (dst src : BitVec 64) : State where
  pc := 0
  reg := fun r => if r = 0 then dst else src
  mem := fun _ => 0

/-- `BE16 r0` with `r0 = 0x51234`. -/
theorem step_result32_be16 :
    Isa.Operands32 (instAt (oneInst [0xdc, 0, 0, 0, 16, 0, 0, 0]).insts 0) 0 .be ∧
      ∀ H, vmStep H (oneInst [0xdc, 0, 0, 0, 16, 0, 0, 0]) 0 0 (regState 0x51234 0) =
        .next (((regState 0x51234 0).jump 1).set 0 0x3412) :=
  ⟨.inl rfl, (@step_result32_iff (oneInst [0xdc, 0, 0, 0, 16, 0, 0, 0]) (regState 0x51234 0) _ .be
    0x3412 0 0 rfl rfl (by decide) (.inl rfl)).mpr trivial⟩

/-- `AND r0, 3` with `r0 = 6` gives 1 for 2, and `LE16 r0` with `r0 = 0x51234` keeps the upper
bits. -/
theorem and_le_step :
    (∀ H, vmStep H (oneInst [0x54, 0, 0, 0, 3, 0, 0, 0]) 0 0 (regState 6 0) =
        .next (((regState 6 0).jump 1).set 0 1)) ∧
      Isa.result32 (instAt (oneInst [0x54, 0, 0, 0, 3, 0, 0, 0]).insts 0) 6 0
        (.alu32 .and .imm) = some 2 ∧
      (∀ H, vmStep H (oneInst [0xd4, 0, 0, 0, 16, 0, 0, 0]) 0 0 (regState 0x51234 0) =
        .next (((regState 0x51234 0).jump 1).set 0 0x51234)) ∧
      Isa.result32 (instAt (oneInst [0xd4, 0, 0, 0, 16, 0, 0, 0]).insts 0) 0x51234 0 .le =
        some 0x1234 :=
  ⟨fun _ => vmStep_of (.alu32 .and .imm) rfl rfl, by decide, fun _ => vmStep_of .le rfl rfl,
    by decide⟩

/-! ## The 64-bit class -/

/-- Where the 64-bit class of the interpreter is that of the instruction set: `DIV64_REG` needs
`IMM` and `SRC` to go into `DST` equally often. -/
def Agrees64 (inst : EbpfInst) (dst src : BitVec 64) : Op → Prop
  | .alu64 .div .reg =>
    ∀ q : Nat, q * src.toNat ≤ dst.toNat ↔ q * (sext inst.imm).toNat ≤ dst.toNat
  | _ => True

theorem quotient_eq_iff {a b c : Nat} (hb : b ≠ 0) :
    (c ≠ 0 ∧ a / c = a / b) ↔ ∀ q, q * b ≤ a ↔ q * c ≤ a := by
  have hq : ∀ {d : Nat}, d ≠ 0 → ∀ q, q ≤ a / d ↔ q * d ≤ a := fun hd q =>
    Nat.le_div_iff_mul_le (Nat.pos_of_ne_zero hd)
  constructor
  · rintro ⟨hc, h⟩ q
    rw [← hq hb, ← hq hc, h]
  · intro h
    have hc : c ≠ 0 := by
      rintro rfl
      have h1 := (h (a + 1)).mpr (by omega)
      have h2 := Nat.le_mul_of_pos_right (a + 1) (Nat.pos_of_ne_zero hb)
      omega
    refine ⟨hc, Nat.le_antisymm ?_ ?_⟩
    · rw [hq hb, h, ← hq hc]
    · rw [hq hc, ← h, ← hq hb]

theorem alu64_eq_isa_iff {inst : EbpfInst} {dst src : BitVec 64} {op : AluOp} {form : Form}
    (hok : Isa.OperandOk (Isa.operand64 inst src form) op) :
    (∀ H, alu64 H op form dst src inst.imm =
        .val (Isa.alu op dst (Isa.operand64 inst src form))) ↔
      Agrees64 inst dst src (.alu64 op form) := by
  cases op with
  | add | sub | mul | or | and | xor | mov =>
    cases form <;> exact ⟨fun _ => trivial, fun _ _ => rfl⟩
  | lsh | rsh | arsh =>
    refine ⟨fun _ => trivial, fun _ H => ?_⟩
    simp only [Isa.alu, Nat.mod_eq_of_lt hok]
    cases form <;> exact congrArg AluRes.val (if_pos hok)
  | mod =>
    refine ⟨fun _ => trivial, fun _ H => ?_⟩
    cases form with
    | imm => exact if_neg hok
    | reg =>
      simp only [alu64, if_neg (show src ≠ 0 from hok)]
      exact if_neg hok
  | div =>
    cases form with
    | imm => exact ⟨fun _ => trivial, fun _ H => if_neg hok⟩
    | reg =>
      have hs : src ≠ 0 := hok
      rw [Agrees64, ← quotient_eq_iff fun h => hs (BitVec.eq_of_toNat_eq h)]
      simp only [alu64, if_neg hs, Isa.alu, Isa.operand64, divide]
      by_cases hi : sext inst.imm = 0
      · simp [hi]
      · have hi' : (sext inst.imm).toNat ≠ 0 := fun h => hi (BitVec.eq_of_toNat_eq h)
        simp [hi', ← BitVec.toNat_inj]

/-- **The 64-bit class**: an instruction sets `DST` to the result of the instruction set, and
changes nothing else but the program counter, exactly when `Agrees64` holds. -/
theorem step_result64_iff {vm : EbpfVm} {s : State} {inst : EbpfInst} {op : Op} {v : BitVec 64}
    (mem : Addr) (memLen : BitVec 32) (hi : vm.fetch s.pc = inst) (hop : inst.opcode = op.code)
    (hv : Isa.result64 inst (s.reg inst.dst) (s.reg inst.src) op = some v)
    (hok : Isa.Operands64 inst (s.reg inst.src) op) :
    (∀ H, vmStep H vm mem memLen s = .next ((s.jump 1).set inst.dst v)) ↔
      Agrees64 inst (s.reg inst.dst) (s.reg inst.src) op := by
  simp only [vmStep_of op hi hop]
  cases op with
  | alu64 op form =>
    cases hv
    rw [← alu64_eq_isa_iff hok]
    exact forall_congr' fun H => State.alu_eq_next
  | neg64 =>
    cases hv
    exact ⟨fun _ => trivial, fun _ _ => rfl⟩
  | _ => cases hv

/-- `ADD64 r0, -1` with `r0 = 5`. -/
theorem step_result64_add :
    Isa.Operands64 (instAt (oneInst [0x07, 0, 0, 0, 255, 255, 255, 255]).insts 0) 0
        (.alu64 .add .imm) ∧
      ∀ H, vmStep H (oneInst [0x07, 0, 0, 0, 255, 255, 255, 255]) 0 0 (regState 5 0) =
        .next (((regState 5 0).jump 1).set 0 4) :=
  ⟨trivial, (@step_result64_iff (oneInst [0x07, 0, 0, 0, 255, 255, 255, 255]) (regState 5 0) _
    (.alu64 .add .imm) 4 0 0 rfl rfl (by decide) trivial).mpr trivial⟩

/-- `DIV64 r0, r1` with `r0 = 8` and `r1 = 2`: the immediate of a register form is 0, and the
interpreter divides by it. -/
theorem div64_step :
    (∀ H, vmStep H (oneInst [0x3f, 0x10, 0, 0, 0, 0, 0, 0]) 0 0 (regState 8 2) = .done .trap) ∧
      Isa.result64 (instAt (oneInst [0x3f, 0x10, 0, 0, 0, 0, 0, 0]).insts 0) 8 2
        (.alu64 .div .reg) = some 4 :=
  ⟨fun _ => vmStep_of (.alu64 .div .reg) rfl rfl, by decide⟩

/-! ## Conditional jumps -/

/-- Where the condition of a jump is that of the instruction set: a `DST` between the
zero-extended and the sign-extended immediate is on different sides of them. -/
def AgreesJump (inst : EbpfInst) (dst : BitVec 64) : Cond → Form → Prop
  | .gt, .imm | .le, .imm => ¬ (zext inst.imm < dst ∧ dst ≤ sext inst.imm)
  | .ge, .imm | .lt, .imm => ¬ (zext inst.imm ≤ dst ∧ dst < sext inst.imm)
  | _, _ => True

theorem zext_le_sext (x : BitVec 32) : (zext x).toNat ≤ (sext x).toNat := by
  rw [sext, BitVec.toNat_signExtend]
  exact Nat.le_add_right _ _

theorem holds_eq_isa_iff (inst : EbpfInst) (c : Cond) (form : Form) (dst src : BitVec 64) :
    c.holds form dst src inst.imm = Isa.holds c dst (Isa.operand64 inst src form) ↔
      AgreesJump inst dst c form := by
  have hle := zext_le_sext inst.imm
  cases form with
  | reg => cases c <;> exact ⟨fun _ => trivial, fun _ => rfl⟩
  | imm =>
    cases c with
    | eq | set | ne | sgt | sge | slt | sle => exact ⟨fun _ => trivial, fun _ => rfl⟩
    | gt | ge | lt | le =>
      rw [Bool.eq_iff_iff]
      simp only [Cond.holds, Isa.holds, Isa.operand64, AgreesJump, BitVec.ult_iff_lt,
        BitVec.ule_iff_le, BitVec.lt_def, BitVec.le_def]
      omega

/-- **Conditional jumps**: the step moves by `offset` when its condition holds, and the condition
is that of the instruction set exactly when `AgreesJump` holds. -/
theorem jump_isa_iff {vm : EbpfVm} {s : State} {inst : EbpfInst} {c : Cond} {form : Form}
    (H : Host) (mem : Addr) (memLen : BitVec 32) (hi : vm.fetch s.pc = inst)
    (hop : inst.opcode = (Op.jcond c form).code) :
    vmStep H vm mem memLen s =
        .next (if c.holds form (s.reg inst.dst) (s.reg inst.src) inst.imm
          then (s.jump 1).jump inst.offset else s.jump 1) ∧
      (c.holds form (s.reg inst.dst) (s.reg inst.src) inst.imm =
          Isa.holds c (s.reg inst.dst) (Isa.operand64 inst (s.reg inst.src) form) ↔
        AgreesJump inst (s.reg inst.dst) c form) :=
  ⟨vmStep_of (.jcond c form) hi hop, holds_eq_isa_iff inst c form _ _⟩

/-- `JSLT r0, -1, +5` with `r0 = -2`: the signed order sign-extends the immediate. -/
theorem jump_isa_jslt :
    vmStep default (oneInst [0xc5, 0, 5, 0, 255, 255, 255, 255]) 0 0 (regState (-2) 0) =
        .next (((regState (-2) 0).jump 1).jump 5) ∧
      AgreesJump (instAt (oneInst [0xc5, 0, 5, 0, 255, 255, 255, 255]).insts 0) (-2) .slt .imm := by
  have h := @jump_isa_iff (oneInst [0xc5, 0, 5, 0, 255, 255, 255, 255]) (regState (-2) 0) _ .slt
    .imm default 0 0 rfl rfl
  exact ⟨h.1.trans (congrArg Outcome.next (if_pos (by decide))), h.2.mp (by decide)⟩

/-- `JGT r0, -1, +5` with `r0 = 2 ^ 32` jumps, although `2 ^ 32` is not above `2 ^ 64 - 1`. -/
theorem jgt_step :
    (∀ H, vmStep H (oneInst [0x25, 0, 5, 0, 255, 255, 255, 255]) 0 0 (regState (2 ^ 32) 0) =
        .next (((regState (2 ^ 32) 0).jump 1).jump 5)) ∧
      Isa.holds .gt (2 ^ 32) (Isa.operand64
        (instAt (oneInst [0x25, 0, 5, 0, 255, 255, 255, 255]).insts 0) 0 .imm) = false :=
  ⟨fun _ => vmStep_of (.jcond .gt .imm) rfl rfl, by decide⟩

end BlueSwat.Ebpf
