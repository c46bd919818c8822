import BlueSwat.Ebpf.Proof.ControlFlow

/-!
# Division by zero in the interpreter

`ifw_verify_policy` reads no divisor: it leaves division by zero to `ebpf_vm_exec`. The interpreter
tests `SRC` before the register forms of `DIV` and `MOD` and returns -1 for zero, but

* the immediate forms, 32- and 64-bit, are not tested;
* the 32-bit register forms test the whole register and divide by its low half;
* `DIV64_REG` tests `SRC` and divides by `IMM`.

`vmStep_dividesByZero_iff` says which states these are, `divisionSafe_iff` that nothing else can
go wrong on a run.
-/

set_option autoImplicit false

namespace BlueSwat.Ebpf

open Machine

/-- The step evaluates a C division or modulo by zero: it has no value, and it is no call through
the missing helper table. -/
def DividesByZero (H : Host) (vm : EbpfVm) (mem : Addr) (memLen : BitVec 32) (s : State) : Prop :=
  vmStep H vm mem memLen s = .done .trap ∧ opAt vm s ≠ some .call

/-- A zero divisor that no test of the interpreter catches. -/
def unguarded (inst : EbpfInst) (s : State) : Option Op → Bool
  | some (.alu32 .div .imm) | some (.alu32 .mod .imm) => inst.imm == 0
  | some (.alu64 .div .imm) | some (.alu64 .mod .imm) => inst.imm == 0
  | some (.alu32 .div .reg) | some (.alu32 .mod .reg) =>
    s.reg inst.src != 0 && u32 (s.reg inst.src) == 0
  | some (.alu64 .div .reg) => s.reg inst.src != 0 && inst.imm == 0
  | _ => false

section
variable {H : Host} {vm : EbpfVm} {mem : Addr} {memLen : BitVec 32} {s : State}
  {inst : EbpfInst}

theorem divide_eq_trap_iff {n : Nat} {f : BitVec n → BitVec n → BitVec n} {a b : BitVec n}
    {k : BitVec n → BitVec 64} : divide f a b k = .trap ↔ b = 0 := by
  unfold divide
  split <;> simp_all

theorem sext_eq_zero_iff {x : BitVec 32} : sext x = 0#64 ↔ x = 0#32 := by
  constructor
  · intro h
    have hn := congrArg BitVec.toNat h
    have hx := x.isLt
    rw [sext, BitVec.toNat_signExtend, BitVec.toNat_setWidth, Nat.mod_eq_of_lt (by omega)] at hn
    apply BitVec.eq_of_toNat_eq
    simp only [BitVec.toNat_ofNat] at hn ⊢
    omega
  · rintro rfl
    rfl

theorem alu32_eq_trap_iff {op : AluOp} {form : Form} :
    alu32 H op form (s.reg inst.dst) (s.reg inst.src) inst.imm = .trap ↔
      unguarded inst s (some (.alu32 op form)) = true := by
  cases op with
  | div | mod =>
    cases form with
    | imm => simp [alu32, divide_eq_trap_iff, unguarded]
    | reg =>
      by_cases hs : s.reg inst.src = 0#64
      · simp [alu32, unguarded, hs]
      · simp [alu32, unguarded, hs, divide_eq_trap_iff]
  | _ => cases form <;> simp [alu32, unguarded]

theorem alu64_eq_trap_iff {op : AluOp} {form : Form} :
    alu64 H op form (s.reg inst.dst) (s.reg inst.src) inst.imm = .trap ↔
      unguarded inst s (some (.alu64 op form)) = true := by
  cases op with
  | div | mod =>
    cases form with
    | imm => simp [alu64, divide_eq_trap_iff, unguarded, sext_eq_zero_iff]
    | reg =>
      by_cases hs : s.reg inst.src = 0#64
      · simp [alu64, unguarded, hs]
      · simp [alu64, unguarded, hs, divide_eq_trap_iff, sext_eq_zero_iff]
  | _ => cases form <;> simp [alu64, unguarded]

theorem State.alu_eq_trap {r : BitVec 4} {a : AluRes} : s.alu r a = .done .trap ↔ a = .trap := by
  cases a <;> simp [State.alu]

theorem checked_ne_trap {size : Size} {k : State} :
    checked H vm mem memLen inst s size k ≠ .done .trap := by
  unfold checked
  split <;> simp

/-- **The states that divide by zero.** -/
theorem vmStep_dividesByZero_iff :
    DividesByZero H vm mem memLen s ↔ unguarded (vm.fetch s.pc) s (opAt vm s) = true := by
  have hstep : vmStep H vm mem memLen s =
      execOp H vm mem memLen (vm.fetch s.pc) (s.jump 1) (opAt vm s) := rfl
  rw [DividesByZero, hstep]
  generalize vm.fetch s.pc = inst
  cases opAt vm s with
  | none => simp [execOp, unguarded]
  | some op =>
    cases op with
    | alu32 op form =>
      simp only [execOp, State.alu_eq_trap, ne_eq, Option.some.injEq, reduceCtorEq,
        not_false_eq_true, and_true]
      exact alu32_eq_trap_iff (s := s)
    | alu64 op form =>
      simp only [execOp, State.alu_eq_trap, ne_eq, Option.some.injEq, reduceCtorEq,
        not_false_eq_true, and_true]
      exact alu64_eq_trap_iff (s := s)
    | ldx size | st size | stx size => simp [execOp, checked_ne_trap, unguarded]
    | _ => simp [execOp, unguarded]

end

/-- **Division safety**: a run never divides by zero exactly when none of its states, before its
step, has an unguarded zero divisor. This holds of every byte string, accepted or not. -/
theorem divisionSafe_iff (H : Host) (code : Nat → BitVec 8) (M : Mem) (mem : Addr)
    (memLen : BitVec 32) :
    (∀ s, VmReach H code M mem memLen s → ¬ DividesByZero H (defaultVm code) mem memLen s) ↔
      ∀ s, VmReach H code M mem memLen s →
        unguarded ((defaultVm code).fetch s.pc) s (opAt (defaultVm code) s) = false := by
  simp only [vmStep_dividesByZero_iff, Bool.not_eq_true]

/-- `DIV64 r0, 0; EXIT`. -/
def divZero : Nat → BitVec 8 :=
  codeBytes [0x37, 0, 0, 0, 0, 0, 0, 0, 0x95, 0, 0, 0, 0, 0, 0, 0] fun _ => 0

/-- `DIV64 r0, r1; EXIT`: `r1` is the address of the `FsmState`. -/
def divByReg : Nat → BitVec 8 :=
  codeBytes [0x3f, 0x10, 0, 0, 0, 0, 0, 0, 0x95, 0, 0, 0, 0, 0, 0, 0] fun _ => 0

/-- The verifier accepts both programs, and their first instruction divides by zero. -/
theorem divZero_dividesByZero :
    (ifwVerifyPolicy (some divZero) 16 120 = 0 ∧ ∃ s,
        VmReach ramHost divZero (fun _ => 0) 0x20000000 120 s ∧
          DividesByZero ramHost (defaultVm divZero) 0x20000000 120 s) ∧
      ifwVerifyPolicy (some divByReg) 16 120 = 0 ∧ ∃ s,
        VmReach ramHost divByReg (fun _ => 0) 0x20000000 120 s ∧
          DividesByZero ramHost (defaultVm divByReg) 0x20000000 120 s :=
  ⟨⟨by decide, _, .refl _, vmStep_dividesByZero_iff.mpr (by decide)⟩,
    by decide, _, .refl _, vmStep_dividesByZero_iff.mpr (by decide)⟩

end BlueSwat.Ebpf
