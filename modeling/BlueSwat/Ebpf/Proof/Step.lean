import BlueSwat.Ebpf.Verifier

/-!
# What one instruction can do

The facts about `vmStep` that every later proof uses, stated once: where the program counter
goes (`vmStep_pc`), that only stores and calls touch memory (`vmStep_mem`), and when a run of the
firewall's VM ends without an `EXIT` (`vmStep_done`).
-/

set_option autoImplicit false

namespace BlueSwat.Ebpf

open Machine

/-! ## Extended words -/

theorem toNat_zext (x : BitVec 32) : (zext x).toNat = x.toNat := by
  have := x.isLt
  simp only [zext, BitVec.toNat_setWidth]
  omega

theorem zext_inj {x y : BitVec 32} : zext x = zext y ↔ x = y := by
  refine ⟨fun h => BitVec.eq_of_toNat_eq ?_, fun h => h ▸ rfl⟩
  rw [← toNat_zext x, h, toNat_zext]

/-! ## Predicates on the state before a step -/

def opAt (vm : EbpfVm) (s : State) : Option Op := Op.ofCode (vm.fetch s.pc).opcode

/-- The target of a jump that `op` takes. -/
def jumpTarget (inst : EbpfInst) (s : State) : Option Op → Option (BitVec 16)
  | some .ja => some (s.pc + 1 + inst.offset)
  | some (.jcond c form) =>
    if c.holds form (s.reg inst.dst) (s.reg inst.src) inst.imm then
      some (s.pc + 1 + inst.offset)
    else none
  | _ => none

def slots : Option Op → BitVec 16
  | some .lddw => 2
  | _ => 1

def Op.writesMem : Op → Bool
  | .st _ | .stx _ | .call => true
  | _ => false

/-- A division or modulo whose divisor, as the interpreter computes it, is zero. -/
def zeroDivisor (inst : EbpfInst) (s : State) : Option Op → Bool
  | some (.alu32 .div .imm) | some (.alu32 .mod .imm) => inst.imm == 0
  | some (.alu32 .div .reg) | some (.alu32 .mod .reg) => u32 (s.reg inst.src) == 0
  | some (.alu64 .div .imm) | some (.alu64 .mod .imm) => sext inst.imm == 0
  | some (.alu64 .div .reg) => s.reg inst.src == 0 || sext inst.imm == 0
  | some (.alu64 .mod .reg) => s.reg inst.src == 0
  | _ => false

/-- A step, with the instruction and its case already decoded. -/
theorem vmStep_of {H : Host} {vm : EbpfVm} {mem : Addr} {memLen : BitVec 32} {s : State}
    {inst : EbpfInst} (op : Op) (hi : vm.fetch s.pc = inst) (ho : inst.opcode = op.code) :
    vmStep H vm mem memLen s = execOp H vm mem memLen inst (s.jump 1) (some op) := by
  rw [vmStep, hi, ho, Op.ofCode_code]

/-! ## The program counter and the memory -/

section
variable {H : Host} {vm : EbpfVm} {mem : Addr} {memLen : BitVec 32} {s s' : State}
  {inst : EbpfInst} {op : Option Op}

theorem alu_next {dst : BitVec 4} {r : AluRes} (h : s.alu dst r = .next s') :
    ∃ v, s' = s.set dst v := by
  cases r with
  | val v => cases h; exact ⟨v, rfl⟩
  | fail => cases h
  | trap => cases h

theorem checked_next {size : Size} {k : State}
    (h : checked H vm mem memLen inst s size k = .next s') : s' = k := by
  unfold checked at h
  split at h <;> cases h
  rfl

theorem execOp_pc (h : execOp H vm mem memLen inst (s.jump 1) op = .next s') :
    s'.pc = (jumpTarget inst s op).getD (s.pc + slots op) := by
  cases op with
  | none => cases h; rfl
  | some op =>
    cases op with
    | alu32 op form => obtain ⟨v, rfl⟩ := alu_next h; rfl
    | alu64 op form => obtain ⟨v, rfl⟩ := alu_next h; rfl
    | neg32 => cases h; rfl
    | le => cases h; rfl
    | be => cases h; rfl
    | neg64 => cases h; rfl
    | ldx size => rw [checked_next h]; rfl
    | st size => rw [checked_next h]; rfl
    | stx size => rw [checked_next h]; rfl
    | lddw =>
      simp only [execOp, Outcome.next.injEq] at h
      subst h
      show s.pc + 1 + 1 = s.pc + 2
      rw [BitVec.add_assoc]
      rfl
    | ja => cases h; rfl
    | jcond c form =>
      simp only [execOp, Outcome.next.injEq] at h
      subst h
      by_cases hc : c.holds form (s.reg inst.dst) (s.reg inst.src) inst.imm <;>
        simp [State.jump, jumpTarget, slots, hc]
    | call =>
      simp only [execOp] at h
      split at h <;> cases h
      rfl
    | exit => cases h

theorem execOp_mem (h : execOp H vm mem memLen inst s op = .next s')
    (hw : ∀ o, op = some o → o.writesMem = false) : s'.mem = s.mem := by
  cases op with
  | none => cases h; rfl
  | some op =>
    cases op with
    | alu32 op form => obtain ⟨v, rfl⟩ := alu_next h; rfl
    | alu64 op form => obtain ⟨v, rfl⟩ := alu_next h; rfl
    | neg32 => cases h; rfl
    | le => cases h; rfl
    | be => cases h; rfl
    | neg64 => cases h; rfl
    | ldx size => rw [checked_next h]; rfl
    | st size => simp [Op.writesMem] at hw
    | stx size => simp [Op.writesMem] at hw
    | lddw => simp only [execOp, Outcome.next.injEq] at h; subst h; rfl
    | ja => cases h; rfl
    | jcond c form =>
      simp only [execOp, Outcome.next.injEq] at h
      subst h
      split <;> rfl
    | call => simp [Op.writesMem] at hw
    | exit => cases h

/-- **The program counter after a step.** -/
theorem vmStep_pc (h : vmStep H vm mem memLen s = .next s') :
    s'.pc = (jumpTarget (vm.fetch s.pc) s (opAt vm s)).getD (s.pc + slots (opAt vm s)) :=
  execOp_pc h

/-- **A step that is no store and no call leaves memory as it is.** -/
theorem vmStep_mem (h : vmStep H vm mem memLen s = .next s')
    (hw : ∀ o, opAt vm s = some o → o.writesMem = false) : s'.mem = s.mem :=
  execOp_mem (s := s.jump 1) h hw

/-! ## The end of a run -/

theorem divide_ne_val {n : Nat} {f : BitVec n → BitVec n → BitVec n} {a b : BitVec n}
    {k : BitVec n → BitVec 64} (h : ∀ v, divide f a b k ≠ .val v) : b = 0 := by
  apply Classical.byContradiction
  intro hb
  exact h _ (by rw [divide, if_neg hb])

theorem divide_zero {n : Nat} {f : BitVec n → BitVec n → BitVec n} {a b : BitVec n}
    {k : BitVec n → BitVec 64} (h : b = 0) (v : BitVec 64) : divide f a b k ≠ .val v := by
  simp [divide, h]

theorem alu_done {dst : BitVec 4} {a : AluRes} {r : Ret} (h : s.alu dst a = .done r) :
    (∀ v, a ≠ .val v) ∧ ∀ v, r ≠ .exit v := by
  cases a with
  | val v => cases h
  | fail => cases h; exact ⟨by simp, by simp⟩
  | trap => cases h; exact ⟨by simp, by simp⟩

theorem alu32_ne_val {o : AluOp} {form : Form}
    (h : ∀ v, alu32 H o form (s.reg inst.dst) (s.reg inst.src) inst.imm ≠ .val v) :
    zeroDivisor inst s (some (.alu32 o form)) = true := by
  cases o with
  | div | mod =>
    cases form with
    | imm => simpa [zeroDivisor] using divide_ne_val h
    | reg =>
      by_cases hs : s.reg inst.src = 0
      · simp [zeroDivisor, hs, u32]
      · simp only [alu32, if_neg hs] at h
        simpa [zeroDivisor] using divide_ne_val h
  | _ => exact absurd rfl (h _)

theorem alu64_ne_val {o : AluOp} {form : Form}
    (h : ∀ v, alu64 H o form (s.reg inst.dst) (s.reg inst.src) inst.imm ≠ .val v) :
    zeroDivisor inst s (some (.alu64 o form)) = true := by
  cases o with
  | div | mod =>
    cases form with
    | imm => simpa [zeroDivisor] using divide_ne_val h
    | reg =>
      by_cases hs : s.reg inst.src = 0
      · simp [zeroDivisor, hs]
      · simp only [alu64, if_neg hs] at h
        simpa [zeroDivisor, show ¬ s.reg inst.src = 0#64 from hs] using divide_ne_val h
  | _ => exact absurd rfl (h _)

theorem checked_default {code : Nat → BitVec 8} (size : Size) (k : State) :
    checked H (defaultVm code) mem memLen inst s size k = .next k := by
  simp [checked, boundsCheck, defaultVm]

theorem execOp_done {code : Nat → BitVec 8} {r : Ret}
    (h : execOp H (defaultVm code) mem memLen inst (s.jump 1) op = .done r) :
    (op = some .exit ∧ r = .exit (s.reg 0)) ∨
      ((∀ v, r ≠ .exit v) ∧ (zeroDivisor inst s op = true ∨ op = some .call)) := by
  cases op with
  | none => cases h
  | some op =>
    cases op with
    | alu32 op form =>
      obtain ⟨h1, h2⟩ := alu_done h
      exact .inr ⟨h2, .inl (alu32_ne_val (s := s) h1)⟩
    | alu64 op form =>
      obtain ⟨h1, h2⟩ := alu_done h
      exact .inr ⟨h2, .inl (alu64_ne_val (s := s) h1)⟩
    | ldx size | st size | stx size => rw [execOp, checked_default] at h; cases h
    | call => cases h; exact .inr ⟨by simp, .inr rfl⟩
    | exit => cases h; exact .inl ⟨rfl, rfl⟩
    | lddw => rw [execOp] at h; cases h
    | _ => cases h

/-- **How the firewall's VM stops**: at an `EXIT` with `reg[0]`, at a zero divisor, or at a
`CALL`. -/
theorem vmStep_done {code : Nat → BitVec 8} {r : Ret}
    (h : vmStep H (defaultVm code) mem memLen s = .done r) :
    (opAt (defaultVm code) s = some .exit ∧ r = .exit (s.reg 0)) ∨
      ((∀ v, r ≠ .exit v) ∧
        (zeroDivisor ((defaultVm code).fetch s.pc) s (opAt (defaultVm code) s) = true ∨
          opAt (defaultVm code) s = some .call)) :=
  execOp_done h

/-! ## A zero divisor stops the run -/

theorem alu32_zeroDivisor {o : AluOp} {form : Form}
    (h : zeroDivisor inst s (some (.alu32 o form)) = true) (v : BitVec 64) :
    alu32 H o form (s.reg inst.dst) (s.reg inst.src) inst.imm ≠ .val v := by
  cases o with
  | div | mod =>
    cases form with
    | imm => exact divide_zero (by simpa [zeroDivisor] using h) v
    | reg =>
      by_cases hs : s.reg inst.src = 0
      · simp [alu32, hs]
      · simp only [alu32, if_neg hs]
        exact divide_zero (by simpa [zeroDivisor] using h) v
  | _ => cases form <;> cases h

theorem alu64_zeroDivisor {o : AluOp} {form : Form}
    (h : zeroDivisor inst s (some (.alu64 o form)) = true) (v : BitVec 64) :
    alu64 H o form (s.reg inst.dst) (s.reg inst.src) inst.imm ≠ .val v := by
  cases o with
  | div =>
    cases form with
    | imm => exact divide_zero (by simpa [zeroDivisor] using h) v
    | reg =>
      by_cases hs : s.reg inst.src = 0
      · simp [alu64, hs]
      · simp only [alu64, if_neg hs]
        exact divide_zero (by simpa [zeroDivisor, show ¬ s.reg inst.src = 0#64 from hs] using h) v
  | mod =>
    cases form with
    | imm => exact divide_zero (by simpa [zeroDivisor] using h) v
    | reg =>
      have hs : s.reg inst.src = 0 := by simpa [zeroDivisor] using h
      simp [alu64, hs]
  | _ => cases form <;> cases h

theorem alu_ne_val {dst : BitVec 4} {a : AluRes} (h : ∀ v, a ≠ .val v) :
    ∃ r, s.alu dst a = .done r ∧ ∀ v, r ≠ .exit v := by
  cases a with
  | val v => exact absurd rfl (h v)
  | fail => exact ⟨.fail, rfl, by simp⟩
  | trap => exact ⟨.trap, rfl, by simp⟩

theorem execOp_zeroDivisor (h : zeroDivisor inst s op = true) :
    ∃ r, execOp H vm mem memLen inst (s.jump 1) op = .done r ∧ ∀ v, r ≠ .exit v := by
  cases op with
  | none => cases h
  | some op =>
    cases op with
    | alu32 op form => exact alu_ne_val (alu32_zeroDivisor (s := s) h)
    | alu64 op form => exact alu_ne_val (alu64_zeroDivisor (s := s) h)
    | _ => cases h

theorem vmStep_zeroDivisor (H : Host) (mem : Addr) (memLen : BitVec 32)
    (h : zeroDivisor (vm.fetch s.pc) s (opAt vm s) = true) :
    ∃ r, vmStep H vm mem memLen s = .done r ∧ ∀ v, r ≠ .exit v :=
  execOp_zeroDivisor h

end

end BlueSwat.Ebpf
