import BlueSwat.Ebpf.Proof.Division
import BlueSwat.Ebpf.Proof.Memory
import BlueSwat.Ebpf.Proof.Sandbox

/-!
# Safety from the bytecode alone

`ifw_verify_policy` leaves five things to the program: where a jump lands inside an `LDDW`, that the
last instruction is an `EXIT`, that no divisor is zero, that `r1` and `r10` still hold their
pointers when they are loaded from, and that a load is aligned. `Sealed` asks for them slot by slot,
so it can be computed from the bytecode. An accepted program that is sealed is safe on every run,
from every memory (`safe_of_sealed`).

In the model a load reads something wherever it goes, so alignment is a property of its own
(`LoadAligned`). The struct holds words of 4 bytes and the stack words of 8, and the compiler places
them accordingly (`Placement.Aligned`): an `LDXDW` from the struct is never known to be aligned.

The invariant of a run is `Along`: the program counter is in a visited slot, and a register that no
slot behind the program counter writes is as it was at the start. It holds since a run only goes
forward (`step_forward`).
-/

set_option autoImplicit false

namespace BlueSwat.Ebpf

open Machine Bytes

/-! ## Conditions on a slot -/

/-- The register that an instruction assigns. -/
def writtenReg (inst : EbpfInst) : Option Op → Option (BitVec 4)
  | some (.alu32 _ _) | some (.alu64 _ _) | some .neg32 | some .neg64 | some .le | some .be
  | some (.ldx _) | some .lddw => some inst.dst
  | some .call => some 0
  | _ => none

/-- The instruction divides by a register or by a zero constant. -/
def mayDivideByZero (inst : EbpfInst) : Option Op → Bool
  | some (.alu32 .div .imm) | some (.alu32 .mod .imm)
  | some (.alu64 .div .imm) | some (.alu64 .mod .imm) => inst.imm == 0
  | some (.alu32 .div .reg) | some (.alu32 .mod .reg)
  | some (.alu64 .div .reg) | some (.alu64 .mod .reg) => true
  | _ => false

/-- The address of a load is a multiple of its size, if `r1` holds one of 4 and `r10` one of 8. -/
def alignOk (inst : EbpfInst) (sz : Size) : Bool :=
  inst.offset.toNat % sz.bytes == 0 && (inst.src == 10 || decide (sz.bytes ≤ 4))

section
variable (code : Nat → BitVec 8) (n i : Nat)

def opOf : Option Op := Op.ofCode (instAt code i).opcode

/-- No visited slot before `i` writes the register `r`. -/
def unwritten (r : BitVec 4) : Bool :=
  (List.range i).all fun j => !visited code j || writtenReg (instAt code j) (opOf code j) != some r

/-- A jump goes to a slot that the verifier visits. -/
def jumpOk : Bool :=
  match opOf code i with
  | some .ja | some (.jcond _ _) =>
    visited code (BitVec.ofNat 16 i + 1 + (instAt code i).offset).toNat
  | _ => true

/-- A load has a base register that nothing has written, and is aligned. -/
def loadOk : Bool :=
  match opOf code i with
  | some (.ldx sz) => unwritten code i (instAt code i).src && alignOk (instAt code i) sz
  | _ => true

/-- What the verifier does not ask of slot `i` of a program of `n` slots. -/
def slotOk : Bool :=
  jumpOk code i && (nextSlot code i != n || opOf code i == some .exit) &&
    !mayDivideByZero (instAt code i) (opOf code i) && loadOk code i

/-- Every visited slot keeps the conditions. -/
def Sealed : Prop := ∀ i < n, visited code i = true → slotOk code n i = true

instance : Decidable (Sealed code n) := inferInstanceAs (Decidable (∀ i < n, _ → _))

end

/-! ## One step -/

section
variable {H : Host} {code : Nat → BitVec 8} {M : Mem} {mem : Addr} {memLen : BitVec 32}
  {n memSize : Nat} {s s' : State} {inst : EbpfInst} {op : Option Op} {r : BitVec 4}

theorem set_reg_of_ne {d : BitVec 4} {v : BitVec 64} (h : some d ≠ some r) :
    (s.set d v).reg r = s.reg r := if_neg fun e => h (congrArg some e.symm)

/-- **A step assigns one register at most.** -/
theorem execOp_reg {vm : EbpfVm} (h : execOp H vm mem memLen inst s op = .next s')
    (hr : writtenReg inst op ≠ some r) : s'.reg r = s.reg r := by
  cases op with
  | none => cases h; rfl
  | some op =>
    cases op with
    | alu32 op form | alu64 op form =>
      obtain ⟨v, rfl⟩ := alu_next h
      exact set_reg_of_ne hr
    | neg32 | neg64 | le | be => cases h; exact set_reg_of_ne hr
    | ldx size => rw [checked_next h]; exact set_reg_of_ne hr
    | st size | stx size => rw [checked_next h]; rfl
    | lddw =>
      simp only [execOp, Outcome.next.injEq] at h
      subst h
      exact set_reg_of_ne hr
    | ja => cases h; rfl
    | jcond c form =>
      simp only [execOp, Outcome.next.injEq] at h
      subst h
      split <;> rfl
    | call =>
      simp only [execOp] at h
      split at h <;> cases h
      exact set_reg_of_ne hr
    | exit => cases h

theorem mayDivideByZero_of_zeroDivisor (h : zeroDivisor inst s op = true) :
    mayDivideByZero inst op = true := by
  cases op with
  | none => cases h
  | some op =>
    cases op with
    | alu32 o form =>
      cases o with
      | div | mod =>
        cases form with
        | imm => exact h
        | reg => rfl
      | _ => cases form <;> cases h
    | alu64 o form =>
      cases o with
      | div | mod =>
        cases form with
        | imm => simpa [zeroDivisor, mayDivideByZero, sext_eq_zero_iff] using h
        | reg => rfl
      | _ => cases form <;> cases h
    | _ => cases h

theorem unwritten_iff {i : Nat} :
    unwritten code i r = true ↔
      ∀ j < i, visited code j = true → writtenReg (instAt code j) (opOf code j) ≠ some r := by
  simp only [unwritten, List.all_eq_true, List.mem_range, Bool.or_eq_true, Bool.not_eq_true',
    bne_iff_ne, ← Bool.not_eq_true]
  constructor
  · intro h j hj hv
    exact (h j hj).resolve_left fun hn => hn hv
  · intro h j hj
    by_cases hv : visited code j = true
    · exact .inr (h j hj hv)
    · exact .inl hv

/-- The conditions on a slot are those on a step. -/
theorem stepOk_of_slotOk (h : slotOk code n s.pc.toNat = true) : StepOk code n s := by
  simp only [slotOk, Bool.and_eq_true, Bool.or_eq_true, bne_iff_ne, beq_iff_eq,
    Bool.not_eq_true'] at h
  obtain ⟨⟨⟨hjump, hlast⟩, hdiv⟩, -⟩ := h
  refine ⟨fun t ht => ?_, fun he => hlast.resolve_left (absurd he), ?_⟩
  · obtain ⟨rfl, o, ho, hjmp⟩ := jumpTarget_some ht
    have hop : opOf code s.pc.toNat = some o := ho
    rw [jumpOk, hop, BitVec.ofNat_toNat, BitVec.setWidth_eq] at hjump
    rcases hjmp with rfl | ⟨c, f, rfl⟩ <;> exact hjump
  · rw [← Bool.not_eq_true]
    intro hz
    have hmay : mayDivideByZero (instAt code s.pc.toNat) (opOf code s.pc.toNat) = true :=
      mayDivideByZero_of_zeroDivisor hz
    rw [hmay] at hdiv
    cases hdiv

/-! ## Whole runs -/

/-- The state of a run, at the slots up to its program counter. -/
structure Along (H : Host) (code : Nat → BitVec 8) (M : Mem) (mem : Addr) (n : Nat) (s : State) :
    Prop where
  inside : s.pc.toNat < n
  checked : visited code s.pc.toNat = true
  intact : ∀ r, unwritten code s.pc.toNat r = true → s.reg r = (initState H M mem).reg r

theorem Along.slotOk (h : Along H code M mem n s) (hs : Sealed code n) :
    slotOk code n s.pc.toNat = true := hs _ h.inside h.checked

theorem Along.step (h : Along H code M mem n s) (hA : Accepted code n memSize)
    (hs : Sealed code n) (hstep : vmStep H (defaultVm code) mem memLen s = .next s') :
    Along H code M mem n s' := by
  obtain ⟨hgt, hlt, hv⟩ := step_forward hA h.inside h.checked (stepOk_of_slotOk (h.slotOk hs)) hstep
  refine ⟨hlt, hv, fun r hr => ?_⟩
  have hall := unwritten_iff.1 hr
  have hreg : s'.reg r = s.reg r :=
    execOp_reg (s := s.jump 1) hstep (hall _ hgt h.checked)
  rw [hreg]
  exact h.intact r (unwritten_iff.2 fun j hj => hall j (Nat.lt_trans hj hgt))

theorem along_init (hA : Accepted code n memSize) : Along H code M mem n (initState H M mem) :=
  ⟨hA.pos, rfl, fun _ _ => rfl⟩

theorem VmReach.along (hA : Accepted code n memSize) (hs : Sealed code n)
    (h : VmReach H code M mem memLen s) : Along H code M mem n s :=
  Reach.inv (I := Along H code M mem n) h (along_init hA)
    fun _ _ _ ha hstep => ha.step hA hs hstep

theorem controlSafe_of_sealed (hA : Accepted code n memSize) (hs : Sealed code n) :
    ControlSafe H code M mem memLen n :=
  ⟨fun _ h => ⟨(h.along hA hs).inside, (h.along hA hs).checked⟩,
    exits_of_stepOk hA fun _ h => stepOk_of_slotOk ((h.along hA hs).slotOk hs)⟩

/-- The base register of a load holds what it held at the start. -/
theorem Along.base (h : Along H code M mem n s) (hs : Sealed code n) {sz : Size}
    (ho : opAt (defaultVm code) s = some (.ldx sz)) :
    s.reg ((defaultVm code).fetch s.pc).src =
      (initState H M mem).reg ((defaultVm code).fetch s.pc).src := by
  have hok := h.slotOk hs
  simp only [Ebpf.slotOk, Bool.and_eq_true, loadOk,
    show opOf code s.pc.toNat = some (.ldx sz) from ho] at hok
  exact h.intact _ hok.2.1

theorem Along.alignOk (h : Along H code M mem n s) (hs : Sealed code n) {sz : Size}
    (ho : opAt (defaultVm code) s = some (.ldx sz)) :
    alignOk ((defaultVm code).fetch s.pc) sz = true := by
  have hok := h.slotOk hs
  simp only [Ebpf.slotOk, Bool.and_eq_true, loadOk,
    show opOf code s.pc.toNat = some (.ldx sz) from ho] at hok
  exact hok.2.2

end

/-! ## Alignment -/

/-- The input memory and the stack lie as the compiler places arrays of their words. -/
structure Placement.Aligned {size : Nat} (P : Placement size) : Prop where
  mem : P.mem.toNat % 4 = 0
  stack : P.host.stack.toNat % 8 = 0

/-- Every load of the run is from a multiple of its size. -/
def LoadAligned {size : Nat} (P : Placement size) (code : Nat → BitVec 8) (M : Mem)
    (memLen : BitVec 32) : Prop :=
  ∀ s, VmReach P.host code M P.mem memLen s →
    ∀ sz, opAt (defaultVm code) s = some (.ldx sz) →
      let inst := (defaultVm code).fetch s.pc
      (effAddr (s.reg inst.src) inst.offset).toNat % sz.bytes = 0

theorem effAddr_mod (base : Addr) (offset : BitVec 16) (sz : Size) :
    (effAddr (zext base) offset).toNat % sz.bytes = (base.toNat + offset.toNat) % sz.bytes := by
  have hcond := BitVec.toInt_eq_toNat_cond offset
  have hlt := offset.isLt
  rw [effAddr_zext, BitVec.toNat_add, BitVec.toNat_ofInt]
  -- the sizes divide the moduli of the offset and of the address
  cases sz <;> simp only [Size.bytes] <;> split at hcond <;> omega

/-- **One load**: with its base register intact, it is aligned if its offset is. -/
theorem Passed.load_aligned {size : Nat} {P : Placement size} (hP : P.Aligned) (M : Mem)
    {inst : EbpfInst} {pc n : Nat} (h : Passed inst pc n size) {sz : Size}
    (ho : Op.ofCode inst.opcode = some (.ldx sz)) {base : BitVec 64}
    (hb : base = (initState P.host M P.mem).reg inst.src) (hok : alignOk inst sz = true) :
    (effAddr base inst.offset).toNat % sz.bytes = 0 := by
  simp only [alignOk, Bool.and_eq_true, Bool.or_eq_true, beq_iff_eq, decide_eq_true_eq] at hok
  obtain ⟨hoff, hsize⟩ := hok
  have hmem := hP.mem
  have hstack := hP.stack
  rcases h.ldx ho with ⟨hs, -⟩ | ⟨hs, -⟩
  · rw [hs] at hb hsize
    have h4 : sz.bytes ≤ 4 := hsize.resolve_left (by decide)
    rw [hb, show (initState P.host M P.mem).reg 1 = zext P.mem from rfl, effAddr_mod]
    cases sz <;> simp only [Size.bytes] at hoff h4 ⊢ <;> omega
  · rw [hs] at hb
    rw [hb, show (initState P.host M P.mem).reg 10 =
        zext (P.host.stack + BitVec.ofNat 32 stackSize) from rfl, effAddr_mod, BitVec.toNat_add,
      show (BitVec.ofNat 32 stackSize).toNat = 128 from rfl]
    cases sz <;> simp only [Size.bytes] at hoff ⊢ <;> omega

section
variable {size n : Nat} {P : Placement size} {code : Nat → BitVec 8} {M : Mem}
  {memLen : BitVec 32}

theorem pureReader_of_sealed (hA : Accepted code n size) (hs : Sealed code n) :
    PureReader P code M memLen := by
  have hw : ∀ s, VmReach P.host code M P.mem memLen s →
      ∀ o, opAt (defaultVm code) s = some o → o.writesMem = false := fun s h o ho =>
    (hA.passed _ (h.along hA hs).inside (h.along hA hs).checked).writesMem ho
  refine ⟨hw, fun s h a ha => ?_⟩
  refine Reach.inv (I := fun s => s.mem a = M a) h (if_neg (P.separate a ha)) ?_
  intro s s' hr hi hstep
  rw [vmStep_mem hstep (hw s hr), hi]

theorem loadSafe_of_sealed (hA : Accepted code n size) (hs : Sealed code n) :
    LoadSafe P code M memLen := by
  intro s h sz ho i hi
  have ha := h.along hA hs
  exact (hA.passed _ ha.inside ha.checked).load_within P M ho (ha.base hs ho) hi

theorem loadAligned_of_sealed (hA : Accepted code n size) (hs : Sealed code n) (hP : P.Aligned) :
    LoadAligned P code M memLen := by
  intro s h sz ho
  have ha := h.along hA hs
  exact (hA.passed _ ha.inside ha.checked).load_aligned hP M ho (ha.base hs ho) (ha.alignOk hs ho)

end

/-! ## Two runs -/

/-- Two states that a sealed program cannot tell apart: they differ at most in memory outside the
input memory and the stack. -/
structure SameView {size : Nat} (P : Placement size) (s t : State) : Prop where
  pc : t.pc = s.pc
  reg : t.reg = s.reg
  mem : ∀ a, Within a P.mem size ∨ Within a P.host.stack stackSize → t.mem a = s.mem a

section
variable {size n : Nat} {P : Placement size} {code : Nat → BitVec 8} {M M' : Mem}
  {memLen : BitVec 32} {s s' t : State}

theorem vmStep_reads {H : Host} {vm : EbpfVm} {mem : Addr} {s'' : State}
    (hc : opAt vm s ≠ some .call)
    (hM : ∀ a k, accessOf (vm.fetch s.pc) s (opAt vm s) = some (a, k) →
      ∀ b, Within b a k → M b = s.mem b)
    (h : vmStep H vm mem memLen s = .next s')
    (h' : vmStep H vm mem memLen { s with mem := M } = .next s'') :
    s''.reg = s'.reg ∧ s''.pc = s'.pc :=
  execOp_reads hc hM h h'

theorem SameView.eq_with (h : SameView P s t) : t = { s with mem := t.mem } := by
  obtain ⟨hpc, hreg, -⟩ := h
  cases t
  cases hpc
  cases hreg
  rfl

/-- What a step reads is in view. -/
theorem Along.access (h : Along P.host code M P.mem n s) (hA : Accepted code n size)
    (hs : Sealed code n) {a b : Addr} {k : Nat}
    (ha : accessOf ((defaultVm code).fetch s.pc) s (opAt (defaultVm code) s) = some (a, k))
    (hb : Within b a k) : Within b P.mem size ∨ Within b P.host.stack stackSize := by
  have hp := hA.passed _ h.inside h.checked
  cases ho : opAt (defaultVm code) s with
  | none => rw [ho] at ha; cases ha
  | some o =>
    rw [ho] at ha
    cases o with
    | ldx sz =>
      cases ha
      obtain ⟨i, hi, rfl⟩ := hb.exists_add
      exact hp.load_within P M ho (h.base hs ho) hi
    | st sz | stx sz => cases hp.writesMem ho
    | _ => cases ha

/-- A step of a sealed program that is no `EXIT` goes on. -/
theorem Along.next (h : Along P.host code M P.mem n s) (hA : Accepted code n size)
    (hs : Sealed code n) (ho : opAt (defaultVm code) s ≠ some .exit) :
    ∃ s', vmStep P.host (defaultVm code) P.mem memLen s = .next s' := by
  cases hstep : vmStep P.host (defaultVm code) P.mem memLen s with
  | next s' => exact ⟨s', rfl⟩
  | done r =>
    rcases vmStep_done hstep with ⟨he, -⟩ | ⟨-, hz | hc⟩
    · exact absurd he ho
    · rw [(stepOk_of_slotOk (h.slotOk hs)).div] at hz
      cases hz
    · exact absurd (Op.code_of_ofCode hc).symm (hA.passed _ h.inside h.checked).call

theorem SameView.step (h : SameView P s t) (hA : Accepted code n size) (hs : Sealed code n)
    (has : Along P.host code M P.mem n s) (hat : Along P.host code M' P.mem n t)
    (hstep : vmStep P.host (defaultVm code) P.mem memLen s = .next s') :
    ∃ t', vmStep P.host (defaultVm code) P.mem memLen t = .next t' ∧ SameView P s' t' := by
  have hop : opAt (defaultVm code) t = opAt (defaultVm code) s := by rw [opAt, opAt, h.pc]
  have hne : opAt (defaultVm code) s ≠ some .exit := by
    intro he
    rw [vmStep, show Op.ofCode _ = _ from he] at hstep
    cases hstep
  have hw : ∀ o, opAt (defaultVm code) s = some o → o.writesMem = false := fun o ho =>
    (hA.passed _ has.inside has.checked).writesMem ho
  obtain ⟨t', ht⟩ := @Along.next size n P code M' memLen t hat hA hs (hop ▸ hne)
  refine ⟨t', ht, ?_⟩
  have hmem : t'.mem = t.mem := vmStep_mem ht (hop ▸ hw)
  rw [h.eq_with] at ht
  have hcall : opAt (defaultVm code) s ≠ some .call := fun hc => by cases hw _ hc
  obtain ⟨hreg, hpc⟩ := vmStep_reads hcall
    (fun a k ha b hb => h.mem b (has.access hA hs ha hb)) hstep ht
  refine ⟨hpc, hreg, fun a ha => ?_⟩
  rw [hmem, vmStep_mem hstep hw]
  exact h.mem a ha

theorem SameView.run {k : Nat} {s1 : State} {v : BitVec 64} (h : SameView P s t)
    (hA : Accepted code n size) (hs : Sealed code n) (has : Along P.host code M P.mem n s)
    (hat : Along P.host code M' P.mem n t)
    (hrun : Machine.run (vmStep P.host (defaultVm code) P.mem memLen) k s = some (s1, .exit v)) :
    ∃ t1, Machine.run (vmStep P.host (defaultVm code) P.mem memLen) k t = some (t1, .exit v) := by
  induction k generalizing s t with
  | zero => cases hrun
  | succ k ih =>
    cases hstep : vmStep P.host (defaultVm code) P.mem memLen s with
    | next s' =>
      obtain ⟨t', ht, hview⟩ := h.step hA hs has hat hstep
      rw [run_next hstep] at hrun
      rw [run_next ht]
      exact ih hview (has.step hA hs hstep) (hat.step hA hs ht) hrun
    | done r =>
      rw [run_done hstep] at hrun
      cases hrun
      rcases vmStep_done hstep with ⟨he, hv⟩ | ⟨hne, -⟩
      · have hcode : ((defaultVm code).fetch t.pc).opcode = Op.exit.code := by
          rw [h.pc]
          exact (Op.code_of_ofCode he).symm
        refine ⟨t, ?_⟩
        rw [run_done (vmStep_of .exit rfl hcode), hv, ← h.reg]
        rfl
      · exact absurd rfl (hne v)

/-- **What a sealed program returns depends on its input memory only.** -/
theorem exec_congr_of_sealed (hA : Accepted code n size) (hs : Sealed code n)
    (hM : ∀ a, Within a P.mem size → M' a = M a) {k : Nat} {s1 : State} {v : BitVec 64}
    (h : ebpfVmExec P.host (defaultVm code) k M P.mem memLen = some (s1, .exit v)) :
    ∃ t1, ebpfVmExec P.host (defaultVm code) k M' P.mem memLen = some (t1, .exit v) := by
  have hview : SameView P (initState P.host M P.mem) (initState P.host M' P.mem) := by
    refine ⟨rfl, rfl, fun a ha => ?_⟩
    simp only [initState]
    split
    · rfl
    · exact hM a (ha.resolve_right ‹_›)
  exact hview.run hA hs (along_init hA) (along_init hA) h

end

/-- **Safety from the bytecode**: a sealed program that the verifier accepts ends in an `EXIT`
within its length, fetches only slots that the verifier looked at, writes nothing, and loads only
from the input memory and the stack, whatever the memory and wherever the two lie; where they are
aligned, so is every load. -/
theorem safe_of_sealed {size : Nat} (P : Placement size) (M : Mem) (memLen : BitVec 32)
    {code : Nat → BitVec 8} {len : BitVec 32} (h : ifwVerifyPolicy (some code) len size = 0)
    (hs : Sealed code (len.toNat / 8)) :
    ControlSafe P.host code M P.mem memLen (len.toNat / 8) ∧ PureReader P code M memLen ∧
      LoadSafe P code M memLen ∧ (P.Aligned → LoadAligned P code M memLen) :=
  ⟨controlSafe_of_sealed (accepted_of h) hs, pureReader_of_sealed (accepted_of h) hs,
    loadSafe_of_sealed (accepted_of h) hs, loadAligned_of_sealed (accepted_of h) hs⟩

/-- `LDXW r1, [r1+4]; MOV64 r0, 1; JNE r1, 0, +1; MOV64 r0, 0; EXIT`: the base register is
overwritten by the last load from it. -/
def readSecond : Nat → BitVec 8 :=
  codeBytes [0x61, 0x11, 4, 0, 0, 0, 0, 0, 0xb7, 0, 0, 0, 1, 0, 0, 0, 0x55, 1, 1, 0, 0, 0, 0, 0,
    0xb7, 0, 0, 0, 0, 0, 0, 0, 0x95, 0, 0, 0, 0, 0, 0, 0] fun _ => 0

theorem safe_of_sealed_readSecond :
    ifwVerifyPolicy (some readSecond) 40 120 = 0 ∧ Sealed readSecond 5 ∧
      ControlSafe ramHost readSecond (fun _ => 0) 0x20000000 64 5 ∧
      PureReader (ramPlacement 120 (by decide)) readSecond (fun _ => 0) 64 ∧
      LoadSafe (ramPlacement 120 (by decide)) readSecond (fun _ => 0) 64 ∧
      LoadAligned (ramPlacement 120 (by decide)) readSecond (fun _ => 0) 64 := by
  have h : ifwVerifyPolicy (some readSecond) 40 120 = 0 := by decide
  have hs : Sealed readSecond 5 := by decide
  obtain ⟨hc, hp, hl, ha⟩ :=
    safe_of_sealed (ramPlacement 120 (by decide)) (fun _ => 0) 64 h hs
  exact ⟨h, hs, hc, hp, hl, ha ⟨by decide, by decide⟩⟩

end BlueSwat.Ebpf
