import BlueSwat.Ebpf.Proof.ControlFlow
import BlueSwat.Ebpf.Proof.Isa

/-!
# The bounds check of the interpreter

What `bounds_check` is for: with `bounds_check_enabled`, a load or store stays in the input memory
or in the VM stack, one that would not returns -1, and one that does is let through (`Sandboxed`).
The code tests something else: it adds `size` and `mem_len` to `u64 *` pointers, so that both count
words of eight bytes, its sums wrap, and the stores test the address `SRC + offset` while they
write to `DST + offset`. `sandboxed_iff` states when the two agree.
-/

set_option autoImplicit false

namespace BlueSwat.Ebpf

open Machine Bytes

def CallFree (vm : EbpfVm) : Prop := ∀ pc, Op.ofCode (vm.fetch pc).opcode ≠ some .call

/-- The bytes an instruction loads or stores: where, and how many. -/
def accessOf (inst : EbpfInst) (s : State) : Option Op → Option (Addr × Nat)
  | some (.ldx size) => some (effAddr (s.reg inst.src) inst.offset, size.bytes)
  | some (.st size) | some (.stx size) =>
    some (effAddr (s.reg inst.dst) inst.offset, size.bytes)
  | _ => none

section
variable (H : Host) (mem : Addr) (memLen : BitVec 32)

/-- `a` is a byte of `[mem, mem + mem_len)` or of the stack. -/
def InSandbox (a : Addr) : Prop := Within a mem memLen.toNat ∨ Within a H.stack stackSize

/-- The `n` bytes at `a` are inside one of the two. -/
def Inside (a : Addr) (n : Nat) : Prop :=
  (∀ i < n, Within (a + BitVec.ofNat 32 i) mem memLen.toNat) ∨
    ∀ i < n, Within (a + BitVec.ofNat 32 i) H.stack stackSize

/-- The `8 * n` bytes at `a` are below the end of `8 * mem_len` bytes at `mem`, or of
`8 * STACK_SIZE` bytes at the stack, in 32-bit arithmetic. -/
def Scaled (a : Addr) (n : Nat) : Prop :=
  (mem ≠ 0 ∧ mem ≤ a ∧ a + BitVec.ofNat 32 (8 * n) ≤ mem + 8 * memLen) ∨
    (H.stack ≤ a ∧ a + BitVec.ofNat 32 (8 * n) ≤ H.stack + BitVec.ofNat 32 (8 * stackSize))

instance (a : Addr) (n : Nat) : Decidable (Inside H mem memLen a n) :=
  inferInstanceAs (Decidable (_ ∨ _))

instance (a : Addr) (n : Nat) : Decidable (Scaled H mem memLen a n) :=
  inferInstanceAs (Decidable (_ ∨ _))

variable (vm : EbpfVm)

/-- **The sandbox**: a step in `s` writes and reads only bytes of the sandbox, an access that is not
inside returns -1, and one that is inside is performed. -/
structure Sandboxed (s : State) : Prop where
  writes : ∀ s', vmStep H vm mem memLen s = .next s' →
    ∀ a, s'.mem a ≠ s.mem a → InSandbox H mem memLen a
  reads : ∀ M : Mem, (∀ a, InSandbox H mem memLen a → M a = s.mem a) →
    ∀ s' s'', vmStep H vm mem memLen s = .next s' →
      vmStep H vm mem memLen { s with mem := M } = .next s'' → s''.reg = s'.reg ∧ s''.pc = s'.pc
  outside : ∀ a n, accessOf (vm.fetch s.pc) s (opAt vm s) = some (a, n) →
    ¬ Inside H mem memLen a n → vmStep H vm mem memLen s = .done .fail
  inside : ∀ a n, accessOf (vm.fetch s.pc) s (opAt vm s) = some (a, n) →
    Inside H mem memLen a n → ∃ s', vmStep H vm mem memLen s = .next s'

end

section
variable {H : Host} {mem : Addr} {memLen : BitVec 32} {vm : EbpfVm} {inst : EbpfInst}
  {s s' : State} {op : Option Op} {a : Addr} {n : Nat}

theorem Inside.inSandbox (h : Inside H mem memLen a n) {b : Addr} (hb : Within b a n) :
    InSandbox H mem memLen b := by
  obtain ⟨i, hi, rfl⟩ := hb.exists_add
  exact h.imp (fun h => h i hi) fun h => h i hi

theorem boundsCheck_iff (hb : vm.boundsCheckEnabled = true) :
    boundsCheck vm a n mem memLen H.stack = true ↔ Scaled H mem memLen a n := by
  simp only [boundsCheck, hb, Bool.not_true, Bool.false_eq_true, if_false, Scaled,
    BitVec.ule_iff_le]
  split
  · next h => exact ⟨fun _ => .inl h, fun _ => rfl⟩
  · next h =>
    rw [Bool.and_eq_true, BitVec.ule_iff_le, BitVec.ule_iff_le]
    exact ⟨.inr, fun h' => h'.resolve_left h⟩

/-- Where nothing wraps, the scaled test passes for every address that is inside: a load errs on
the other side only. -/
theorem Inside.scaled {size : Size} (hmem : mem ≠ 0) (hm : mem.toNat + 8 * memLen.toNat < 2 ^ 32)
    (hs : H.stack.toNat + 8 * stackSize < 2 ^ 32) (h : Inside H mem memLen a size.bytes) :
    Scaled H mem memLen a size.bytes := by
  have hn : 0 < size.bytes ∧ size.bytes ≤ 8 := by cases size <;> decide
  have hend : ∀ {base : Addr} {len : Nat}, base.toNat + 8 * len < 2 ^ 32 →
      (∀ i < size.bytes, Within (a + BitVec.ofNat 32 i) base len) →
      base.toNat ≤ a.toNat ∧ a.toNat + 8 * size.bytes ≤ base.toNat + 8 * len := by
    intro base len hb hw
    have h0 := hw 0 hn.1
    have h1 := hw (size.bytes - 1) (by omega)
    have ha := a.isLt
    simp only [Within, BitVec.toNat_sub, BitVec.toNat_add, BitVec.toNat_ofNat] at h0 h1
    omega
  rcases h with h | h
  · have := hend hm h
    have h8 : BitVec.toNat (8 : BitVec 32) = 8 := rfl
    refine .inl ⟨hmem, BitVec.le_def.mpr this.1, BitVec.le_def.mpr ?_⟩
    simp only [BitVec.toNat_add, BitVec.toNat_mul, BitVec.toNat_ofNat, h8]
    omega
  · have := hend hs h
    refine .inr ⟨BitVec.le_def.mpr this.1, BitVec.le_def.mpr ?_⟩
    simp only [BitVec.toNat_add, BitVec.toNat_ofNat]
    omega

/-! ## What a step touches -/

theorem checked_pass {size : Size} {k : State}
    (h : boundsCheck vm (effAddr (s.reg inst.src) inst.offset) size.bytes mem memLen
      H.stack = true) :
    checked H vm mem memLen inst s size k = .next k := if_pos h

theorem checked_refuse {size : Size} {k : State}
    (h : boundsCheck vm (effAddr (s.reg inst.src) inst.offset) size.bytes mem memLen
      H.stack ≠ true) :
    checked H vm mem memLen inst s size k = .done .fail := if_neg h

/-- A step with an access is let through exactly when the test of `SRC + offset` passes. -/
theorem execOp_access (hb : vm.boundsCheckEnabled = true) (ha : accessOf inst s op = some (a, n)) :
    (Scaled H mem memLen (effAddr (s.reg inst.src) inst.offset) n ∧
        ∃ s', execOp H vm mem memLen inst (s.jump 1) op = .next s') ∨
      (¬ Scaled H mem memLen (effAddr (s.reg inst.src) inst.offset) n ∧
        execOp H vm mem memLen inst (s.jump 1) op = .done .fail) := by
  obtain ⟨size, k, hn, hx⟩ : ∃ size k, n = size.bytes ∧
      execOp H vm mem memLen inst (s.jump 1) op = checked H vm mem memLen inst s size k := by
    unfold accessOf at ha
    split at ha <;> cases ha <;> exact ⟨_, _, rfl, rfl⟩
  rw [hx, hn, ← boundsCheck_iff hb]
  by_cases h : boundsCheck vm (effAddr (s.reg inst.src) inst.offset) size.bytes mem memLen H.stack
  · exact .inl ⟨h, k, checked_pass h⟩
  · exact .inr ⟨h, checked_refuse h⟩

/-- A byte that a step changes is one of its access. -/
theorem execOp_writes (hc : op ≠ some .call)
    (h : execOp H vm mem memLen inst (s.jump 1) op = .next s') {b : Addr}
    (hb : s'.mem b ≠ s.mem b) :
    ∃ a n, accessOf inst s op = some (a, n) ∧ Within b a n := by
  by_cases hw : ∀ o, op = some o → o.writesMem = false
  · exact absurd (congrFun (execOp_mem h hw) b) hb
  · obtain ⟨o, rfl, ho⟩ : ∃ o, op = some o ∧ o.writesMem = true := by
      simpa using hw
    cases o with
    | st size | stx size =>
      refine ⟨_, _, rfl, Classical.byContradiction fun hn => hb ?_⟩
      rw [checked_next h]
      exact write_of_not_within hn
    | call => exact absurd rfl hc
    | _ => cases ho

/-- The registers after a step depend on the memory only at the bytes of its access. -/
theorem execOp_reads (hc : op ≠ some .call) {M : Mem} {s'' : State}
    (hM : ∀ a n, accessOf inst s op = some (a, n) → ∀ b, Within b a n → M b = s.mem b)
    (h : execOp H vm mem memLen inst (s.jump 1) op = .next s')
    (h' : execOp H vm mem memLen inst ({ s with mem := M }.jump 1) op = .next s'') :
    s''.reg = s'.reg ∧ s''.pc = s'.pc := by
  cases op with
  | none => cases h; cases h'; exact ⟨rfl, rfl⟩
  | some op =>
    cases op with
    | ldx size =>
      rw [checked_next h, checked_next h']
      refine ⟨?_, rfl⟩
      have e : read M (effAddr (s.reg inst.src) inst.offset) size.bytes =
          read s.mem (effAddr (s.reg inst.src) inst.offset) size.bytes :=
        read_congr fun i hi => hM _ _ rfl _ (within_add hi)
      simp only [State.set, State.jump, e]
    | st size | stx size =>
      rw [checked_next h, checked_next h']
      exact ⟨rfl, rfl⟩
    | alu32 op form | alu64 op form =>
      simp only [execOp, State.alu, State.jump] at h h'
      split at h <;> split at h' <;> cases h <;> cases h'
      simp_all [State.set]
    | jcond c form =>
      simp only [execOp, Outcome.next.injEq] at h h'
      subst h h'
      by_cases ht : c.holds form (s.reg inst.dst) (s.reg inst.src) inst.imm <;>
        simp [State.jump, ht]
    | call => exact absurd rfl hc
    | exit => cases h
    | lddw =>
      simp only [execOp, Outcome.next.injEq] at h h'
      subst h h'
      exact ⟨rfl, rfl⟩
    | _ => cases h; cases h'; exact ⟨rfl, rfl⟩

end

/-- **The bounds check as a sandbox**: with the check enabled, a `CALL`-free program is sandboxed in
a state exactly when the scaled test of `SRC + offset` passes for the accesses that are inside and
for no others. -/
theorem sandboxed_iff (H : Host) {vm : EbpfVm} (mem : Addr) (memLen : BitVec 32) (s : State)
    (hb : vm.boundsCheckEnabled = true) (hc : CallFree vm) :
    Sandboxed H mem memLen vm s ↔
      ∀ a n, accessOf (vm.fetch s.pc) s (opAt vm s) = some (a, n) →
        (Scaled H mem memLen
            (effAddr (s.reg (vm.fetch s.pc).src) (vm.fetch s.pc).offset) n ↔
          Inside H mem memLen a n) := by
  constructor
  · intro hs a n ha
    rcases execOp_access hb ha with ⟨ht, s', hn⟩ | ⟨ht, hf⟩
    · refine iff_of_true ht (Classical.byContradiction fun hout => ?_)
      exact absurd ((hs.outside a n ha hout).symm.trans hn) (by simp)
    · refine iff_of_false ht fun hin => ?_
      obtain ⟨s', hn⟩ := hs.inside a n ha hin
      exact absurd (hn.symm.trans hf) (by simp)
  · intro h
    -- a step that is performed has its access inside
    have hin : ∀ s' a n, vmStep H vm mem memLen s = .next s' →
        accessOf (vm.fetch s.pc) s (opAt vm s) = some (a, n) → Inside H mem memLen a n := by
      intro s' a n hn ha
      rcases execOp_access hb ha with ⟨ht, -⟩ | ⟨-, hf⟩
      · exact (h a n ha).mp ht
      · exact absurd (hn.symm.trans hf) (by simp)
    refine ⟨fun s' hn b hne => ?_, fun M hM s' s'' hn hn' => ?_, fun a n ha hout => ?_,
      fun a n ha hi => ?_⟩
    · obtain ⟨a, n, ha, hw⟩ := execOp_writes (hc s.pc) hn hne
      exact (hin s' a n hn ha).inSandbox hw
    · exact execOp_reads (hc s.pc) (fun a n ha b hw =>
        hM b ((hin s' a n hn ha).inSandbox hw)) hn hn'
    · rcases execOp_access hb ha with ⟨ht, -⟩ | ⟨-, hf⟩
      · exact absurd ((h a n ha).mp ht) hout
      · exact hf
    · rcases execOp_access hb ha with ⟨-, hn⟩ | ⟨ht, -⟩
      · exact hn
      · exact absurd ((h a n ha).mpr hi) ht

/-- A program of one instruction, run with the bounds check. -/
def boundedVm (bytes : List (BitVec 8)) : EbpfVm where
  insts := codeBytes bytes fun _ => 0
  boundsCheckEnabled := true
  helperFunc := fun _ _ _ => none

theorem callFree_boundedVm {b : BitVec 8} {rest : List (BitVec 8)} (hlen : rest.length = 7)
    (hb : b ≠ Op.call.code) : CallFree (boundedVm (b :: rest)) := by
  intro pc hcall
  have hc : codeBytes (b :: rest) (fun _ => 0) (8 * pc.toNat) = Op.call.code :=
    (Op.code_of_ofCode hcall).symm
  by_cases hp : pc.toNat = 0
  · rw [hp] at hc
    exact hb hc
  · -- behind the instruction the bytes are zero
    rw [codeBytes, List.getElem?_eq_none (by simp only [List.length_cons]; omega)] at hc
    exact absurd hc (by decide)

/-- `LDXB r0, [r1+3]` with `r1 = mem` and `mem_len = 4`. -/
theorem sandboxed_lastByte :
    CallFree (boundedVm [0x71, 0x10, 3, 0, 0, 0, 0, 0]) ∧
      Sandboxed ramHost 0x20000000 4 (boundedVm [0x71, 0x10, 3, 0, 0, 0, 0, 0])
        (regState 0 0x20000000) := by
  have hc : CallFree (boundedVm [0x71, 0x10, 3, 0, 0, 0, 0, 0]) :=
    callFree_boundedVm rfl (by decide)
  refine ⟨hc, (sandboxed_iff ramHost 0x20000000 4 (regState 0 0x20000000) rfl hc).mpr ?_⟩
  rintro a n ⟨⟩
  decide

/-- With `mem_len = 4`: `LDXB r0, [r1+4]` reads the byte behind the memory; `STXB [r0+0], r1` with
`r0 = 0` and `r1 = mem + 1` writes to address 0; `STB [r0+0], 1` with `r0 = mem` and `r1 = 0` as its
`src` is refused. -/
theorem boundsCheck_leaks :
    ((∃ s', vmStep ramHost (boundedVm [0x71, 0x10, 4, 0, 0, 0, 0, 0]) 0x20000000 4
        (regState 0 0x20000000) = .next s') ∧ ¬ Inside ramHost 0x20000000 4 0x20000004 1) ∧
      ((∃ s', vmStep ramHost (boundedVm [0x73, 0x10, 0, 0, 0, 0, 0, 0]) 0x20000000 4
          (regState 0 0x20000001) = .next s' ∧ s'.mem 0 = 1) ∧
        ¬ Inside ramHost 0x20000000 4 0 1) ∧
      vmStep ramHost (boundedVm [0x72, 0x10, 0, 0, 1, 0, 0, 0]) 0x20000000 4
          (regState 0x20000000 0) = .done .fail ∧
        Inside ramHost 0x20000000 4 0x20000000 1 :=
  ⟨⟨⟨_, (vmStep_of (.ldx .b) rfl rfl).trans (checked_pass (by decide))⟩, by decide⟩,
    ⟨⟨_, (vmStep_of (.stx .b) rfl rfl).trans (checked_pass (by decide)), by decide⟩, by decide⟩,
    (vmStep_of (.st .b) rfl rfl).trans (checked_refuse (by decide)), by decide⟩

end BlueSwat.Ebpf
