import BlueSwat.Ebpf.Proof.Verify

/-!
# Control flow of verified programs

A program that `ifw_verify_policy` accepts can still leave the slots the verifier looked at. Its
loop asks for some `EXIT` somewhere, so the last instruction may fall off the end of the program,
and it moves over the second slot of an `LDDW`, which a jump may target. `controlSafe_iff` says
that these two, and the divisions by zero it leaves to the interpreter, are the only ways:
`ControlSafe` holds of a run exactly when every step of it is `StepOk`.

The argument: in a visited slot of an accepted program a step goes to a larger slot, and, if it is
`StepOk`, to a visited slot inside the program (`step_forward`). So the distance to the end is a
measure that bounds the run (`Machine.run_of_measure`).
-/

set_option autoImplicit false

namespace BlueSwat.Ebpf

open Machine

section
variable (H : Host) (code : Nat → BitVec 8) (M : Mem) (mem : Addr) (memLen : BitVec 32)

/-- The states the interpreter passes through on `code`. -/
def VmReach (s : State) : Prop :=
  Reach (vmStep H (defaultVm code) mem memLen) (initState H M mem) s

/-- **Control-flow safety** of the run on a program of `n` slots: only slots of the program that
the verifier looked at are fetched, and an `EXIT` is reached within `n` instructions. -/
structure ControlSafe (n : Nat) : Prop where
  inside : ∀ s, VmReach H code M mem memLen s →
    s.pc.toNat < n ∧ visited code s.pc.toNat = true
  exits : ∃ s v, ebpfVmExec H (defaultVm code) n M mem memLen = some (s, .exit v)

end

/-- The condition on a state of the run, before its step: a jump that is taken does not land on
the second slot of an `LDDW`, the last instruction of the program is executed only as an `EXIT`,
and no divisor is zero. -/
structure StepOk (code : Nat → BitVec 8) (n : Nat) (s : State) : Prop where
  jump : ∀ t, jumpTarget ((defaultVm code).fetch s.pc) s (opAt (defaultVm code) s) = some t →
    visited code t.toNat = true
  last : nextSlot code s.pc.toNat = n → opAt (defaultVm code) s = some .exit
  div : zeroDivisor ((defaultVm code).fetch s.pc) s (opAt (defaultVm code) s) = false

/-! ## One step -/

section
variable {H : Host} {code : Nat → BitVec 8} {M : Mem} {mem : Addr} {memLen : BitVec 32}
  {n memSize : Nat} {s s' : State}

theorem jumpTarget_some {inst : EbpfInst} {op : Option Op} {t : BitVec 16}
    (h : jumpTarget inst s op = some t) :
    t = s.pc + 1 + inst.offset ∧ ∃ o, op = some o ∧ (o = .ja ∨ ∃ c f, o = .jcond c f) := by
  unfold jumpTarget at h
  split at h
  · cases h
    exact ⟨rfl, _, rfl, .inl rfl⟩
  · rename_i c f
    split at h
    · cases h
      exact ⟨rfl, _, rfl, .inr ⟨c, f, rfl⟩⟩
    · cases h
  · cases h

theorem isLddw_iff : isLddw code s.pc.toNat = true ↔ opAt (defaultVm code) s = some .lddw := by
  rw [opAt, Op.ofCode_eq_some]
  exact beq_iff_eq

theorem toNat_add_slots (h : s.pc.toNat < n) (hn : n ≤ ifwRuntimeMaxInsts) :
    (s.pc + slots (opAt (defaultVm code) s)).toNat = nextSlot code s.pc.toNat := by
  unfold ifwRuntimeMaxInsts at hn
  rw [BitVec.toNat_add, nextSlot]
  by_cases ho : opAt (defaultVm code) s = some .lddw
  · rw [if_pos (isLddw_iff.2 ho), ho]
    show (s.pc.toNat + 2) % 2 ^ 16 = _
    omega
  · rw [if_neg (mt isLddw_iff.1 ho)]
    have : slots (opAt (defaultVm code) s) = 1 := by
      unfold slots
      split
      · rename_i h'; exact absurd h' ho
      · rfl
    rw [this]
    show (s.pc.toNat + 1) % 2 ^ 16 = _
    omega

/-- A jump in a visited slot goes forward and stays in the program. -/
theorem toNat_jumpTarget (hA : Accepted code n memSize) (hpc : s.pc.toNat < n)
    (hv : visited code s.pc.toNat = true) {t : BitVec 16}
    (hj : jumpTarget ((defaultVm code).fetch s.pc) s (opAt (defaultVm code) s) = some t) :
    s.pc.toNat < t.toNat ∧ t.toNat < n := by
  obtain ⟨rfl, o, ho, hjmp⟩ := jumpTarget_some hj
  have hcode : (instAt code s.pc.toNat).opcode = o.code := (Op.code_of_ofCode ho).symm
  have hne : (instAt code s.pc.toNat).opcode ≠ Op.exit.code := by
    intro he
    have : some o = some Op.exit := by rw [← ho, ← Op.ofCode_code .exit, ← he]; rfl
    rcases hjmp with rfl | ⟨c, f, rfl⟩ <;> cases this
  obtain ⟨h0, h1⟩ := (hA.passed _ hpc hv).jump hne (by rw [hcode, Op.code_jmp o hjmp])
  show s.pc.toNat < (s.pc + 1 + (instAt code s.pc.toNat).offset).toNat ∧
    (s.pc + 1 + (instAt code s.pc.toNat).offset).toNat < n
  have hn : n ≤ 64 := hA.le
  have hi := BitVec.toInt_eq_toNat_cond (instAt code s.pc.toNat).offset
  simp only [BitVec.toNat_add, show (1 : BitVec 16).toNat = 1 from rfl]
  split at hi <;> omega

theorem nextSlot_le_jumpTarget (hA : Accepted code n memSize) (hpc : s.pc.toNat < n)
    (hv : visited code s.pc.toNat = true) {t : BitVec 16}
    (hj : jumpTarget ((defaultVm code).fetch s.pc) s (opAt (defaultVm code) s) = some t) :
    nextSlot code s.pc.toNat ≤ t.toNat := by
  have hgt := (toNat_jumpTarget hA hpc hv hj).1
  obtain ⟨-, o, ho, hjmp⟩ := jumpTarget_some hj
  -- a jump is no `LDDW`, so it has one slot
  have hl : isLddw code s.pc.toNat = false := by
    rw [← Bool.not_eq_true, isLddw_iff, ho]
    rcases hjmp with rfl | ⟨c, f, rfl⟩ <;> simp
  simp only [nextSlot, hl, Bool.false_eq_true, if_false]
  omega

/-- **A step of a verified program goes forward**, from a visited slot to a visited slot of the
program. -/
theorem step_forward (hA : Accepted code n memSize) (hpc : s.pc.toNat < n)
    (hv : visited code s.pc.toNat = true) (hok : StepOk code n s)
    (h : vmStep H (defaultVm code) mem memLen s = .next s') :
    s.pc.toNat < s'.pc.toNat ∧ s'.pc.toNat < n ∧ visited code s'.pc.toNat = true := by
  have hp := hA.passed _ hpc hv
  rw [vmStep_pc h]
  cases hj : jumpTarget ((defaultVm code).fetch s.pc) s (opAt (defaultVm code) s) with
  | none =>
    rw [Option.getD_none, toNat_add_slots hpc hA.le]
    have hgt : s.pc.toNat < nextSlot code s.pc.toNat := by unfold nextSlot; split <;> omega
    have hle : nextSlot code s.pc.toNat ≤ n := by
      unfold nextSlot
      split
      · rename_i hl
        have := hp.lddw (by simpa [isLddw] using hl)
        omega
      · omega
    have hne : nextSlot code s.pc.toNat ≠ n := by
      intro he
      have ho := hok.last he
      rw [vmStep, show Op.ofCode _ = _ from ho] at h
      cases h
    exact ⟨hgt, by omega, visited_nextSlot hv⟩
  | some t =>
    obtain ⟨h1, h2⟩ := toNat_jumpTarget hA hpc hv hj
    exact ⟨h1, h2, hok.jump _ hj⟩

theorem vmStep_jump (H : Host) (mem : Addr) (memLen : BitVec 32) {vm : EbpfVm} {t : BitVec 16}
    (h : jumpTarget (vm.fetch s.pc) s (opAt vm s) = some t) :
    ∃ s', vmStep H vm mem memLen s = .next s' ∧ s'.pc = t := by
  obtain ⟨-, o, ho, hjmp⟩ := jumpTarget_some h
  have hs : ∃ s', vmStep H vm mem memLen s = .next s' := by
    rw [vmStep, show Op.ofCode _ = _ from ho]
    rcases hjmp with rfl | ⟨c, f, rfl⟩ <;> exact ⟨_, rfl⟩
  obtain ⟨s', hs⟩ := hs
  exact ⟨s', hs, by rw [vmStep_pc hs, h]; rfl⟩

/-! ## Whole runs -/

theorem VmReach.inside (hA : Accepted code n memSize)
    (hok : ∀ s, VmReach H code M mem memLen s → StepOk code n s)
    (h : VmReach H code M mem memLen s) : s.pc.toNat < n ∧ visited code s.pc.toNat = true :=
  Reach.inv (I := fun s => s.pc.toNat < n ∧ visited code s.pc.toNat = true) h ⟨hA.pos, rfl⟩
    fun a _ hr ha hs => (step_forward hA ha.1 ha.2 (hok a hr) hs).2

/-- A run whose steps are `StepOk` reaches an `EXIT` within the length of the program. -/
theorem exits_of_stepOk (hA : Accepted code n memSize)
    (hok : ∀ s, VmReach H code M mem memLen s → StepOk code n s) :
    ∃ s v, ebpfVmExec H (defaultVm code) n M mem memLen = some (s, .exit v) := by
  -- the distance to the end of the program is the measure
  obtain ⟨s, r, hr⟩ := run_of_measure (vmStep H (defaultVm code) mem memLen)
    (I := VmReach H code M mem memLen) (fun s => n - s.pc.toNat)
    (fun a ha => by have := (ha.inside hA hok).1; omega)
    (fun a b ha hs => by
      obtain ⟨h1, h2⟩ := ha.inside hA hok
      have := step_forward hA h1 h2 (hok a ha) hs
      exact ⟨ha.tail hs, by omega⟩)
    (Reach.refl (initState H M mem))
  obtain ⟨hs, hd⟩ := run_reach hr
  obtain ⟨h1, h2⟩ := VmReach.inside hA hok hs
  rcases vmStep_done hd with ⟨-, rfl⟩ | ⟨-, hz | hc⟩
  · exact ⟨s, _, hr⟩
  · rw [(hok s hs).div] at hz
    cases hz
  · exact absurd (Op.code_of_ofCode hc).symm (hA.passed _ h1 h2).call

theorem ControlSafe.stepOk (hA : Accepted code n memSize)
    (hsafe : ControlSafe H code M mem memLen n) (h : VmReach H code M mem memLen s) :
    StepOk code n s := by
  obtain ⟨s1, v, hex⟩ := hsafe.exits
  -- the run has one end, so a state that stops stops with an `EXIT`
  have hend : ∀ r, vmStep H (defaultVm code) mem memLen s = .done r → r = .exit v := fun r hd =>
    (Prod.mk.inj (run_unique hex h hd)).2.symm
  obtain ⟨hpc, hv⟩ := hsafe.inside s h
  refine ⟨fun t ht => ?_, fun hlast => ?_, ?_⟩
  · obtain ⟨s', hs, rfl⟩ := vmStep_jump H mem memLen ht
    exact (hsafe.inside s' (h.tail hs)).2
  · cases hs : vmStep H (defaultVm code) mem memLen s with
    | done r =>
      rcases vmStep_done hs with ⟨ho, -⟩ | ⟨hne, -⟩
      · exact ho
      · exact absurd (hend r hs) (hne v)
    | next s' =>
      have hpc' := (hsafe.inside s' (h.tail hs)).1
      rw [vmStep_pc hs] at hpc'
      cases hj : jumpTarget ((defaultVm code).fetch s.pc) s (opAt (defaultVm code) s) with
      | none =>
        rw [hj, Option.getD_none, toNat_add_slots hpc hA.le] at hpc'
        omega
      | some t =>
        have hlt := (toNat_jumpTarget hA hpc hv hj).2
        have hle := nextSlot_le_jumpTarget hA hpc hv hj
        omega
  · rw [← Bool.not_eq_true]
    intro hz
    obtain ⟨r, hr, hne⟩ := vmStep_zeroDivisor H mem memLen hz
    exact hne v (hend r hr)

end

/-- **Control-flow safety of verified programs**: a run of an accepted program is control-flow
safe exactly when each of its steps is `StepOk`. -/
theorem controlSafe_iff (H : Host) (M : Mem) (mem : Addr) (memLen : BitVec 32)
    {code : Nat → BitVec 8} {len : BitVec 32} {memSize : Nat}
    (h : ifwVerifyPolicy (some code) len memSize = 0) :
    ControlSafe H code M mem memLen (len.toNat / 8) ↔
      ∀ s, VmReach H code M mem memLen s → StepOk code (len.toNat / 8) s :=
  ⟨fun hsafe _ hs => hsafe.stepOk (accepted_of h) hs,
    fun hok => ⟨fun _ hs => hs.inside (accepted_of h) hok, exits_of_stepOk (accepted_of h) hok⟩⟩

/-- A stack in RAM, above the addresses used for the input memory below. -/
def ramHost : Host where
  stack := 0x20001000
  wildShift := fun _ _ _ _ => 0

/-- `JEQ r1, 0, +2; LDDW r0, 0x100000002; EXIT`: the jump moves over both slots of the `LDDW`. -/
def overLddw : Nat → BitVec 8 :=
  codeBytes [0x15, 1, 2, 0, 0, 0, 0, 0, 0x18, 0, 0, 0, 2, 0, 0, 0, 0, 0, 0, 0, 1, 0, 0, 0,
    0x95, 0, 0, 0, 0, 0, 0, 0] fun _ => 0

theorem overLddw_pc {H : Host} {M : Mem} {mem : Addr} {memLen : BitVec 32} {s : State}
    (h : VmReach H overLddw M mem memLen s) : s.pc = 0 ∨ s.pc = 1 ∨ s.pc = 3 := by
  refine Reach.inv (I := fun s => s.pc = 0 ∨ s.pc = 1 ∨ s.pc = 3) h (.inl rfl) ?_
  intro s s' _ hpc hs
  rw [vmStep_pc hs]
  rcases hpc with hpc | hpc | hpc
  · cases hj : jumpTarget ((defaultVm overLddw).fetch s.pc) s (opAt (defaultVm overLddw) s) with
    | none =>
      rw [opAt, hpc]
      exact .inr (.inl rfl)
    | some t =>
      rw [(jumpTarget_some hj).1, hpc]
      exact .inr (.inr rfl)
  · rw [opAt, hpc]
    exact .inr (.inr rfl)
  · rw [vmStep, hpc, show Op.ofCode ((defaultVm overLddw).fetch 3).opcode = some .exit from rfl]
      at hs
    cases hs

theorem overLddw_stepOk {H : Host} {M : Mem} {mem : Addr} {memLen : BitVec 32} {s : State}
    (h : VmReach H overLddw M mem memLen s) : StepOk overLddw 4 s := by
  rcases overLddw_pc h with hpc | hpc | hpc
  · refine ⟨fun t ht => ?_, fun hl => ?_, by rw [opAt, hpc]; rfl⟩
    · rw [(jumpTarget_some ht).1, hpc]
      decide
    · rw [hpc] at hl
      exact absurd hl (by decide)
  · refine ⟨fun t ht => ?_, fun hl => ?_, by rw [opAt, hpc]; rfl⟩
    · rw [opAt, hpc] at ht
      cases ht
    · rw [hpc] at hl
      exact absurd hl (by decide)
  · refine ⟨fun t ht => ?_, fun _ => by rw [opAt, hpc]; rfl, by rw [opAt, hpc]; rfl⟩
    rw [opAt, hpc] at ht
    cases ht

/-- The program is safe for either outcome of its jump. -/
theorem controlSafe_overLddw :
    ifwVerifyPolicy (some overLddw) 32 120 = 0 ∧
      ControlSafe ramHost overLddw (fun _ => 0) 0x20000000 64 4 ∧
      ControlSafe ramHost overLddw (fun _ => 0) 0 64 4 := by
  have hA : ifwVerifyPolicy (some overLddw) 32 120 = 0 := by decide
  exact ⟨hA, (controlSafe_iff _ _ _ _ hA).2 fun _ => overLddw_stepOk,
    (controlSafe_iff _ _ _ _ hA).2 fun _ => overLddw_stepOk⟩

/-- `JA +1; EXIT; MOV64 r0, 0`: the jump moves over the only `EXIT`. -/
def fallsOff : Nat → BitVec 8 :=
  codeBytes [0x05, 0, 1, 0, 0, 0, 0, 0, 0x95, 0, 0, 0, 0, 0, 0, 0, 0xb7, 0, 0, 0, 0, 0, 0, 0]
    fun _ => 0

/-- The verifier accepts a program that runs past its last instruction. -/
theorem fallsOff_not_controlSafe :
    ifwVerifyPolicy (some fallsOff) 24 120 = 0 ∧
      (∃ s, VmReach ramHost fallsOff (fun _ => 0) 0x20000000 64 s ∧ s.pc = 3) ∧
      ¬ ControlSafe ramHost fallsOff (fun _ => 0) 0x20000000 64 3 := by
  have h3 : ∃ s, VmReach ramHost fallsOff (fun _ => 0) 0x20000000 64 s ∧ s.pc = 3 :=
    ⟨_, ((Reach.refl _).tail (vmStep_of .ja rfl rfl)).tail (vmStep_of (.alu64 .mov .imm) rfl rfl),
      rfl⟩
  refine ⟨by decide, h3, fun hsafe => ?_⟩
  obtain ⟨s, hs, hpc⟩ := h3
  have := (hsafe.inside s hs).1
  rw [hpc] at this
  exact absurd this (by decide)

end BlueSwat.Ebpf
