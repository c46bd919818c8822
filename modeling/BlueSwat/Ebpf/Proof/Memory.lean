import BlueSwat.Ebpf.Proof.ControlFlow

/-!
# Memory accesses of verified programs

The verifier rejects stores and calls in the slots it visits, so only an unvisited slot can touch
memory (`pureReader_iff`). It bounds the offsets of loads from `r1` and `r10`, so a load whose base
register still holds what `ebpf_vm_exec` put there stays inside the input memory or the stack
(`loadSafe_of_base`); nothing keeps a program from overwriting these registers.
-/

set_option autoImplicit false

namespace BlueSwat.Ebpf

open Machine Bytes

def ramPlacement (size : Nat) (h : size ≤ 0x1000) : Placement size where
  host := ramHost
  mem := 0x20000000
  separate := fun a ha hs => by
    simp only [Within, ramHost, stackSize] at ha hs
    have h1 : (a - 0x20000000).toNat = (a.toNat + (2 ^ 32 - 0x20000000)) % 2 ^ 32 := by
      rw [BitVec.toNat_sub, Nat.add_comm]
      rfl
    have h2 : (a - 0x20001000).toNat = (a.toNat + (2 ^ 32 - 0x20001000)) % 2 ^ 32 := by
      rw [BitVec.toNat_sub, Nat.add_comm]
      rfl
    omega

/-- Slot `i` is one the verifier did not check. -/
def Unchecked (code : Nat → BitVec 8) (n i : Nat) : Prop := ¬ (i < n ∧ visited code i = true)

section
variable {size : Nat} (P : Placement size) (code : Nat → BitVec 8) (M : Mem) (memLen : BitVec 32)

/-- The run executes no store and no `CALL`, and the input memory stays as it is. -/
structure PureReader : Prop where
  noWrite : ∀ s, VmReach P.host code M P.mem memLen s →
    ∀ o, opAt (defaultVm code) s = some o → o.writesMem = false
  frame : ∀ s, VmReach P.host code M P.mem memLen s → ∀ a, Within a P.mem size → s.mem a = M a

/-- Every load of the run reads only bytes of the input memory and of the stack. -/
def LoadSafe : Prop :=
  ∀ s, VmReach P.host code M P.mem memLen s →
    ∀ sz, opAt (defaultVm code) s = some (.ldx sz) → ∀ i < sz.bytes,
      let inst := (defaultVm code).fetch s.pc
      let a := effAddr (s.reg inst.src) inst.offset + BitVec.ofNat 32 i
      Within a P.mem size ∨ Within a P.host.stack stackSize

/-- The load at the program counter is in a slot the verifier checked, and its base register
holds what it held at the start. -/
structure BaseOk (n : Nat) (s : State) : Prop where
  inside : s.pc.toNat < n
  checked : visited code s.pc.toNat = true
  base : s.reg ((defaultVm code).fetch s.pc).src =
    (initState P.host M P.mem).reg ((defaultVm code).fetch s.pc).src

end

/-! ## Stores -/

theorem Passed.writesMem {inst : EbpfInst} {pc n memSize : Nat} (h : Passed inst pc n memSize)
    {o : Op} (ho : Op.ofCode inst.opcode = some o) : o.writesMem = false := by
  have hc := Op.code_of_ofCode ho
  cases o with
  | call => exact absurd hc.symm h.call
  | st sz | stx sz =>
    have hst := h.store
    rw [← hc] at hst
    cases sz <;> exact absurd hst (by decide)
  | _ => rfl

/-- **Verified programs as readers**: a run of an accepted program is a pure reader exactly when
it executes no store and no `CALL` in a slot the verifier did not check. -/
theorem pureReader_iff {size : Nat} (P : Placement size) (M : Mem) (memLen : BitVec 32)
    {code : Nat → BitVec 8} {len : BitVec 32} (h : ifwVerifyPolicy (some code) len size = 0) :
    PureReader P code M memLen ↔
      ∀ s, VmReach P.host code M P.mem memLen s → Unchecked code (len.toNat / 8) s.pc.toNat →
        ∀ o, opAt (defaultVm code) s = some o → o.writesMem = false := by
  refine ⟨fun hp s hs _ => hp.noWrite s hs, fun hu => ?_⟩
  have hw : ∀ s, VmReach P.host code M P.mem memLen s →
      ∀ o, opAt (defaultVm code) s = some o → o.writesMem = false := by
    intro s hs o ho
    by_cases hc : s.pc.toNat < len.toNat / 8 ∧ visited code s.pc.toNat = true
    · exact ((accepted_of h).passed _ hc.1 hc.2).writesMem ho
    · exact hu s hs hc o ho
  refine ⟨hw, fun s hs a ha => ?_⟩
  refine Reach.inv (I := fun s => s.mem a = M a) hs (if_neg (P.separate a ha)) ?_
  intro s s' hr hi hstep
  rw [vmStep_mem hstep (hw s hr), hi]

theorem pureReader_overLddw :
    ifwVerifyPolicy (some overLddw) 32 120 = 0 ∧
      PureReader (ramPlacement 120 (by decide)) overLddw (fun _ => 0) 64 := by
  have hA : ifwVerifyPolicy (some overLddw) 32 120 = 0 := by decide
  refine ⟨hA, (pureReader_iff _ _ _ hA).2 fun s hs hun => ?_⟩
  -- the verifier checked each of the three slots
  rcases overLddw_pc hs with hpc | hpc | hpc <;> rw [hpc] at hun <;> exact absurd (by decide) hun

/-- `JA +1; LDDW r0, ..; EXIT` with `STW [r1+0], 1` in the second slot of the `LDDW`. -/
def hiddenStore : Nat → BitVec 8 :=
  codeBytes [0x05, 0, 1, 0, 0, 0, 0, 0, 0x18, 0, 0, 0, 0, 0, 0, 0,
    0x62, 1, 0, 0, 1, 0, 0, 0, 0x95, 0, 0, 0, 0, 0, 0, 0] fun _ => 0

/-- The verifier accepts a program that writes the first slot of its input memory. -/
theorem hiddenStore_not_pureReader :
    ifwVerifyPolicy (some hiddenStore) 32 120 = 0 ∧
      (∃ s, ebpfVmExec ramHost (defaultVm hiddenStore) 3 (fun _ => 0) 0x20000000 64 =
          some (s, .exit 0) ∧ s.mem 0x20000000 = 1) ∧
      ¬ PureReader (ramPlacement 120 (by decide)) hiddenStore (fun _ => 0) 64 := by
  have hrun : ∃ s, ebpfVmExec ramHost (defaultVm hiddenStore) 3 (fun _ => 0) 0x20000000 64 =
      some (s, .exit 0) ∧ s.mem 0x20000000 = 1 :=
    ⟨_, (run_next (vmStep_of .ja rfl rfl)).trans <|
      (run_next ((vmStep_of (.st .w) rfl rfl).trans (checked_default _ _))).trans <|
      run_done (vmStep_of .exit rfl rfl), rfl⟩
  refine ⟨by decide, hrun, fun hp => ?_⟩
  obtain ⟨s, hs, h1⟩ := hrun
  have := hp.frame s (run_reach hs).1 0x20000000 (by decide)
  rw [h1] at this
  exact absurd this (by decide)

/-! ## Loads -/

theorem loadSz_ldx (sz : Size) : loadSz (Op.ldx sz).code = sz.bytes := by cases sz <;> decide

theorem Passed.ldx {inst : EbpfInst} {pc n memSize : Nat} (h : Passed inst pc n memSize)
    {sz : Size} (ho : Op.ofCode inst.opcode = some (.ldx sz)) :
    (inst.src = 1 ∧ 0 ≤ inst.offset.toInt ∧ inst.offset.toInt + sz.bytes ≤ memSize) ∨
      (inst.src = 10 ∧ sz.bytes + inst.offset.toInt ≤ 0 ∧ -inst.offset.toInt ≤ stackSize) := by
  have hl := h.load
  have hpos : 0 < sz.bytes := by cases sz <;> decide
  simp only [verifyLoad, ← Op.code_of_ofCode ho, loadSz_ldx, if_neg (Nat.ne_of_gt hpos)] at hl
  split at hl
  · rename_i hsrc
    split at hl
    · cases hl
    · exact .inl ⟨hsrc, by omega, by omega⟩
  · split at hl
    · rename_i hsrc
      split at hl
      · cases hl
      · exact .inr ⟨hsrc, by omega, by omega⟩
    · cases hl

theorem effAddr_zext (base : Addr) (offset : BitVec 16) :
    effAddr (zext base) offset = base + BitVec.ofInt 32 offset.toInt := by
  have h1 : (zext base).setWidth 32 = base := by
    apply BitVec.eq_of_toNat_eq
    have := base.isLt
    simp only [zext, BitVec.toNat_setWidth]
    omega
  have h2 : (offset.signExtend 64).setWidth 32 = BitVec.ofInt 32 offset.toInt := by
    apply BitVec.eq_of_toNat_eq
    rw [BitVec.signExtend, BitVec.toNat_setWidth, BitVec.toNat_ofInt, BitVec.toNat_ofInt]
    omega
  rw [effAddr, BitVec.setWidth_add _ _ (by decide), h1, h2]

/-- **One load**: with its base register intact, a checked load reads inside the input memory or
the stack. -/
theorem Passed.load_within {size : Nat} (P : Placement size) (M : Mem) {inst : EbpfInst}
    {pc n : Nat} (h : Passed inst pc n size) {sz : Size}
    (ho : Op.ofCode inst.opcode = some (.ldx sz)) {base : BitVec 64}
    (hb : base = (initState P.host M P.mem).reg inst.src) {i : Nat} (hi : i < sz.bytes) :
    Within (effAddr base inst.offset + BitVec.ofNat 32 i) P.mem size ∨
      Within (effAddr base inst.offset + BitVec.ofNat 32 i) P.host.stack stackSize := by
  rcases h.ldx ho with ⟨hs, h0, h1⟩ | ⟨hs, h0, h1⟩
  · left
    rw [hs] at hb
    rw [hb, show (initState P.host M P.mem).reg 1 = zext P.mem from rfl, effAddr_zext,
      BitVec.add_assoc, ← BitVec.ofInt_natCast, ← BitVec.ofInt_add]
    exact within_add_ofInt (by omega) (by omega)
  · right
    rw [hs] at hb
    rw [hb, show (initState P.host M P.mem).reg 10 =
        zext (P.host.stack + BitVec.ofNat 32 stackSize) from rfl, effAddr_zext,
      BitVec.add_assoc, BitVec.add_assoc, ← BitVec.ofInt_natCast, ← BitVec.ofInt_natCast,
      ← BitVec.ofInt_add, ← BitVec.ofInt_add]
    exact within_add_ofInt (by omega) (by omega)

/-- **Load safety of verified programs**: a run of an accepted program in which every load is in a
checked slot and finds its base register intact is load safe. -/
theorem loadSafe_of_base {size : Nat} (P : Placement size) (M : Mem) (memLen : BitVec 32)
    {code : Nat → BitVec 8} {len : BitVec 32} (h : ifwVerifyPolicy (some code) len size = 0)
    (hb : ∀ s, VmReach P.host code M P.mem memLen s →
      ∀ sz, opAt (defaultVm code) s = some (.ldx sz) → BaseOk P code M (len.toNat / 8) s) :
    LoadSafe P code M memLen := by
  intro s hs sz ho i hi
  have hok := hb s hs sz ho
  exact ((accepted_of h).passed _ hok.inside hok.checked).load_within P M ho hok.base hi

/-- `LDXW r0, [r1+0]; EXIT`. -/
def readFirst : Nat → BitVec 8 :=
  codeBytes [0x61, 0x10, 0, 0, 0, 0, 0, 0, 0x95, 0, 0, 0, 0, 0, 0, 0] fun _ => 0

theorem loadSafe_readFirst :
    ifwVerifyPolicy (some readFirst) 16 120 = 0 ∧
      LoadSafe (ramPlacement 120 (by decide)) readFirst (fun _ => 0) 64 := by
  refine ⟨by decide, loadSafe_of_base _ _ _ (show ifwVerifyPolicy _ 16 120 = 0 by decide) ?_⟩
  intro s hs sz ho
  -- a state of the run is the first one, or it is at the `EXIT`
  have hinv : s = initState ramHost (fun _ => 0) 0x20000000 ∨ s.pc = 1 := by
    refine Reach.inv (I := fun s => s = initState ramHost (fun _ => 0) 0x20000000 ∨ s.pc = 1) hs
      (.inl rfl) fun a b _ ha hab => .inr ?_
    rcases ha with rfl | hpc
    · exact (vmStep_pc hab).trans (by decide)
    · have he : opAt (defaultVm readFirst) a = some .exit := by rw [opAt, hpc]; decide
      rw [vmStep, show Op.ofCode _ = _ from he] at hab
      cases hab
  rcases hinv with rfl | hpc
  · exact ⟨by decide, by decide, rfl⟩
  · rw [opAt, hpc] at ho
    exact absurd ho (by cases sz <;> decide)

/-- `MOV64 r1, 0; LDXW r0, [r1+0]; EXIT`. -/
def clobbersBase : Nat → BitVec 8 :=
  codeBytes [0xb7, 1, 0, 0, 0, 0, 0, 0, 0x61, 0x10, 0, 0, 0, 0, 0, 0, 0x95, 0, 0, 0, 0, 0, 0, 0]
    fun _ => 0

/-- The verifier accepts a program that reads address 0. -/
theorem clobbersBase_not_loadSafe :
    ifwVerifyPolicy (some clobbersBase) 24 120 = 0 ∧
      ¬ LoadSafe (ramPlacement 120 (by decide)) clobbersBase (fun _ => 0) 64 := by
  refine ⟨by decide, fun hsafe => ?_⟩
  have := hsafe _ ((Reach.refl _).tail (vmStep_of (.alu64 .mov .imm) rfl rfl)) .w (by decide) 0
    (by decide)
  exact absurd this (by decide)

end BlueSwat.Ebpf
