import BlueSwat.Jit.Proof.Agreement

/-!
# The generated code as a procedure

What the procedure-call standard asks of the code of a policy: it comes back to its caller with
`r4` to `r11` and the stack pointer as they were, and it writes no byte but those of its own frame,
the eight saved registers and `EBPF_STACK_SIZE` bytes below them. The prologue saves `r4` to `r9`,
`r11` and `lr`; `r10` is not saved and not written.

The check of `Jit.Template` follows every path of the program, so this is one more induction along
it (`check_leaves`), on the machine's half of each instruction.
-/

set_option autoImplicit false

namespace BlueSwat.Jit

open Thumb Machine Bytes Record
open Ebpf (Placement codeBytes disasm EbpfInst)

/-! ## Leaving the frame -/

namespace Call

variable {asm : List EbpfInst} {code : Code} {fields : List Nat} {c : Call asm code fields}
  {τ : BitVec 4 → Know} {R : BitVec 4 → BitVec 64} {s s' : State} {place : Nat → Nat}
  {fuel pc : Nat}

/-- From `s`, inside its frame, the machine returns with the registers that `s` has saved. -/
def Leaves (c : Call asm code fields) (s : State) : Prop :=
  ∃ t, Path (step c.unpriv) (fun u => ∀ a, ¬ Within a (c.top - 256) 288 → u.mem a = c.M0 a) s t ∧
    t.pc = c.lr &&& 0xfffffffe ∧ t.reg sp = c.top + 32 ∧ t.reg r10 = s.reg r10 ∧
    ∀ i r, (regList 0x8bf0)[i]? = some r → r ≠ 15 →
      t.reg r = word s.mem (c.top + BitVec.ofNat 32 (4 * i))

theorem lt_of_regList {i : Nat} {r : Reg} (h : (regList 0x8bf0)[i]? = some r) : i < 8 := by
  rw [regList_pop] at h
  exact (List.getElem?_eq_some_iff.1 h).1

theorem Leaves.of_moves (h : Moves c.unpriv c.top c.M0 s s') (hl : c.Leaves s') : c.Leaves s := by
  obtain ⟨t, hpath, hpc, hsp, h10, hregs⟩ := hl
  refine ⟨t, h.path.trans hpath, hpc, hsp, h10.trans h.r10, fun i r hi h15 => ?_⟩
  rw [hregs i r hi h15, h.saved i (lt_of_regList hi)]

theorem exit_leaves (h : c.Related τ R s) (hpc : s.pc = c.base + BitVec.ofNat 32 (place pc))
    (hs : (scan code (place pc) [epilogueMov, epiloguePop]).isSome = true) : c.Leaves s := by
  obtain ⟨off, hoff⟩ := Option.isSome_iff_exists.1 hs
  obtain ⟨u, hpath, hupc, hsp, hkeep, hregs⟩ := epilogue_run c.room h.frame c.thumb hoff hpc
  refine ⟨u, h.frame.path hpath, hupc, hsp, hkeep r10 (by decide) (by decide),
    fun i r hi h15 => hregs i r hi h15 ?_⟩
  rintro rfl
  exact absurd (List.mem_of_getElem? hi) (by decide)

/-- **The check covers every way out**: the induction is on the length of the longest path left. -/
theorem check_leaves :
    ∀ {fuel pc : Nat} {τ : BitVec 4 → Know} {R : BitVec 4 → BitVec 64} {s : State},
      check asm code place fields fuel pc τ = true → c.Related τ R s →
      s.pc = c.base + BitVec.ofNat 32 (place pc) → c.Leaves s := by
  intro fuel
  induction fuel with
  | zero =>
    intro pc τ R s h
    cases h
  | succ fuel ih =>
    intro pc τ R s h hrel hpc
    obtain ⟨inst, -, hseen⟩ := check_seen h
    cases hseen with
    | exit hop he hs => exact exit_leaves hrel hpc hs
    | load hop hbase hsrc hlt hoff hb hc =>
      obtain ⟨s', hmove, hpc', hrel'⟩ := load_moves hrel hpc hbase hsrc hlt hoff hb
      exact .of_moves hmove (ih hc hrel' hpc')
    | alu hop hk hb hc =>
      obtain ⟨s', hmove, hpc', hrel'⟩ := alu_moves hrel hpc hk hb
      exact .of_moves hmove (ih hc hrel' hpc')
    | jump hop hdec hd hr ht hb hnext htarget =>
      obtain ⟨s', hmove, hrel', hpc'⟩ := jump_moves hrel hpc hdec hd hr hb
      refine .of_moves hmove ?_
      -- either side of the branch is checked
      split at hpc'
      · exact ih htarget hrel' hpc'
      · exact ih hnext hrel' hpc'

end Call

/-! ## Calls -/

section
variable {ι : Type} [DecidableEq ι]

/-- A call that starts in `s` is back in `t`: no state on the way differs from `s` outside of the
288 bytes below the stack pointer, and so not in the struct either. -/
structure Returned (L : Layout ι) (unpriv : Word → Bool) (s t : State) : Prop where
  path : Path (step unpriv) (fun u => (∀ a, ¬ Within a (s.reg sp - 288) 288 → u.mem a = s.mem a) ∧
    ∀ a, Within a (s.reg 0) L.size → u.mem a = s.mem a) s t
  pc : t.pc = s.reg 14 &&& 0xfffffffe
  stack : t.reg sp = s.reg sp
  saved : ∀ r : Reg, 4 ≤ r.toNat → r.toNat ≤ 11 → t.reg r = s.reg r

theorem Returned.kept {L : Layout ι} {unpriv : Word → Bool} {s t : State}
    (h : Returned L unpriv s t) :
    (∀ a, ¬ Within a (s.reg sp - 288) 288 → t.mem a = s.mem a) ∧
      ∀ a, Within a (s.reg 0) L.size → t.mem a = s.mem a :=
  h.path.last ⟨fun _ _ => rfl, fun _ _ => rfl⟩

/-- The code of a policy respects the procedure-call standard, for every value of the struct. -/
def KeepsStandard (L : Layout ι) (bytes : List (BitVec 8)) : Prop :=
  ∀ (rest : Nat → BitVec 8) (helper : BitVec 32 → BitVec 32) (beyond : Row)
    (stray : Int → BitVec 8) (fsm : ι → BitVec 32) (unpriv : Word → Bool) (s : State),
    Called L (jitCodeOf (codeBytes bytes rest) (bytes.length / 8) helper beyond stray)
      unpriv fsm s →
    ∃ t, Returned L unpriv s t

variable {L : Layout ι} {code : Code} {unpriv : Word → Bool} {fsm : ι → BitVec 32} {s : State}
  {bytes : List (BitVec 8)}

/-- An interpreter that works on the machine's own struct, with its stack in the frame. -/
def Called.placement (h : Called L code unpriv fsm s) : Placement L.size where
  host := ⟨s.reg sp - 288, fun _ _ _ _ => 0⟩
  mem := s.reg 0
  separate a ha hs := (h.free a (Nat.lt_of_lt_of_le hs (by decide))).2 ha

/-- Each callee-saved register but `r10` is at one place in the list of the prologue and at the same
place in the list of the epilogue. -/
theorem saved_index : ∀ r : Reg, 4 ≤ r.toNat → r.toNat ≤ 11 → r ≠ r10 →
    ∃ i, i < 8 ∧ (regList 0x4bf0)[i]? = some r ∧ (regList 0x8bf0)[i]? = some r ∧ r ≠ 15 := by
  decide

/-- **A program that passes the check respects the procedure-call standard.** -/
theorem keepsStandard_of_validated (hsz : L.size ≤ 2 ^ 15)
    (hv : validated bytes (L.slots.map L.offset) = true) : KeepsStandard L bytes := by
  intro rest helper beyond stray fsm unpriv s h
  obtain ⟨code, place, hcode, -, hpro, hcheck⟩ := validated_spec hv rest helper beyond stray
  rw [hcode] at h
  obtain ⟨u, hpath, hpc, hF, hr1, h10, hsaved⟩ := prologue_run unpriv h.room rfl hpro
  obtain ⟨t, hpath', hpc', hsp, h10', hregs⟩ :=
    Call.check_leaves hcheck (h.related hsz rest h.placement h.struct 0 hF hr1) hpc
  refine ⟨t, (hpath.trans hpath').mono fun u hu => ⟨?_, fun a ha => ?_⟩, hpc', ?_, ?_⟩
  · intro a ha
    exact hu a (by rwa [BitVec.sub_sub])
  · refine hu a fun hw => (h.free a ?_).2 ha
    rwa [BitVec.sub_sub] at hw
  · rw [hsp]
    exact BitVec.sub_add_cancel _ _
  · intro r h4 h11
    by_cases hr : r = r10
    · rw [hr, h10', h10]
    · obtain ⟨i, -, hpush, hpop, h15⟩ := saved_index r h4 h11 hr
      rw [hregs i r hpop h15]
      exact hsaved i r hpush

end

/-- **The code of the policies that `load_all_policies` registers, on both ports, respects the
procedure-call standard.** -/
theorem shipped_keepsStandard :
    (∀ q ∈ Zephyr.shipped, KeepsStandard Zephyr.layout q.1.bytecode) ∧
      ∀ q ∈ Mynewt.shipped, KeepsStandard Mynewt.layout q.1.bytecode :=
  ⟨fun q hq => keepsStandard_of_validated (by decide) (shipped_validated.1 q hq),
    fun q hq => keepsStandard_of_validated (by decide) (shipped_validated.2 q hq)⟩

theorem shipped_keepsStandard_lllInterval :
    Called Zephyr.layout lllIntervalJit (fun _ => true) (fun _ => 0) (callState lllIntervalJit) ∧
      ∃ t, Returned Zephyr.layout (fun _ => true) (callState lllIntervalJit) t := by
  have hc : Called Zephyr.layout lllIntervalJit (fun _ => true) (fun _ => 0)
      (callState lllIntervalJit) := called_callState (by decide) (by decide)
  exact ⟨hc, shipped_keepsStandard.1 (.lllInterval, .conn .lllInterval)
    (by decide) _ _ _ _ _ _ _ hc⟩

end BlueSwat.Jit
