import BlueSwat.Jit.Proof.Agreement
import BlueSwat.Jit.Proof.Right

/-!
# Entry, return and whole programs

The prologue saves the registers of the caller, sets up the frame and puts the argument in the row
of `r1` (`enter`). The epilogue restores the registers and returns (`leave`), if the bytes of the
frame that hold them are as the prologue left them. Between the two the machine follows the
interpreter (`follows_run`), so the translation preserves the meaning of programs (`jit_preserves`).
-/

set_option autoImplicit false

namespace BlueSwat.Jit

open Thumb Machine Bytes
open Ebpf (EbpfVm Host Op Ret instAt vmStep defaultVm)

/-- The code behind the `PUSH`. -/
def prologueRest : List Inst :=
  [.base (.movReg fp sp), .base (.movImm true 3 0), .base (.subImm 2 sp 80),
    .base (.subImm sp sp 256), .base (.strd 2 3 fp (slotAt 10)), .base (.movReg 2 0),
    .base (.movImm true 3 0)]

theorem disassemble_prologue :
    disassemble buildPrologue = some (.base (.push 0x4bf0) :: prologueRest) := by decide

theorem disassemble_epilogue :
    disassemble buildEpilogue = some [.base (.movReg sp fp), .base (.pop 0x8bf0)] := by decide

/-- The state behind the prologue of a call in state `s`. -/
structure Entered (s t : State) : Prop where
  fp : t.reg fp = s.reg sp - 32
  saved : Saved (s.reg sp - 32) s t
  ctx : rowVal t 1 = (s.reg 0).setWidth 64
  outside : ∀ a, ¬ Within a (s.reg sp - 96) 96 → t.mem a = s.mem a

theorem rowVal_one (s : State) : rowVal s 1 = pair (s.reg 3) (s.reg 2) := by
  rw [rowVal, if_neg (by decide)]
  rfl

theorem pair_zero (l : Word) : pair 0 l = l.setWidth 64 := by
  apply BitVec.eq_of_toNat_eq
  have := l.isLt
  rw [toNat_pair, BitVec.toNat_setWidth, show (0 : Word).toNat = 0 from rfl]
  omega

section
variable {P : Program} {sys : Sys} {s : State}

/-- The frame below the saved registers. -/
theorem run_prologueRest (sys : Sys) {top : Word} (h4 : top.toNat % 4 = 0) (hsp : s.reg sp = top) :
    ∃ t, runLine sys prologueRest s = some (t, false) ∧ t.reg Jit.fp = top ∧
      rowVal t 1 = pair 0 (s.reg 0) ∧
      t.mem = storeAll s.mem (top + slotAt 10) [top - 80, 0] := by
  have hal : aligned (top + slotAt 10) = true := by
    have hslot : (slotAt 10).toNat = 2 ^ 32 - 64 := by decide
    rw [aligned, BitVec.toNat_add, hslot, beq_iff_eq]
    omega
  -- up to the store, the store, and behind it
  obtain ⟨u, hu, hfp, h0, h2, h3, hm⟩ : ∃ u, runLine sys (prologueRest.take 4) s = some (u, false) ∧
      u.reg Jit.fp = s.reg sp ∧ u.reg 0 = s.reg 0 ∧ u.reg 2 = s.reg sp - 80 ∧ u.reg 3 = 0 ∧
      u.mem = s.mem := ⟨_, rfl, rfl, rfl, rfl, rfl, rfl⟩
  obtain ⟨v, hv, hvr, hvm⟩ : ∃ v, (Inst.base (.strd 2 3 Jit.fp (slotAt 10))).exec sys u = some v ∧
      v.reg = u.reg ∧ v.mem = storeAll s.mem (top + slotAt 10) [top - 80, 0] := by
    refine ⟨_, exec_strd (by rw [hfp, hsp, hal]), rfl, ?_⟩
    change storeAll u.mem (u.reg Jit.fp + slotAt 10) [u.reg 2, u.reg 3] = _
    rw [hm, hfp, h2, h3, hsp]
  obtain ⟨t, ht, htfp, ht2, ht3, htm⟩ : ∃ t, runLine sys (prologueRest.drop 5) v = some (t, false) ∧
      t.reg Jit.fp = v.reg Jit.fp ∧ t.reg 2 = v.reg 0 ∧ t.reg 3 = 0 ∧ t.mem = v.mem :=
    ⟨_, rfl, rfl, rfl, rfl, rfl⟩
  refine ⟨t, ?_, ?_, ?_, htm.trans hvm⟩
  · have hsplit : prologueRest = prologueRest.take 4 ++
        .base (.strd 2 3 Jit.fp (slotAt 10)) :: prologueRest.drop 5 := rfl
    rw [hsplit, runLine_seq hu, runLine_step hv, ht]
  · rw [htfp, hvr, hfp, hsp]
  · rw [rowVal_one, ht2, ht3, hvr, h0]

/-- **The prologue.** -/
theorem enter (sys : Sys) (hP : P.Has 0 buildPrologue) (hpc : s.pc = P.addr 0)
    (h4 : (s.reg sp).toNat % 4 = 0) :
    ∃ t, Reach (P.step sys) s t ∧ t.pc = P.addr prologueSize ∧ Entered s t := by
  have htop : (s.reg sp - 32).toNat % 4 = 0 := by
    have := (s.reg sp).isLt
    rw [BitVec.toNat_sub, show (32 : Word).toNat = 32 from rfl]
    omega
  obtain ⟨c1, c2, hc, hd, hhas, hstep⟩ := Program.step_first sys hP disassemble_prologue hpc
  obtain ⟨u, hpush, hupc, husp, hur, hum⟩ : ∃ u,
      exec sys.unpriv s (2 * c1.length) (.push 0x4bf0) = some u ∧
      u.pc = s.pc + BitVec.ofNat 32 (2 * c1.length) ∧ u.reg sp = s.reg sp - 32 ∧
      (∀ r, r ≠ sp → u.reg r = s.reg r) ∧
      u.mem = storeAll s.mem (s.reg sp - 32) ((regList 0x4bf0).map s.reg) :=
    exec_push (by rw [regList_push]; rfl) htop
  obtain ⟨t, hrun, hfp, hrow, hm⟩ := run_prologueRest sys htop husp
  have hreach := Program.reach_line hhas hd hrun (by rw [hupc, hpc, Program.addr_add])
  have hend : 0 + 2 * c1.length + 2 * c2.length = prologueSize := by
    rw [← size_buildPrologue, hc, List.length_append]
    omega
  rw [hend] at hreach
  have hlen : (regList 0x4bf0).length = 8 := by rw [regList_push]; rfl
  refine ⟨_, .head (hstep hpush) hreach, rfl, hfp, fun i r hir => ?_, ?_, fun a ha => ?_⟩
  · have hi : i < 8 := hlen ▸ (List.getElem?_eq_some_iff.1 hir).1
    change word t.mem _ = _
    rw [hm, saved_store (by decide) (by decide) _ _ _ hi, hum]
    exact word_storeAll (by rw [List.length_map, hlen]; decide)
      (by rw [List.getElem?_map, hir]; rfl)
  · change rowVal t 1 = _
    rw [hrow, hur 0 (by decide), pair_zero]
  · change t.mem a = _
    -- the registers are the upper 32 bytes, and the row of `r10` the lower 8
    have hregs : s.reg sp - 32 = s.reg sp - 96 + 64 := by
      rw [BitVec.sub_eq_add_neg, BitVec.sub_eq_add_neg, BitVec.add_assoc]
      rfl
    have hrow10 : s.reg sp - 32 + slotAt 10 = s.reg sp - 96 + 0 := by
      rw [BitVec.sub_eq_add_neg, BitVec.sub_eq_add_neg, BitVec.add_assoc, BitVec.add_assoc]
      rfl
    rw [hm, hum, storeAll_of_not_within fun hw => ha (hw.widen hrow10 ?_),
      storeAll_of_not_within fun hw => ha (hw.widen hregs ?_)]
    · rw [List.length_map, hlen]
      decide
    · exact (by decide : 0 + 4 * 2 ≤ 96)

/-- **The epilogue**, with the registers of the caller in the frame. -/
theorem leave (sys : Sys) {t : State} {top : Word} {a : Nat} (hP : P.Has a buildEpilogue)
    (hpc : t.pc = P.addr a) (hfp : t.reg fp = top) (h4 : top.toNat % 4 = 0) (hs : Saved top s t)
    (hlr : (s.reg 14).getLsbD 0 = true) :
    ∃ u, Reach (P.step sys) t u ∧ u.pc = s.reg 14 &&& 0xfffffffe ∧ u.reg sp = top + 32 ∧
      (∀ r ∈ [4, 5, 6, 7, 8, 9, fp], u.reg r = s.reg r) ∧ u.reg 0 = t.reg 0 ∧ u.reg 1 = t.reg 1 ∧
      u.mem = t.mem := by
  obtain ⟨c1, c2, -, hd, hhas, hstep⟩ := Program.step_first sys hP disassemble_epilogue hpc
  have hmov : P.step sys t = .next ((t.set sp top).skip (2 * c1.length)) := by
    refine hstep ?_
    rw [← hfp]
    rfl
  generalize hv : (t.set sp top).skip (2 * c1.length) = v at hmov
  have hvpc : v.pc = P.addr (a + 2 * c1.length) := by
    rw [← Program.addr_add, ← hpc, ← hv]
    rfl
  have hvsp : v.reg sp = top := by rw [← hv]; exact set_sp_of_aligned (s := t) h4
  have hvr : ∀ r, r ≠ sp → v.reg r = t.reg r := fun r hr => by rw [← hv]; exact if_neg hr
  have hvm : v.mem = t.mem := by rw [← hv]; rfl
  obtain ⟨c3, c4, -, -, -, hstep'⟩ := Program.step_first sys hhas hd hvpc
  have hword : ∀ i r, (regList 0x4bf0)[i]? = some r →
      word v.mem (v.reg sp + BitVec.ofNat 32 (4 * i)) = s.reg r := fun i r hi => by
    rw [hvm, hvsp]
    exact hs i r hi
  obtain ⟨u, hpop, hupc, hum, husp, hkeep, hregs⟩ :=
    @exec_pop sys.unpriv v (2 * c3.length) 0x8bf0 _ (by decide) (hvsp ▸ h4)
      (hword 7 14 (by decide)) hlr (by decide)
  refine ⟨u, (Reach.refl t |>.tail hmov).tail (hstep' hpop), hupc, ?_, ?_, ?_, ?_, hum.trans hvm⟩
  · rw [husp, hvsp]
    rfl
  · intro r hr
    -- the same place in both lists of registers
    obtain ⟨i, hi⟩ := List.mem_iff_getElem?.1 hr
    have hlt := (List.getElem?_eq_some_iff.1 hi).1
    have hout : r ≠ 15 ∧ r ≠ sp := by
      constructor
      all_goals
        rintro rfl
        exact absurd hr (by decide)
    rw [hregs i r (by rw [regList_pop]; exact (List.getElem?_append_left hlt).trans hi)
      hout.1 hout.2,
      hword i r (by rw [regList_push]; exact (List.getElem?_append_left hlt).trans hi)]
  · rw [hkeep 0 (by decide) (by decide), hvr 0 (by decide)]
  · rw [hkeep 1 (by decide) (by decide), hvr 1 (by decide)]

end

/-! ## Whole programs -/

/-- The machine is back in the caller of the call in state `s`. -/
structure Resumed (s u : State) : Prop where
  pc : u.pc = s.reg 14 &&& 0xfffffffe
  sp : u.reg sp = s.reg sp
  kept : ∀ r ∈ [4, 5, 6, 7, 8, 9, fp], u.reg r = s.reg r

section
variable {code : Nat → BitVec 8} {n : Nat} (helper : BitVec 32 → BitVec 32) (beyond : Row)
  (stray : Int → BitVec 8) {base : Word}

theorem translated_programOf (hT : ∀ i < n, Plain (instAt code i)) (hn : n < 2 ^ 13)
    (hJ : JumpsInside code n) (hA : Aligned code n)
    (hshort : 2 * (programOf code n helper beyond stray base).code.length < 2 ^ 32) :
    Translated code n (programOf code n helper beyond stray base) where
  plain := hT
  num := hn
  aligned := hA
  piece _ _ h := piece_at helper beyond stray (fun i hi => (hT i hi).tabled) hJ hA base hshort h
  epilogue := epilogue_at helper beyond stray (fun i hi => (hT i hi).tabled) hA base hshort

theorem prologue_at (hT : ∀ i < n, Tabled (instAt code i))
    (hshort : 2 * (programOf code n helper beyond stray base).code.length < 2 ^ 32) :
    (programOf code n helper beyond stray base).Has 0 buildPrologue := by
  obtain ⟨post, hp⟩ := @jitCode_buildFrom n 0 (genState (instAt code) n helper beyond stray) rfl
  refine ⟨⟨[], post ++ buildEpilogue, ?_, rfl⟩, hshort⟩
  rw [code_programOf helper beyond stray hT, hp, List.append_assoc]
  rfl

end

section
variable {vm : EbpfVm} {n : Nat} {P : Program} {H : Host} {mem : Ebpf.Addr} {memLen : BitVec 32}
  {sys : Sys} {top : Word} {x y : Ebpf.State} {s t : State}

/-- **The machine follows the interpreter** through a run of instructions that are right. -/
theorem follows_run (hP : Translated vm.insts n P) (hF : Follows vm.insts n P top x s)
    (hr : Reach (vmStep H vm mem memLen) x y)
    (hok : ∀ z, Reach (vmStep H vm mem memLen) x z → z.pc.toNat < n ∧ RightAt sys top vm z) :
    ∃ s', Reach (P.step sys) s s' ∧ Follows vm.insts n P top y s' :=
  hr.simulate hF fun a _ _ ha hs hR =>
    have hfa := faithful_of_right (hP.plain _ (hok a ha).1) (hok a ha).2
    follows_step hP hR hfa hs (hok _ (ha.tail hs)).1

/-- The bytes that hold the registers of the caller are outside the rows. -/
theorem not_within_rows {a : Word} (h : Within a top 32) : ¬ Within a (top - 64) 64 := by
  have hsplit : a - (top - 64) = a - top + 64 := by
    rw [BitVec.sub_eq_add_neg top, ← BitVec.sub_sub, BitVec.sub_eq_add_neg (a - top),
      BitVec.neg_neg]
  have hlt : (a - top).toNat < 32 := h
  rw [Within, hsplit, BitVec.toNat_add, show (64 : Word).toNat = 64 from rfl]
  omega

theorem saved_congr {u : State} (h : Saved top s t)
    (hm : ∀ a, Within a top 32 → u.mem a = t.mem a) : Saved top s u := by
  intro i r hir
  have hi : i < 8 := by
    rw [regList_push] at hir
    exact (List.getElem?_eq_some_iff.1 hir).1
  rw [← h i r hir]
  refine word_congr fun k hk => hm _ ?_
  rw [BitVec.add_assoc, ← BitVec.ofNat_add]
  exact within_add (by omega)

end

/-- **The translation preserves the meaning of programs.** The code of an aligned program is called
in state `s`. It reaches its body in a state `t`, with registers that nothing has set to 0; and if
the interpreter, from the registers and the memory that it has there, runs to an `EXIT` through
instructions that are right and does not write over the registers of the caller, then the code
returns to the caller with the value of the interpreter in `r1:r0` and the memory of the interpreter
outside the rows. -/
theorem jit_preserves {code : Nat → BitVec 8} {n : Nat} {helper : BitVec 32 → BitVec 32}
    {beyond : Row} {stray : Int → BitVec 8} {sys : Sys} {s : State}
    (hT : ∀ i < n, Plain (instAt code i)) (hn : n < 2 ^ 13) (hJ : JumpsInside code n)
    (hA : Aligned code n)
    (hshort : 2 * (programOf code n helper beyond stray s.pc).code.length < 2 ^ 32)
    (hsp : (s.reg sp).toNat % 4 = 0) (hlr : (s.reg 14).getLsbD 0 = true) :
    ∃ t, Reach ((programOf code n helper beyond stray s.pc).step sys) s t ∧ Entered s t ∧
      ∀ H mem memLen x y v, x.pc = 0 → Mirrors (s.reg sp - 32) x t →
        Reach (vmStep H (defaultVm code) mem memLen) x y →
        vmStep H (defaultVm code) mem memLen y = .done (.exit v) →
        (∀ z, Reach (vmStep H (defaultVm code) mem memLen) x z →
          z.pc.toNat < n ∧ RightAt sys (s.reg sp - 32) (defaultVm code) z) →
        (∀ a, Within a (s.reg sp - 32) 32 → y.mem a = x.mem a) →
        ∃ u, Reach ((programOf code n helper beyond stray s.pc).step sys) t u ∧ Resumed s u ∧
          pair (u.reg 1) (u.reg 0) = v ∧ ∀ a, ¬ Within a (s.reg sp - 96) 64 →
            u.mem a = y.mem a := by
  have hP := translated_programOf helper beyond stray hT hn hJ hA hshort
  have hpro := prologue_at helper beyond stray (fun i hi => (hT i hi).tabled) hshort
  have hbase : s.pc = (programOf code n helper beyond stray s.pc).addr 0 := (BitVec.add_zero _).symm
  generalize programOf code n helper beyond stray s.pc = P at hP hpro hbase ⊢
  obtain ⟨t, hin, htpc, ht⟩ := enter sys hpro hbase hsp
  refine ⟨t, hin, ht, fun H mem memLen x y v hx hM hr hv hok hkept => ?_⟩
  have h0 : 0 < n := by
    have := (hok x (.refl x)).1
    omega
  -- the body, to the `EXIT`
  have hF : Follows code n P (s.reg sp - 32) x t :=
    ⟨hM, prologueSize, by rw [hx]; exact first_place hA h0, htpc⟩
  obtain ⟨w, hw, hFy⟩ := follows_run hP hF hr hok
  obtain ⟨hop, hve⟩ : Ebpf.opAt (defaultVm code) y = some .exit ∧ Ret.exit v = .exit (y.reg 0) := by
    rcases Ebpf.vmStep_done hv with h | ⟨h, -⟩
    · exact h
    · exact absurd rfl (h v)
  obtain ⟨w', hw', hMy, hpcw⟩ := follows_exit hP hFy hop
  -- the epilogue
  have hsaved : Saved (s.reg sp - 32) s w' := by
    refine saved_congr ht.saved fun a ha => ?_
    have hout := not_within_rows ha
    rw [hMy.mem a hout, hkept a ha, ← hM.mem a hout]
  obtain ⟨u, hu, hupc, husp, hregs, hu0, hu1, hum⟩ :=
    leave sys hP.epilogue hpcw hMy.fp hMy.aligned hsaved hlr
  refine ⟨u, (hw.trans hw').trans hu, ⟨hupc, ?_, hregs⟩, ?_, ?_⟩
  · rw [husp, BitVec.sub_add_cancel]
  · rw [hu1, hu0, Ret.exit.inj hve, ← hMy.rows 0 (by decide)]
    rfl
  · intro a ha
    rw [hum, hMy.mem a (by rwa [BitVec.sub_sub])]

theorem aligned_nearJump : Aligned nearJump 4 where
  accepted i hi hv := (show ∀ i < 4, refused (instAt nearJump i) = false by decide) i (by omega)
  exits i a h := by
    have key : ∀ p ∈ places nearJump 4, (instAt nearJump p.1).opcode = Op.exit.code →
        p.1 + 1 ≠ 4 → epilogueAt (instAt nearJump) 4 < p.2 + 2050 := by decide
    exact key (i, a) h
  jumps i a t b h he ht hb := by
    have key : ∀ p ∈ places nearJump 4, emitsBranch (instAt nearJump p.1) = true →
        ∀ q ∈ places nearJump 4, jumpTarget (instAt nearJump p.1) p.1 = (q.1 : Nat) →
        q.1 ≠ 0 ∧ q.2 / 256 = (p.2 + preSize (instAt nearJump) 4 p.1 p.2) / 256 := by decide
    exact key (i, a) h he (t, b) hb ht

theorem plain_nearJump : ∀ i < 4, Plain (instAt nearJump i) := by
  have key : ∀ i < 4, (instAt nearJump i).dst.toNat < 11 ∧ (instAt nearJump i).src.toNat < 11 ∧
      (instAt nearJump i).opcode ≠ Op.call.code := by decide
  exact fun i hi => ⟨(key i hi).1, (key i hi).2.1, (key i hi).2.2⟩

/-- The run of `nearJump` from any registers: it jumps over the second move. -/
theorem nearJump_steps (H : Host) (mem : Ebpf.Addr) (memLen : BitVec 32)
    (reg : BitVec 4 → BitVec 64)
    (M : Mem) :
    vmStep H (defaultVm nearJump) mem memLen ⟨0, reg, M⟩ =
        .next ⟨1, fun r => if r = 0 then 0 else reg r, M⟩ ∧
      vmStep H (defaultVm nearJump) mem memLen ⟨1, fun r => if r = 0 then 0 else reg r, M⟩ =
        .next ⟨3, fun r => if r = 0 then 0 else reg r, M⟩ ∧
      vmStep H (defaultVm nearJump) mem memLen ⟨3, fun r => if r = 0 then 0 else reg r, M⟩ =
        .done (.exit 0) := by
  have h0 : (defaultVm nearJump).fetch 0 = ⟨0xb7, 0, 0, 0, 0⟩ := by decide
  have h1 : (defaultVm nearJump).fetch 1 = ⟨0x15, 0, 0, 1, 0⟩ := by decide
  have h3 : (defaultVm nearJump).fetch 3 = ⟨0x95, 0, 0, 0, 0⟩ := by decide
  simp only [vmStep, h0, h1, h3, show Op.ofCode 0xb7 = some (.alu64 .mov .imm) by decide,
    show Op.ofCode 0x15 = some (.jcond .eq .imm) by decide,
    show Op.ofCode 0x95 = some .exit by decide]
  exact ⟨rfl, rfl, rfl⟩

/-- Its instructions are right. -/
theorem nearJump_right (sys : Sys) (top : Word) (reg : BitVec 4 → BitVec 64) (M : Mem)
    {z : Ebpf.State}
    (hz : Reach (vmStep Ebpf.ramHost (defaultVm nearJump) 0 0) ⟨0, reg, M⟩ z) :
    z.pc.toNat < 4 ∧ RightAt sys top (defaultVm nearJump) z := by
  obtain ⟨h0, h1, h3⟩ := nearJump_steps Ebpf.ramHost 0 0 reg M
  have hcases : z = ⟨0, reg, M⟩ ∨ z = ⟨1, fun r => if r = 0 then 0 else reg r, M⟩ ∨
      z = ⟨3, fun r => if r = 0 then 0 else reg r, M⟩ := by
    refine Reach.inv (I := fun z => z = _ ∨ z = _ ∨ z = _) hz (.inl rfl) fun a b _ ha hs => ?_
    rcases ha with rfl | rfl | rfl
    · exact .inr (.inl (Outcome.next.inj (hs.symm.trans h0)))
    · exact .inr (.inr (Outcome.next.inj (hs.symm.trans h1)))
    · cases hs.symm.trans h3
  have hclear : ∀ {inst x}, accessed inst x (Op.ofCode inst.opcode) = (0, 0) →
      Clear sys top inst x := fun h a ha => by
    rw [h] at ha
    exact absurd ha (Nat.not_lt_zero _)
  rcases hcases with rfl | rfl | rfl
  · exact ⟨(by decide : 0 < 4), ⟨.alu64 .mov .imm, rfl, fun h => by cases h⟩, hclear rfl⟩
  · refine ⟨(by decide : 1 < 4), ⟨.jcond .eq .imm, rfl, .inr fun _ => ?_⟩, hclear rfl⟩
    have hfetch : (defaultVm nearJump).fetch 1 = ⟨0x15, 0, 0, 1, 0⟩ := by decide
    simp only [hfetch]
    rfl
  · exact ⟨(by decide : 3 < 4), ⟨.exit, rfl, trivial⟩, hclear rfl⟩

/-- A call of the code of `nearJump`; nothing is known of most of the registers. -/
theorem jit_preserves_nearJump :
    ∃ t u, Reach ((programOf nearJump 4 (fun _ => 0) bpfR0 (fun _ => 0) 0x08000000).step
        ⟨fun _ => true, false⟩) (callState []) t ∧ Entered (callState []) t ∧
      Reach ((programOf nearJump 4 (fun _ => 0) bpfR0 (fun _ => 0) 0x08000000).step
        ⟨fun _ => true, false⟩) t u ∧ Resumed (callState []) u ∧
      pair (u.reg 1) (u.reg 0) = 0 := by
  have hJ : JumpsInside nearJump 4 := by
    unfold JumpsInside
    decide
  obtain ⟨t, hin, hE, hall⟩ := @jit_preserves nearJump 4 (fun _ => 0) bpfR0 (fun _ => 0)
    ⟨fun _ => true, false⟩ (callState []) plain_nearJump (by decide) hJ aligned_nearJump (by decide)
    (by decide) (by decide)
  obtain ⟨h0, h1, h3⟩ := nearJump_steps Ebpf.ramHost 0 0 (rowVal t) t.mem
  obtain ⟨u, hu, hret, hv, -⟩ := hall Ebpf.ramHost 0 0 ⟨0, rowVal t, t.mem⟩ _ 0 rfl
    ⟨hE.fp, by decide, fun _ _ => rfl, fun _ _ => rfl⟩ (((Reach.refl _).tail h0).tail h1) h3
    (fun z hz => nearJump_right _ _ _ _ hz) (fun _ _ => rfl)
  exact ⟨t, u, hin, hE, hu, hret, hv⟩

end BlueSwat.Jit
