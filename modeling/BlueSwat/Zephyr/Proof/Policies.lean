import BlueSwat.Fsm.Proof.Bytecode
import BlueSwat.Zephyr.Policies

/-!
# The Zephyr bytecode computes its sources

`policy_implements`: each of the ten bytecode arrays implements the `zephyr_filter` of its C
source, whatever bytes follow it in memory. `policy_agrees` says it of `ebpf_vm_exec`.
-/

set_option autoImplicit false

namespace BlueSwat.Zephyr

open Ebpf Fsm Record

/-! ## Words -/

theorem u32_zext_sub_five (x : BitVec 32) : u32 (zext x + sext 0xfffffffb) = x - 5 := by
  have h1 : (zext x).setWidth 32 = x := by simp [zext]
  have h2 : (sext 0xfffffffb).setWidth 32 = -5 := by decide
  rw [u32, BitVec.setWidth_add _ _ (by decide), h1, h2, BitVec.sub_eq_add_neg]

/-- The compiler's range test `(unsigned)(x - 5) > 11`. -/
theorem ult_sub_five (x : BitVec 32) :
    (zext 11).ult (zext (x - 5)) = decide (x.toInt < 5 ∨ x.toInt > 16) := by
  have hx := x.isLt
  have hi := BitVec.toInt_eq_toNat_cond x
  have h11 : (11 : BitVec 32).toNat = 11 := rfl
  have h5 : (5 : BitVec 32).toNat = 5 := rfl
  rw [BitVec.ult, toNat_zext, toNat_zext, BitVec.toNat_sub, h11, h5]
  apply decide_eq_decide.2
  split at hi <;> omega

theorem zext_and (x y : BitVec 32) : zext x &&& zext y = zext (x &&& y) := by
  apply BitVec.eq_of_getLsbD_eq
  intro i hi
  simp [zext]

/-! ## The policies -/

section
variable {code : Nat → BitVec 8}

theorem connChanHop_implements
    (hd : Decodes code [⟨(Op.ldx .w).code, 1, 1, 0x24, 0⟩,
      ⟨(Op.alu64 .add .imm).code, 1, 0, 0, 0xfffffffb⟩, ⟨(Op.alu64 .lsh .imm).code, 1, 0, 0, 32⟩,
      ⟨(Op.alu64 .rsh .imm).code, 1, 0, 0, 32⟩, ⟨(Op.alu64 .mov .imm).code, 0, 0, 0, 1⟩,
      ⟨(Op.jcond .gt .imm).code, 1, 0, 1, 11⟩, ⟨(Op.alu64 .mov .imm).code, 0, 0, 0, 0⟩,
      ⟨Op.exit.code, 0, 0, 0, 0⟩]) :
    Implements layout code connChanHop := by
  intro P M memLen s hM
  refine Returns.mono (n := 8) ?_ (by decide)
  refine .slot (initState_mem_holds P hM) (.conn .channelHop) (hd 0 _ rfl) (by decide) rfl ?_
  refine .alu64 (hd 1 _ rfl) rfl ?_
  refine .zeroExtend (hd 2 _ rfl) (hd 3 _ rfl) (u32_zext_sub_five _) (.mov64 (hd 4 _ rfl) ?_)
  exact returns_rejectIf _ (hd 5 _ rfl) (hd 6 _ rfl) (hd 7 _ rfl) rfl (ult_sub_five _)

theorem lllInterval_implements
    (hd : Decodes code [⟨(Op.ldx .w).code, 1, 1, 0x2c, 0⟩,
      ⟨(Op.alu64 .mov .imm).code, 0, 0, 0, 1⟩, ⟨(Op.jcond .eq .imm).code, 1, 0, 1, 0⟩,
      ⟨(Op.alu64 .mov .imm).code, 0, 0, 0, 0⟩, ⟨Op.exit.code, 0, 0, 0, 0⟩]) :
    Implements layout code lllInterval := by
  intro P M memLen s hM
  refine Returns.mono (n := 5) ?_ (by decide)
  refine .slot (initState_mem_holds P hM) (.conn .lllInterval) (hd 0 _ rfl) (by decide) rfl ?_
  refine .mov64 (hd 1 _ rfl) ?_
  exact returns_rejectIf _ (hd 2 _ rfl) (hd 3 _ rfl) (hd 4 _ rfl) rfl (zext_beq _ 0)

theorem dcNesn_implements
    (hd : Decodes code [⟨(Op.ldx .w).code, 2, 1, 0x68, 0⟩, ⟨(Op.jcond .ne .imm).code, 2, 0, 5, 1⟩,
      ⟨(Op.ldx .w).code, 2, 1, 0x34, 0⟩, ⟨(Op.jcond .ne .imm).code, 2, 0, 3, 1⟩,
      ⟨(Op.alu64 .mov .imm).code, 0, 0, 0, 1⟩, ⟨(Op.ldx .w).code, 1, 1, 0x30, 0⟩,
      ⟨(Op.jcond .eq .imm).code, 1, 0, 1, 1⟩, ⟨(Op.alu64 .mov .imm).code, 0, 0, 0, 0⟩,
      ⟨Op.exit.code, 0, 0, 0, 0⟩]) :
    Implements layout code dcNesn := by
  intro P M memLen s hM
  have hM' := initState_mem_holds P hM
  refine Returns.mono (n := 9) ?_ (by decide)
  refine .slot hM' (.dc .dcAnchorState) (hd 0 _ rfl) (by decide) rfl ?_
  refine .jcond _ (hd 1 _ rfl) (zext_bne _ 1) (fun h => ?_) fun h => ?_
  · have : dcNesn s = .pass := Verdict.rejectIf_neg fun hr => of_decide_eq_true h hr.1
    rw [this]
    exact .mov64 (hd 7 _ rfl) (.exit (hd 8 _ rfl))
  refine .slot hM' (.dc .nesn) (hd 2 _ rfl) (by decide) rfl ?_
  refine .jcond _ (hd 3 _ rfl) (zext_bne _ 1) (fun h' => ?_) fun h' => ?_
  · have : dcNesn s = .pass := Verdict.rejectIf_neg fun hr => of_decide_eq_true h' hr.2.1
    rw [this]
    exact .mov64 (hd 7 _ rfl) (.exit (hd 8 _ rfl))
  refine .mov64 (hd 4 _ rfl) (.slot hM' (.dc .sn) (hd 5 _ rfl) (by decide) rfl ?_)
  refine returns_rejectIf _ (hd 6 _ rfl) (hd 7 _ rfl) (hd 8 _ rfl) rfl ((zext_beq _ 1).trans ?_)
  simp at h h'
  simp [h, h']

theorem smpIdentCheck_implements
    (hd : Decodes code [⟨(Op.alu64 .mov .imm).code, 0, 0, 0, 0⟩,
      ⟨(Op.ldx .w).code, 2, 1, 0x5c, 0⟩, ⟨(Op.alu64 .and .imm).code, 2, 0, 0, 36⟩,
      ⟨(Op.jcond .eq .imm).code, 2, 0, 14, 0⟩, ⟨(Op.alu64 .mov .imm).code, 0, 0, 0, 1⟩,
      ⟨(Op.ldx .w).code, 2, 1, 0x54, 0⟩, ⟨(Op.alu64 .lsh .imm).code, 2, 0, 0, 32⟩,
      ⟨(Op.alu64 .arsh .imm).code, 2, 0, 0, 32⟩, ⟨(Op.ldx .w).code, 3, 1, 0x60, 0⟩,
      ⟨(Op.alu64 .lsh .imm).code, 3, 0, 0, 32⟩, ⟨(Op.alu64 .arsh .imm).code, 3, 0, 0, 32⟩,
      ⟨(Op.jcond .sgt .reg).code, 3, 2, 6, 0⟩, ⟨(Op.ldx .w).code, 2, 1, 0x64, 0⟩,
      ⟨(Op.alu64 .and .imm).code, 2, 0, 0, 1⟩, ⟨(Op.jcond .eq .imm).code, 2, 0, 2, 0⟩,
      ⟨(Op.ldx .w).code, 1, 1, 0x58, 0⟩, ⟨(Op.jcond .eq .imm).code, 1, 0, 1, 0⟩,
      ⟨(Op.alu64 .mov .imm).code, 0, 0, 0, 0⟩, ⟨Op.exit.code, 0, 0, 0, 0⟩]) :
    Implements layout code smpIdentCheck := by
  intro P M memLen s hM
  have hM' := initState_mem_holds P hM
  refine Returns.mono (n := 19) ?_ (by decide)
  refine .mov64 (hd 0 _ rfl) (.slot hM' (.dc .smpKeys) (hd 1 _ rfl) (by decide) rfl ?_)
  refine .alu64 (hd 2 _ rfl) (congrArg AluRes.val (zext_and _ 36)) ?_
  refine .jcond _ (hd 3 _ rfl) (zext_beq _ 0) (fun hk => ?_) fun hk => ?_
  · rw [smpIdentCheck, if_pos (of_decide_eq_true hk)]
    exact .exit (hd 18 _ rfl)
  rw [smpIdentCheck, if_neg (of_decide_eq_false hk)]
  refine .mov64 (hd 4 _ rfl) (.slot hM' (.dc .smpEncSizePrev) (hd 5 _ rfl) (by decide) rfl ?_)
  refine .signExtend (hd 6 _ rfl) (hd 7 _ rfl) rfl ?_
  refine .slot hM' (.dc .smpEncSize) (hd 8 _ rfl) (by decide) rfl ?_
  refine .signExtend (hd 9 _ rfl) (hd 10 _ rfl) rfl ?_
  refine .jcond _ (hd 11 _ rfl) (slt_sext _ _) (fun he => ?_) fun he => ?_
  · rw [if_pos (of_decide_eq_true he)]
    exact .exit (hd 18 _ rfl)
  rw [if_neg (of_decide_eq_false he)]
  refine .slot hM' (.dc .smpKeysFlags) (hd 12 _ rfl) (by decide) rfl ?_
  refine .alu64 (hd 13 _ rfl) (congrArg AluRes.val (zext_and _ 1)) ?_
  refine .jcond _ (hd 14 _ rfl) (zext_beq _ 0) (fun hf => ?_) fun hf => ?_
  · rw [if_neg fun h => h.1 (of_decide_eq_true hf)]
    exact .mov64 (hd 17 _ rfl) (.exit (hd 18 _ rfl))
  refine .slot hM' (.dc .smpMethodPrev) (hd 15 _ rfl) (by decide) rfl ?_
  have hv : (if s (.dc .smpKeysFlags) &&& 1 ≠ 0 ∧ s (.dc .smpMethodPrev) = 0 then Verdict.reject
      else .pass) = .rejectIf (s (.dc .smpMethodPrev) = 0) := by
    simp [Verdict.rejectIf, show ¬ s (.dc .smpKeysFlags) &&& 1#32 = 0#32 from of_decide_eq_false hf]
  rw [hv]
  exact returns_rejectIf _ (hd 16 _ rfl) (hd 17 _ rfl) (hd 18 _ rfl) rfl (zext_beq _ 0)

end

/-- **Each bytecode array implements its source**, whatever bytes follow it. -/
theorem policy_implements (p : Policy) (rest : Nat → BitVec 8) :
    Implements layout (codeBytes p.bytecode rest) p.zephyrFilter := by
  cases p with
  | connChanMap =>
    exact implements_rejectBelow (.conn .channelMap) 2 0x20 2 (decodes_of (by decide))
      (by decide) (by decide) fun _ => rfl
  | connChanHop => exact connChanHop_implements (decodes_of (by decide))
  | lllInterval => exact lllInterval_implements (decodes_of (by decide))
  | dcNesn => exact dcNesn_implements (decodes_of (by decide))
  | llcpLenReq =>
    exact implements_rejectAbove (.dc .llcpLenReq) 1 0x38 1 (decodes_of (by decide))
      (by decide) (by decide) fun _ => rfl
  | llcpConnParamReq =>
    exact implements_rejectAbove (.dc .llcpConnParamReq) 1 0x48 1 (decodes_of (by decide))
      (by decide) (by decide) fun _ => rfl
  | scanRspLen =>
    exact implements_rejectAbove (.conn .scanRspLen) 80 0x28 80 (decodes_of (by decide))
      (by decide) (by decide) fun _ => rfl
  | smpIdentCheck => exact smpIdentCheck_implements (decodes_of (by decide +kernel))
  | spiAclLen =>
    exact implements_rejectAbove (.spi .hciAclLen) 76 0x70 76 (decodes_of (by decide))
      (by decide) (by decide) fun _ => rfl
  | spiEvtLen =>
    exact implements_rejectAbove (.spi .hciEvtLen) 76 0x6c 76 (decodes_of (by decide))
      (by decide) (by decide) fun _ => rfl

/-- **Bytecode and source agree**: on every FSM state, wherever it lies in memory, `ebpf_vm_exec`
on the bytecode ends in an `EXIT` with the value of the source's `zephyr_filter`. -/
theorem policy_agrees (p : Policy) (rest : Nat → BitVec 8) (P : Placement layout.size) (M : Mem)
    (memLen : BitVec 32) (fsm : FsmState) (fuel : Nat) :
    ∃ s, ebpfVmExec P.host (defaultVm (codeBytes p.bytecode rest)) (ifwRuntimeMaxInsts + fuel)
      (layout.image M P.mem fsm) P.mem memLen = some (s, .exit (p.zephyrFilter fsm).code) := by
  obtain ⟨s, hs, -⟩ := (policy_implements p rest P _ memLen fsm
    (holds_image (by rw [layout_size]; decide))).mono (Nat.le_add_right _ fuel)
  exact ⟨s, hs⟩

end BlueSwat.Zephyr
