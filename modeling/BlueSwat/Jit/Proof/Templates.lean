import BlueSwat.Jit.Proof.Rows

/-!
# What the templates compute

An operation template computes the eBPF operation on the value of its row, and a comparison template
leaves flags on which the branch decides; `JEQ`, `JNE` and `JGT` compare the low words.
-/

set_option autoImplicit false

namespace BlueSwat.Jit

open Thumb Machine Bytes
open Ebpf (sext Form Cond)

/-! ## Parts -/

section
variable {s : State} {rd lo hi : Reg} {v : Word}

theorem set_reg_same (h : rd ≠ sp) (v : Word) : (s.set rd v).reg rd = v := by
  simp only [State.set, if_true, if_neg h]

theorem halves_join (v : Word) :
    (v >>> 16).setWidth 16 ++ ((v.setWidth 16).setWidth 32).extractLsb' 0 16 = v := by
  apply BitVec.eq_of_getLsbD_eq
  intro i hi
  rw [BitVec.getLsbD_append]
  by_cases h : i < 16
  · simp [h]
    omega
  · simp [h, show i - 16 < 16 by omega, show 16 + (i - 16) = i by omega]

theorem setWidth_setWidth_of_le (h : v.toNat ≤ 0xffff) : (v.setWidth 16).setWidth 32 = v := by
  apply BitVec.eq_of_toNat_eq
  simp only [BitVec.toNat_setWidth]
  omega

/-- A constant is moved to its register, and nothing else changes but two of the flags. -/
theorem compute_movConst (unpriv : Word → Bool) (s : State) (v : Word) (h : rd ≠ sp) :
    ∃ t, compute unpriv (movConst rd v) s = some t ∧ t.reg rd = v ∧
      (∀ q, q ≠ rd → t.reg q = s.reg q) ∧ t.mem = s.mem ∧ t.flags.c = s.flags.c := by
  rw [movConst]
  split
  · exact ⟨_, rfl, set_reg_same h v, fun q hq => set_reg_of_ne _ hq, rfl, rfl⟩
  · split
    · refine ⟨_, rfl, ?_, fun q hq => ?_, rfl, rfl⟩
      · refine (set_reg_same h _).trans ?_
        exact (congrArg (_ ++ BitVec.extractLsb' 0 16 ·) (set_reg_same h _)).trans (halves_join v)
      · exact (set_reg_of_ne _ hq).trans (set_reg_of_ne _ hq)
    · refine ⟨_, rfl, ?_, fun q hq => set_reg_of_ne _ hq, rfl, rfl⟩
      exact (set_reg_same h _).trans (setWidth_setWidth_of_le (by omega))

theorem compute_movSext (unpriv : Word → Bool) (s : State) (imm : Word) (hlo : lo ≠ sp)
    (hhi : hi ≠ sp)
    (hne : lo ≠ hi) :
    ∃ t, compute unpriv (movSext lo hi imm) s = some t ∧ pair (t.reg hi) (t.reg lo) = sext imm ∧
      (∀ q, q ≠ lo → q ≠ hi → t.reg q = s.reg q) ∧ t.mem = s.mem ∧ t.flags.c = s.flags.c := by
  obtain ⟨t, ht, h1, h2, h3, hc⟩ := compute_movConst unpriv s imm hlo
  obtain ⟨u, hu, h4, h5, h6, hc'⟩ := compute_movConst unpriv t (if imm.msb then -1 else 0) hhi
  refine ⟨u, ?_, ?_, fun q hq hq' => (h5 q hq').trans (h2 q hq), h6.trans h3, hc'.trans hc⟩
  · rw [movSext, compute_append, ht]
    exact hu
  · rw [h4, h5 lo hne, h1, ← high_signExtend, ← pair_high_low (sext imm), sext, low_signExtend]

theorem compute_movTmp2 (unpriv : Word → Bool) (s : State) (imm : Word) :
    ∃ t, compute unpriv (movSext tmp2Lo tmp2Hi imm) s = some t ∧
      pair (t.reg tmp2Hi) (t.reg tmp2Lo) = sext imm ∧
      (∀ q, q ≠ tmp2Lo → q ≠ tmp2Hi → t.reg q = s.reg q) ∧ t.mem = s.mem ∧
      t.flags.c = s.flags.c :=
  compute_movSext unpriv s imm (by decide) (by decide) (by decide)

end

section
variable {s : State} {r : BitVec 4}

theorem compute_getRow (unpriv : Word → Bool) (hA : (s.reg fp).toNat % 4 = 0) (hr : r.toNat < 11) :
    ∃ t, compute unpriv (getRow r) s = some t ∧ heldVal t r = rowVal s r ∧
      (∀ q, q ≠ tmpLo → q ≠ tmpHi → t.reg q = s.reg q) ∧ t.mem = s.mem := by
  cases hs : onStack r with
  | false => exact ⟨s, by simp [getRow, hs, compute], by simp [heldVal, rowVal, hs], by simp, rfl⟩
  | true =>
    have ha := aligned_slotAt hA hr hs
    have hlo : heldLo r = tmpLo := if_pos hs
    have hhi : heldHi r = tmpHi := if_pos hs
    refine ⟨((s.set tmpLo (word s.mem (s.reg fp + slotAt r))).set tmpHi
      (word s.mem (s.reg fp + slotAt r + 4))).skip 0, ?_, ?_,
      fun q hq hq' => (set_reg_of_ne _ hq').trans (set_reg_of_ne _ hq), rfl⟩
    · simp only [getRow, hs, if_true, compute, exec, ha]
      rfl
    · have h1 : tmpHi ≠ sp := by decide
      have h2 : tmpLo ≠ tmpHi := by decide
      have h3 : tmpLo ≠ sp := by decide
      simp only [heldVal, rowVal, hs, if_true, hlo, hhi, State.skip, set_reg_same h1,
        set_reg_of_ne _ h2, set_reg_same h3]

end

/-! ## Operations -/

/-- `op= imm` on a 64-bit value, for the operations with a template. -/
def aluVal (op : Ebpf.AluOp) (imm : Word) (v : BitVec 64) : BitVec 64 :=
  match op with
  | .mov => sext imm
  | .add => v + sext imm
  | .and => v &&& sext imm
  | .lsh => v <<< 32
  | .rsh => v >>> 32
  | .arsh => v.sshiftRight 32
  | _ => v

theorem alu64_eq_aluVal {op : Ebpf.AluOp} {imm : Word} {k k' : Know}
    (hk : Know.alu op imm k = some k') (H : Ebpf.Host) (v src : BitVec 64) :
    Ebpf.alu64 H op .imm v src imm = .val (aluVal op imm v) := by
  cases op with
  | mov | add | and => rfl
  | lsh | rsh | arsh =>
    obtain rfl : imm = 32 := by
      simp only [Know.alu] at hk
      split at hk <;> simp_all
    rfl
  | _ => simp [Know.alu] at hk

section
variable {s : State} {lo hi : Reg} {v : BitVec 64}

/-- An operation on the registers of a row; an immediate is in `TMP_REG_2`. -/
theorem compute_aluBody (unpriv : Word → Bool) (imm : Word) (hne : lo ≠ hi)
    (hsp : ∀ q ∈ [lo, hi], q ∉ [tmp2Lo, tmp2Hi, fp, sp])
    (hv : pair (s.reg hi) (s.reg lo) = v) {op : Ebpf.AluOp}
    (hop : op ∈ [.add, .and, .lsh, .rsh, .arsh])
    (himm : op ∈ [Ebpf.AluOp.add, .and] → pair (s.reg tmp2Hi) (s.reg tmp2Lo) = sext imm) :
    ∃ t, compute unpriv (aluBody lo hi op) s = some t ∧
      pair (t.reg hi) (t.reg lo) = aluVal op imm v := by
  have hlo : s.reg lo = low v := by rw [← hv, low_pair]
  have hhi : s.reg hi = high v := by rw [← hv, high_pair]
  have hi8 : op ∈ [Ebpf.AluOp.add, .and] → s.reg tmp2Lo = low (sext imm) := fun h => by
    rw [← himm h, low_pair]
  have hi9 : op ∈ [Ebpf.AluOp.add, .and] → s.reg tmp2Hi = high (sext imm) := fun h => by
    rw [← himm h, high_pair]
  obtain ⟨h1, h2, h3⟩ : lo ≠ tmp2Hi ∧ lo ≠ sp ∧ hi ≠ sp := by
    simp only [List.mem_cons, List.not_mem_nil, or_false, forall_eq_or_imp, forall_eq,
      not_or] at hsp
    exact ⟨hsp.1.2.1, hsp.1.2.2.2, hsp.2.2.2.2⟩
  simp only [List.mem_cons, List.not_mem_nil, or_false] at hop
  obtain rfl | rfl | rfl | rfl | rfl := hop
  · refine ⟨_, rfl, ?_⟩
    rw [aluVal, BitVec.add_comm, ← pair_high_low (sext imm + v), high_add, low_add]
    simp [State.set, State.skip, Flags.arith, hne, hne.symm, h1.symm, h2, h3, hi8, hi9, hlo, hhi]
  · refine ⟨_, rfl, ?_⟩
    rw [aluVal, ← pair_high_low (v &&& sext imm), high_and, low_and]
    simp [State.set, State.skip, hne, hne.symm, h1.symm, h2, h3, hi8, hi9, hlo, hhi]
  · refine ⟨_, rfl, ?_⟩
    rw [aluVal, ← pair_high_low (v <<< 32), high_shiftLeft_of_ge v (by decide), low_shiftLeft,
      BitVec.shiftLeft_eq_zero (Nat.le_refl 32), BitVec.shiftLeft_zero]
    simp [State.set, State.skip, hne, hne.symm, h2, h3, hlo]
  · obtain ⟨t, ht, e1, e2, -⟩ := compute_movConst unpriv ((s.set lo (s.reg hi)).skip 0) 0 h3
    refine ⟨t, ht, ?_⟩
    rw [aluVal, ← pair_high_low (v >>> 32), high_ushiftRight, low_ushiftRight_of_ge v (by decide),
      BitVec.ushiftRight_eq_zero (Nat.le_refl 32), BitVec.ushiftRight_zero, e1, e2 lo hne, ← hhi]
    exact congrArg _ (set_reg_same h2 _)
  · refine ⟨_, rfl, ?_⟩
    rw [aluVal, ← pair_high_low (v.sshiftRight 32), high_sshiftRight,
      low_sshiftRight_of_ge v (by decide), @sshiftRight_of_ge 32 _ (by decide),
        BitVec.sshiftRight_zero]
    simp [State.set, State.skip, hne, hne.symm, h2, h3, hhi]

end

section
variable {unpriv : Word → Bool} {s : State} {r src : BitVec 4} {imm : Word}

/-- A row and its registers do not depend on `TMP_REG_2`. -/
theorem rowVal_of_tmp2 {t : State} (hr : r.toNat < 11) (hm : t.mem = s.mem)
    (hq : ∀ q, q ≠ tmp2Lo → q ≠ tmp2Hi → t.reg q = s.reg q) : rowVal t r = rowVal s r := by
  obtain ⟨-, hne⟩ := held_ne r hr
  simp only [List.mem_cons, List.not_mem_nil, or_false, forall_eq_or_imp, forall_eq, not_or] at hne
  exact rowVal_congr hm (hq fp (by decide) (by decide)) fun _ =>
    ⟨hq _ hne.1.1 hne.1.2.1, hq _ hne.2.1 hne.2.2.1⟩

theorem compute_immOp {op : Ebpf.AluOp} (hop : op ∈ [.add, .and])
    (hA : (s.reg fp).toNat % 4 = 0) (hr : r.toNat < 11) :
    ∃ t, compute unpriv (movSext tmp2Lo tmp2Hi imm ++ getRow r ++
      aluBody (heldLo r) (heldHi r) op) s =
      some t ∧ heldVal t r = aluVal op imm (rowVal s r) := by
  obtain ⟨hne, hsp⟩ := held_ne r hr
  obtain ⟨t, ht, hv, hq, hm, -⟩ := compute_movTmp2 unpriv s imm
  have hfp : t.reg fp = s.reg fp := hq fp (by decide) (by decide)
  obtain ⟨u, hu, hv', hq', -⟩ := compute_getRow (s := t) unpriv (hfp ▸ hA) hr
  have himm : pair (u.reg tmp2Hi) (u.reg tmp2Lo) = sext imm := by
    rw [hq' tmp2Hi (by decide) (by decide), hq' tmp2Lo (by decide) (by decide), hv]
  have hop' : op ∈ [Ebpf.AluOp.add, .and, .lsh, .rsh, .arsh] := by
    revert hop
    cases op <;> decide
  obtain ⟨w, hw, hv''⟩ := compute_aluBody unpriv imm hne hsp
    (hv'.trans (rowVal_of_tmp2 hr hm hq)) hop' fun _ => himm
  refine ⟨w, ?_, hv''⟩
  rw [compute_append, compute_append, ht, Option.bind_some, hu, Option.bind_some, hw]

theorem compute_shiftOp {op : Ebpf.AluOp} (hop : op ∈ [.lsh, .rsh, .arsh])
    (hA : (s.reg fp).toNat % 4 = 0) (hr : r.toNat < 11) :
    ∃ t, compute unpriv (getRow r ++ aluBody (heldLo r) (heldHi r) op) s = some t ∧
      heldVal t r = aluVal op imm (rowVal s r) := by
  obtain ⟨hne, hsp⟩ := held_ne r hr
  obtain ⟨u, hu, hv, -⟩ := compute_getRow unpriv hA hr
  have hop' : op ∈ [Ebpf.AluOp.add, .and, .lsh, .rsh, .arsh] ∧ op ∉ [Ebpf.AluOp.add, .and] := by
    revert hop
    cases op <;> decide
  obtain ⟨w, hw, hv'⟩ := compute_aluBody unpriv imm hne hsp hv hop'.1
    fun h => absurd h hop'.2
  refine ⟨w, ?_, hv'⟩
  rw [compute_append, hu, Option.bind_some, hw]

/-- **An operation template computes the operation on its row.** -/
theorem compute_aluTemplate {op : Ebpf.AluOp} {k k' : Know} (hk : Know.alu op imm k = some k')
    (hA : (s.reg fp).toNat % 4 = 0) (hr : r.toNat < 11) :
    ∃ t, compute unpriv (aluTemplate op r imm) s = some t ∧
      heldVal t r = aluVal op imm (rowVal s r) := by
  cases op with
  | mov =>
    obtain ⟨hne, hsp⟩ := held_ne r hr
    obtain ⟨t, ht, hv, -⟩ := compute_movSext unpriv s imm
      (fun e => hsp (heldLo r) (by simp) (by simp [e]))
      (fun e => hsp (heldHi r) (by simp) (by simp [e])) hne
    exact ⟨t, ht, hv⟩
  | add | and => exact compute_immOp (by decide) hA hr
  | lsh | rsh | arsh => exact compute_shiftOp (by decide) hA hr
  | _ => simp [Know.alu] at hk

/-- A load template loads the low word of its row. -/
theorem compute_loadTemplate {off x : Word} (hr : r.toNat < 11)
    (hx : word s.mem (s.reg (heldLo src) + off) = x)
    (hu : ∀ k < 4, unpriv (s.reg (heldLo src) + off + BitVec.ofNat 32 k) = true) :
    ∃ t, compute unpriv (loadTemplate r src off) s = some t ∧ low (heldVal t r) = x := by
  obtain ⟨-, hsp⟩ := held_ne r hr
  have h1 : heldLo r ≠ sp := fun e => hsp (heldLo r) (by simp) (by simp [e])
  have hu' : ∀ a, a = s.reg (heldLo src) + off →
      (unpriv a && unpriv (a + 1) && unpriv (a + 2) && unpriv (a + 3)) = true := by
    rintro _ rfl
    have h0 := hu 0 (by decide)
    rw [BitVec.add_zero] at h0
    rw [h0]
    simp only [Bool.true_and, Bool.and_eq_true]
    exact ⟨⟨hu 1 (by decide), hu 2 (by decide)⟩, hu 3 (by decide)⟩
  rw [loadTemplate]
  split
  · have h7 : tmpHi ≠ sp := by decide
    have h2 : ((s.set tmpHi (s.reg (heldLo src))).skip 0).reg tmpHi = s.reg (heldLo src) :=
      set_reg_same (s := s) h7 _
    refine ⟨(((s.set tmpHi (s.reg (heldLo src))).skip 0).set (heldLo r) x).skip 0, ?_, ?_⟩
    · simp only [compute, exec, Option.bind_some, h2, hu' _ rfl, if_true]
      rw [← hx]
      rfl
    · rw [heldVal, low_pair]
      exact set_reg_same h1 x
  · refine ⟨(s.set (heldLo r) x).skip 0, ?_, ?_⟩
    · simp only [compute, exec, hu' _ rfl, if_true, hx]
      rfl
    · rw [heldVal, low_pair]
      exact set_reg_same h1 x

end

/-! ## Comparisons -/

/-- The second operand of a comparison, by the rows. -/
def operandVal (form : Form) (v : BitVec 64) (imm : Word) : BitVec 64 :=
  match form with
  | .imm => sext imm
  | .reg => v

/-- What the code decides on, for a row of value `v` and an operand `w`. -/
def codeHolds (cond : Cond) (v w : BitVec 64) : Bool :=
  match cond with
  | .eq => low v == low w
  | .ne => low v != low w
  | .gt => (low w).ult (low v)
  | .sgt => w.slt v
  | _ => false

section
variable {unpriv : Word → Bool} {s : State} {r src : BitVec 4} {imm : Word} {form : Form}

/-- The operand is fetched to registers that a row on the stack does not go through. -/
theorem compute_operand (unpriv : Word → Bool) (s : State) (form : Form) (imm : Word)
    (hsrc : src.toNat < 11) :
    ∃ t, compute unpriv (operand form src imm).1 s = some t ∧
      pair (t.reg (operand form src imm).2.2) (t.reg (operand form src imm).2.1) =
        operandVal form (rowVal s src) imm ∧
      (∀ q ∈ [(operand form src imm).2.1, (operand form src imm).2.2], q ≠ tmpLo ∧ q ≠ tmpHi) ∧
      (∀ q, q ≠ tmp2Lo → q ≠ tmp2Hi → t.reg q = s.reg q) ∧ t.mem = s.mem := by
  have htmp : ∀ q ∈ [tmp2Lo, tmp2Hi], q ≠ tmpLo ∧ q ≠ tmpHi := by decide
  cases form with
  | imm =>
    obtain ⟨t, ht, hv, hq, hm, -⟩ := compute_movTmp2 unpriv s imm
    exact ⟨t, ht, hv, htmp, hq, hm⟩
  | reg =>
    cases hs : onStack src with
    | true =>
      have h1 : tmp2Lo ≠ sp := by decide
      have h2 : tmp2Hi ≠ sp := by decide
      have h3 : tmp2Hi ≠ tmp2Lo := by decide
      have h4 : fp ≠ tmp2Hi := by decide
      have hop : operand .reg src imm =
          ([.ldr tmp2Hi fp (slotAt src + 4), .ldr tmp2Lo fp (slotAt src)], tmp2Lo, tmp2Hi) := by
        simp only [operand, hs, if_true]
      rw [hop]
      refine ⟨_, rfl, ?_, htmp, fun q hq hq' => (set_reg_of_ne _ hq).trans (set_reg_of_ne _ hq'),
        rfl⟩
      simp only [operandVal, rowVal, hs, if_true, State.skip, set_reg_same h1, set_reg_of_ne _ h3,
        set_reg_same h2, set_reg_of_ne _ h4, BitVec.add_assoc]
      rfl
    | false =>
      have hop : operand .reg src imm = ([], heldLo src, heldHi src) := by
        simp only [operand, hs, Bool.false_eq_true, if_false]
      rw [hop]
      obtain ⟨h1, h2⟩ := held_not_scratch src hsrc hs
      refine ⟨s, rfl, by simp [operandVal, rowVal, hs], ?_, fun _ _ _ => rfl, rfl⟩
      simp only [scratch, List.mem_cons, List.not_mem_nil, or_false, not_or, forall_eq_or_imp,
        forall_eq] at h1 h2 ⊢
      exact ⟨⟨h1.1, h1.2.1⟩, h2.1, h2.2.1⟩

/-- The flags after the comparison of a row of value `v` with an operand of value `w`. -/
theorem compute_cmpBody {lo hi rn rm : Reg} {v w : BitVec 64} {cond : Cond} {kd ks : Know}
    {c : BitVec 4} (unpriv : Word → Bool) (hd : decides cond form kd ks imm = some c)
    (hv : pair (s.reg hi) (s.reg lo) = v) (hw : pair (s.reg rm) (s.reg rn) = w) :
    ∃ t, compute unpriv (cmpBody cond lo hi rn rm) s = some t ∧
      t.flags.passes c = codeHolds cond v w := by
  have hlo : s.reg lo = low v := by rw [← hv, low_pair]
  have hhi : s.reg hi = high v := by rw [← hv, high_pair]
  have hrn : s.reg rn = low w := by rw [← hw, low_pair]
  have hrm : s.reg rm = high w := by rw [← hw, high_pair]
  cases cond with
  | eq =>
    obtain rfl : c = condEq := by
      simp only [decides] at hd
      split at hd <;> simp_all
    refine ⟨_, rfl, ?_⟩
    rw [codeHolds, ← hlo, ← hrn]
    exact passes_eq _ _
  | ne =>
    obtain rfl : c = condNe := by
      simp only [decides] at hd
      split at hd <;> simp_all
    refine ⟨_, rfl, ?_⟩
    rw [codeHolds, ← hlo, ← hrn]
    exact passes_ne _ _
  | gt =>
    obtain rfl : c = condHi := by
      simp only [decides] at hd
      split at hd <;> simp_all
    refine ⟨_, rfl, ?_⟩
    rw [codeHolds, ← hlo, ← hrn]
    exact passes_hi _ _
  | sgt =>
    obtain rfl : c = condLt := by
      simp only [decides] at hd
      split at hd <;> simp_all
    refine ⟨_, rfl, ?_⟩
    rw [codeHolds, ← passes_lt, ← hlo, ← hrn, ← hhi, ← hrm]
    rfl
  | _ => simp [decides] at hd

/-- **A comparison template leaves the flags of the comparison.** -/
theorem compute_cmpTemplate {cond : Cond} {kd ks : Know} {c : BitVec 4}
    (hd : decides cond form kd ks imm = some c) (hA : (s.reg fp).toNat % 4 = 0)
    (hr : r.toNat < 11) (hsrc : src.toNat < 11) :
    ∃ t, compute unpriv (cmpTemplate cond form r src imm) s = some t ∧
      t.flags.passes c = codeHolds cond (rowVal s r) (operandVal form (rowVal s src) imm) := by
  obtain ⟨t, ht, hw, hne, hq, hm⟩ := compute_operand unpriv s form imm hsrc
  have hfp : t.reg fp = s.reg fp := hq fp (by decide) (by decide)
  obtain ⟨u, hu, hv, hq', -⟩ := compute_getRow (s := t) unpriv (hfp ▸ hA) hr
  have hkeep : ∀ q ∈ [(operand form src imm).2.1, (operand form src imm).2.2], u.reg q = t.reg q :=
    fun q h => hq' q (hne q h).1 (hne q h).2
  have hw' : pair (u.reg (operand form src imm).2.2) (u.reg (operand form src imm).2.1) =
      operandVal form (rowVal s src) imm := by
    rw [hkeep (operand form src imm).2.1 (by simp), hkeep (operand form src imm).2.2 (by simp), hw]
  obtain ⟨x, hx, hp⟩ := compute_cmpBody unpriv hd
    (hv.trans (rowVal_of_tmp2 hr hm hq)) hw'
  refine ⟨x, ?_, hp⟩
  rw [cmpTemplate, compute_append, compute_append, ht, Option.bind_some, hu, Option.bind_some, hx]

end

end BlueSwat.Jit
