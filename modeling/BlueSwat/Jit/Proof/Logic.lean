import BlueSwat.Jit.Proof.Operation

/-!
# 64-bit bitwise operations and negation

`AND64` is right. `OR64` has a 16-bit form for low registers that puts the destination in the wrong
place: the source is the one that changes, by a word that the code should not look at. `XOR64` has a
wide form whose shift takes the carry in, and `NEG64` negates the high half without a borrow.
`logic64_agrees_iff` says when they are right.
-/

set_option autoImplicit false

namespace BlueSwat.Jit

open Thumb Bytes
open Ebpf (EbpfInst Op Form)

/-! ## Operations on each half -/

/-- The instruction computes `f` of its operands. -/
def Computes (i : Inst) (rd rm : Reg) (f : Word → Word → Word) : Prop :=
  ∀ sys s, ∃ g t, i.exec sys s = some t ∧ Writes s rd (f (s.reg rd) (s.reg rm)) g t

section
variable {sys : Sys} {s : State} {lo hi lo' hi' rd rm : Reg} {v w : BitVec 64} {i j : Inst}
  {f : Word → Word → Word}

theorem run_halves (hO : Operands lo hi lo' hi') (hi1 : Computes i lo lo' f)
    (hj : Computes j hi hi' f) (hv : pair (s.reg hi) (s.reg lo) = v)
    (hw : pair (s.reg hi') (s.reg lo') = w) :
    Runs sys [i, j] s fun t =>
      pair (t.reg hi) (t.reg lo) = pair (f (high v) (high w)) (f (low v) (low w)) := by
  obtain ⟨hlo, hhi⟩ := halves_of_pair hv
  obtain ⟨hlo', hhi'⟩ := halves_of_pair hw
  obtain ⟨_, t, ht, w1⟩ := hi1 sys s
  obtain ⟨_, u, hu, w2⟩ := hj sys t
  refine .step ht (.step hu (.nil ?_))
  rw [w2.dest, w2.rest lo hO.halves, w1.dest, w1.rest hi (Ne.symm hO.halves),
    w1.rest hi' hO.cross.2, hlo, hhi, hlo', hhi']

/-! ## Instructions -/

def andInst (rd rm : Reg) : Inst :=
  if rd.toNat < 8 ∧ rm.toNat < 8 then .data .and true rd rd rm (.lsl 0)
  else .base (.alu .and false rd rd rm)

/-- The register that the 16-bit form reads: the destination is a bit too far to the left. -/
def crossed (rd : Reg) : Reg := (rd + rd) &&& 7

/-- The source is the one that is written in the 16-bit form, and the highest bit of the destination
makes a product of it. -/
def orInst (rd rm : Reg) : Inst :=
  if rd.toNat < 8 ∧ rm.toNat < 8 then
    if rd.toNat < 4 then .data .orr true rm rm (crossed rd) (.lsl 0)
    else .mul true rm (crossed rd) rm
  else .data .orr false rd rd rm (.lsl 0)

/-- `r0` is taken for a register without a 16-bit form. -/
def xorInst (rd rm : Reg) : Inst :=
  if (0 < rd.toNat ∧ rd.toNat < 8) ∧ 0 < rm.toNat ∧ rm.toNat < 8 then
    .base (.alu .eor true rd rd rm)
  else .data .eor false rd rm rd .rrx

theorem andInst_quiet (rd rm : Reg) :
    (andInst rd rm).quiet = true ∧ (andInst rd rm).dests = [rd] := by
  unfold andInst
  split <;> exact ⟨rfl, rfl⟩

theorem xorInst_quiet (rd rm : Reg) :
    (xorInst rd rm).quiet = true ∧ (xorInst rd rm).dests = [rd] := by
  unfold xorInst
  split <;> exact ⟨rfl, rfl⟩

theorem orInst_quiet_wide (rd : Reg) {rm : Reg} (h : 8 ≤ rm.toNat) :
    (orInst rd rm).quiet = true ∧ (orInst rd rm).dests = [rd] := by
  rw [orInst, if_neg (by omega)]
  exact ⟨rfl, rfl⟩

/-- The 16-bit form writes the source. -/
theorem orInst_quiet_narrow {rd rm : Reg} (hd : rd.toNat < 8) (hm : rm.toNat < 8) :
    (orInst rd rm).quiet = true ∧ (orInst rd rm).dests = [rm] := by
  rw [orInst, if_pos ⟨hd, hm⟩]
  split <;> exact ⟨rfl, rfl⟩

theorem computes_and (h : rd ≠ sp) : Computes (andInst rd rm) rd rm (· &&& ·) := by
  intro sys s
  unfold andInst
  split
  · have hw := writes_put s h true
      (dataResult .and s.flags (s.reg rd) ((Shift.lsl 0).apply (s.reg rm) s.flags.c))
    rw [Shift.apply_lsl_zero] at hw
    exact ⟨_, _, by rw [Inst.exec, Shift.apply_lsl_zero], hw⟩
  · exact ⟨_, _, rfl, (writes_put s h false (aluResult .and s.flags (s.reg rd) (s.reg rm))).skip 0⟩

theorem computes_or (h : rd ≠ sp) (hm : 8 ≤ rm.toNat) :
    Computes (orInst rd rm) rd rm (· ||| ·) := by
  intro sys s
  have hw := writes_put s h false
    (dataResult .orr s.flags (s.reg rd) ((Shift.lsl 0).apply (s.reg rm) s.flags.c))
  rw [Shift.apply_lsl_zero] at hw
  refine ⟨_, _, ?_, hw⟩
  rw [orInst, if_neg (by omega), Inst.exec, Shift.apply_lsl_zero]

theorem computes_xor (h : rd ≠ sp) (hd : 0 < rd.toNat ∧ rd.toNat < 8)
    (hm : 0 < rm.toNat ∧ rm.toNat < 8) :
    Computes (xorInst rd rm) rd rm (· ^^^ ·) := by
  intro sys s
  refine ⟨_, _, ?_, (writes_put s h true (aluResult .eor s.flags (s.reg rd) (s.reg rm))).skip 0⟩
  rw [xorInst, if_pos ⟨hd, hm⟩]
  rfl

end

section
variable {d r : BitVec 4} (hd : d.toNat < 11) (hr : r.toNat < 11) (form : Form) (imm : Word)
include hd hr

theorem disassemble_and64 :
    disassemble (buildAlu64 .and form (rowOf d) (rowOf r) imm) = some (fetch form d r imm ++
      [andInst (heldLo d) (srcLo form r), andInst (heldHi d) (srcHi form r)] ++ storeRow d) :=
  disassemble_halves .and (fun lo hi lo' hi' => [andInst lo lo', andInst hi hi']) (by decide)
    hd hr (by cases form <;> rfl)

theorem disassemble_or64 :
    disassemble (buildAlu64 .or form (rowOf d) (rowOf r) imm) = some (fetch form d r imm ++
      [orInst (heldLo d) (srcLo form r), orInst (heldHi d) (srcHi form r)] ++ storeRow d) :=
  disassemble_halves .or (fun lo hi lo' hi' => [orInst lo lo', orInst hi hi']) (by decide)
    hd hr (by cases form <;> rfl)

theorem disassemble_xor64 :
    disassemble (buildAlu64 .xor form (rowOf d) (rowOf r) imm) = some (fetch form d r imm ++
      [xorInst (heldLo d) (srcLo form r), xorInst (heldHi d) (srcHi form r)] ++ storeRow d) :=
  disassemble_halves .xor (fun lo hi lo' hi' => [xorInst lo lo', xorInst hi hi']) (by decide)
    hd hr (by cases form <;> rfl)

end

/-! ## The right cases -/

/-- Where `xor` has its 16-bit form. -/
theorem low_operands {d r : BitVec 4} (hd : d.toNat < 11) (h0 : d ≠ 0) (hr : r = 1 ∨ r = 6) :
    ∀ q ∈ [heldLo d, heldHi d, srcLo .reg r, srcHi .reg r], 0 < q.toNat ∧ q.toNat < 8 := by
  have hdst : ∀ d : BitVec 4, d.toNat < 11 → d ≠ 0 →
      (0 < (heldLo d).toNat ∧ (heldLo d).toNat < 8) ∧ 0 < (heldHi d).toNat ∧
        (heldHi d).toNat < 8 := by
    decide
  obtain ⟨h1, h2⟩ := hdst d hd h0
  simp only [List.mem_cons, List.not_mem_nil, or_false, forall_eq_or_imp, forall_eq]
  rcases hr with rfl | rfl
  · exact ⟨h1, h2, by decide, by decide⟩
  · exact ⟨h1, h2, by decide, by decide⟩

theorem tame_and (d : BitVec 4) (lo hi : Reg) :
    tameLine d [andInst (heldLo d) lo, andInst (heldHi d) hi] = true :=
  tame_halves (andInst_quiet _ _) (andInst_quiet _ _)

theorem tame_xor (d : BitVec 4) (lo hi : Reg) :
    tameLine d [xorInst (heldLo d) lo, xorInst (heldHi d) hi] = true :=
  tame_halves (xorInst_quiet _ _) (xorInst_quiet _ _)

theorem tame_or (d : BitVec 4) {lo hi : Reg} (hlo : 8 ≤ lo.toNat) (hhi : 8 ≤ hi.toNat) :
    tameLine d [orInst (heldLo d) lo, orInst (heldHi d) hi] = true :=
  tame_halves (orInst_quiet_wide _ hlo) (orInst_quiet_wide _ hhi)

/-- An operand in `TMP_REG_2`. -/
theorem src_in_tmp2 {form : Form} {r : BitVec 4} (h : form = .imm ∨ onStack r = true) :
    8 ≤ (srcLo form r).toNat ∧ 8 ≤ (srcHi form r).toNat := by
  rw [srcLo, srcHi, if_pos h, if_pos h]
  decide

section
variable {inst : EbpfInst} {form : Form} {x : Ebpf.State}
  (hd : inst.dst.toNat < 11) (hr : inst.src.toNat < 11)
include hd hr

/-- An operation that works on each half alone. -/
theorem agrees_of_computes {op : Ebpf.AluOp} {f : Word → Word → Word} {i j : Inst} {v : BitVec 64}
    (hop : Op.ofCode inst.opcode = some (.alu64 op form))
    (hv : ∀ H, Ebpf.alu64 H op form (x.reg inst.dst) (x.reg inst.src) inst.imm = .val v)
    (htame : tameLine inst.dst [i, j] = true)
    (hcode : disassemble (buildAlu64 op form (rowOf inst.dst) (rowOf inst.src) inst.imm) =
      some (fetch form inst.dst inst.src inst.imm ++ [i, j] ++ storeRow inst.dst))
    (hi : Computes i (heldLo inst.dst) (srcLo form inst.src) f)
    (hj : Computes j (heldHi inst.dst) (srcHi form inst.src) f)
    (hlow : low v = f (low (x.reg inst.dst)) (low (operandVal form (x.reg inst.src) inst.imm)))
    (hhigh : high v = f (high (x.reg inst.dst))
      (high (operandVal form (x.reg inst.src) inst.imm))) :
    Agrees inst x := by
  refine agrees_of_block hop hd hr hv htame hcode fun sys top c t h => ?_
  refine (run_halves (operands hd hr form) hi hj h.dst h.operand).mono fun u hu => ?_
  rw [heldVal, hu, ← hlow, ← hhigh, pair_high_low]

theorem and64_agrees (hop : Op.ofCode inst.opcode = some (.alu64 .and form)) : Agrees inst x := by
  have hO := operands hd hr form
  refine agrees_of_computes hd hr hop (fun H => rfl) (tame_and _ _ _)
    (disassemble_and64 hd hr form inst.imm) (computes_and ?_) (computes_and ?_)
    (low_and _ _) (high_and _ _)
  · exact (hO.plain _ (by simp)).1
  · exact (hO.plain _ (by simp)).1

theorem or64_agrees (hop : Op.ofCode inst.opcode = some (.alu64 .or form))
    (h : form = .imm ∨ onStack inst.src = true) : Agrees inst x := by
  have hO := operands hd hr form
  obtain ⟨h1, h2⟩ := src_in_tmp2 h
  refine agrees_of_computes hd hr hop (fun H => rfl) (tame_or _ h1 h2)
    (disassemble_or64 hd hr form inst.imm) (computes_or ?_ h1) (computes_or ?_ h2)
    (low_or _ _) (high_or _ _)
  · exact (hO.plain _ (by simp)).1
  · exact (hO.plain _ (by simp)).1

theorem xor64_agrees (hop : Op.ofCode inst.opcode = some (.alu64 .xor .reg)) (h0 : inst.dst ≠ 0)
    (h16 : inst.src = 1 ∨ inst.src = 6) : Agrees inst x := by
  have hO := operands hd hr .reg
  have hlow := low_operands hd h0 h16
  refine agrees_of_computes hd hr hop (fun H => rfl) (tame_xor _ _ _)
    (disassemble_xor64 hd hr .reg inst.imm) (computes_xor ?_ (hlow _ (by simp)) (hlow _ (by simp)))
    (computes_xor ?_ (hlow _ (by simp)) (hlow _ (by simp))) (low_xor _ _) (high_xor _ _)
  · exact (hO.plain _ (by simp)).1
  · exact (hO.plain _ (by simp)).1

end

/-! ## `XOR64` with the carry -/

theorem xorInst_exec {rd : Reg} (h : rd ≠ sp) (rm : Reg) (sys : Sys) (s : State) :
    ∃ v f t, (xorInst rd rm).exec sys s = some t ∧ Writes s rd v f t := by
  unfold xorInst
  split
  · exact ⟨_, _, _, rfl, (writes_put s h true
      (aluResult .eor s.flags (s.reg rd) (s.reg rm))).skip 0⟩
  · exact ⟨_, _, _, rfl, writes_put s h false _⟩

theorem xorInst_wide {rd rm : Reg} (h : rd.toNat = 0 ∨ rm.toNat = 0 ∨ 8 ≤ rm.toNat) :
    xorInst rd rm = .data .eor false rd rm rd .rrx := by
  rw [xorInst, if_neg (by omega)]

/-- The low half of the result, with the carry `c` from before. -/
def carriedXor (c : Bool) (v w : Word) : Word := w ^^^ (Shift.rrx.apply v c).1

theorem carriedXor_ne (v w : Word) : carriedXor true v w ≠ carriedXor false v w := by
  intro h
  have h := congrArg BitVec.msb h
  simp only [carriedXor, Shift.apply, BitVec.msb_xor, BitVec.msb_append] at h
  revert h
  cases w.msb <;> simp

section
variable {inst : EbpfInst} {form : Form} {x : Ebpf.State}
  (hd : inst.dst.toNat < 11) (hr : inst.src.toNat < 11)
include hd hr

omit hd in
theorem xorInst_rrx (h : ¬ (form = .reg ∧ inst.dst ≠ 0 ∧ (inst.src = 1 ∨ inst.src = 6))) :
    xorInst (heldLo inst.dst) (srcLo form inst.src) =
      .data .eor false (heldLo inst.dst) (srcLo form inst.src) (heldLo inst.dst) .rrx := by
  have hsrc : ∀ r : BitVec 4, r.toNat < 11 → r ≠ 1 → r ≠ 6 →
      (srcLo .reg r).toNat = 0 ∨ 8 ≤ (srcLo .reg r).toNat := by decide
  refine xorInst_wide ?_
  cases form with
  | imm => exact .inr (.inr (src_in_tmp2 (.inl rfl)).1)
  | reg =>
    by_cases h0 : inst.dst = 0
    · rw [h0]
      exact .inl rfl
    · refine .inr (hsrc _ hr (fun e => h ⟨rfl, h0, .inl e⟩) fun e => h ⟨rfl, h0, .inr e⟩)

theorem xor64_disagrees (hop : Op.ofCode inst.opcode = some (.alu64 .xor form))
    (h : ¬ (form = .reg ∧ inst.dst ≠ 0 ∧ (inst.src = 1 ∨ inst.src = 6))) : ¬ Agrees inst x := by
  have hO := operands hd hr form
  intro hA
  have key : ∀ c, low (x.reg inst.dst ^^^ operandVal form (x.reg inst.src) inst.imm) =
      carriedXor c (low (x.reg inst.dst)) (low (operandVal form (x.reg inst.src) inst.imm)) := by
    intro c
    have hM := @mirrors_mirrorOf 0 x (fun _ => 0) ⟨false, false, c, false⟩ rfl
    refine block_value hop hd hr (fun H => rfl) (tame_xor _ _ _)
      (disassemble_xor64 hd hr form inst.imm) hA hM (P := fun v => low v = _) fun sys t hL => ?_
    obtain ⟨hlo, -⟩ := halves_of_pair hL.dst
    obtain ⟨hlo', -⟩ := halves_of_pair hL.operand
    rw [xorInst_rrx hr h]
    refine .put rfl (hO.plain _ (by simp)).1 fun u w1 => ?_
    obtain ⟨_, _, u', hu', w2⟩ :=
      xorInst_exec (hO.plain (heldHi inst.dst) (by simp)).1 (srcHi form inst.src) sys u
    refine .step hu' (.nil ?_)
    rw [heldVal, low_pair, w2.rest _ hO.halves, w1.dest, hlo, hlo', hL.carry]
    rfl
  exact carriedXor_ne _ _ ((key true).symm.trans (key false))

end

/-! ## `NEG64` -/

def negBody (lo hi : Reg) : List Inst := [.rsb true lo lo 0, .rsb true hi hi 0]

theorem disassemble_neg64 : ∀ d : BitVec 4, d.toNat < 11 →
    disassemble (emitA32Neg64 (rowOf d)) =
      some (fetchDst d ++ negBody (heldLo d) (heldHi d) ++ storeRow d) ∧
    tameLine d (negBody (heldLo d) (heldHi d)) = true := by decide

theorem run_negBody {sys : Sys} {s : State} {lo hi : Reg} {v : BitVec 64} (hlo : lo ≠ sp)
    (hhi : hi ≠ sp) (hne : lo ≠ hi) (hv : pair (s.reg hi) (s.reg lo) = v) :
    Runs sys (negBody lo hi) s fun t => pair (t.reg hi) (t.reg lo) = pair (-high v) (-low v) := by
  obtain ⟨h1, h2⟩ := halves_of_pair hv
  refine .put rfl hlo fun t w1 => .put rfl hhi fun u w2 => .nil ?_
  rw [w2.dest, w2.rest lo hne, w1.dest, w1.rest hi (Ne.symm hne), h1, h2, addWithCarry_not,
    addWithCarry_not]
  exact congrArg₂ pair (BitVec.zero_sub _) (BitVec.zero_sub _)

theorem neg_halves_iff (v : BitVec 64) : pair (-high v) (-low v) = -v ↔ low v = 0 := by
  have hv := v.isLt
  have h1 := toNat_low v
  have h2 := toNat_high v
  rw [← BitVec.toNat_inj, ← BitVec.toNat_inj (x := low v), toNat_pair, BitVec.toNat_neg,
    BitVec.toNat_neg, BitVec.toNat_neg, h1, h2]
  change _ ↔ _ = 0
  omega

theorem neg64_agrees_iff {inst : EbpfInst} {x : Ebpf.State}
    (hop : Op.ofCode inst.opcode = some .neg64)
    (hd : inst.dst.toNat < 11) : Agrees inst x ↔ low (x.reg inst.dst) = 0 := by
  obtain ⟨hcode, htame⟩ := disassemble_neg64 inst.dst hd
  have hO := operands hd hd .reg
  have hiff : Agrees inst x ↔ ∀ sys top s, Mirrors top x s →
      ∃ t, runCode sys (emitA32Neg64 (rowOf inst.dst)) s = some (t, false) ∧
        Mirrors top (x.set inst.dst (-x.reg inst.dst)) t := by
    refine agrees_iff (fun J pc hpc => ?_) (fun H vm mem memLen => ?_) ?_
    · rw [buildInst, hpc, hop]
      simp only [buildOp, hpc, row_of_lt hd]
    · rw [hop]
      rfl
    · rw [hop]
      rfl
  rw [hiff, ← neg_halves_iff]
  refine effect_set_iff hd fun sys top s hM => ?_
  rw [runCode_eq hcode]
  exact hM.unary sys hd htame fun t ht _ =>
    run_negBody (hO.plain _ (by simp)).1 (hO.plain _ (by simp)).1 hO.halves ht

/-! ## `OR64` in low registers -/

/-- What the 16-bit form makes of a half `v` of the source, with `w` in the register that it
reads. -/
def orEffect (rd : Reg) (v w : Word) : Word := if rd.toNat < 4 then v ||| w else w * v

theorem orInst_exec {rd rm : Reg} (h : rm ≠ sp) (hlow : rd.toNat < 8 ∧ rm.toNat < 8) (sys : Sys)
    (s : State) : ∃ f t, (orInst rd rm).exec sys s = some t ∧
      Writes s rm (orEffect rd (s.reg rm) (s.reg (crossed rd))) f t := by
  rw [orInst, if_pos hlow, orEffect]
  split
  · have hw := writes_put s h true
      (dataResult .orr s.flags (s.reg rm) ((Shift.lsl 0).apply (s.reg (crossed rd)) s.flags.c))
    rw [Shift.apply_lsl_zero] at hw
    exact ⟨_, _, by rw [Inst.exec, Shift.apply_lsl_zero], hw⟩
  · exact ⟨_, _, rfl, writes_put s h true (s.reg (crossed rd) * s.reg rm, _)⟩

/-- The source keeps its value iff each half does, with the words that are read before the
operation. -/
theorem run_orNarrow (sys : Sys) {s : State} {lo hi lo' hi' : Reg} {w : BitVec 64}
    (hlo : lo.toNat < 8 ∧ lo'.toNat < 8) (hhi : hi.toNat < 8 ∧ hi'.toNat < 8)
    (hne : lo' ≠ hi') (hsp : lo' ≠ sp ∧ hi' ≠ sp) (hw : pair (s.reg hi') (s.reg lo') = w) :
    Runs sys [orInst lo lo', orInst hi hi'] s fun t =>
      (pair (t.reg hi') (t.reg lo') = w ↔ orEffect lo (low w) (s.reg (crossed lo)) = low w ∧
        orEffect hi (high w) (s.reg (crossed hi)) = high w) ∧
      ∀ q, q ≠ lo' → q ≠ hi' → t.reg q = s.reg q := by
  obtain ⟨h1, h2⟩ := halves_of_pair hw
  obtain ⟨_, t, ht, w1⟩ := orInst_exec hsp.1 hlo sys s
  obtain ⟨_, u, hu, w2⟩ := orInst_exec hsp.2 hhi sys t
  refine .step ht (.step hu (.nil ⟨?_, fun q hq hq' => (w2.rest q hq').trans (w1.rest q hq)⟩))
  have hpair : ∀ a b : Word, pair b a = w ↔ a = low w ∧ b = high w := fun a b =>
    ⟨fun h => by rw [← h, low_pair, high_pair]; exact ⟨rfl, rfl⟩,
      fun h => by rw [h.1, h.2, pair_high_low]⟩
  rw [hpair, w2.rest lo' hne, w2.dest, w1.dest, w1.rest hi' (Ne.symm hne), h1, h2]
  -- where the second instruction reads what the first one wrote, that has not changed
  refine and_congr_right fun hkeep => ?_
  by_cases hc : crossed hi = lo'
  · rw [hc, w1.dest, h1, hkeep]
  · rw [w1.rest _ hc]

/-- The words that `OR64` with destination `d` reads; `tmp` is what is in `TMP_REG_1`. -/
def readLo (x : Ebpf.State) (d : BitVec 4) : Word := low (x.reg (if d = 0 ∨ d = 6 then 0 else 6))

def readHi (x : Ebpf.State) (d : BitVec 4) (tmp : Word) : Word :=
  if d = 0 ∨ d = 6 then low (x.reg 1) else if d = 1 then tmp else low (x.reg d)

theorem crossed_held : ∀ d : BitVec 4, d.toNat < 11 →
    crossed (heldLo d) = heldLo (if d = 0 ∨ d = 6 then 0 else 6) ∧
      crossed (heldHi d) = (if d = 0 ∨ d = 6 then heldLo 1 else tmpLo) ∧
      (d ≠ 0 → d ≠ 6 → d ≠ 1 → heldLo d = tmpLo) := by decide

/-- The halves of a row that is not on the stack. -/
theorem Mirrors.held {top : Word} {x : Ebpf.State} {s : State} {r : BitVec 4} (hM : Mirrors top x s)
    (hr : r.toNat < 11) (hs : onStack r = false) :
    pair (s.reg (heldHi r)) (s.reg (heldLo r)) = x.reg r := by
  have := hM.rows r hr
  rwa [rowVal, hs, if_neg Bool.false_ne_true] at this

theorem Mirrors.reads {top : Word} {x : Ebpf.State} {t : State} {d : BitVec 4}
    (hM : Mirrors top x t)
    (hd : d.toNat < 11) (hval : heldVal t d = x.reg d) :
    t.reg (crossed (heldLo d)) = readLo x d ∧
      t.reg (crossed (heldHi d)) = readHi x d (t.reg tmpLo) := by
  obtain ⟨h1, h2, h3⟩ := crossed_held d hd
  constructor
  · rw [h1, readLo]
    split
    · exact (halves_of_pair (hM.held (r := 0) (by decide) (by decide))).1
    · exact (halves_of_pair (hM.held (r := 6) (by decide) (by decide))).1
  · rw [h2, readHi]
    split
    · exact (halves_of_pair (hM.held (r := 1) (by decide) (by decide))).1
    · rename_i h06
      split
      · rfl
      · rename_i h1
        rw [← h3 (fun h => h06 (.inl h)) (fun h => h06 (.inr h)) h1]
        exact (halves_of_pair hval).1

theorem held_low : ∀ d : BitVec 4, d.toNat < 11 → (heldLo d).toNat < 8 ∧
    (heldHi d).toNat < 8 := by decide

theorem stacked_apart {d r : BitVec 4} (hr : r.toNat < 11) (hs : onStack r = false)
    (hd : onStack d = true) : ∀ q ∈ [heldLo d, heldHi d], q ≠ heldLo r ∧ q ≠ heldHi r := by
  have hsrc : ∀ r : BitVec 4, r.toNat < 11 → onStack r = false →
      ∀ q ∈ [tmpLo, tmpHi], q ≠ heldLo r ∧ q ≠ heldHi r := by decide
  rw [heldLo, heldHi, if_pos hd, if_pos hd]
  exact hsrc r hr hs

/-- A body that changes the registers of the source, where it should change the destination. -/
theorem Mirrors.source {top : Word} {x : Ebpf.State} {s : State} {d r : BitVec 4} {body : List Inst}
    {P : BitVec 64 → Prop} (hM : Mirrors top x s) (sys : Sys) (hd : d.toNat < 11)
    (hr : r.toNat < 11)
    (hs : onStack r = false) (htame : tameLine r body = true)
    (hrun : ∀ t, Mirrors top x t → heldVal t d = x.reg d → (d = 1 → t.reg tmpLo = s.reg tmpLo) →
      Runs sys body t fun u => P (heldVal u r) ∧
        ∀ q, q ≠ heldLo r → q ≠ heldHi r → u.reg q = t.reg q) :
    Runs sys (Jit.fetchDst d ++ body ++ Jit.storeRow d) s fun u =>
      ∃ v, P v ∧ Mirrors top (x.set r v) u := by
  obtain ⟨t, ht, hval, -⟩ := hM.fetchDst sys hd
  have hMt := hM.idle (idle_fetch d r hd hr).1 ht
  have htmp : d = 1 → t.reg tmpLo = s.reg tmpLo := by
    rintro rfl
    cases ht
    rfl
  obtain ⟨u, hu, hP, hrest⟩ := hrun t hMt hval htmp
  have hMu := hMt.tame hr htame hu
  rw [hs, if_neg Bool.false_ne_true] at hMu
  refine .after (by rw [runLine_seq ht, hu]) ?_
  cases hsd : onStack d with
  | false => exact ⟨u, by rw [Jit.storeRow, putRow, hsd]; rfl, heldVal u r, hP, hMu⟩
  | true =>
    -- the row of the destination is stored as it was loaded
    obtain ⟨w, hw, hMw⟩ := hMu.storeRow sys hd hsd
    have hdr : d ≠ r := fun h => by rw [h, hs] at hsd; cases hsd
    have hval' : heldVal u d = (x.set r (heldVal u r)).reg d := by
      have hq := stacked_apart hr hs hsd
      rw [set_reg_ne x hdr, ← hval, heldVal, heldVal,
        hrest _ (hq _ (by simp)).1 (hq _ (by simp)).2,
          hrest _ (hq _ (by simp)).1 (hq _ (by simp)).2]
    rw [hval', set_self] at hMw
    exact ⟨w, hw, _, hP, hMw⟩

/-- The source keeps its value iff each half does. -/
theorem Mirrors.orNarrow {top : Word} {x : Ebpf.State} {s : State} {d r : BitVec 4}
    (hM : Mirrors top x s) (sys : Sys) (hd : d.toNat < 11) (hr : r.toNat < 11)
    (hs : onStack r = false) :
    Runs sys (Jit.fetchDst d ++ [orInst (heldLo d) (heldLo r), orInst (heldHi d) (heldHi r)] ++
      Jit.storeRow d) s fun u => ∃ v,
        (v = x.reg r ↔ orEffect (heldLo d) (low (x.reg r)) (readLo x d) = low (x.reg r) ∧
          orEffect (heldHi d) (high (x.reg r)) (readHi x d (s.reg tmpLo)) = high (x.reg r)) ∧
        Mirrors top (x.set r v) u := by
  obtain ⟨l1, l2⟩ := held_low d hd
  obtain ⟨l3, l4⟩ := held_low r hr
  have htame := tame_halves (orInst_quiet_narrow l1 l3) (orInst_quiet_narrow l2 l4)
  have hO := operands hr hr .imm
  refine hM.source sys hd hr hs htame fun t hMt hval htmp => ?_
  obtain ⟨hlo, hhi⟩ := hMt.reads hd hval
  have hread : readHi x d (t.reg tmpLo) = readHi x d (s.reg tmpLo) := by
    by_cases h1 : d = 1
    · rw [htmp h1]
    · simp only [readHi, if_neg h1]
  rw [← hlo, ← hread, ← hhi]
  exact run_orNarrow sys ⟨l1, l3⟩ ⟨l2, l4⟩ hO.halves
    ⟨(hO.plain _ (by simp)).1, (hO.plain _ (by simp)).1⟩ (hMt.held hr hs)

/-- The destination has all bits of a source in machine registers, and the source keeps its
value. -/
def orKeeps (x : Ebpf.State) (d r : BitVec 4) : Prop :=
  x.reg d ||| x.reg r = x.reg d ∧
    if d = 0 then
      low (x.reg r) ||| low (x.reg 0) = low (x.reg r) ∧
        high (x.reg r) ||| low (x.reg 1) = high (x.reg r)
    -- the high half gets what is in a temporary register
    else if d = 1 then
      low (x.reg r) ||| low (x.reg 6) = low (x.reg r) ∧ high (x.reg r) = -1
    else if d = 6 then
      low (x.reg 0) * low (x.reg r) = low (x.reg r) ∧
        low (x.reg 1) * high (x.reg r) = high (x.reg r)
    else
      low (x.reg 6) * low (x.reg r) = low (x.reg r) ∧
        low (x.reg d) * high (x.reg r) = high (x.reg r)

theorem or_all_iff (v : Word) : (∀ w, v ||| w = v) ↔ v = -1 := by
  have hones : (-1 : Word) = BitVec.allOnes 32 := by decide
  rw [hones]
  constructor
  · intro h
    exact (h _).symm.trans BitVec.or_allOnes
  · rintro rfl w
    exact BitVec.allOnes_or

theorem orEffect_held : ∀ d : BitVec 4, d.toNat < 11 →
    ((heldLo d).toNat < 4 ↔ d = 0 ∨ d = 1) ∧ ((heldHi d).toNat < 4 ↔ d = 0 ∨ d = 1) := by decide

theorem orKeeps_iff {x : Ebpf.State} {d r : BitVec 4} (hd : d.toNat < 11) :
    orKeeps x d r ↔ x.reg d ||| x.reg r = x.reg d ∧ ∀ tmp,
      orEffect (heldLo d) (low (x.reg r)) (readLo x d) = low (x.reg r) ∧
        orEffect (heldHi d) (high (x.reg r)) (readHi x d tmp) = high (x.reg r) := by
  obtain ⟨hlo, hhi⟩ := orEffect_held d hd
  simp only [orKeeps, orEffect, readLo, readHi, hlo, hhi]
  refine and_congr_right fun _ => ?_
  by_cases h0 : d = 0#4
  · simp [h0]
  by_cases h1 : d = 1#4
  · have := or_all_iff (high (x.reg r))
    simp_all [forall_and]
  by_cases h6 : d = 6#4
  · simp [h6]
  · simp [h0, h1, h6]

theorem src_of_reg {r : BitVec 4} (hs : onStack r = false) :
    srcLo .reg r = heldLo r ∧ srcHi .reg r = heldHi r := by
  rw [srcLo, srcHi, hs]
  exact ⟨if_neg (by simp), if_neg (by simp)⟩

theorem or64_narrow_iff {inst : EbpfInst} {x : Ebpf.State}
    (hop : Op.ofCode inst.opcode = some (.alu64 .or .reg)) (hd : inst.dst.toNat < 11)
    (hr : inst.src.toNat < 11) (hs : onStack inst.src = false) :
    Agrees inst x ↔ orKeeps x inst.dst inst.src := by
  have hcode := disassemble_or64 hd hr .reg inst.imm
  have hfetch : fetch .reg inst.dst inst.src inst.imm = fetchDst inst.dst := by
    rw [fetch, fetchSrc, hs, if_neg Bool.false_ne_true, List.append_nil]
  rw [(src_of_reg hs).1, (src_of_reg hs).2, hfetch] at hcode
  rw [agrees_alu64_iff hop hd hr fun H => rfl, orKeeps_iff hd]
  constructor
  · intro h
    have key : ∀ tmp, x.reg inst.dst ||| x.reg inst.src = x.reg inst.dst ∧
        orEffect (heldLo inst.dst) (low (x.reg inst.src)) (readLo x inst.dst) =
          low (x.reg inst.src) ∧
        orEffect (heldHi inst.dst) (high (x.reg inst.src)) (readHi x inst.dst tmp) =
          high (x.reg inst.src) := by
      intro tmp
      have hM := @mirrors_mirrorOf 0 x (fun _ => tmp) ⟨false, false, false, false⟩ rfl
      obtain ⟨u, hu, v, hiff, hMu⟩ := hM.orNarrow ⟨fun _ => true, false⟩ hd hr hs
      obtain ⟨u', hu', hMu'⟩ := h ⟨fun _ => true, false⟩ 0 _ hM
      rw [runCode_eq hcode, hu] at hu'
      cases hu'
      have hset := (set_eq_set_iff hd hr).1 (hMu.unique hMu')
      rw [mirrorOf_temp _ _ _ (by decide)] at hiff
      split at hset
      · rename_i hdr
        have hor : x.reg inst.dst ||| x.reg inst.src = x.reg inst.src := by
          rw [hdr, BitVec.or_self]
        exact ⟨by rw [hor, hdr], hiff.1 (hset.trans hor)⟩
      · exact ⟨hset.2, hiff.1 hset.1⟩
    exact ⟨(key 0).1, fun tmp => (key tmp).2⟩
  · rintro ⟨h1, h2⟩ sys top s hM
    obtain ⟨u, hu, v, hiff, hMu⟩ := hM.orNarrow sys hd hr hs
    refine ⟨u, by rw [runCode_eq hcode, hu], ?_⟩
    rw [hiff.2 (h2 _), set_self] at hMu
    rw [h1, set_self]
    exact hMu

/-! ## The bitwise operations and negation -/

def isLogic64 : Op → Bool
  | .alu64 .and _ | .alu64 .or _ | .alu64 .xor _ | .neg64 => true
  | _ => false

/-- Where the code of a bitwise operation or a negation is right. -/
def logic64Right (inst : EbpfInst) (x : Ebpf.State) : Op → Prop
  | .alu64 .or .reg => onStack inst.src = true ∨ orKeeps x inst.dst inst.src
  | .alu64 .xor form => form = .reg ∧ inst.dst ≠ 0 ∧ (inst.src = 1 ∨ inst.src = 6)
  | .neg64 => low (x.reg inst.dst) = 0
  | _ => True

/-- **64-bit bitwise operations and negation.** -/
theorem logic64_agrees_iff (inst : EbpfInst) (op : Op) (hop : Op.ofCode inst.opcode = some op)
    (hlogic : isLogic64 op = true) (hd : inst.dst.toNat < 11) (hr : inst.src.toNat < 11)
    (x : Ebpf.State) : Agrees inst x ↔ logic64Right inst x op := by
  match op, hlogic with
  | .alu64 .and form, _ => exact iff_of_true (and64_agrees hd hr hop) trivial
  | .alu64 .or .imm, _ => exact iff_of_true (or64_agrees hd hr hop (.inl rfl)) trivial
  | .alu64 .or .reg, _ =>
    cases hs : onStack inst.src with
    | true => exact iff_of_true (or64_agrees hd hr hop (.inr hs)) (.inl hs)
    | false => simp only [logic64Right, hs, Bool.false_eq_true, false_or,
      or64_narrow_iff hop hd hr hs]
  | .alu64 .xor form, _ =>
    refine ⟨fun hA => by_contra fun h => xor64_disagrees hd hr hop h hA, ?_⟩
    rintro ⟨rfl, h0, h16⟩
    exact xor64_agrees hd hr hop h0 h16
  | .neg64, _ => exact neg64_agrees_iff hop hd

/-- `-r1` for `r1 = 5 * 2 ^ 32`. -/
theorem logic64_agrees_neg :
    Agrees { opcode := 0x87, dst := 1, src := 0, offset := 0, imm := 0 }
      (mixedState.set 1 0x500000000) :=
  (logic64_agrees_iff _ .neg64 (by decide) rfl (by decide) (by decide) _).2 rfl

/-- `-r1` for `r1 = 1`: the high half is 0. -/
theorem neg_one_disagrees :
    ¬ Agrees { opcode := 0x87, dst := 1, src := 0, offset := 0, imm := 0 }
      { pc := 1, reg := fun _ => 1, mem := fun _ => 0 } :=
  fun h => absurd ((neg64_agrees_iff (by decide) (by decide)).1 h) (by decide)

end BlueSwat.Jit
