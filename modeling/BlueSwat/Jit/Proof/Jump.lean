import BlueSwat.Jit.Proof.Word

/-!
# Conditional jumps

A conditional jump compares its operands and branches on the flags. The signed comparisons take both
halves in one subtraction. The others compare the low halves last, so that the flags are those of
the low halves alone, and `JSET` adds the halves; the jumps on "less" have no branch at all.
`jump_agrees_iff` says when the branch is taken as the interpreter jumps.
-/

set_option autoImplicit false

namespace BlueSwat.Jit

open Thumb Bytes
open Ebpf (EbpfInst Op Cond Form)

/-! ## The code -/

/-- The comparison of `hi:lo` with `hi':lo'`. -/
def compareBody (cond : Cond) (lo hi lo' hi' : Reg) : List Inst :=
  match cond with
  | .set => [.base (.alu .add false ip lo lo'), .base (.alu .add false lr hi hi'),
      .data .orr true ip lr ip (.lsl 0)]
  | .sgt | .sle => [.base (.cmp lo' lo), .base (.alu .sbc true ip hi' hi)]
  | .sge | .slt => [.base (.cmp lo lo'), .base (.alu .sbc true ip hi hi')]
  | _ => [.base (.cmp hi hi'), .base (.cmp lo lo')]

/-- Load both operands, the second one half by half. -/
def fetchCompare (form : Form) (d r : BitVec 4) (imm : Word) : List Inst :=
  match form with
  | .imm => (movSext tmp2Lo tmp2Hi imm).map .base ++ fetchDst d
  | .reg => fetchHalf r true tmp2Hi ++ fetchHalf r false tmp2Lo ++ fetchDst d

/-- There are four ways to compare. -/
theorem disassemble_emitCmpCond (cond : Cond) {p q : RegPair} (hp : p ∈ dstPairs)
    (hq : q ∈ srcPairs) :
    disassemble (emitCmpCond p.hi.toNat p.lo.toNat q.hi.toNat q.lo.toNat cond) =
      some (compareBody cond p.lo p.hi q.lo q.hi) := by
  have hall : ∀ cond ∈ [Cond.set, .sgt, .sge, .eq], ∀ p ∈ dstPairs, ∀ q ∈ srcPairs,
      disassemble (emitCmpCond p.hi.toNat p.lo.toNat q.hi.toNat q.lo.toNat cond) =
        some (compareBody cond p.lo p.hi q.lo q.hi) := by decide
  cases cond with
  | set => exact hall .set (by simp) p hp q hq
  | sgt | sle => exact hall .sgt (by simp) p hp q hq
  | sge | slt => exact hall .sge (by simp) p hp q hq
  | _ => exact hall .eq (by simp) p hp q hq

theorem disassemble_buildCompare {d r : BitVec 4} (hd : d.toNat < 11) (hr : r.toNat < 11)
    (imm : Word)
    (cond : Cond) (form : Form) :
    disassemble (buildCompare (rowOf d) (rowOf r) imm cond form) =
      some (fetchCompare form d r imm ++
        compareBody cond (heldLo d) (heldHi d) (srcLo form r) (srcHi form r)) := by
  obtain ⟨hrd, hget, -⟩ := disassemble_getDst d hd
  have hcmp := disassemble_emitCmpCond cond (dstPair_mem d hd) (srcPair_mem hr form)
  cases form with
  | imm =>
    have hall := disassemble_seq (disassemble_seq (disassemble_movSe imm) hget) hcmp
    simp only [buildCompare, hrd]
    exact hall
  | reg =>
    obtain ⟨hrt, hhigh⟩ := disassemble_getHalf r hr true tmp2Hi (by simp)
    obtain ⟨hrt', hlow⟩ := disassemble_getHalf r hr false tmp2Lo (by simp)
    rw [srcLo_eq, srcHi_eq, ← hrt, ← hrt'] at hcmp
    have hall := disassemble_seq (disassemble_seq (disassemble_seq hhigh hlow) hget) hcmp
    simp only [buildCompare, hrd]
    rw [srcLo_eq, srcHi_eq]
    exact hall

/-- The branch: the distance does not matter here, and it is always in range. -/
theorem disassemble_emitBCond {instNum : Nat} {off : Int} {cond : BitVec 4} (hc : cond.toNat < 14)
    (h : emitBCond instNum off cond ≠ []) :
    ∃ dist, disassemble (emitBCond instNum off cond) = some [.base (.b cond dist)] := by
  unfold emitBCond at h ⊢
  split
  · obtain ⟨hn, hdec⟩ := narrow_branch off hc
    have hit : itCond (thumb16BT1 off cond) = none := if_neg fun e => by
      have h14 := getLsbD_of_extract (thumb16BT1_fields off cond).1 (k := 2) (by decide)
      have h14' := getLsbD_of_extract e.1 (k := 6) (by decide)
      exact Bool.false_ne_true (h14'.symm.trans h14)
    exact ⟨_, disassemble_emit2 hn hit (by rw [decodeNarrow, hdec])⟩
  · rename_i hn
    rw [if_neg hn] at h
    split
    · obtain ⟨hw, hdec⟩ := wide_branch (thumb32BwT3_high off cond).1 (thumb32BwT3_low off cond).1
      exact ⟨_, disassemble_emit4 hw (by rw [decodeWide, hdec, decodeBranch_thumb32BwT3 off hc])⟩
    · rename_i hw
      exact absurd (if_neg hw) h

theorem bpf2a32Offset_range (J : JitState) (i j : Int) (n : Int) (hn : n = 2 ∨ n = 4) :
    -1048576 < bpf2a32Offset J i j n ∧ bpf2a32Offset J i j n < 1048574 := by
  have h1 := (J.offsets i).isLt
  have h2 := (J.offsets j).isLt
  unfold bpf2a32Offset
  split <;> omega

theorem disassemble_emitJump {instNum : Nat} {off : Int} (hoff : -1048576 < off ∧ off < 1048574)
    (cond : Cond) :
    (∃ c dist, jumpCond cond = some c ∧
      disassemble (emitJump instNum off cond) = some [.base (.b c dist)]) ∨
    jumpCond cond = none ∧ disassemble (emitJump instNum off cond) = some [] := by
  rw [emitJump]
  cases hc : jumpCond cond with
  | none => exact .inr ⟨rfl, rfl⟩
  | some c =>
    obtain ⟨dist, hdist⟩ := disassemble_emitBCond (jumpCond_lt hc) (emitBCond_ne_nil hoff)
    exact .inl ⟨c, dist, rfl, hdist⟩

/-! ## The flags -/

/-- Whether the branch is taken, for operands `v` and `w`. -/
def jumpTaken (cond : Cond) (v w : BitVec 64) : Bool :=
  match cond with
  | .eq => low v == low w
  | .ne => low v != low w
  | .gt => (low w).ult (low v)
  | .ge => (low w).ule (low v)
  | .set => ((high v + high w) ||| (low v + low w)) != 0
  | .sgt => w.slt v
  | .sge => w.sle v
  | _ => false

section
variable {sys : Sys} {s : State} {lo hi lo' hi' : Reg}

theorem run_compareLow :
    Runs sys [.base (.cmp hi hi'), .base (.cmp lo lo')] s fun t =>
      t.flags = .arith (addWithCarry (s.reg lo) (~~~s.reg lo') true) :=
  .cmp fun t _ hreg => .cmp fun u hf _ => .nil (by rw [hf, hreg, hreg])

theorem run_compareSigned :
    Runs sys [.base (.cmp lo lo'), .base (.alu .sbc true ip hi hi')] s fun t =>
      t.flags = .arith (addWithCarry (s.reg hi) (~~~s.reg hi')
        (addWithCarry (s.reg lo) (~~~s.reg lo') true).2.1) := by
  refine .cmp fun t hf hreg => .alu (by decide) fun u w => .nil ?_
  rw [w.flags, hf, hreg, hreg]
  rfl

theorem run_compareSet (hhi : hi ≠ ip) (hhi' : hi' ≠ ip) :
    Runs sys [.base (.alu .add false ip lo lo'), .base (.alu .add false lr hi hi'),
        .data .orr true ip lr ip (.lsl 0)] s fun t =>
      t.flags.passes condNe = (((s.reg hi + s.reg hi') ||| (s.reg lo + s.reg lo')) != 0) := by
  refine .alu (by decide) fun t w1 => .alu (by decide) fun u w2 => .put rfl (by decide)
    fun r w3 => ?_
  refine .nil ?_
  rw [w3.flags, Shift.apply_lsl_zero, w2.dest, w2.rest ip (by decide), w1.dest, w1.rest hi hhi,
    w1.rest hi' hhi']
  simp only [aluResult, addWithCarry_false]
  rfl

end

/-- The condition of the branch, after the comparison. -/
theorem run_compareBody {sys : Sys} {s : State} {lo hi lo' hi' : Reg} {v w : BitVec 64}
    (cond : Cond)
    (hO : Operands lo hi lo' hi') (hv : pair (s.reg hi) (s.reg lo) = v)
    (hw : pair (s.reg hi') (s.reg lo') = w) :
    Runs sys (compareBody cond lo hi lo' hi') s fun t =>
      ∀ c, jumpCond cond = some c → t.flags.passes c = jumpTaken cond v w := by
  obtain ⟨h1, h2⟩ := halves_of_pair hv
  obtain ⟨h3, h4⟩ := halves_of_pair hw
  cases cond with
  | eq =>
    refine run_compareLow.mono fun t ht => ?_
    rintro _ ⟨⟩
    rw [ht, h1, h3]
    exact passes_eq _ _
  | ne =>
    refine run_compareLow.mono fun t ht => ?_
    rintro _ ⟨⟩
    rw [ht, h1, h3]
    exact passes_ne _ _
  | gt =>
    refine run_compareLow.mono fun t ht => ?_
    rintro _ ⟨⟩
    rw [ht, h1, h3]
    exact passes_hi _ _
  | ge =>
    refine run_compareLow.mono fun t ht => ?_
    rintro _ ⟨⟩
    rw [ht, h1, h3]
    exact passes_cs _ _
  | set =>
    refine (run_compareSet (hO.plain _ (by simp)).2.1 (hO.plain _ (by simp)).2.1).mono
      fun t ht => ?_
    rintro _ ⟨⟩
    rw [ht, h1, h2, h3, h4]
    rfl
  | sgt =>
    refine run_compareSigned.mono fun t ht => ?_
    rintro _ ⟨⟩
    rw [ht, h1, h2, h3, h4]
    exact passes_lt _ _
  | sge =>
    refine run_compareSigned.mono fun t ht => ?_
    rintro _ ⟨⟩
    rw [ht, h1, h2, h3, h4]
    exact passes_ge _ _
  | lt | le => exact run_compareLow.mono fun t _ c hc => by cases hc
  | slt | sle => exact run_compareSigned.mono fun t _ c hc => by cases hc

/-! ## The run -/

theorem idle_compareBody (cond : Cond) (lo hi lo' hi' : Reg) :
    idleLine (compareBody cond lo hi lo' hi') = true := by
  cases cond <;> rfl

section
variable {top : Word} {x : Ebpf.State} {s : State} {d r : BitVec 4}

theorem idle_fetchCompare (hd : d.toNat < 11) (form : Form) (imm : Word) :
    idleLine (fetchCompare form d r imm) = true := by
  have h1 := (idle_fetch d d hd hd).1
  cases form with
  | imm => rw [fetchCompare, idleLine_append, idle_movSext, h1]; rfl
  | reg =>
    rw [fetchCompare, idleLine_append, idleLine_append, idle_fetchHalf _ _ (by decide),
      idle_fetchHalf _ _ (by decide), h1]
    rfl

/-- Both operands are loaded. -/
theorem Mirrors.fetchCompare (hM : Mirrors top x s) (sys : Sys) (hd : d.toNat < 11)
    (hr : r.toNat < 11)
    (form : Form) (imm : Word) :
    Runs sys (Jit.fetchCompare form d r imm) s fun t => heldVal t d = x.reg d ∧
      pair (t.reg (srcHi form r)) (t.reg (srcLo form r)) = operandVal form (x.reg r) imm := by
  cases form with
  | imm => exact (hM.fetch sys hd hr .imm imm).mono fun t ht => ⟨ht.dst, ht.operand⟩
  | reg =>
    have hsrc : srcLo .reg r = halfReg r false tmp2Lo ∧ srcHi .reg r = halfReg r true tmp2Hi := by
      simp [srcLo, srcHi, halfReg, heldReg]
    have hne : halfReg r true tmp2Hi ≠ tmp2Lo := by
      rw [halfReg]
      split
      · decide
      · exact (held_apart r hr _ (by simp [heldReg])).1
    have hboth : Runs sys (Jit.fetchHalf r true tmp2Hi ++ Jit.fetchHalf r false tmp2Lo) s fun u =>
        Mirrors top x u ∧ u.reg (halfReg r false tmp2Lo) = low (x.reg r) ∧
          u.reg (halfReg r true tmp2Hi) = high (x.reg r) := by
      refine (hM.fetchHalf sys hr true (by decide)).append fun t ht => ?_
      refine (ht.1.fetchHalf sys hr false (by decide)).mono fun u hu => ?_
      exact ⟨hu.1, hu.2.1, (hu.2.2.2 _ hne).trans ht.2.1⟩
    refine hboth.append fun u hu => ?_
    obtain ⟨hMu, hlo, hhi⟩ := hu
    obtain ⟨w, hw, hval, -, hrest⟩ := hMu.fetchDst sys hd
    refine ⟨w, hw, hval, ?_⟩
    have hkeep : ∀ q ∈ [srcLo .reg r, srcHi .reg r], w.reg q = u.reg q := fun q hq =>
      hrest q (src_apart r hr q hq).1 (src_apart r hr q hq).2
    rw [hkeep _ (by simp), hkeep _ (by simp), hsrc.1, hsrc.2, hlo, hhi]
    exact pair_high_low _

end

/-- **The run of a conditional jump**, unless it is one by 0 that has no code. -/
theorem jump_run {inst : EbpfInst} {cond : Cond} {form : Form} {x : Ebpf.State}
    (hop : Op.ofCode inst.opcode = some (.jcond cond form)) (hd : inst.dst.toNat < 11)
    (hr : inst.src.toNat < 11) (h0 : ¬ (form = .imm ∧ inst.offset = 0)) {J : JitState} {pc : Nat}
    (hpc : J.insts pc = inst) (sys : Sys) {top : Word} {s : State} (hM : Mirrors top x s) :
    ∃ t, runCode sys (buildInst J pc).1 s =
        some (t, jumpTaken cond (x.reg inst.dst) (operandVal form (x.reg inst.src) inst.imm)) ∧
      Mirrors top x t := by
  have hcode : (buildInst J pc).1 =
      buildCompare (rowOf inst.dst) (rowOf inst.src) inst.imm cond form ++
        emitJump J.instNum (bpf2a32Offset J pc (pc + inst.offset.toInt)
          (if useB4 J.instNum then 4 else 2)) cond := by
    have hoff : ¬ (form = .imm ∧ inst.offset.toInt = 0) := fun h =>
      h0 ⟨h.1, BitVec.eq_of_toInt_eq h.2⟩
    rw [buildInst, hpc, hop]
    simp only [buildOp, buildJump, hpc, row_of_lt hd, row_of_lt hr, if_neg hoff]
  have hcmp := disassemble_buildCompare hd hr inst.imm cond form
  obtain ⟨t, ht, hflags⟩ := (hM.fetchCompare sys hd hr form inst.imm).append fun t ht =>
    run_compareBody cond (operands hd hr form) ht.1 ht.2
  have hMt : Mirrors top x t := by
    refine hM.idle ?_ ht
    rw [idleLine_append, idle_fetchCompare hd, idle_compareBody]
    rfl
  have hrange := bpf2a32Offset_range J pc (pc + inst.offset.toInt)
    (if useB4 J.instNum then 4 else 2) (by split <;> simp)
  rw [hcode]
  rcases disassemble_emitJump hrange cond with ⟨c, dist, hc, hdis⟩ | ⟨hc, hdis⟩
  · refine ⟨t, ?_, hMt⟩
    rw [runCode_eq (disassemble_seq hcmp hdis), runLine_seq ht, runLine_branch, hflags c hc]
  · refine ⟨t, ?_, hMt⟩
    have hnot : ∀ v w, jumpTaken cond v w = false := fun v w => by
      cases cond <;> first | rfl | cases hc
    rw [runCode_eq (disassemble_seq hcmp hdis), runLine_seq ht, hnot]
    rfl

theorem jumpAgrees_taken_iff {inst : EbpfInst} {cond : Cond} {form : Form} {x : Ebpf.State}
    (hop : Op.ofCode inst.opcode = some (.jcond cond form)) (hd : inst.dst.toNat < 11)
    (hr : inst.src.toNat < 11) :
    JumpAgrees inst cond form x ↔ form = .imm ∧ inst.offset = 0 ∨
      jumpTaken cond (x.reg inst.dst) (operandVal form (x.reg inst.src) inst.imm) =
        cond.holds form (x.reg inst.dst) (x.reg inst.src) inst.imm := by
  by_cases h0 : form = .imm ∧ inst.offset = 0
  · refine iff_of_true (fun J pc hpc sys top s hM => ⟨s, false, ?_, hM, .inl h0⟩) (.inl h0)
    have hoff : form = .imm ∧ inst.offset.toInt = 0 := ⟨h0.1, by rw [h0.2]; rfl⟩
    rw [buildInst, hpc, hop]
    simp only [buildOp, buildJump, hpc, if_pos hoff]
    rfl
  · constructor
    · intro h
      have hM := @mirrors_mirrorOf 0 x (fun _ => 0) ⟨false, false, false, false⟩ rfl
      have hpc : (genJitState (fun _ => inst) 1 (fun _ => 0) bpfR0 fun _ => 0).insts 0 = inst := rfl
      obtain ⟨t, taken, ht, -, htaken⟩ := h _ 0 hpc ⟨fun _ => true, false⟩ 0 _ hM
      obtain ⟨t', ht', -⟩ := jump_run hop hd hr h0 hpc ⟨fun _ => true, false⟩ hM
      rw [ht] at ht'
      cases ht'
      exact htaken
    · rintro (h | h) J pc hpc sys top s hM
      · exact absurd h h0
      · obtain ⟨t, ht, hMt⟩ := jump_run hop hd hr h0 hpc sys hM
        exact ⟨t, _, ht, hMt, .inr h⟩

/-! ## When the branch is right -/

theorem eq_iff_halves (v w : BitVec 64) : v = w ↔ low v = low w ∧ high v = high w :=
  ⟨fun h => h ▸ ⟨rfl, rfl⟩, fun ⟨h1, h2⟩ => by
    rw [← pair_high_low v, ← pair_high_low w, h1, h2]⟩

theorem toNat_halves (v : BitVec 64) : v.toNat = (high v).toNat * 2 ^ 32 + (low v).toNat := by
  rw [toNat_high, toNat_low]
  omega

/-- The second operand of an unsigned comparison. -/
def unsignedVal (form : Form) (w : BitVec 64) (imm : Word) : BitVec 64 :=
  match form with
  | .imm => Ebpf.zext imm
  | .reg => w

theorem low_unsignedVal (form : Form) (w : BitVec 64) (imm : Word) :
    low (unsignedVal form w imm) = low (operandVal form w imm) := by
  rw [low_operandVal]
  cases form with
  | imm => exact low_setWidth imm
  | reg => rfl

/-- The words `v` and `w` have no common bit and add up to 0. -/
theorem eq_zero_of_and_of_add {n : Nat} {v w : BitVec n} (hand : v &&& w = 0#n)
    (hadd : v + w = 0#n) :
    v = 0#n ∧ w = 0#n := by
  rw [BitVec.add_eq_or_of_and_eq_zero v w hand, BitVec.or_eq_zero_iff] at hadd
  exact hadd

/-- What the interpreter compares; `u` is the second operand of the unsigned order. -/
def compares (cond : Cond) (v w u : BitVec 64) : Bool :=
  match cond with
  | .eq => v == w
  | .gt => u.ult v
  | .ge => u.ule v
  | .lt => v.ult u
  | .le => v.ule u
  | .set => (v &&& w) != 0
  | .ne => v != w
  | .sgt => w.slt v
  | .sge => w.sle v
  | .slt => v.slt w
  | .sle => v.sle w

theorem holds_eq (cond : Cond) (form : Form) (v w : BitVec 64) (imm : Word) :
    cond.holds form v w imm =
      compares cond v (operandVal form w imm) (unsignedVal form w imm) := by
  cases form <;> rfl

/-- Where the branch is taken as it should. -/
def jumpRight (cond : Cond) (v w u : BitVec 64) : Prop :=
  match cond with
  | .eq | .ne => low v = low w → high v = high w
  | .gt => high v = high u ∨ ((high u).toNat < (high v).toNat ↔ (low u).toNat < (low v).toNat)
  | .ge => high v = high u ∨ ((high u).toNat < (high v).toNat ↔ (low u).toNat ≤ (low v).toNat)
  -- a common bit, and halves that do not add up to 0
  | .set => v &&& w ≠ 0 ∧ (low v + low w ≠ 0 ∨ high v + high w ≠ 0) ∨ v = 0 ∧ w = 0
  | .sgt | .sge => True
  -- there is no branch
  | .lt => u.toNat ≤ v.toNat
  | .le => u.toNat < v.toNat
  | .slt => w.toInt ≤ v.toInt
  | .sle => w.toInt < v.toInt

theorem taken_eq_iff (v w : BitVec 64) :
    (low v == low w) = (v == w) ↔ (low v = low w → high v = high w) := by
  rw [Bool.eq_iff_iff, beq_iff_eq, beq_iff_eq, eq_iff_halves v w]
  tauto

theorem taken_set_iff (v w : BitVec 64) :
    jumpTaken .set v w = ((v &&& w) != 0) ↔
      v &&& w ≠ 0 ∧ (low v + low w ≠ 0 ∨ high v + high w ≠ 0) ∨ v = 0 ∧ w = 0 := by
  have htaken : jumpTaken .set v w = true ↔ low v + low w ≠ 0 ∨ high v + high w ≠ 0 := by
    rw [jumpTaken, bne_iff_ne, ne_eq, ne_eq, ne_eq, ← not_and_or, not_iff_not, and_comm]
    exact BitVec.or_eq_zero_iff
  rw [Bool.eq_iff_iff, htaken, bne_iff_ne]
  constructor
  · intro h
    by_cases hA : low v + low w ≠ 0 ∨ high v + high w ≠ 0
    · exact .inl ⟨h.1 hA, hA⟩
    · -- the halves are 0: they add up to 0 and have no common bit
      have hand : v &&& w = 0 := not_not.1 fun hne => hA (h.2 hne)
      rw [not_or, not_not, not_not] at hA
      have hlo : low v &&& low w = 0#32 := by rw [← low_and, hand]; rfl
      have hhi : high v &&& high w = 0#32 := by rw [← high_and, hand]; rfl
      obtain ⟨h1, h2⟩ := eq_zero_of_and_of_add hlo hA.1
      obtain ⟨h3, h4⟩ := eq_zero_of_and_of_add hhi hA.2
      exact .inr ⟨(eq_iff_halves _ _).2 ⟨h1, h3⟩, (eq_iff_halves _ _).2 ⟨h2, h4⟩⟩
  · rintro (⟨hand, hA⟩ | ⟨rfl, rfl⟩)
    · exact iff_of_true hA hand
    · exact iff_of_false (by decide) (by decide)

theorem taken_iff (cond : Cond) {v w u : BitVec 64} (hlow : low u = low w) :
    jumpTaken cond v w = compares cond v w u ↔ jumpRight cond v w u := by
  have hv := toNat_halves v
  have hu := toNat_halves u
  have hlv := (low v).isLt
  have hlu := (low u).isLt
  cases cond with
  | eq => exact taken_eq_iff v w
  | ne => exact Bool.not_inj_iff.trans (taken_eq_iff v w)
  | gt =>
    simp only [jumpTaken, compares, jumpRight, BitVec.ult, decide_eq_decide, ← hlow,
      ← BitVec.toNat_inj]
    omega
  | ge =>
    simp only [jumpTaken, compares, jumpRight, BitVec.ule, decide_eq_decide, ← hlow,
      ← BitVec.toNat_inj]
    omega
  | set => exact taken_set_iff v w
  | sgt | sge => exact iff_of_true rfl trivial
  | lt => simp [jumpTaken, compares, jumpRight, BitVec.ult]
  | le => simp [jumpTaken, compares, jumpRight, BitVec.ule]
  | slt => simp [jumpTaken, compares, jumpRight, BitVec.slt]
  | sle => simp [jumpTaken, compares, jumpRight, BitVec.sle]

/-! ## Conditional jumps -/

/-- **Conditional jumps.** -/
theorem jump_agrees_iff (inst : EbpfInst) (cond : Cond) (form : Form)
    (hop : Op.ofCode inst.opcode = some (.jcond cond form)) (hd : inst.dst.toNat < 11)
    (hr : inst.src.toNat < 11) (x : Ebpf.State) :
    JumpAgrees inst cond form x ↔ form = .imm ∧ inst.offset = 0 ∨
      jumpRight cond (x.reg inst.dst) (operandVal form (x.reg inst.src) inst.imm)
        (unsignedVal form (x.reg inst.src) inst.imm) := by
  rw [jumpAgrees_taken_iff hop hd hr, holds_eq, taken_iff cond (low_unsignedVal _ _ _)]

/-- `if r6 > r2` by 2: both halves of `r6` are larger. -/
theorem jump_agrees_greater :
    JumpAgrees { opcode := 0x2d, dst := 6, src := 2, offset := 2, imm := 0 } .gt .reg mixedState :=
  (jump_agrees_iff _ .gt .reg (by decide) (by decide) (by decide) _).2
    (.inr (.inr (iff_of_true (by decide) (by decide))))

/-- `if r1 == 0` by 2, for `r1 = 2 ^ 32`: the branch is taken. -/
theorem low_halves_disagree :
    ¬ JumpAgrees { opcode := 0x15, dst := 1, src := 0, offset := 2, imm := 0 } .eq .imm
      { pc := 1, reg := fun _ => 0x100000000, mem := fun _ => 0 } :=
  fun h => absurd ((jumpAgrees_taken_iff (by decide) (by decide) (by decide)).1 h) (by decide)

end BlueSwat.Jit
