import BlueSwat.Jit.Proof.Logic
import BlueSwat.Jit.Proof.ShiftReg

/-!
# 32-bit operations on a pair

The 32-bit forms of sums, differences, products, bitwise operations and shifts by a register load
the whole destination, work on its low half as the 64-bit forms do, and store both halves: the high
half stays, where the interpreter clears it.
-/

set_option autoImplicit false

namespace BlueSwat.Jit

open Thumb Bytes
open Ebpf (EbpfInst Op Form)

/-! ## Agreement of 32-bit instructions -/

theorem pair_eq_zext_iff (h l v : Word) : pair h l = Ebpf.zext v ↔ h = 0 ∧ l = v := by
  rw [← pair_high_low (Ebpf.zext v), Ebpf.zext, low_setWidth, high_setWidth]
  constructor
  · intro e
    have h1 := congrArg high e
    have h2 := congrArg low e
    rw [high_pair, high_pair] at h1
    rw [low_pair, low_pair] at h2
    exact ⟨h1, h2⟩
  · rintro ⟨rfl, rfl⟩
    rfl

theorem pair_high_iff (v : BitVec 64) (l : Word) : pair (high v) l = v ↔ l = low v :=
  ⟨fun h => by rw [← h, low_pair], fun h => by rw [h, pair_high_low]⟩

section
variable {inst : EbpfInst} {op : Ebpf.AluOp} {form : Form} {x : Ebpf.State} {v : BitVec 64}
  (hop : Op.ofCode inst.opcode = some (.alu32 op form))
  (hd : inst.dst.toNat < 11) (hr : inst.src.toNat < 11)
include hop hd hr

/-- Agreement of a 32-bit instruction in terms of its code. -/
theorem agrees_alu32_iff
    (hv : ∀ H, Ebpf.alu32 H op form (x.reg inst.dst) (x.reg inst.src) inst.imm = .val v) :
    Agrees inst x ↔ ∀ sys top s, Mirrors top x s →
      ∃ t, runCode sys (buildAlu32 op form (rowOf inst.dst) (rowOf inst.src) inst.imm).1 s =
        some (t, false) ∧ Mirrors top (x.set inst.dst v) t := by
  refine agrees_iff (fun J pc hpc => ?_) (fun H vm mem memLen => ?_) ?_
  · rw [buildInst, hpc, hop]
    simp only [buildOp, hpc, row_of_lt hd, row_of_lt hr]
  · rw [hop, Ebpf.execOp, hv]
    rfl
  · rw [hop]
    rfl

/-- Code that sets the low half of the destination to `l`. -/
theorem agrees_low_iff {l w : Word}
    (hv : ∀ H, Ebpf.alu32 H op form (x.reg inst.dst) (x.reg inst.src) inst.imm = .val (Ebpf.zext w))
    (heff : ∀ sys top s, Mirrors top x s →
      ∃ t, runCode sys (buildAlu32 op form (rowOf inst.dst) (rowOf inst.src) inst.imm).1 s =
        some (t, false) ∧ Mirrors top (x.set inst.dst (pair (high (x.reg inst.dst)) l)) t) :
    Agrees inst x ↔ high (x.reg inst.dst) = 0 ∧ l = w := by
  rw [agrees_alu32_iff hop hd hr hv, effect_set_iff hd heff, pair_eq_zext_iff]

/-- Code that does not run to its end. -/
theorem disagrees_of_none
    (hv : ∀ H, Ebpf.alu32 H op form (x.reg inst.dst) (x.reg inst.src) inst.imm = .val v) (sys : Sys)
    (hnone : ∀ top s, Mirrors top x s → runCode sys
      (buildAlu32 op form (rowOf inst.dst) (rowOf inst.src) inst.imm).1 s = none) :
    ¬ Agrees inst x := by
  intro hA
  have hM := @mirrors_mirrorOf 0 x (fun _ => 0) ⟨false, false, false, false⟩ rfl
  obtain ⟨t, ht, -⟩ := (agrees_alu32_iff hop hd hr hv).1 hA sys 0 _ hM
  rw [hnone 0 _ hM] at ht
  cases ht

end

/-! ## Code -/

/-- Load the destination and the low half of the second operand. -/
def fetchLow (form : Form) (d r : BitVec 4) (imm : Word) : List Inst :=
  match form with
  | .imm => (movConst tmp2Lo imm).map .base ++ fetchDst d
  | .reg => fetchDst d ++ fetchHalf r false tmp2Lo

theorem idle_fetchLow {d r : BitVec 4} (hd : d.toNat < 11) (form : Form) (imm : Word) :
    idleLine (fetchLow form d r imm) = true := by
  have h1 := (idle_fetch d d hd hd).1
  cases form with
  | imm => rw [fetchLow, idleLine_append, idle_movConst (by decide), h1]; rfl
  | reg => rw [fetchLow, idleLine_append, h1, idle_fetchHalf _ _ (by decide)]; rfl

/-- After the destination and the low half of the second operand are loaded; the carry is `c`. -/
structure LoadedLow (x : Ebpf.State) (form : Form) (d r : BitVec 4) (imm : Word) (c : Bool)
    (t : State) : Prop where
  dst : heldVal t d = x.reg d
  operand : t.reg (srcLo form r) = low (operandVal form (x.reg r) imm)
  carry : t.flags.c = c

theorem Mirrors.fetchLow {top : Word} {x : Ebpf.State} {s : State} {d r : BitVec 4}
    (hM : Mirrors top x s) (sys : Sys) (hd : d.toNat < 11) (hr : r.toNat < 11) (form : Form)
    (imm : Word) :
    Runs sys (Jit.fetchLow form d r imm) s (LoadedLow x form d r imm s.flags.c) := by
  cases form with
  | imm =>
    obtain ⟨t, hrun, hv, hc, -⟩ := runs_movConst (q := tmp2Lo) (by decide) imm sys s
    have hidle := idle_movConst (q := tmp2Lo) (by decide) imm
    obtain ⟨u, hu, hw, hf, hq⟩ := (hM.idle hidle hrun).fetchDst sys hd
    refine ⟨u, by rw [Jit.fetchLow, runLine_seq hrun, hu], hw, ?_, (congrArg Flags.c hf).trans hc⟩
    rw [srcLo, if_pos (.inl rfl), hq tmp2Lo (by decide) (by decide), hv]
    exact (low_signExtend imm).symm
  | reg =>
    obtain ⟨t, ht, hv, hf, -⟩ := hM.fetchDst sys hd
    have hMt := hM.idle (idle_fetch d r hd hr).1 ht
    obtain ⟨u, hu, -, hw, hf', hq⟩ := hMt.fetchHalf sys hr false (q := tmp2Lo) (by decide)
    refine ⟨u, by rw [Jit.fetchLow, runLine_seq ht, hu], ?_, ?_, congrArg Flags.c (hf'.trans hf)⟩
    · rw [← hv, heldVal, heldVal, hq _ (held_apart d hd _ (by simp)).1,
        hq _ (held_apart d hd _ (by simp)).1]
    · rw [srcLo_eq, hw]
      rfl

/-! ## One instruction on the low half -/

section
variable {inst : EbpfInst} {op : Ebpf.AluOp} {form : Form} {x : Ebpf.State} {i : Inst}
  (hop : Op.ofCode inst.opcode = some (.alu32 op form))
  (hd : inst.dst.toNat < 11) (hr : inst.src.toNat < 11)
  (hcode : disassemble (buildAlu32 op form (rowOf inst.dst) (rowOf inst.src) inst.imm).1 =
    some (fetchLow form inst.dst inst.src inst.imm ++ [i] ++ storeRow inst.dst))
  (htame : tameLine inst.dst [i] = true)
include hop hd hr hcode htame

omit hop in
/-- The code leaves in the destination what `i` leaves in its registers. -/
theorem low_effect {P : BitVec 64 → Prop} {top : Word} {s : State} (hM : Mirrors top x s)
    (sys : Sys)
    (hi : ∀ t, LoadedLow x form inst.dst inst.src inst.imm s.flags.c t →
      Runs sys [i] t fun u => P (heldVal u inst.dst)) :
    ∃ v u, P v ∧ runCode sys (buildAlu32 op form (rowOf inst.dst) (rowOf inst.src) inst.imm).1 s =
      some (u, false) ∧ Mirrors top (x.set inst.dst v) u := by
  obtain ⟨t, ht, hval⟩ := (hM.fetchLow sys hd hr form inst.imm).append hi
  have hidle := idle_fetchLow (r := inst.src) hd form inst.imm
  obtain ⟨u, hu, hMu⟩ := hM.block hd
    (by rw [tameLine_append, tameLine_of_idle hidle, htame, Bool.true_and]) ht
  exact ⟨_, u, hval, by rw [runCode_eq hcode, hu], hMu⟩

/-- An instruction that computes what the interpreter computes of the low halves. -/
theorem agrees_computes_iff {f : Word → Word → Word}
    (hi : Computes i (heldLo inst.dst) (srcLo form inst.src) f)
    (hv : ∀ H, Ebpf.alu32 H op form (x.reg inst.dst) (x.reg inst.src) inst.imm =
      .val (Ebpf.zext (f (low (x.reg inst.dst))
        (low (operandVal form (x.reg inst.src) inst.imm))))) :
    Agrees inst x ↔ high (x.reg inst.dst) = 0 := by
  refine (agrees_low_iff hop hd hr hv fun sys top s hM => ?_).trans (and_iff_left rfl)
  obtain ⟨_, u, rfl, hu, hMu⟩ := low_effect hd hr hcode htame (P := (· = _)) hM sys fun t hL => by
    obtain ⟨hlo, hhi⟩ := halves_of_pair hL.dst
    obtain ⟨_, u, hu, hw⟩ := hi sys t
    refine .step hu (.nil ?_)
    rw [heldVal, hw.dest, hw.rest _ (Ne.symm (operands hd hr form).halves), hlo, hhi, hL.operand]
  exact ⟨u, hu, hMu⟩

end

/-! ## The instructions -/

/-- The instruction of an operation on low halves; `mov`, `div` and `mod` have none. -/
def lowInst (op : Ebpf.AluOp) (rd rm : Reg) : Inst :=
  let narrow := decide ((0 < rd.toNat ∧ rd.toNat < 8) ∧ 0 < rm.toNat ∧ rm.toNat < 8)
  match op with
  | .add => .base (.alu .add true rd rm rd)
  | .sub => .data .sub true rd rd rm (.lsl 0)
  | .mul => .mul narrow rd rm rd
  | .or => orInst rd rm
  | .xor => xorInst rd rm
  | .lsh => .shiftReg narrow 0 rd rd rm
  | .rsh => .shiftReg narrow 1 rd rd rm
  | .arsh => .shiftReg narrow 2 rd rd rm
  | _ => andInst rd rm

def lowOps : List Ebpf.AluOp := [.add, .sub, .mul, .or, .xor, .lsh, .rsh, .arsh]

theorem disassemble_lowAlu : ∀ op ∈ lowOps, ∀ p ∈ dstPairs, ∀ q ∈ srcPairs,
    disassemble (emitAlu32Reg p.lo.toNat q.lo.toNat true false op) =
      some [lowInst op p.lo q.lo] := by
  decide

/-- The code of an operation on the low half of `b`, which is brought to `rt`. -/
theorem disassemble_lowRow {op : Ebpf.AluOp} (hop : op ∈ lowOps) {d : BitVec 4} (hd : d.toNat < 11)
    {b : Row} {rt hi : Reg} {is : List Inst} (hmem : ⟨rt, hi⟩ ∈ srcPairs)
    (hb : (armBpfGetReg32 b.lo tmp2Lo.toNat).2 = rt.toNat)
    (his : disassemble (armBpfGetReg32 b.lo tmp2Lo.toNat).1 = some is) :
    disassemble (emitAlu64Reg false (rowOf d) b op) =
      some (fetchDst d ++ (is ++ ([lowInst op (heldLo d) rt] ++ storeRow d))) := by
  obtain ⟨hrd, hget, hput⟩ := disassemble_getDst d hd
  have hcore := disassemble_lowAlu op hop _ (dstPair_mem d hd) _ hmem
  have hall := disassemble_seq hget (disassemble_seq his (disassemble_seq hcore hput))
  rw [← hb] at hall
  have hcode : emitAlu64Reg false (rowOf d) b op = (armBpfGetReg64 (rowOf d) tmp).1 ++
      ((armBpfGetReg32 b.lo tmp2Lo.toNat).1 ++ (emitAlu32Reg (armBpfGetReg64 (rowOf d) tmp).2.lo
        (armBpfGetReg32 b.lo tmp2Lo.toNat).2 true false op ++
        armBpfPutReg64 (rowOf d) (armBpfGetReg64 (rowOf d) tmp).2)) := by
    simp only [emitAlu64Reg, Bool.false_eq_true, if_false, List.append_assoc]
    rfl
  rw [hcode, hrd]
  exact hall

theorem disassemble_low {op : Ebpf.AluOp} (hop : op ∈ lowOps) {d r : BitVec 4} (hd : d.toNat < 11)
    (hr : r.toNat < 11) {form : Form} {imm : Word} {c : Code}
    (hc : c = match form with
      | .imm => emitMovSeImm64 false tmp2 imm ++ emitAlu64Reg false (rowOf d) tmp2 op
      | .reg => emitAlu64Reg false (rowOf d) (rowOf r) op) :
    disassemble c =
      some (fetchLow form d r imm ++ [lowInst op (heldLo d) (srcLo form r)] ++ storeRow d) := by
  subst hc
  cases form with
  | imm =>
    have hmov : disassemble (emitMovSeImm64 false tmp2 imm) =
        some ((movConst tmp2Lo imm).map .base) :=
      disassemble_emitMovImm (r := tmp2Lo) rfl imm
    have htmp2 : (armBpfGetReg32 tmp2.lo tmp2Lo.toNat).2 = tmp2Lo.toNat := by decide
    have hnone : disassemble (armBpfGetReg32 tmp2.lo tmp2Lo.toNat).1 = some [] := by decide
    have hall := disassemble_seq hmov
      (disassemble_lowRow hop hd (srcPair_mem hr .imm) htmp2 hnone)
    simpa only [fetchLow, srcLo, true_or, if_true, List.append_assoc, List.nil_append] using hall
  | reg =>
    obtain ⟨hrt, hget⟩ := disassemble_getHalf r hr false tmp2Lo (by simp)
    have hmem := srcPair_mem hr .reg
    rw [srcLo_eq] at hmem ⊢
    have hrow := disassemble_lowRow hop hd (b := rowOf r) hmem hrt hget
    simpa only [fetchLow, List.append_assoc] using hrow

/-- The operations and forms that go through a pair. -/
def throughPair (op : Ebpf.AluOp) (form : Form) : Prop :=
  op ∈ [.add, .sub, .mul, .or, .xor] ∨ op ∈ [.lsh, .rsh, .arsh] ∧ form = .reg

theorem disassemble_lowInst {op : Ebpf.AluOp} {form : Form} (hop : throughPair op form)
    {d r : BitVec 4} (hd : d.toNat < 11) (hr : r.toNat < 11) (imm : Word) :
    disassemble (buildAlu32 op form (rowOf d) (rowOf r) imm).1 =
      some (fetchLow form d r imm ++ [lowInst op (heldLo d) (srcLo form r)] ++ storeRow d) := by
  have hmem : op ∈ lowOps := by
    rcases hop with h | ⟨h, -⟩
    · revert h
      cases op <;> decide
    · revert h
      cases op <;> decide
  refine disassemble_low hmem hd hr ?_
  rcases hop with h | ⟨h, rfl⟩
  · simp only [List.mem_cons, List.not_mem_nil, or_false] at h
    rcases h with rfl | rfl | rfl | rfl | rfl <;> cases form <;> rfl
  · simp only [List.mem_cons, List.not_mem_nil, or_false] at h
    rcases h with rfl | rfl | rfl <;> rfl

/-- What the instructions compute that write their destination. -/
def lowVal (op : Ebpf.AluOp) (a b : Word) : Word :=
  match op with
  | .add => a + b
  | .sub => a - b
  | .mul => a * b
  | .lsh => a <<< amount b
  | .rsh => a >>> amount b
  | .arsh => a.sshiftRight (amount b)
  | _ => a

theorem computes_lowInst {op : Ebpf.AluOp} (hop : op ∈ [.add, .sub, .mul, .lsh, .rsh, .arsh])
    {rd rm : Reg} (h : rd ≠ sp) : Computes (lowInst op rd rm) rd rm (lowVal op) := by
  intro sys s
  simp only [List.mem_cons, List.not_mem_nil, or_false] at hop
  rcases hop with rfl | rfl | rfl | rfl | rfl | rfl
  · exact ⟨_, _, rfl,
      ((writes_put s h true (aluResult .add s.flags (s.reg rm) (s.reg rd))).skip 0).congr
        ((addWithCarry_false _ _).trans (BitVec.add_comm _ _))⟩
  · refine ⟨_, _, rfl, (writes_put s h true _).congr ?_⟩
    rw [Shift.apply_lsl_zero]
    exact addWithCarry_sub _ _
  · exact ⟨_, _, rfl, (writes_put s h _ (s.reg rm * s.reg rd, _)).congr (BitVec.mul_comm _ _)⟩
  · exact ⟨_, _, rfl, writes_put s h _ (s.reg rd <<< amount (s.reg rm), _)⟩
  · exact ⟨_, _, rfl, writes_put s h _ (s.reg rd >>> amount (s.reg rm), _)⟩
  · exact ⟨_, _, rfl, writes_put s h _ ((s.reg rd).sshiftRight (amount (s.reg rm)), _)⟩

theorem tame_lowInst (d : BitVec 4) (rm : Reg) (op : Ebpf.AluOp) (hop : op ≠ .or) :
    tameLine d [lowInst op (heldLo d) rm] = true := by
  refine tame_low ?_
  cases op with
  | or => exact absurd rfl hop
  | xor => exact xorInst_quiet _ _
  | and | div | mod | mov => exact andInst_quiet _ _
  | _ => exact ⟨rfl, rfl⟩

/-! ## Agreement -/

/-- The low half of the second operand, as the interpreter has it. -/
theorem low_operandVal (form : Form) (w : BitVec 64) (imm : Word) :
    low (operandVal form w imm) = match form with
      | .imm => imm
      | .reg => Ebpf.u32 w := by
  cases form with
  | imm => exact low_signExtend imm
  | reg => rfl

theorem amount_of_lt {w : Word} (h : w.toNat < 32) : amount w = w.toNat :=
  (amounts rfl (by omega)).1

section
variable {inst : EbpfInst} {op : Ebpf.AluOp} {form : Form} {x : Ebpf.State}
  (hd : inst.dst.toNat < 11) (hr : inst.src.toNat < 11)
include hd hr

theorem arith32_agrees_iff (hop : Op.ofCode inst.opcode = some (.alu32 op form))
    (harith : op ∈ [.add, .sub, .mul]) : Agrees inst x ↔ high (x.reg inst.dst) = 0 := by
  have hsp := ((operands hd hr form).plain (heldLo inst.dst) (by simp)).1
  simp only [List.mem_cons, List.not_mem_nil, or_false] at harith
  refine agrees_computes_iff hop hd hr (disassemble_lowInst (.inl ?_) hd hr inst.imm)
    (tame_lowInst _ _ _ ?_) (computes_lowInst ?_ hsp) fun H => ?_
  · rcases harith with rfl | rfl | rfl <;> simp
  · rcases harith with rfl | rfl | rfl <;> simp
  · rcases harith with rfl | rfl | rfl <;> simp
  · rw [low_operandVal]
    rcases harith with rfl | rfl | rfl <;> rfl

/-- The amount of a shift by a register: the arithmetic one takes the whole register. -/
def shiftAmount (op : Ebpf.AluOp) (v : BitVec 64) : Nat :=
  if op = .arsh then v.toNat else (low v).toNat

omit hd hr in
theorem toNat_low_shiftAmount {v : BitVec 64} (h : shiftAmount op v < 32) :
    (low v).toNat = shiftAmount op v := by
  unfold shiftAmount at h ⊢
  split
  · rename_i hop
    rw [if_pos hop] at h
    exact toNat_low_of_lt rfl (by omega)
  · rfl

theorem shift32_agrees_iff (hop : Op.ofCode inst.opcode = some (.alu32 op .reg))
    (hshift : op ∈ [.lsh, .rsh, .arsh]) (hamt : shiftAmount op (x.reg inst.src) < 32) :
    Agrees inst x ↔ high (x.reg inst.dst) = 0 := by
  have hsp := ((operands hd hr .reg).plain (heldLo inst.dst) (by simp)).1
  have hlow := toNat_low_shiftAmount hamt
  have hval : amount (low (x.reg inst.src)) = shiftAmount op (x.reg inst.src) :=
    (amount_of_lt (by omega)).trans hlow
  simp only [List.mem_cons, List.not_mem_nil, or_false] at hshift
  refine agrees_computes_iff hop hd hr (disassemble_lowInst (.inr ⟨?_, rfl⟩) hd hr inst.imm)
    (tame_lowInst _ _ _ ?_) (computes_lowInst ?_ hsp) fun H => ?_
  · rcases hshift with rfl | rfl | rfl <;> simp
  · rcases hshift with rfl | rfl | rfl <;> simp
  · rcases hshift with rfl | rfl | rfl <;> simp
  · rcases hshift with rfl | rfl | rfl <;> simp only [lowVal, operandVal, hval] <;>
      exact congrArg Ebpf.AluRes.val (if_pos hamt)

theorem or32_agrees_iff (hop : Op.ofCode inst.opcode = some (.alu32 .or form))
    (h : form = .imm ∨ onStack inst.src = true) : Agrees inst x ↔ high (x.reg inst.dst) = 0 := by
  have hsp := ((operands hd hr form).plain (heldLo inst.dst) (by simp)).1
  have h8 := (src_in_tmp2 h).1
  refine agrees_computes_iff hop hd hr (disassemble_lowInst (.inl (by simp)) hd hr inst.imm)
    (tame_low (orInst_quiet_wide _ h8)) (computes_or hsp h8) fun H => ?_
  rw [low_operandVal]
  rfl

theorem xor32_agrees_iff (hop : Op.ofCode inst.opcode = some (.alu32 .xor .reg)) (h0 : inst.dst ≠ 0)
    (h16 : inst.src = 1 ∨ inst.src = 6) : Agrees inst x ↔ high (x.reg inst.dst) = 0 := by
  have hsp := ((operands hd hr .reg).plain (heldLo inst.dst) (by simp)).1
  have hlow := low_operands hd h0 h16
  exact agrees_computes_iff hop hd hr (disassemble_lowInst (.inl (by simp)) hd hr inst.imm)
    (tame_lowInst _ _ _ (by simp)) (computes_xor hsp (hlow _ (by simp)) (hlow _ (by simp)))
      fun H => rfl

theorem xor32_disagrees (hop : Op.ofCode inst.opcode = some (.alu32 .xor form))
    (h : ¬ (form = .reg ∧ inst.dst ≠ 0 ∧ (inst.src = 1 ∨ inst.src = 6))) : ¬ Agrees inst x := by
  have hsp := ((operands hd hr form).plain (heldLo inst.dst) (by simp)).1
  have hcode := @disassemble_lowInst .xor form (.inl (by simp)) _ _ hd hr inst.imm
  have hv : ∀ H, Ebpf.alu32 H .xor form (x.reg inst.dst) (x.reg inst.src) inst.imm =
      .val (Ebpf.zext (low (x.reg inst.dst) ^^^
        low (operandVal form (x.reg inst.src) inst.imm))) := fun H => by
    rw [low_operandVal]
    rfl
  rw [agrees_alu32_iff hop hd hr hv]
  intro hA
  have key : ∀ c, low (Ebpf.zext (low (x.reg inst.dst) ^^^
      low (operandVal form (x.reg inst.src) inst.imm))) =
      carriedXor c (low (x.reg inst.dst)) (low (operandVal form (x.reg inst.src) inst.imm)) := by
    intro c
    have hM := @mirrors_mirrorOf 0 x (fun _ => 0) ⟨false, false, c, false⟩ rfl
    obtain ⟨v, u, hv, hu, hMu⟩ := low_effect hd hr hcode (tame_lowInst _ _ _ (by simp)) hM
      ⟨fun _ => true, false⟩ (P := fun v => low v = carriedXor c (low (x.reg inst.dst))
        (low (operandVal form (x.reg inst.src) inst.imm))) fun t hL => by
          rw [lowInst, xorInst_rrx hr h]
          refine .put rfl hsp fun u w => .nil ?_
          rw [heldVal, low_pair, w.dest, (halves_of_pair hL.dst).1, hL.operand, hL.carry]
          rfl
    obtain ⟨u', hu', hMu'⟩ := hA ⟨fun _ => true, false⟩ 0 _ hM
    rw [hu] at hu'
    cases hu'
    have hset := hMu.unique hMu' inst.dst hd
    rw [set_reg, set_reg] at hset
    rw [← hset, hv]
  exact carriedXor_ne _ _ ((key true).symm.trans (key false))

/-- The low half of the destination has all bits of that of a source in machine registers, and the
source keeps its value. -/
def orKeepsLow (x : Ebpf.State) (d r : BitVec 4) : Prop :=
  low (x.reg d) ||| low (x.reg r) = low (x.reg d) ∧
    if d = 0 then low (x.reg r) ||| low (x.reg 0) = low (x.reg r)
    else if d = 1 then low (x.reg r) ||| low (x.reg 6) = low (x.reg r)
    else if d = 6 then low (x.reg 0) * low (x.reg r) = low (x.reg r)
    else low (x.reg 6) * low (x.reg r) = low (x.reg r)

omit hr in
theorem orKeepsLow_iff : orKeepsLow x inst.dst inst.src ↔
    low (x.reg inst.dst) ||| low (x.reg inst.src) = low (x.reg inst.dst) ∧
      orEffect (heldLo inst.dst) (low (x.reg inst.src)) (readLo x inst.dst) =
        low (x.reg inst.src) := by
  simp only [orKeepsLow, orEffect, readLo, (orEffect_held _ hd).1]
  refine and_congr_right fun _ => ?_
  by_cases h0 : inst.dst = 0#4
  · simp [h0]
  by_cases h1 : inst.dst = 1#4
  · simp [h1]
  by_cases h6 : inst.dst = 6#4
  · simp [h6]
  · simp [h0, h1, h6]

theorem or32_narrow_iff (hop : Op.ofCode inst.opcode = some (.alu32 .or .reg))
    (hs : onStack inst.src = false) :
    Agrees inst x ↔ high (x.reg inst.dst) = 0 ∧ orKeepsLow x inst.dst inst.src := by
  have l1 := (held_low _ hd).1
  have l3 := (held_low _ hr).1
  have hO := operands hr hr .imm
  have hcode := @disassemble_lowInst .or .reg (.inl (by simp)) _ _ hd hr inst.imm
  rw [fetchLow, fetchHalf, if_neg (by simp [hs]), List.append_nil, (src_of_reg hs).1,
    lowInst] at hcode
  have heff : ∀ sys top s, Mirrors top x s → ∃ t,
      runCode sys (buildAlu32 .or .reg (rowOf inst.dst) (rowOf inst.src) inst.imm).1 s =
        some (t, false) ∧
      Mirrors top (x.set inst.src (pair (high (x.reg inst.src))
        (orEffect (heldLo inst.dst) (low (x.reg inst.src)) (readLo x inst.dst)))) t := by
    intro sys top s hM
    obtain ⟨u, hu, v, rfl, hMu⟩ := hM.source (P := (· = pair _ _)) sys hd hr hs
      (tame_low (orInst_quiet_narrow l1 l3))
      fun t hMt hval _ => by
        obtain ⟨h1, h2⟩ := halves_of_pair (hMt.held hr hs)
        obtain ⟨_, u, hu, w⟩ := orInst_exec (hO.plain _ (by simp)).1 ⟨l1, l3⟩ sys t
        refine .step hu (.nil ⟨?_, fun q hq _ => w.rest q hq⟩)
        rw [heldVal, w.dest, w.rest _ (Ne.symm hO.halves), h1, h2, (hMt.reads hd hval).1]
    exact ⟨u, by rw [runCode_eq hcode, hu], hMu⟩
  have hv : ∀ H, Ebpf.alu32 H .or .reg (x.reg inst.dst) (x.reg inst.src) inst.imm =
      .val (Ebpf.zext (low (x.reg inst.dst) ||| low (x.reg inst.src))) := fun H => rfl
  rw [agrees_alu32_iff hop hd hr hv, effect_at_iff hd hr heff, orKeepsLow_iff hd]
  split
  · rename_i h
    simp only [pair_eq_zext_iff, h, BitVec.or_self, true_and]
  · rw [pair_high_iff, eq_comm (a := Ebpf.zext _), ← pair_high_low (x.reg inst.dst),
      pair_eq_zext_iff,
      pair_high_low, eq_comm (a := low (x.reg inst.dst))]
    tauto

end

end BlueSwat.Jit
