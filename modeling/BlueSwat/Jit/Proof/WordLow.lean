import BlueSwat.Jit.Proof.Word

/-!
# 32-bit operations on a low half

Moves, divisions, negation and shifts by a constant load and store the low half only, so that the
high half stays as well. A move of a constant to a row on the stack takes the offset of the row for
a register number, and the remainder multiplies the wrong registers. `word32_agrees_iff` has all
32-bit operations but `and`.
-/

set_option autoImplicit false

namespace BlueSwat.Jit

open Thumb Bytes
open Ebpf (EbpfInst Op Form)

/-! ## The low half of a row -/

/-- Code whose last part stores the low half of the destination from `a`. -/
theorem effect_lowHalf {x : Ebpf.State} {d : BitVec 4} (hd : d.toNat < 11) {c : Code}
    {is : List Inst} {a : Reg} {w : Word} (hcode : disassemble c = some (is ++ putHalf d false a))
    (htame : tameLine d is = true)
    (hrun : ∀ sys top s, Mirrors top x s → Runs sys is s fun t => t.reg a = w ∧
      (onStack d = false → t.reg (heldHi d) = s.reg (heldHi d))) :
    ∀ sys top s, Mirrors top x s → ∃ t, runCode sys c s = some (t, false) ∧
      Mirrors top (x.set d (pair (high (x.reg d)) w)) t := by
  intro sys top s hM
  obtain ⟨t, ht, rfl, hhi⟩ := hrun sys top s hM
  obtain ⟨u, hu, hMu⟩ := hM.lowHalf hd htame ht
    fun hs => (hhi hs).trans (halves_of_pair (hM.held hd hs)).2
  exact ⟨u, by rw [runCode_eq hcode, hu], hMu⟩

/-- The registers that a low half is in, with `q` for those on the stack. -/
def halfRegs (q : Reg) : List Reg := [heldLo 0, heldLo 1, heldLo 6, q]

theorem halfReg_mem : ∀ d : BitVec 4, d.toNat < 11 → ∀ q ∈ [tmpHi, tmp2Lo, tmp2Hi],
    halfReg d false q ∈ halfRegs q := by decide

section
variable {d r : BitVec 4} (hd : d.toNat < 11) (hr : r.toNat < 11) {q : Reg}
  (hq : q ∈ [tmpHi, tmp2Lo, tmp2Hi])
include hd hr hq

/-- A low half that was brought to `q` is stored. -/
theorem disassemble_putLow :
    disassemble (armBpfPutReg32 (rowOf d).lo (halfReg r false q).toNat) =
      some (putHalf d false (halfReg r false q)) := by
  have hsub : ∀ q ∈ [tmpHi, tmp2Lo, tmp2Hi],
      halfRegs q ⊆ [0, 2, 4, tmpHi, tmp2Lo, tmp2Hi, ip, lr] := by decide
  exact disassemble_putHalf d hd false _ (hsub q hq (halfReg_mem r hr q hq))

omit hd in
theorem disassemble_getLow : (armBpfGetReg32 (rowOf r).lo q.toNat).2 = (halfReg r false q).toNat ∧
    disassemble (armBpfGetReg32 (rowOf r).lo q.toNat).1 = some (fetchHalf r false q) :=
  disassemble_getHalf r hr false q (List.mem_cons_of_mem _ hq)

end

/-- Where a low half is. -/
theorem half_apart : ∀ d : BitVec 4, d.toNat < 11 → ∀ q ∈ [tmpHi, tmp2Lo, tmp2Hi],
    let p := halfReg d false q
    p ≠ sp ∧ p ≠ ip ∧ (p ≠ q → onStack d = false) ∧ (onStack d = false → p ≠ heldHi d) ∧
      (scratch.contains p || p == lr || (!onStack d && (p == heldLo d || p == heldHi d))) =
        true := by
  decide

/-! ## One instruction on a low half -/

/-- The halfword of `emit_alu32_imm`. -/
def alu32Half (rd : Int) (val : BitVec 16) (opcode : BitVec 32) : BitVec 16 :=
  (opcode ||| val.setWidth 32 <<< 6 ||| bits rd <<< 3 ||| bits rd).setWidth 16

section
variable {x : Ebpf.State} {d : BitVec 4} (hd : d.toNat < 11) {val : BitVec 16} {opcode : BitVec 32}
  {i : Reg → Inst}
  (hcode : ∀ rd ∈ halfRegs tmpHi, disassemble (emit2 (alu32Half rd.toNat val opcode)) = some [i rd])
include hd hcode

theorem disassemble_alu32Imm :
    disassemble (emitAlu32Imm (rowOf d).lo val opcode) = some (fetchHalf d false tmpHi ++
      [i (halfReg d false tmpHi)] ++ putHalf d false (halfReg d false tmpHi)) := by
  obtain ⟨hreg, hget⟩ := disassemble_getLow hd (q := tmpHi) (by simp)
  have hi := hcode _ (halfReg_mem d hd tmpHi (by simp))
  have hput := disassemble_putLow hd hd (q := tmpHi) (by simp)
  rw [← hreg] at hi hput
  exact disassemble_seq (disassemble_seq hget hi) hput

/-- `f` of the low half. -/
theorem effect_alu32Imm {f : Word → Word} (hq : ∀ q, (i q).quiet = true ∧ (i q).dests = [q])
    (hi : ∀ q, q ≠ sp → Computes (i q) q q fun a _ => f a) :
    ∀ sys top s, Mirrors top x s → ∃ t,
      runCode sys (emitAlu32Imm (rowOf d).lo val opcode) s = some (t, false) ∧
        Mirrors top (x.set d (pair (high (x.reg d)) (f (low (x.reg d))))) t := by
  obtain ⟨hsp, -, -, hhi, htame⟩ := half_apart d hd tmpHi (by simp)
  refine effect_lowHalf hd (disassemble_alu32Imm hd hcode) ?_ fun sys top s hM => ?_
  · rw [tameLine_append, tameLine_of_idle (idle_fetchHalf _ _ (by decide))]
    simp only [tameLine, List.all_cons, List.all_nil, hq, htame, Bool.and_self]
  · refine (hM.fetchHalf sys hd false (by decide)).append fun t ht => ?_
    obtain ⟨-, hval, -, hrest⟩ := ht
    obtain ⟨_, u, hu, w⟩ := hi _ hsp sys t
    refine .step hu (.nil ⟨by rw [w.dest, hval]; rfl, fun hs => ?_⟩)
    rw [w.rest _ (Ne.symm (hhi hs)),
      hrest _ ((held_apart d hd _ (by simp)).2.2 hs).2]

end

/-! ## Negation and shifts by a constant -/

theorem disassemble_negHalf : ∀ rd ∈ halfRegs tmpHi,
    disassemble (emit2 (alu32Half rd.toNat 0 0x4240)) = some [.rsb true rd rd 0] := by decide

theorem low_neg (v : BitVec 64) : low (-v) = -low v := BitVec.setWidth_neg_of_le (by decide)

theorem neg32_agrees_iff {inst : EbpfInst} {x : Ebpf.State}
    (hop : Op.ofCode inst.opcode = some .neg32)
    (hd : inst.dst.toNat < 11) : Agrees inst x ↔ high (x.reg inst.dst) = 0 := by
  have hiff : Agrees inst x ↔ ∀ sys top s, Mirrors top x s →
      ∃ t, runCode sys (emitAlu32Imm (rowOf inst.dst).lo 0 0x4240) s = some (t, false) ∧
        Mirrors top (x.set inst.dst (Ebpf.zext (low (-x.reg inst.dst)))) t := by
    refine agrees_iff (fun J pc hpc => ?_) (fun H vm mem memLen => ?_) ?_
    · rw [buildInst, hpc, hop]
      simp only [buildOp, hpc, row_of_lt hd]
    · rw [hop]
      rfl
    · rw [hop]
      rfl
  have hneg : ∀ q, q ≠ sp → Computes (.rsb true q q 0) q q fun a _ => -a := fun q hq sys s =>
    ⟨_, _, rfl, (writes_put s hq true (_, _)).congr
      ((addWithCarry_not _ _).trans (BitVec.zero_sub _))⟩
  rw [hiff, effect_set_iff hd (effect_alu32Imm hd disassemble_negHalf (fun q => ⟨rfl, rfl⟩) hneg),
    pair_eq_zext_iff]
  exact and_iff_left (low_neg _).symm

/-- The shift of an operation by a constant. -/
def constShift (op : Ebpf.AluOp) (n : Nat) : Shift :=
  match op with
  | .lsh => .lsl n
  | .rsh => .lsr n
  | _ => .asr n

def shiftCode (op : Ebpf.AluOp) : BitVec 32 :=
  match op with
  | .lsh => 0x0000
  | .rsh => 0x0800
  | _ => 0x1000

theorem disassemble_shiftHalf {op : Ebpf.AluOp} (hop : op ∈ [.lsh, .rsh, .arsh]) {n : Nat}
    (h0 : 0 < n) (hn : n < 32) : ∀ rd ∈ halfRegs tmpHi,
      disassemble (emit2 (alu32Half rd.toNat (BitVec.ofNat 16 n) (shiftCode op))) =
        some [.shift true rd rd (constShift op n)] := by
  intro rd hrd
  have hlow : ∀ rd ∈ halfRegs tmpHi, rd.toNat < 8 := by decide
  have hval : (BitVec.ofNat 16 n).setWidth 32 = (BitVec.ofNat 5 n).setWidth 32 := by
    apply BitVec.eq_of_toNat_eq
    simp only [BitVec.toNat_setWidth, BitVec.toNat_ofNat]
    omega
  obtain ⟨hne, hamt⟩ := ofNat5 h0 hn
  obtain ⟨type, ht, hcode, hshift⟩ : ∃ type : BitVec 2, type ≠ 3 ∧
      shiftCode op = (0#3 ++ type).setWidth 32 <<< 11 ∧
      immShift type (BitVec.ofNat 5 n) = constShift op n := by
    simp only [List.mem_cons, List.not_mem_nil, or_false] at hop
    rcases hop with rfl | rfl | rfl
    · exact ⟨0, by decide, by decide, congrArg Shift.lsl hamt⟩
    · exact ⟨1, by decide, by decide, congrArg Shift.lsr ((if_neg hne).trans hamt)⟩
    · exact ⟨2, by decide, by decide, congrArg Shift.asr ((if_neg hne).trans hamt)⟩
  rw [alu32Half, hval, hcode, bits_reg, disassemble_shiftLow (hlow rd hrd) (hlow rd hrd) ht, hshift]

/-- The code of a shift by a constant. -/
theorem buildAlu32_shift {op : Ebpf.AluOp} (hshift : op ∈ [.lsh, .rsh, .arsh]) {dst src : Row}
    {imm : Word} (himm : imm.toNat < 32) : (buildAlu32 op .imm dst src imm).1 =
      if imm = 0 then [] else emitAlu32Imm dst.lo (BitVec.ofNat 16 imm.toNat) (shiftCode op) := by
  have hint : ¬ imm.toInt > 31 := by
    rw [BitVec.toInt_eq_toNat_of_lt (by omega)]
    omega
  have hall : buildAlu32 op .imm dst src imm = buildShift32 dst imm (shiftCode op) := by
    simp only [List.mem_cons, List.not_mem_nil, or_false] at hshift
    rcases hshift with rfl | rfl | rfl <;> rfl
  rw [hall, buildShift32, if_neg hint, BitVec.ofNat_toNat]
  by_cases h : imm = 0
  · rw [if_pos h, if_neg (not_not.2 h)]
  · rw [if_neg h, if_pos h]

/-- Shifts by a constant; there is no code for a shift by 0. -/
theorem shiftConst32_agrees_iff {inst : EbpfInst} {op : Ebpf.AluOp} {x : Ebpf.State}
    (hop : Op.ofCode inst.opcode = some (.alu32 op .imm)) (hshift : op ∈ [.lsh, .rsh, .arsh])
    (hd : inst.dst.toNat < 11) (hr : inst.src.toNat < 11)
    (hamt : shiftAmount op (operandVal .imm (x.reg inst.src) inst.imm) < 32) :
    Agrees inst x ↔ high (x.reg inst.dst) = 0 := by
  have himm : inst.imm.toNat < 32 := by
    rw [← toNat_low_shiftAmount hamt, low_operandVal] at hamt
    exact hamt
  have happly : ∀ a c, ((constShift op inst.imm.toNat).apply a c).1 =
      ((constShift op inst.imm.toNat).apply a false).1 := fun a c => by cases op <;> rfl
  have hv : ∀ H, Ebpf.alu32 H op .imm (x.reg inst.dst) (x.reg inst.src) inst.imm =
      .val (Ebpf.zext ((constShift op inst.imm.toNat).apply (low (x.reg inst.dst)) false).1) := by
    intro H
    have hsext := toNat_sext_of_lt (show inst.imm.toNat < 64 by omega)
    simp only [List.mem_cons, List.not_mem_nil, or_false] at hshift
    rcases hshift with rfl | rfl | rfl <;> simp only [Ebpf.alu32, hsext, if_pos himm] <;> rfl
  refine (agrees_low_iff hop hd hr hv ?_).trans (and_iff_left rfl)
  rw [buildAlu32_shift hshift himm]
  by_cases h0 : inst.imm = 0
  · intro sys top s hM
    have hid : ((constShift op inst.imm.toNat).apply (low (x.reg inst.dst)) false).1 =
        low (x.reg inst.dst) := by
      rw [h0]
      cases op <;> simp [constShift, Shift.apply]
    refine ⟨s, by rw [if_pos h0]; rfl, ?_⟩
    rwa [hid, pair_high_low, set_self]
  · have hcomp : ∀ q, q ≠ sp → Computes (.shift true q q (constShift op inst.imm.toNat)) q q
        fun a _ => ((constShift op inst.imm.toNat).apply a false).1 := fun q hq sys s =>
      ⟨_, _, rfl, (writes_put s hq true (_, _)).congr (happly _ _)⟩
    rw [if_neg h0]
    have hpos : 0 < inst.imm.toNat := Nat.pos_of_ne_zero fun h => h0 (BitVec.eq_of_toNat_eq h)
    exact effect_alu32Imm hd (disassemble_shiftHalf hshift hpos himm) (fun q => ⟨rfl, rfl⟩) hcomp

/-! ## Division and remainder -/

/-- What the code divides by: of a constant only the low 16 bits. -/
def divisor (form : Form) (w : BitVec 64) (imm : Word) : Word :=
  match form with
  | .imm => (imm.setWidth 16).setWidth 32
  | .reg => low w

def fetchDivisor (form : Form) (r : BitVec 4) (imm : Word) : List Inst :=
  match form with
  | .imm => (movConst tmp2Hi (divisor .imm 0 imm)).map .base
  | .reg => fetchHalf r false tmp2Hi

def divisorReg (form : Form) (r : BitVec 4) : Reg :=
  match form with
  | .imm => tmp2Hi
  | .reg => halfReg r false tmp2Hi

/-- The code of a quotient, or of a remainder: the product is the one of dividend and divisor. -/
def divBody (isDiv : Bool) (q rt : Reg) : List Inst :=
  if isDiv then [.udiv q q rt] else [.udiv ip q rt, .mls q q rt ip]

/-- The words of `emit_u32_div_mod`. -/
def divWords (isDiv : Bool) (rd rt : Int) : Code :=
  if isDiv then emit4 (0xfbb0f0f0 ||| bits rd <<< 16 ||| bits rd <<< 8 ||| bits rt)
  else emit4 (0xfbb0f0f0 ||| bits rd <<< 16 ||| bits armIp <<< 8 ||| bits rt) ++
    emit4 (0xfb000010 ||| bits rd <<< 16 ||| bits armIp <<< 12 ||| bits rd <<< 8 ||| bits rt)

theorem disassemble_divWords : ∀ isDiv : Bool, ∀ rd ∈ halfRegs tmp2Lo, ∀ rt ∈ halfRegs tmp2Hi,
    disassemble (divWords isDiv rd.toNat rt.toNat) = some (divBody isDiv rd rt) := by decide

theorem disassemble_divMod {d r : BitVec 4} (hd : d.toNat < 11) (hr : r.toNat < 11) (isDiv : Bool)
    (form : Form) (imm : Word) :
    disassemble (emitU32DivMod (rowOf d) (rowOf r) isDiv form (imm.setWidth 16)) =
      some (fetchHalf d false tmp2Lo ++ fetchDivisor form r imm ++
        divBody isDiv (halfReg d false tmp2Lo) (divisorReg form r) ++
        putHalf d false (halfReg d false tmp2Lo)) := by
  obtain ⟨hreg, hget⟩ := disassemble_getLow hd (q := tmp2Lo) (by simp)
  have hmem := halfReg_mem d hd tmp2Lo (by simp)
  have hput := disassemble_putLow hd hd (q := tmp2Lo) (by simp)
  rw [← hreg] at hput
  cases form with
  | imm =>
    have hdiv := disassemble_divWords isDiv _ hmem tmp2Hi (by simp [halfRegs])
    rw [← hreg] at hdiv
    exact disassemble_seq (disassemble_seq (disassemble_seq hget
      (disassemble_emitMovImm (r := tmp2Hi) rfl _)) hdiv) hput
  | reg =>
    obtain ⟨hreg', hget'⟩ := disassemble_getLow hr (q := tmp2Hi) (by simp)
    have hdiv := disassemble_divWords isDiv _ hmem _ (halfReg_mem r hr tmp2Hi (by simp))
    rw [← hreg, ← hreg'] at hdiv
    exact disassemble_seq (disassemble_seq (disassemble_seq hget hget') hdiv) hput

/-- What the code computes. -/
def divVal (isDiv : Bool) (a b : Word) : Word := if isDiv then a / b else a / b - a * b

theorem udiv_exec {sys : Sys} {s : State} {rd rn rm : Reg} (hb : s.reg rm ≠ 0) :
    (Inst.udiv rd rn rm).exec sys s = some (s.set rd (s.reg rn / s.reg rm)) := by
  rw [Inst.exec, if_neg]
  rw [Bool.and_eq_true, beq_iff_eq]
  exact fun h => hb h.2

theorem run_divBody {sys : Sys} {s : State} {q rt : Reg} (isDiv : Bool) (hsp : q ≠ sp)
    (hip : q ≠ ip)
    (hrt : rt ≠ ip) (hb : s.reg rt ≠ 0) :
    Runs sys (divBody isDiv q rt) s fun t => t.reg q = divVal isDiv (s.reg q) (s.reg rt) ∧
      ∀ p, p ≠ q → p ≠ ip → t.reg p = s.reg p := by
  cases isDiv with
  | true => exact .set (udiv_exec hb) hsp fun t w => .nil ⟨w.dest, fun p hp _ => w.rest p hp⟩
  | false =>
    refine .set (udiv_exec hb) (by decide) fun t w1 => .set rfl hsp fun u w2 => .nil ⟨?_, ?_⟩
    · rw [w2.dest, w1.dest, w1.rest q hip, w1.rest rt hrt]
      rfl
    · exact fun p hp hp' => (w2.rest p hp).trans (w1.rest p hp')

section
variable {x : Ebpf.State} {d r : BitVec 4} (hd : d.toNat < 11) (hr : r.toNat < 11) (form : Form)
  (imm : Word)
include hd hr

omit hd hr in
theorem idle_fetchDivisor :
    idleLine (fetchHalf d false tmp2Lo ++ fetchDivisor form r imm) = true := by
  rw [idleLine_append, idle_fetchHalf _ _ (by decide), Bool.true_and]
  cases form with
  | imm => exact idle_movConst (by decide) _
  | reg => exact idle_fetchHalf _ _ (by decide)

/-- The dividend and the divisor are loaded. -/
theorem Mirrors.dividend {top : Word} {s : State} (hM : Mirrors top x s) (sys : Sys) :
    Runs sys (Jit.fetchHalf d false tmp2Lo ++ fetchDivisor form r imm) s fun t =>
      t.reg (halfReg d false tmp2Lo) = low (x.reg d) ∧
        t.reg (divisorReg form r) = divisor form (x.reg r) imm ∧
        (onStack d = false → t.reg (heldHi d) = s.reg (heldHi d)) := by
  refine (hM.fetchHalf sys hd false (by decide)).append fun t ht => ?_
  obtain ⟨hMt, hval, -, hrest⟩ := ht
  have hapart := held_apart d hd
  have hne : halfReg d false tmp2Lo ≠ tmp2Hi := by
    rw [halfReg]
    split
    · decide
    · exact (hapart _ (by simp [heldReg])).2.1
  have hhi : t.reg (heldHi d) = s.reg (heldHi d) := hrest _ (hapart _ (by simp)).1
  have hkeep : ∀ u : State, (∀ q, q ≠ tmp2Hi → u.reg q = t.reg q) →
      u.reg (halfReg d false tmp2Lo) = low (x.reg d) ∧ u.reg (heldHi d) = s.reg (heldHi d) :=
    fun u hu => ⟨(hu _ hne).trans hval, (hu _ (hapart _ (by simp)).2.1).trans hhi⟩
  cases form with
  | imm =>
    obtain ⟨u, hu, hv, -, hq⟩ := runs_movConst (q := tmp2Hi) (by decide) (divisor .imm 0 imm) sys t
    obtain ⟨h1, h2⟩ := hkeep u hq
    exact ⟨u, hu, h1, hv, fun _ => h2⟩
  | reg =>
    obtain ⟨u, hu, -, hv, -, hq⟩ := hMt.fetchHalf sys hr false (q := tmp2Hi) (by decide)
    obtain ⟨h1, h2⟩ := hkeep u hq
    exact ⟨u, hu, h1, hv, fun _ => h2⟩

theorem effect_divMod (isDiv : Bool) (hb : divisor form (x.reg r) imm ≠ 0) :
    ∀ sys top s, Mirrors top x s → ∃ t,
      runCode sys (emitU32DivMod (rowOf d) (rowOf r) isDiv form (imm.setWidth 16)) s =
        some (t, false) ∧
      Mirrors top (x.set d (pair (high (x.reg d))
        (divVal isDiv (low (x.reg d)) (divisor form (x.reg r) imm)))) t := by
  obtain ⟨hsp, hip, -, hhi, htame⟩ := half_apart d hd tmp2Lo (by simp)
  refine effect_lowHalf hd (disassemble_divMod hd hr isDiv form imm) ?_ fun sys top s hM => ?_
  · rw [tameLine_append, tameLine_of_idle (idle_fetchDivisor form imm), Bool.true_and]
    cases isDiv <;> simp only [divBody, tameLine, List.all_cons, List.all_nil, Inst.quiet,
      Inst.dests,
      htame, Bool.and_self, if_true, if_false, Bool.false_eq_true]; rfl
  · refine (hM.dividend hd hr form imm sys).append fun t ht => ?_
    obtain ⟨h1, h2, h3⟩ := ht
    have hrt : divisorReg form r ≠ ip := by
      cases form with
      | imm => exact (by decide : tmp2Hi ≠ ip)
      | reg => exact (half_apart r hr tmp2Hi (by simp)).2.1
    refine (run_divBody isDiv hsp hip hrt (by rwa [h2])).mono fun u hu => ⟨by rw [hu.1, h1, h2], ?_⟩
    intro hs
    rw [hu.2 _ (Ne.symm (hhi hs)) ?_, h3 hs]
    exact ((operands hd hd .reg).plain _ (by simp)).2.1

/-- A division by 0 may be a fault. -/
theorem divMod_traps (isDiv : Bool) (hb : divisor form (x.reg r) imm = 0) {top : Word} {s : State}
    (hM : Mirrors top x s) :
    runCode ⟨fun _ => true, true⟩
      (emitU32DivMod (rowOf d) (rowOf r) isDiv form (imm.setWidth 16)) s = none := by
  obtain ⟨t, ht, -, h2, -⟩ := hM.dividend hd hr form imm ⟨fun _ => true, true⟩
  have htrap : ∀ rd rn, (Inst.udiv rd rn (divisorReg form r)).exec ⟨fun _ => true,
      true⟩ t = none := by
    intro rd rn
    rw [Inst.exec, if_pos]
    rw [h2, hb]
    rfl
  rw [runCode_eq (disassemble_divMod hd hr isDiv form imm), List.append_assoc, runLine_seq ht]
  cases isDiv <;>
  · rw [divBody]
    simp only [if_true, if_false, Bool.false_eq_true, List.cons_append]
    rw [runLine_cons (by rintro _ _ ⟨⟩), htrap]
    rfl

end

/-- The value of a division by a number that is not 0. -/
theorem alu32_divMod {form : Form} {a w : BitVec 64} {imm : Word}
    (h0 : low (operandVal form w imm) ≠ 0) (H : Ebpf.Host) (isDiv : Bool) :
    Ebpf.alu32 H (if isDiv then .div else .mod) form a w imm =
      .val (Ebpf.zext (if isDiv then low a / low (operandVal form w imm)
        else low a % low (operandVal form w imm))) := by
  rw [low_operandVal] at h0 ⊢
  cases form with
  | imm =>
    cases isDiv <;> exact if_neg h0
  | reg =>
    have hw : w ≠ 0 := fun h => h0 (by rw [h]; rfl)
    cases isDiv <;> exact (if_neg hw).trans (if_neg h0)

theorem divMod_agrees_iff {inst : EbpfInst} {form : Form} {x : Ebpf.State} {b n : Word}
    (isDiv : Bool)
    (hop : Op.ofCode inst.opcode = some (.alu32 (if isDiv then .div else .mod) form))
    (hd : inst.dst.toNat < 11) (hr : inst.src.toNat < 11)
    (hb : divisor form (x.reg inst.src) inst.imm = b)
    (hn : low (operandVal form (x.reg inst.src) inst.imm) = n) (h0 : n ≠ 0) :
    Agrees inst x ↔ high (x.reg inst.dst) = 0 ∧ b ≠ 0 ∧
      divVal isDiv (low (x.reg inst.dst)) b =
        if isDiv then low (x.reg inst.dst) / n else low (x.reg inst.dst) % n := by
  subst hb hn
  have hbuild : (buildAlu32 (if isDiv then .div else .mod) form (rowOf inst.dst) (rowOf inst.src)
      inst.imm).1 = emitU32DivMod (rowOf inst.dst) (rowOf inst.src) isDiv form
        (inst.imm.setWidth 16) := by
    cases isDiv <;> rfl
  have hv := fun H => @alu32_divMod form (x.reg inst.dst) (x.reg inst.src) inst.imm h0 H isDiv
  by_cases hb : divisor form (x.reg inst.src) inst.imm = 0
  · refine iff_of_false ?_ fun h => h.2.1 hb
    refine disagrees_of_none hop hd hr hv ⟨fun _ => true, true⟩ fun top s hM => ?_
    rw [hbuild, divMod_traps hd hr form inst.imm isDiv hb hM]
  · rw [agrees_low_iff hop hd hr hv (hbuild ▸ effect_divMod hd hr form inst.imm isDiv hb)]
    exact and_congr_right fun _ => (and_iff_right hb).symm

/-- The 16 low bits are all of the operand, or less than half of it. -/
theorem divisor_cases (form : Form) (w : BitVec 64) (imm : Word) :
    divisor form w imm = low (operandVal form w imm) ∨
      2 * (divisor form w imm).toNat < (low (operandVal form w imm)).toNat := by
  rw [low_operandVal]
  cases form with
  | reg => exact .inl rfl
  | imm =>
    have h : (divisor .imm w imm).toNat = imm.toNat % 2 ^ 16 := by
      rw [divisor, BitVec.toNat_setWidth_of_le (by decide), BitVec.toNat_setWidth]
    rw [← BitVec.toNat_inj]
    dsimp only
    omega

theorem div_eq_iff {a b n : Word} (hb : b ≠ 0) (hbn : b = n ∨ 2 * b.toNat < n.toNat) :
    a / b = a / n ↔ b = n ∨ a.toNat < b.toNat := by
  rcases hbn with rfl | hbn
  · exact iff_of_true rfl (.inl rfl)
  have hpos : 0 < b.toNat := Nat.pos_of_ne_zero fun h => hb (BitVec.eq_of_toNat_eq h)
  have hne : b ≠ n := fun h => by rw [h] at hbn; omega
  rw [← BitVec.toNat_inj, BitVec.toNat_udiv, BitVec.toNat_udiv, or_iff_right hne]
  constructor
  · intro h
    by_contra hle
    -- the quotient by `b` is at least twice the one by `n`, and not 0
    have h1 : 0 < a.toNat / b.toNat := Nat.div_pos (by omega) hpos
    have h2 : 2 * (a.toNat / n.toNat) ≤ a.toNat / b.toNat := by
      rw [Nat.le_div_iff_mul_le hpos]
      calc 2 * (a.toNat / n.toNat) * b.toNat = a.toNat / n.toNat * (2 * b.toNat) := by
            rw [Nat.mul_comm 2, Nat.mul_assoc]
        _ ≤ a.toNat / n.toNat * n.toNat := Nat.mul_le_mul_left _ (by omega)
        _ ≤ a.toNat := Nat.div_mul_le_self _ _
    omega
  · intro h
    rw [Nat.div_eq_of_lt h, Nat.div_eq_of_lt (by omega)]

theorem mod_eq_iff (a b n : Word) : a / b - a * b = a % n ↔ a / b + a / n * n = a * (b + 1) := by
  have hmod : a % n + a / n * n = a := by
    rw [← BitVec.toNat_inj, BitVec.toNat_add, BitVec.toNat_mul, BitVec.toNat_udiv,
      BitVec.toNat_umod,
      Nat.add_mod_mod, Nat.mod_add_div', Nat.mod_eq_of_lt a.isLt]
  have hprod : a * (b + 1) = a * b + a % n + a / n * n := by
    rw [BitVec.add_assoc, hmod, BitVec.mul_add]
    exact congrArg (a * b + ·) (BitVec.mul_one a)
  rw [hprod, BitVec.add_left_inj, BitVec.sub_eq_iff_eq_add, BitVec.add_comm]

/-! ## Moves -/

theorem disassemble_mov32 {d r : BitVec 4} (hd : d.toNat < 11) (hr : r.toNat < 11) :
    disassemble (emitA32MovReg (rowOf r).lo (rowOf d).lo) =
      some (fetchHalf r false tmpHi ++ putHalf d false (halfReg r false tmpHi)) := by
  obtain ⟨hreg, hget⟩ := disassemble_getLow hr (q := tmpHi) (by simp)
  have hput := disassemble_putLow hd hr (q := tmpHi) (by simp)
  rw [← hreg] at hput
  exact disassemble_seq hget hput

theorem effect_mov32 {x : Ebpf.State} {d r : BitVec 4} (hd : d.toNat < 11) (hr : r.toNat < 11) :
    ∀ sys top s, Mirrors top x s → ∃ t,
      runCode sys (emitA32MovReg (rowOf r).lo (rowOf d).lo) s = some (t, false) ∧
        Mirrors top (x.set d (pair (high (x.reg d)) (low (x.reg r)))) t := by
  refine effect_lowHalf hd (disassemble_mov32 hd hr)
    (tameLine_of_idle (idle_fetchHalf _ _ (by decide)) _) fun sys top s hM => ?_
  refine (hM.fetchHalf sys hr false (by decide)).mono fun t ht => ⟨ht.2.1, fun hs => ?_⟩
  exact ht.2.2.2 _ ((held_apart d hd _ (by simp)).2.2 hs).2

/-- A row in machine registers. -/
theorem row_registers : ∀ d : BitVec 4, d.toNat < 11 → onStack d = false → ∀ hi : Bool,
    (if hi then (rowOf d).hi else (rowOf d).lo) = (heldReg d hi).toNat ∧
      special (heldReg d hi) = false ∧ heldReg d hi ≠ sp := by decide

theorem tame_movConst (d : BitVec 4) (hi : Bool) (v : Word) :
    tameLine d ((movConst (heldReg d hi) v).map .base) = true := by
  have h : heldReg d hi ∈ tameRegs d := by cases hi <;> simp [heldReg, tameRegs]
  refine tameLine_of_dests ?_
  unfold movConst
  split_ifs <;> simp [Inst.quiet, Instr.quiet, Inst.dests, Instr.dests, h]

/-- A constant is moved to one half of a row in machine registers. -/
theorem effect_movImm {x : Ebpf.State} {d : BitVec 4} (hd : d.toNat < 11) (hs : onStack d = false)
    (hi : Bool) (v : Word) :
    ∀ sys top s, Mirrors top x s → ∃ t,
      runCode sys (emitMovImm (if hi then (rowOf d).hi else (rowOf d).lo) v) s = some (t, false) ∧
        Mirrors top (x.set d (withHalf (x.reg d) hi v)) t := by
  intro sys top s hM
  obtain ⟨hrow, hspecial, hsp⟩ := row_registers d hd hs hi
  obtain ⟨t, hrun, hv, -, hrest⟩ := runs_movConst hsp v sys s
  have htame := tame_movConst d hi v
  refine ⟨t, by rw [hrow, runCode_eq (disassemble_emitMovImm hspecial v), hrun], ?_⟩
  have hMt := hM.tame hd htame hrun
  rw [hs, if_neg Bool.false_ne_true] at hMt
  have hval : heldVal t d = withHalf (x.reg d) hi v := by
    obtain ⟨hlo, hhi⟩ := halves_of_pair (hM.held hd hs)
    have hne := (operands hd hd .reg).halves
    cases hi with
    | true => rw [heldVal, withHalf, if_pos rfl, ← hlo, ← hrest _ hne]; exact congrArg (pair · _) hv
    | false =>
      rw [heldVal, withHalf, if_neg Bool.false_ne_true, ← hhi, ← hrest _ (Ne.symm hne)]
      exact congrArg (pair _) hv
  exact hval ▸ hMt

/-! ## Moves of a constant to the stack -/

/-- The number of a register has two bits too many. -/
theorem movHalf_call {rd : BitVec 8} (h6 : rd.getLsbD 6 = true) (h7 : rd.getLsbD 7 = true)
    (v : BitVec 16) :
    let w := movHalf 0xf2400000 rd v
    (w.extractLsb' 16 16).extractLsb' 11 5 = 0b11110 ∧
      (w.extractLsb' 0 16).extractLsb' 14 2 = 0b11 := by
  simp only [movHalf]
  refine ⟨?_, ?_⟩ <;>
  · apply BitVec.eq_of_getLsbD_eq
    intro i hi
    interval_cases i <;> simp [h6, h7]

/-- A word that is taken for a call, or is undefined. -/
theorem runCode_call {w : BitVec 32} (h1 : (w.extractLsb' 16 16).extractLsb' 11 5 = 0b11110)
    (h2 : (w.extractLsb' 0 16).extractLsb' 14 2 = 0b11) (c : Code) (sys : Sys) (s : State) :
    runCode sys (emit4 w ++ c) s = none := by
  have hw := isWide_of_extract h1 (by decide)
  rw [runCode, emit4, List.cons_append, List.cons_append, disassemble, if_pos hw]
  generalize w.extractLsb' 16 16 = a at *
  generalize w.extractLsb' 0 16 = b at *
  have h9 : a.extractLsb' 9 7 ≠ 0b1110101 := fun e => by
    have := getLsbD_of_extract e (k := 3) (by decide)
    have := getLsbD_of_extract h1 (k := 1) (by decide)
    simp_all
  have h15 : b.getLsbD 15 = true := getLsbD_of_extract h2 (k := 1) (by decide)
  have hdec : decode32 a b = none := by
    rw [decode32, if_neg h9, if_pos h1, if_neg (by rw [h2]; decide), if_pos h15]
  rw [decodeWide, hdec]
  simp only [if_neg h9, if_pos h1, if_pos h2, only]
  split
  · rfl
  · cases disassemble ([] ++ c) <;> rfl

theorem stacked_offsets : ∀ d : BitVec 4, d.toNat < 11 → onStack d = true → ∀ hi : Bool,
    let rd := BitVec.ofInt 8 (if hi then (rowOf d).hi else (rowOf d).lo)
    rd.getLsbD 6 = true ∧ rd.getLsbD 7 = true ∧ 8 ≤ rd.toNat := by decide

/-- The offset of a row on the stack is no register. -/
theorem movImm_stacked {d : BitVec 4} (hd : d.toNat < 11) (hs : onStack d = true) (hi : Bool)
    (v : Word)
    (sys : Sys) (s : State) :
    runCode sys (emitMovImm (if hi then (rowOf d).hi else (rowOf d).lo) v) s = none := by
  obtain ⟨h6, h7, h8⟩ := stacked_offsets d hd hs hi
  obtain ⟨h1, h2⟩ := movHalf_call h6 h7 (v.setWidth 16)
  rw [emitMovImm, if_neg (by omega)]
  exact runCode_call h1 h2 _ sys s

section
variable {inst : EbpfInst} {x : Ebpf.State} (hd : inst.dst.toNat < 11) (hr : inst.src.toNat < 11)
include hd hr

theorem movImm32_agrees_iff (hop : Op.ofCode inst.opcode = some (.alu32 .mov .imm)) :
    Agrees inst x ↔ onStack inst.dst = false ∧ high (x.reg inst.dst) = 0 := by
  cases hs : onStack inst.dst with
  | true =>
    refine iff_of_false ?_ (by rintro ⟨⟨⟩, -⟩)
    exact disagrees_of_none hop hd hr (fun H => rfl) ⟨fun _ => true, false⟩ fun top s _ =>
      movImm_stacked hd hs false inst.imm _ s
  | false =>
    rw [agrees_low_iff hop hd hr (fun H => rfl) (effect_movImm hd hs false inst.imm)]
    simp

/-- With an immediate of 1 the code clears the high half, and moves nothing. -/
theorem movReg32_agrees_iff (hop : Op.ofCode inst.opcode = some (.alu32 .mov .reg)) :
    Agrees inst x ↔ if inst.imm = 1 then
        onStack inst.dst = false ∧ low (x.reg inst.dst) = low (x.reg inst.src)
      else high (x.reg inst.dst) = 0 := by
  have hv : ∀ H, Ebpf.alu32 H .mov .reg (x.reg inst.dst) (x.reg inst.src) inst.imm =
      .val (Ebpf.zext (low (x.reg inst.src))) := fun H => rfl
  by_cases h1 : inst.imm = 1
  · have hbuild : (buildAlu32 .mov .reg (rowOf inst.dst) (rowOf inst.src) inst.imm).1 =
        emitMovImm (rowOf inst.dst).hi 0 := if_pos h1
    rw [if_pos h1]
    cases hs : onStack inst.dst with
    | true =>
      refine iff_of_false ?_ (by rintro ⟨⟨⟩, -⟩)
      refine disagrees_of_none hop hd hr hv ⟨fun _ => true, false⟩ fun top s _ => ?_
      rw [hbuild]
      exact movImm_stacked hd hs true 0 _ s
    | false =>
      have heff := @effect_movImm x _ hd hs true 0
      rw [if_pos rfl] at heff
      rw [agrees_alu32_iff hop hd hr hv, hbuild, effect_set_iff hd heff, withHalf, if_pos rfl,
        pair_eq_zext_iff]
      simp
  · have hbuild : (buildAlu32 .mov .reg (rowOf inst.dst) (rowOf inst.src) inst.imm).1 =
        emitA32MovReg (rowOf inst.src).lo (rowOf inst.dst).lo := if_neg h1
    rw [if_neg h1]
    exact (agrees_low_iff hop hd hr hv (hbuild ▸ effect_mov32 hd hr)).trans (and_iff_left rfl)

end

/-! ## All 32-bit operations -/

/-- `and` is left out: the interpreter's is a logical one. -/
def isWord32 : Op → Bool
  | .alu32 .and _ => false
  | .alu32 _ _ | .neg32 => true
  | _ => false

/-- Shifts by less than 32, and divisors that are not 0. -/
def word32Defined (inst : EbpfInst) (x : Ebpf.State) : Op → Prop
  | .alu32 op form =>
    let w := operandVal form (x.reg inst.src) inst.imm
    (op ∈ [.lsh, .rsh, .arsh] → shiftAmount op w < 32) ∧ (op ∈ [.div, .mod] → low w ≠ 0)
  | _ => True

/-- Where the code of a 32-bit operation is right. -/
def word32Right (inst : EbpfInst) (x : Ebpf.State) : Op → Prop
  | .alu32 .mov .imm => onStack inst.dst = false ∧ high (x.reg inst.dst) = 0
  | .alu32 .mov .reg =>
    if inst.imm = 1 then onStack inst.dst = false ∧ low (x.reg inst.dst) = low (x.reg inst.src)
    else high (x.reg inst.dst) = 0
  | .alu32 .or .reg =>
    high (x.reg inst.dst) = 0 ∧ (onStack inst.src = true ∨ orKeepsLow x inst.dst inst.src)
  | .alu32 .xor form =>
    high (x.reg inst.dst) = 0 ∧ form = .reg ∧ inst.dst ≠ 0 ∧ (inst.src = 1 ∨ inst.src = 6)
  | .alu32 .div form =>
    let b := divisor form (x.reg inst.src) inst.imm
    high (x.reg inst.dst) = 0 ∧ b ≠ 0 ∧
      (b = low (operandVal form (x.reg inst.src) inst.imm) ∨ (low (x.reg inst.dst)).toNat < b.toNat)
  | .alu32 .mod form =>
    let a := low (x.reg inst.dst)
    let b := divisor form (x.reg inst.src) inst.imm
    let n := low (operandVal form (x.reg inst.src) inst.imm)
    high (x.reg inst.dst) = 0 ∧ b ≠ 0 ∧ a / b + a / n * n = a * (b + 1)
  | _ => high (x.reg inst.dst) = 0

/-- **32-bit operations.** -/
theorem word32_agrees_iff (inst : EbpfInst) (op : Op) (hop : Op.ofCode inst.opcode = some op)
    (hword : isWord32 op = true) (hd : inst.dst.toNat < 11) (hr : inst.src.toNat < 11)
    (x : Ebpf.State) (hdef : word32Defined inst x op) : Agrees inst x ↔ word32Right inst x op := by
  match op, hword with
  | .neg32, _ => exact neg32_agrees_iff hop hd
  | .alu32 .add form, _ | .alu32 .sub form, _ | .alu32 .mul form, _ =>
    exact arith32_agrees_iff hd hr hop (by simp)
  | .alu32 .mov .imm, _ => exact movImm32_agrees_iff hd hr hop
  | .alu32 .mov .reg, _ => exact movReg32_agrees_iff hd hr hop
  | .alu32 .or .imm, _ => exact or32_agrees_iff hd hr hop (.inl rfl)
  | .alu32 .or .reg, _ =>
    cases hs : onStack inst.src with
    | true => simp only [word32Right, hs, true_or, and_true, or32_agrees_iff hd hr hop (.inr hs)]
    | false =>
      simp only [word32Right, hs, Bool.false_eq_true, false_or, or32_narrow_iff hd hr hop hs]
  | .alu32 .xor form, _ =>
    by_cases h : form = .reg ∧ inst.dst ≠ 0 ∧ (inst.src = 1 ∨ inst.src = 6)
    · have hiff : word32Right inst x (.alu32 .xor form) ↔ high (x.reg inst.dst) = 0 :=
        and_iff_left h
      rw [hiff]
      obtain ⟨rfl, h0, h16⟩ := h
      exact xor32_agrees_iff hd hr hop h0 h16
    · exact iff_of_false (xor32_disagrees hd hr hop h) fun h' => h h'.2
  | .alu32 .lsh .imm, _ | .alu32 .rsh .imm, _ | .alu32 .arsh .imm, _ =>
    exact shiftConst32_agrees_iff hop (by simp) hd hr (hdef.1 (by simp))
  | .alu32 .lsh .reg, _ | .alu32 .rsh .reg, _ | .alu32 .arsh .reg, _ =>
    exact shift32_agrees_iff hd hr hop (by simp) (hdef.1 (by simp))
  | .alu32 .div form, _ =>
    have h0 := hdef.2 (by simp)
    rw [divMod_agrees_iff true hop hd hr rfl rfl h0]
    exact and_congr_right fun _ => and_congr_right fun hb =>
      div_eq_iff hb (divisor_cases form (x.reg inst.src) inst.imm)
  | .alu32 .mod form, _ =>
    have h0 := hdef.2 (by simp)
    rw [divMod_agrees_iff false hop hd hr rfl rfl h0]
    exact and_congr_right fun _ => and_congr_right fun hb => mod_eq_iff _ _ _

/-- `r1 += 9` in 32 bits, for `r1 = 7`. -/
theorem word32_agrees_add :
    Agrees { opcode := 0x04, dst := 1, src := 0, offset := 0, imm := 9 } (mixedState.set 1 7) :=
  (word32_agrees_iff _ (.alu32 .add .imm) (by decide) rfl (by decide) (by decide) _
    ⟨by simp, by simp⟩).2 (by decide : high 7 = 0)

/-- `r1 += 0` in 32 bits, for `r1 = 2 ^ 32`: the interpreter clears the high half. -/
theorem high_half_disagrees :
    ¬ Agrees { opcode := 0x04, dst := 1, src := 0, offset := 0, imm := 0 }
      { pc := 1, reg := fun _ => 0x100000000, mem := fun _ => 0 } :=
  fun h => absurd ((@arith32_agrees_iff _ .add .imm _ (by decide) (by decide) (by decide)
    (by simp)).1 h) (by decide)

end BlueSwat.Jit
