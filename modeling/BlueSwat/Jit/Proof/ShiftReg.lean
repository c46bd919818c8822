import BlueSwat.Jit.Proof.Shift

/-!
# 64-bit shifts to the left, and by a register

`shift64_agrees_iff` has the amounts for which the code is right. A shift to the left by a constant
below 32 takes the two low bits of the amount for the type of the shift. The shifts by a register
put the halves together from shifts by `n`, `n - 32` and `32 - n`, and take one for the other.
-/

set_option autoImplicit false

namespace BlueSwat.Jit

open Thumb Bytes
open Ebpf (EbpfInst Op Form)

/-! ## Bodies -/

def lshRegBody (lo hi rt : Reg) : List Inst :=
  [.base (.subImm ip rt 32), .shiftReg false 0 tmp2Hi hi rt, .shiftReg false 0 ip lo ip,
    .data .orr false ip tmp2Hi ip (.lsl 0), .rsb false tmp2Hi rt 32,
    .shiftReg false 0 tmp2Hi lo tmp2Hi, .data .orr false ip tmp2Hi ip (.lsl 0),
    .shiftReg false 0 tmp2Hi lo rt]

/-- The shifts to the right start with the amounts of the partial shifts. -/
def rshStart (lo rt : Reg) : List Inst :=
  [.rsb true ip rt 32, .base (.subImm tmp2Hi rt 32), .shiftReg true 1 lr lo rt]

def rshRegBody (lo hi rt : Reg) : List Inst :=
  rshStart lo rt ++
    [.shiftReg true 0 hi hi ip, .data .orr true lr lr hi (.lsl 0), .shiftReg true 1 hi hi tmp2Hi,
      .data .orr true lr lr hi (.lsl 0), .shiftReg true 1 ip hi rt]

def arshRegBody (lo hi rt : Reg) : List Inst :=
  rshStart lo rt ++
    [.shiftReg false 0 hi hi tmp2Hi, .data .orr true lr lr hi (.lsl 0),
      .shiftReg false 2 hi hi tmp2Hi, .held condPl (.data .orr true lr lr hi (.lsl 0)),
      .shiftReg true 2 ip hi rt]

/-- The code of a shift by a register: the amount is in `rt`, and the halves of the result in `a`
and `b`. -/
def shiftRegLine (body : Reg → Reg → Reg → List Inst) (d r : BitVec 4) (a b : Reg) : List Inst :=
  fetchHalf r false tmp2Lo ++ fetchDst d ++
    body (heldLo d) (heldHi d) (halfReg r false tmp2Lo) ++ (putHalf d false a ++ putHalf d true b)

/-! ## Their code -/

def emitLshParts (rd : Row) (rt : Int) : Code :=
  emit4 (0xf1a00000 ||| bits rt <<< 16 ||| bits armIp <<< 8 ||| 32) ++
    emit4 (thumb32LslwRegT2 tmp2.hi rd.hi rt flagNos) ++
    emit4 (thumb32LslwRegT2 armIp rd.lo armIp flagNos) ++
    emit4 (thumb32OrrwRegT2 armIp tmp2.hi armIp 0 srtypeLsl flagNos) ++
    emit4 (0xf1c00000 ||| bits rt <<< 16 ||| bits tmp2.hi <<< 8 ||| 32) ++
    emit4 (thumb32LslwRegT2 tmp2.hi rd.lo tmp2.hi flagNos) ++
    emit4 (thumb32OrrwRegT2 armIp tmp2.hi armIp 0 srtypeLsl flagNos) ++
    emit4 (thumb32LslwRegT2 tmp2.hi rd.lo rt flagNos)

def emitRshStart (rd : Row) (rt : Int) : Code :=
  emit4 (thumb32RsbwImmT2 armIp rt 32 flagS) ++ emit4 (thumb32SubwImmT4 tmp2.hi rt 32) ++
    emit4 (thumb32LsrwRegT2 armLr rd.lo rt flagS)

def emitRshParts (rd : Row) (rt : Int) : Code :=
  emitRshStart rd rt ++
    (emit4 (thumb32LslwRegT2 rd.hi rd.hi armIp flagS) ++
    emit4 (thumb32OrrwRegT2 armLr armLr rd.hi 0 srtypeLsl flagS) ++
    emit4 (thumb32LsrwRegT2 rd.hi rd.hi tmp2.hi flagS) ++
    emit4 (thumb32OrrwRegT2 armLr armLr rd.hi 0 srtypeLsl flagS) ++
    emit4 (thumb32LsrwRegT2 armIp rd.hi rt flagS))

def emitArshParts (rd : Row) (rt : Int) : Code :=
  emitRshStart rd rt ++
    (emit4 (thumb32LslwRegT2 rd.hi rd.hi tmp2.hi flagNos) ++
    emit4 (thumb32OrrwRegT2 armLr armLr rd.hi 0 srtypeLsl flagS) ++
    emit4 (thumb32AsrwRegT2 rd.hi rd.hi tmp2.hi flagNos) ++
    emit2 (thumb16ItT1 condPl 0b1000) ++
    emit4 (thumb32OrrwRegT2 armLr armLr rd.hi 0 srtypeLsl flagS) ++
    emit4 (thumb32AsrwRegT2 armIp rd.hi rt flagS))

/-- The amount and the value are loaded, and the halves are put in their places at the end. -/
def ShiftsBy (emitter : Row → Row → Code) (parts : Row → Int → Code) (a b : Reg) : Prop :=
  ∀ dst src, emitter dst src = (armBpfGetReg32 src.lo tmp2Lo.toNat).1 ++
    ((armBpfGetReg64 dst tmp).1 ++
    (parts (armBpfGetReg64 dst tmp).2 (armBpfGetReg32 src.lo tmp2Lo.toNat).2 ++
      (armBpfPutReg32 dst.lo a.toNat ++ armBpfPutReg32 dst.hi b.toNat)))

theorem ShiftsBy.disassemble {emitter : Row → Row → Code} {parts : Row → Int → Code} {a b : Reg}
    (hE : ShiftsBy emitter parts a b) {body : Reg → Reg → Reg → List Inst}
    (hparts : ∀ p ∈ dstPairs, ∀ q ∈ srcPairs,
      disassemble (parts (regRow p.lo p.hi) q.lo.toNat) = some (body p.lo p.hi q.lo))
    (ha : a ∈ [tmp2Hi, ip, lr]) (hb : b ∈ [tmp2Hi, ip, lr]) {d r : BitVec 4} (hd : d.toNat < 11)
    (hr : r.toNat < 11) :
    Thumb.disassemble (emitter (rowOf d) (rowOf r)) = some (shiftRegLine body d r a b) := by
  obtain ⟨hrt, hamt⟩ := disassemble_getHalf r hr false tmp2Lo (by simp)
  obtain ⟨hrd, hval, -⟩ := disassemble_getDst d hd
  have hsub : [tmp2Hi, ip, lr] ⊆ [0, 2, 4, tmpHi, tmp2Lo, tmp2Hi, ip, lr] := by decide
  have hlo := disassemble_putHalf d hd false a (hsub ha)
  have hhi := disassemble_putHalf d hd true b (hsub hb)
  have hbody := hparts _ (dstPair_mem d hd) _ (srcPair_mem hr .reg)
  rw [srcLo_eq] at hbody
  change (armBpfGetReg32 (rowOf r).lo tmp2Lo.toNat).2 = _ at hrt
  have hall := disassemble_seq hamt (disassemble_seq hval
    (disassemble_seq hbody (disassemble_seq hlo hhi)))
  rw [hE, hrd, hrt, shiftRegLine, List.append_assoc, List.append_assoc]
  exact hall

theorem shiftsBy_lsh : ShiftsBy emitLsh64Reg emitLshParts tmp2Hi ip := fun _ _ => by
  simp only [emitLsh64Reg, emitLshParts, List.append_assoc]
  rfl

theorem disassemble_lshReg {d r : BitVec 4} (hd : d.toNat < 11) (hr : r.toNat < 11) :
    disassemble (emitLsh64Reg (rowOf d) (rowOf r)) = some (shiftRegLine lshRegBody d r tmp2Hi ip) :=
  shiftsBy_lsh.disassemble (by decide) (by decide) (by decide) hd hr

theorem shiftsBy_rsh : ShiftsBy emitA32RshR64 emitRshParts lr ip := fun _ _ => by
  simp only [emitA32RshR64, emitRshParts, emitRshStart, List.append_assoc]
  rfl

theorem disassemble_rshReg {d r : BitVec 4} (hd : d.toNat < 11) (hr : r.toNat < 11) :
    disassemble (emitA32RshR64 (rowOf d) (rowOf r)) = some (shiftRegLine rshRegBody d r lr ip) :=
  shiftsBy_rsh.disassemble (by decide) (by decide) (by decide) hd hr

theorem shiftsBy_arsh : ShiftsBy emitA32ArshR64 emitArshParts lr ip := fun _ _ => by
  simp only [emitA32ArshR64, emitArshParts, emitRshStart, List.append_assoc]
  rfl

theorem disassemble_arshReg {d r : BitVec 4} (hd : d.toNat < 11) (hr : r.toNat < 11) :
    disassemble (emitA32ArshR64 (rowOf d) (rowOf r)) = some (shiftRegLine arshRegBody d r lr ip) :=
  shiftsBy_arsh.disassemble (by decide) (by decide) (by decide) hd hr

/-! ## What they compute -/

/-- A shift by a register looks at the low byte of it. -/
def amount (w : Word) : Nat := (w.extractLsb' 0 8).toNat

def lshWords (lo hi w : Word) : BitVec 64 :=
  pair (lo <<< amount (32 - w) ||| (hi <<< amount w ||| lo <<< amount (w - 32))) (lo <<< amount w)

def rshWords (lo hi w : Word) : BitVec 64 :=
  let hi1 := hi <<< amount (32 - w)
  let hi2 := hi1 >>> amount (w - 32)
  pair (hi2 >>> amount w) (lo >>> amount w ||| hi1 ||| hi2)

def arshWords (lo hi w : Word) : BitVec 64 :=
  let hi1 := hi <<< amount (w - 32)
  let lo1 := lo >>> amount w ||| hi1
  let hi2 := hi1.sshiftRight (amount (w - 32))
  pair (hi2.sshiftRight (amount w)) (if lo1.msb then lo1 else lo1 ||| hi2)

/-- The registers that the bodies write; those to the right write the high half, too. -/
def shiftTemps : List Reg := [ip, tmp2Hi, lr]

structure ShiftRegs (lo hi rt : Reg) : Prop where
  lo : lo ∉ hi :: shiftTemps
  rt : rt ∉ hi :: shiftTemps
  hi : hi ∉ sp :: shiftTemps

theorem shiftRegs {d r : BitVec 4} (hd : d.toNat < 11) (hr : r.toNat < 11) :
    ShiftRegs (heldLo d) (heldHi d) (halfReg r false tmp2Lo) := by
  have hall : ∀ p ∈ dstPairs, ∀ q ∈ srcPairs, p.lo ∉ p.hi :: shiftTemps ∧
      q.lo ∉ p.hi :: shiftTemps ∧
      p.hi ∉ sp :: shiftTemps := by decide
  obtain ⟨h1, h2, h3⟩ := hall _ (dstPair_mem d hd) _ (srcPair_mem hr .reg)
  exact ⟨h1, srcLo_eq r ▸ h2, h3⟩

section
variable {sys : Sys} {s : State} {lo hi rt : Reg} {v : BitVec 64} {w : Word}
  (hR : ShiftRegs lo hi rt) (hv : pair (s.reg hi) (s.reg lo) = v) (hw : s.reg rt = w)
include hR hv hw

theorem run_lshReg : Runs sys (lshRegBody lo hi rt) s fun t =>
    pair (t.reg ip) (t.reg tmp2Hi) = lshWords (low v) (high v) w := by
  obtain ⟨hlo, hhi⟩ := halves_of_pair hv
  have n1 := List.not_mem_of_not_mem_cons hR.lo
  have n2 := List.not_mem_of_not_mem_cons hR.hi
  have n3 := List.not_mem_of_not_mem_cons hR.rt
  have hip : ip ∈ shiftTemps := by decide
  have htmp : tmp2Hi ∈ shiftTemps := by decide
  have hne : ip ≠ tmp2Hi := by decide
  refine .skip rfl (by decide) fun t1 w1 => ?_
  have k1 := w1.keep shiftTemps hip fun _ _ => rfl
  have e1 : t1.reg ip = w - 32 := by rw [w1.dest, hw]
  refine .put rfl (by decide) fun t2 w2 => ?_
  have k2 := w2.keep shiftTemps htmp k1
  have e2 : t2.reg tmp2Hi = high v <<< amount w := by
    rw [w2.dest, k1 hi n2, k1 rt n3, hhi, hw]
    rfl
  refine .put rfl (by decide) fun t3 w3 => ?_
  have k3 := w3.keep shiftTemps hip k2
  have e3 : t3.reg ip = low v <<< amount (w - 32) := by
    rw [w3.dest, k2 lo n1, w2.rest ip hne, e1, hlo]
    rfl
  refine .put rfl (by decide) fun t4 w4 => ?_
  have k4 := w4.keep shiftTemps hip k3
  have e4 : t4.reg ip = high v <<< amount w ||| low v <<< amount (w - 32) := by
    rw [w4.dest, Shift.apply_lsl_zero, w3.rest tmp2Hi hne.symm, e2, e3]
    rfl
  refine .put rfl (by decide) fun t5 w5 => ?_
  have k5 := w5.keep shiftTemps htmp k4
  have e5 : t5.reg tmp2Hi = 32 - w := by rw [w5.dest, k4 rt n3, hw, addWithCarry_not]
  refine .put rfl (by decide) fun t6 w6 => ?_
  have k6 := w6.keep shiftTemps htmp k5
  have e6 : t6.reg tmp2Hi = low v <<< amount (32 - w) := by
    rw [w6.dest, k5 lo n1, e5, hlo]
    rfl
  refine .put rfl (by decide) fun t7 w7 => ?_
  have k7 := w7.keep shiftTemps hip k6
  refine .put rfl (by decide) fun t8 w8 => .nil ?_
  rw [w8.dest, w8.rest ip hne, w7.dest, Shift.apply_lsl_zero, k7 lo n1, k7 rt n3, e6,
    w6.rest ip hne, w5.rest ip hne, e4, hlo, hw]
  rfl

omit hv hw in
theorem ShiftRegs.hi_ne : hi ≠ sp ∧ hi ≠ ip ∧ hi ≠ tmp2Hi ∧ hi ≠ lr := by
  simpa [shiftTemps] using hR.hi

/-- After the start, the partial amounts and the first part of the low half are there. -/
structure RshStarted (s : State) (lo rt : Reg) (t : State) : Prop where
  below : t.reg ip = 32 - s.reg rt
  above : t.reg tmp2Hi = s.reg rt - 32
  part : t.reg lr = s.reg lo >>> amount (s.reg rt)
  keep : ∀ q, q ∉ shiftTemps → t.reg q = s.reg q

omit hv hw in
theorem run_rshStart : Runs sys (rshStart lo rt) s (RshStarted s lo rt) := by
  have n1 := List.not_mem_of_not_mem_cons hR.lo
  have n3 := List.not_mem_of_not_mem_cons hR.rt
  refine .put rfl (by decide) fun t1 w1 => ?_
  have k1 := w1.keep shiftTemps (by decide) fun _ _ => rfl
  refine .skip rfl (by decide) fun t2 w2 => ?_
  have k2 := w2.keep shiftTemps (by decide) k1
  refine .put rfl (by decide) fun t3 w3 => .nil ⟨?_, ?_, ?_, w3.keep shiftTemps (by decide) k2⟩
  · rw [w3.rest ip (by decide), w2.rest ip (by decide), w1.dest, addWithCarry_not]
  · rw [w3.rest tmp2Hi (by decide), w2.dest, k1 rt n3]
  · rw [w3.dest, k2 lo n1, k2 rt n3]
    rfl

theorem run_rshReg : Runs sys (rshRegBody lo hi rt) s fun t =>
    pair (t.reg ip) (t.reg lr) = rshWords (low v) (high v) w := by
  obtain ⟨hlo, hhi⟩ := halves_of_pair hv
  have n2 := List.not_mem_of_not_mem_cons hR.hi
  obtain ⟨hsp, -, hne2, hne3⟩ := hR.hi_ne
  have hrt : rt ≠ hi ∧ rt ∉ shiftTemps := List.ne_and_not_mem_of_not_mem_cons hR.rt
  refine (run_rshStart hR).append fun t3 h3 => ?_
  refine .put rfl hsp fun t4 w4 => ?_
  have e4 : t4.reg hi = high v <<< amount (32 - w) := by
    rw [w4.dest, h3.keep hi n2, h3.below, hhi, hw]
    rfl
  refine .put rfl (by decide) fun t5 w5 => ?_
  have e5 : t5.reg lr = low v >>> amount w ||| high v <<< amount (32 - w) := by
    rw [w5.dest, Shift.apply_lsl_zero, w4.rest lr hne3.symm, h3.part, e4, hlo, hw]
    rfl
  refine .put rfl hsp fun t6 w6 => ?_
  have e6 : t6.reg hi = high v <<< amount (32 - w) >>> amount (w - 32) := by
    rw [w6.dest, w5.rest hi hne3, e4, w5.rest tmp2Hi (by decide), w4.rest tmp2Hi hne2.symm,
      h3.above,
      hw]
    rfl
  refine .put rfl (by decide) fun t7 w7 => ?_
  refine .put rfl (by decide) fun t8 w8 => .nil ?_
  have ert : t7.reg rt = w := by
    rw [w7.rest rt fun e => hrt.2 (by simp [shiftTemps, e]), w6.rest rt hrt.1,
      w5.rest rt fun e => hrt.2 (by simp [shiftTemps, e]), w4.rest rt hrt.1, h3.keep rt hrt.2, hw]
  rw [w8.dest, w8.rest lr (by decide), w7.dest, Shift.apply_lsl_zero, w7.rest hi hne3, ert,
    w6.rest lr hne3.symm, e5, e6]
  rfl

theorem run_arshReg : Runs sys (arshRegBody lo hi rt) s fun t =>
    pair (t.reg ip) (t.reg lr) = arshWords (low v) (high v) w := by
  obtain ⟨hlo, hhi⟩ := halves_of_pair hv
  have n2 := List.not_mem_of_not_mem_cons hR.hi
  obtain ⟨hsp, -, hne2, hne3⟩ := hR.hi_ne
  have hrt : rt ≠ hi ∧ rt ∉ shiftTemps := List.ne_and_not_mem_of_not_mem_cons hR.rt
  refine (run_rshStart hR).append fun t3 h3 => ?_
  refine .put rfl hsp fun t4 w4 => ?_
  have e4 : t4.reg hi = high v <<< amount (w - 32) := by
    rw [w4.dest, h3.keep hi n2, h3.above, hhi, hw]
    rfl
  refine .put rfl (by decide) fun t5 w5 => ?_
  have e5 : t5.reg lr = low v >>> amount w ||| high v <<< amount (w - 32) := by
    rw [w5.dest, Shift.apply_lsl_zero, w4.rest lr hne3.symm, h3.part, e4, hlo, hw]
    rfl
  refine .put rfl hsp fun t6 w6 => ?_
  have e6 : t6.reg hi = (high v <<< amount (w - 32)).sshiftRight (amount (w - 32)) := by
    rw [w6.dest, w5.rest hi hne3, e4, w5.rest tmp2Hi (by decide), w4.rest tmp2Hi hne2.symm,
      h3.above,
      hw]
    rfl
  -- the flags are still those of the first part of the low half
  have hpl : t6.flags.passes condPl = !(t5.reg lr).msb := by
    rw [w6.flags, w5.flags, w5.dest]
    rfl
  refine .held rfl (writes_put t6 (by decide) true _) fun t7 e7 k7 => ?_
  refine .put rfl (by decide) fun t8 w8 => .nil ?_
  have ert : t7.reg rt = w := by
    rw [k7 rt fun e => hrt.2 (by simp [shiftTemps, e]), w6.rest rt hrt.1,
      w5.rest rt fun e => hrt.2 (by simp [shiftTemps, e]), w4.rest rt hrt.1, h3.keep rt hrt.2, hw]
  rw [w8.dest, w8.rest lr (by decide), k7 hi hne3, ert, e7, hpl, Shift.apply_lsl_zero,
    w6.rest lr hne3.symm, e5, e6, arshWords]
  cases (low v >>> amount w ||| high v <<< amount (w - 32)).msb <;> rfl

end

/-! ## When that is the shift -/

/-- What the interpreter computes, for an amount below 64. -/
def shiftVal (op : Ebpf.AluOp) (v : BitVec 64) (n : Nat) : BitVec 64 :=
  match op with
  | .lsh => v <<< n
  | .rsh => v >>> n
  | .arsh => v.sshiftRight n
  | _ => v

theorem alu64_shift {op : Ebpf.AluOp} {form : Form} (hop : op ∈ [.lsh, .rsh, .arsh]) (H : Ebpf.Host)
    (v b : BitVec 64) (imm : Word) (h : (operandVal form b imm).toNat < 64) :
    Ebpf.alu64 H op form v b imm = .val (shiftVal op v (operandVal form b imm).toNat) := by
  simp only [List.mem_cons, List.not_mem_nil, or_false] at hop
  rcases hop with rfl | rfl | rfl <;> cases form <;> exact congrArg Ebpf.AluRes.val (if_pos h)

section
variable {v : BitVec 64} {w : Word} {n : Nat}

/-- The partial amounts, modulo a byte. -/
theorem amounts (hw : w.toNat = n) (hn : n < 64) : amount w = n ∧
    amount (w - 32) = (n + 224) % 256 ∧ amount (32 - w) = (288 - n) % 256 := by
  have h32 : (32 : Word).toNat = 32 := rfl
  refine ⟨?_, ?_, ?_⟩ <;>
    simp only [amount, BitVec.extractLsb'_toNat, BitVec.toNat_sub, h32, hw, Nat.shiftRight_zero] <;>
    omega

theorem lshWords_eq (hw : w.toNat = n) (hn : n < 64) (h : n = 0 ∨ 32 ≤ n) :
    lshWords (low v) (high v) w = v <<< n := by
  obtain ⟨h1, h2, h3⟩ := amounts hw hn
  rw [lshWords, h1, h2, h3, ← pair_high_low (v <<< n), low_shiftLeft]
  congr 1
  rcases h with rfl | h
  · rw [BitVec.shiftLeft_zero, BitVec.shiftLeft_zero,
      BitVec.shiftLeft_eq_zero (n := (288 - 0) % 256) (by decide),
      BitVec.shiftLeft_eq_zero (n := (0 + 224) % 256) (by decide), BitVec.or_zero, BitVec.zero_or]
  · rw [high_shiftLeft_of_ge v h, show (n + 224) % 256 = n - 32 by omega,
      BitVec.shiftLeft_eq_zero (x := high v) h, BitVec.zero_or]
    -- the partial shift by `32 - n` is the other one, or leaves nothing
    by_cases h32 : n = 32
    · rw [show (288 - n) % 256 = n - 32 by omega, BitVec.or_self]
    · rw [BitVec.shiftLeft_eq_zero (n := (288 - n) % 256) (by omega), BitVec.zero_or]

theorem rshWords_eq (hw : w.toNat = 32) : rshWords (low v) (high v) w = v >>> 32 := by
  obtain ⟨h1, h2, h3⟩ := amounts hw (by decide)
  rw [rshWords, h1, h2, h3, ← pair_high_low (v >>> 32), high_ushiftRight,
    low_ushiftRight_of_ge v (by decide), BitVec.ushiftRight_eq_zero (x := low v) (Nat.le_refl 32)]
  simp

theorem arshWords_eq (hw : w.toNat = 32) : arshWords (low v) (high v) w = v.sshiftRight 32 := by
  obtain ⟨h1, h2, h3⟩ := amounts hw (by decide)
  rw [arshWords, h1, h2, ← pair_high_low (v.sshiftRight 32), high_sshiftRight,
    low_sshiftRight_of_ge v (by decide), BitVec.ushiftRight_eq_zero (x := low v) (Nat.le_refl 32)]
  simp

/-- A register that is shifted by itself. -/
theorem shift_self : ∀ n < 64,
    rshWords (BitVec.ofNat 32 n) 0 (BitVec.ofNat 32 n) = BitVec.ofNat 64 n >>> n ∧
    arshWords (BitVec.ofNat 32 n) 0 (BitVec.ofNat 32 n) = (BitVec.ofNat 64 n).sshiftRight n ∧
    (lshWords (BitVec.ofNat 32 n) 0 (BitVec.ofNat 32 n) = BitVec.ofNat 64 n <<< n →
      n = 0 ∨ 32 ≤ n) := by decide

/-- Values for which the other amounts go wrong. -/
theorem shift_wrong : ∀ n < 64,
    (lshWords 1 0 (BitVec.ofNat 32 n) = (1 : BitVec 64) <<< n → n = 0 ∨ 32 ≤ n) ∧
    (rshWords 0 0x80000000 (BitVec.ofNat 32 n) = (0x8000000000000000 : BitVec 64) >>> n → n = 32) ∧
    (arshWords 0 0x80000000 (BitVec.ofNat 32 n) = (0x8000000000000000 : BitVec 64).sshiftRight n →
      n = 32) := by decide

end

/-! ## Shifts by a register -/

theorem tame_shiftReg (d : BitVec 4) (rt : Reg) :
    tameLine d (lshRegBody (heldLo d) (heldHi d) rt) = true ∧
      tameLine d (rshRegBody (heldLo d) (heldHi d) rt) = true ∧
      tameLine d (arshRegBody (heldLo d) (heldHi d) rt) = true := by
  refine ⟨tameLine_of_dests ?_, tameLine_of_dests ?_, tameLine_of_dests ?_⟩ <;>
    simp [lshRegBody, rshRegBody, arshRegBody, rshStart, Inst.quiet, Instr.quiet, Inst.dests,
      Instr.dests,
      tameRegs]

section
variable {inst : EbpfInst} {op : Ebpf.AluOp} {x : Ebpf.State}

theorem agrees_shiftReg_iff (hop : Op.ofCode inst.opcode = some (.alu64 op .reg))
    (hshift : op ∈ [.lsh, .rsh, .arsh]) (hd : inst.dst.toNat < 11) (hr : inst.src.toNat < 11)
    {body : Reg → Reg → Reg → List Inst} {f : Word → Word → Word → BitVec 64} {a : Reg}
    (hcode : disassemble (buildAlu64 op .reg (rowOf inst.dst) (rowOf inst.src) inst.imm) =
      some (shiftRegLine body inst.dst inst.src a ip))
    (htame : tameLine inst.dst
      (body (heldLo inst.dst) (heldHi inst.dst) (halfReg inst.src false tmp2Lo)) = true)
    (hrun : ∀ {sys : Sys} {s : State} {lo hi rt : Reg} {v : BitVec 64} {w : Word},
      ShiftRegs lo hi rt → pair (s.reg hi) (s.reg lo) = v → s.reg rt = w →
      Runs sys (body lo hi rt) s fun t => pair (t.reg ip) (t.reg a) = f (low v) (high v) w)
    (hn : (x.reg inst.src).toNat < 64) :
    Agrees inst x ↔ f (low (x.reg inst.dst)) (high (x.reg inst.dst)) (low (x.reg inst.src)) =
      shiftVal op (x.reg inst.dst) (x.reg inst.src).toNat := by
  have hR := shiftRegs hd hr
  have hv := fun H => @alu64_shift op .reg hshift H (x.reg inst.dst) (x.reg inst.src) inst.imm hn
  rw [agrees_alu64_iff hop hd hr hv]
  refine effect_set_iff hd fun sys top s hM => ?_
  rw [runCode_eq hcode]
  obtain ⟨t, ht, hMt, hamt, -⟩ := hM.fetchHalf sys hr false (q := tmp2Lo) (by decide)
  obtain ⟨u, hu, hval, -, hq⟩ := hMt.fetchDst sys hd
  have hrt := (srcLo_eq inst.src).symm
  obtain ⟨h1, h2⟩ := src_apart inst.src hr _ (List.mem_cons_self (a := srcLo .reg inst.src))
  have hamt' : u.reg (halfReg inst.src false tmp2Lo) = low (x.reg inst.src) := by
    rw [hq _ (hrt ▸ h1) (hrt ▸ h2), hamt]
    rfl
  obtain ⟨w, hw, hres⟩ : Runs sys _ u _ := hrun hR hval hamt'
  have hidle : idleLine (fetchHalf inst.src false tmp2Lo ++ fetchDst inst.dst) = true := by
    rw [idleLine_append, (idle_fetch _ _ hd hr).1, idle_fetchHalf _ _ (by decide), Bool.true_and]
  have hline : runLine sys (fetchHalf inst.src false tmp2Lo ++ fetchDst inst.dst ++
      body (heldLo inst.dst) (heldHi inst.dst) (halfReg inst.src false tmp2Lo)) s =
        some (w, false) := by
    rw [List.append_assoc, runLine_seq ht, runLine_seq hu, hw]
  rw [← hres]
  refine hM.halves hd ?_ hline fun e => hR.lo (by simp [← e, shiftTemps])
  rw [tameLine_append, tameLine_of_idle hidle, htame, Bool.true_and]

/-! ## Shifts to the left by a constant -/

/-- What the code computes with the carry `c`. -/
def lshVal (n : Nat) (v : BitVec 64) (c : Bool) : BitVec 64 :=
  if n < 32 then pair (((lshFirst n).apply (high v) c).1 ||| low v >>> (32 - n)) (low v <<< n)
  else pair (low v <<< (n - 32)) 0

theorem shiftInst_exec {rd : Reg} (h : rd ≠ sp) (rm : Reg) (sh : Shift) (sys : Sys) (s : State) :
    ∃ f t, (shiftInst rd rm sh).exec sys s = some t ∧
      Writes s rd (sh.apply (s.reg rm) s.flags.c).1 f t := by
  cases sh with
  | asr n => exact ⟨_, _, rfl, (writes_put s h true ((s.reg rm).sshiftRight n, _)).skip 0⟩
  | _ => exact ⟨_, _, rfl, writes_put s h true (_, _)⟩

theorem run_lshBody {sys : Sys} {s : State} {lo hi : Reg} {v : BitVec 64}
    (hlo : lo ≠ sp ∧ lo ≠ tmp2Hi)
    (hhi : hi ≠ sp ∧ hi ≠ tmp2Hi) (hne : lo ≠ hi) (hv : pair (s.reg hi) (s.reg lo) = v) (n : Nat) :
    Runs sys (lshBody lo hi n) s fun t => pair (t.reg hi) (t.reg lo) = lshVal n v s.flags.c := by
  obtain ⟨h1, h2⟩ := halves_of_pair hv
  rw [lshBody, lshVal]
  split
  · obtain ⟨_, t, ht, w1⟩ := @shiftInst_exec tmp2Hi (by decide) hi (lshFirst n) sys s
    refine .step ht (.put rfl hhi.1 fun u w2 => .put rfl hlo.1 fun r w3 => .nil ?_)
    rw [w3.dest, w3.rest hi hne.symm, w2.dest, w2.rest lo hne, w1.dest, w1.rest lo hlo.2, h1, h2]
    rfl
  · split
    · subst n
      refine .skip rfl hhi.1 fun t w1 => .alu hlo.1 fun u w2 => .nil ?_
      rw [w2.dest, w2.rest hi hne.symm, w1.dest, h1]
      simp [aluResult]
    · refine .put rfl hhi.1 fun t w1 => .alu hlo.1 fun u w2 => .nil ?_
      rw [w2.dest, w2.rest hi hne.symm, w1.dest, h1]
      simp [aluResult]

theorem lshFirst_eq : ∀ n < 32, n % 4 = 0 → lshFirst n = .lsl n := by decide

theorem lshVal_eq (v : BitVec 64) (c : Bool) {n : Nat} (h : n % 4 = 0 ∨ 32 ≤ n) :
    lshVal n v c = v <<< n := by
  rw [lshVal, ← pair_high_low (v <<< n), low_shiftLeft]
  split
  · rw [lshFirst_eq n (by omega) (by omega), high_shiftLeft_of_le v (by omega)]
    rfl
  · rw [high_shiftLeft_of_ge v (by omega),
      BitVec.shiftLeft_eq_zero (x := low v) (n := n) (by omega)]
    rfl

theorem lshVal_wrong : ∀ n < 64, ∀ c, lshVal n 0x100000000 c = (0x100000000 : BitVec 64) <<< n →
    n % 4 = 0 ∨ 32 ≤ n := by decide

theorem agrees_lshImm_iff (hop : Op.ofCode inst.opcode = some (.alu64 .lsh .imm))
    (hd : inst.dst.toNat < 11) (himm : inst.imm.toNat < 64) :
    Agrees inst x ↔ ∀ c, lshVal inst.imm.toNat (x.reg inst.dst) c =
      x.reg inst.dst <<< inst.imm.toNat := by
  have hO := operands hd hd .reg
  have hlo : heldLo inst.dst ≠ sp ∧ heldLo inst.dst ≠ tmp2Hi :=
    ⟨(hO.plain _ (by simp)).1, (held_apart _ hd _ (by simp)).2.1⟩
  have hhi : heldHi inst.dst ≠ sp ∧ heldHi inst.dst ≠ tmp2Hi :=
    ⟨(hO.plain _ (by simp)).1, (held_apart _ hd _ (by simp)).2.1⟩
  have hv : ∀ H, Ebpf.alu64 H .lsh .imm (x.reg inst.dst) (x.reg inst.src) inst.imm =
      .val (x.reg inst.dst <<< inst.imm.toNat) := fun H => by
    simp only [Ebpf.alu64, toNat_sext_of_lt himm, if_pos himm]
  have hcode := (through_lsh _).disassemble hd (disassemble_lsh64 (dstPair_mem _ hd) himm)
  rw [BitVec.ofNat_toNat] at hcode
  refine (agrees_shiftImm_iff hop (by simp) hd hv).trans ((effect_iff
    (y := fun s => x.set inst.dst (lshVal inst.imm.toNat (x.reg inst.dst) s.flags.c))
    (fun sys top s hM => ?_) fun _ => by rfl).trans ⟨fun h c => ?_, fun h top s hM r hr => ?_⟩)
  · rw [buildAlu64, runCode_eq hcode]
    exact hM.unary sys hd (tame_shift _ _).2.2 fun t ht hf =>
      hf ▸ run_lshBody hlo hhi hO.halves ht _
  · have hM := @mirrors_mirrorOf 0 x (fun _ => 0) ⟨false, false, c, false⟩ rfl
    have := h 0 _ hM inst.dst hd
    rwa [set_reg, set_reg] at this
  · exact congrArg (fun v => (x.set inst.dst v).reg r) (h _)

/-! ## All of them -/

/-- The amounts for which a shift to the left, or by a register, is right. -/
def shift64Right (inst : EbpfInst) (op : Ebpf.AluOp) (form : Form) (n : Nat) : Prop :=
  match op, form with
  | .lsh, .imm => n % 4 = 0 ∨ 32 ≤ n
  | .lsh, .reg => n = 0 ∨ 32 ≤ n
  | _, _ => n = 32 ∨ inst.dst = inst.src

/-- A state with `v` in `d` and `w` in all other registers. -/
def stateWith (d : BitVec 4) (v w : BitVec 64) : Ebpf.State :=
  ⟨0, fun r => if r = d then v else w, fun _ => 0⟩

theorem low_high_ofNat : ∀ n < 64, low (BitVec.ofNat 64 n) = BitVec.ofNat 32 n ∧
    high (BitVec.ofNat 64 n) = 0 ∧ (BitVec.ofNat 64 n).toNat = n := by decide

/-- A shift by a register, at one amount: with `dst = src` the value is the amount, and without it
`v` is a value to try. -/
theorem amount_agrees_iff {f : Word → Word → Word → BitVec 64} {n : Nat} (hn : n < 64)
    (hA : ∀ {x : Ebpf.State}, (x.reg inst.src).toNat < 64 → (Agrees inst x ↔
      f (low (x.reg inst.dst)) (high (x.reg inst.dst)) (low (x.reg inst.src)) =
        shiftVal op (x.reg inst.dst) (x.reg inst.src).toNat))
    (v : BitVec 64) (right : Prop)
    (hself : inst.dst = inst.src →
      f (BitVec.ofNat 32 n) 0 (BitVec.ofNat 32 n) = shiftVal op (BitVec.ofNat 64 n) n → right)
    (hwrong : inst.dst ≠ inst.src →
      f (low v) (high v) (BitVec.ofNat 32 n) = shiftVal op v n → right)
    (hright : right → ∀ v w : BitVec 64, w.toNat = n → (inst.dst = inst.src → v = w) →
      f (low v) (high v) (low w) = shiftVal op v n) :
    (∀ x : Ebpf.State, (x.reg inst.src).toNat = n → Agrees inst x) ↔ right := by
  obtain ⟨h1, h2, h3⟩ := low_high_ofNat n hn
  constructor
  · intro h
    by_cases hds : inst.dst = inst.src
    · have hx := (hA (x := stateWith 0 (BitVec.ofNat 64 n) (BitVec.ofNat 64 n)) ?_).1 (h _ ?_)
      all_goals simp only [stateWith, ite_self, h1, h2, h3] at *
      · exact hself hds hx
      · exact hn
    · have hsrc : (if inst.src = inst.dst then v else BitVec.ofNat 64 n) = BitVec.ofNat 64 n :=
        if_neg (Ne.symm hds)
      have hx := (hA (x := stateWith inst.dst v (BitVec.ofNat 64 n)) ?_).1 (h _ ?_)
      all_goals simp only [stateWith, hsrc, if_true, h1, h3] at *
      · exact hwrong hds hx
      · exact hn
  · intro h x hx
    exact (hA (hx ▸ hn)).2 (hx ▸ hright h _ _ hx fun e => congrArg x.reg e)

theorem toNat_low_of_lt {w : BitVec 64} {n : Nat} (hw : w.toNat = n) (hn : n < 64) :
    (low w).toNat = n := by
  rw [toNat_low]
  omega

theorem lshReg_agrees_iff (hop : Op.ofCode inst.opcode = some (.alu64 .lsh .reg))
    (hd : inst.dst.toNat < 11) (hr : inst.src.toNat < 11) {n : Nat} (hn : n < 64) :
    (∀ x : Ebpf.State, (x.reg inst.src).toNat = n → Agrees inst x) ↔ n = 0 ∨ 32 ≤ n :=
  amount_agrees_iff hn (agrees_shiftReg_iff hop (by simp) hd hr (disassemble_lshReg hd hr)
    (tame_shiftReg _ _).1 run_lshReg) 1 _ (fun _ => (shift_self n hn).2.2)
    (fun _ => (shift_wrong n hn).1) fun h _ _ hw _ => lshWords_eq (toNat_low_of_lt hw hn) hn h

/-- A shift to the right that is right for 32, and for a register and itself. -/
theorem right_amount_iff {f : Word → Word → Word → BitVec 64} {n : Nat} (hn : n < 64)
    (hA : ∀ {x : Ebpf.State}, (x.reg inst.src).toNat < 64 → (Agrees inst x ↔
      f (low (x.reg inst.dst)) (high (x.reg inst.dst)) (low (x.reg inst.src)) =
        shiftVal op (x.reg inst.dst) (x.reg inst.src).toNat))
    (h32 : ∀ {v : BitVec 64} {w : Word}, w.toNat = 32 → f (low v) (high v) w = shiftVal op v 32)
    (hself : f (BitVec.ofNat 32 n) 0 (BitVec.ofNat 32 n) = shiftVal op (BitVec.ofNat 64 n) n)
    (hwrong : f 0 0x80000000 (BitVec.ofNat 32 n) = shiftVal op 0x8000000000000000 n → n = 32) :
    (∀ x : Ebpf.State, (x.reg inst.src).toNat = n → Agrees inst x) ↔
      n = 32 ∨ inst.dst = inst.src := by
  refine amount_agrees_iff hn hA 0x8000000000000000 _ (fun h _ => .inr h)
    (fun _ h => .inl (hwrong h))
    fun h v w hw hvw => ?_
  by_cases hn32 : n = 32
  · subst hn32
    exact h32 (toNat_low_of_lt hw hn)
  · obtain ⟨h1, h2, -⟩ := low_high_ofNat n hn
    have hw' : w = BitVec.ofNat 64 n := by rw [← hw, BitVec.ofNat_toNat, BitVec.setWidth_eq]
    rw [hvw (h.resolve_left hn32), hw', h1, h2, hself]

theorem rshReg_agrees_iff (hop : Op.ofCode inst.opcode = some (.alu64 .rsh .reg))
    (hd : inst.dst.toNat < 11) (hr : inst.src.toNat < 11) {n : Nat} (hn : n < 64) :
    (∀ x : Ebpf.State, (x.reg inst.src).toNat = n → Agrees inst x) ↔
      n = 32 ∨ inst.dst = inst.src :=
  right_amount_iff hn (agrees_shiftReg_iff hop (by simp) hd hr (disassemble_rshReg hd hr)
    (tame_shiftReg _ _).2.1 run_rshReg) rshWords_eq (shift_self n hn).1 (shift_wrong n hn).2.1

theorem arshReg_agrees_iff (hop : Op.ofCode inst.opcode = some (.alu64 .arsh .reg))
    (hd : inst.dst.toNat < 11) (hr : inst.src.toNat < 11) {n : Nat} (hn : n < 64) :
    (∀ x : Ebpf.State, (x.reg inst.src).toNat = n → Agrees inst x) ↔
      n = 32 ∨ inst.dst = inst.src :=
  right_amount_iff hn (agrees_shiftReg_iff hop (by simp) hd hr (disassemble_arshReg hd hr)
    (tame_shiftReg _ _).2.2 run_arshReg) arshWords_eq (shift_self n hn).2.1 (shift_wrong n hn).2.2

theorem lshImm_agrees_iff (hop : Op.ofCode inst.opcode = some (.alu64 .lsh .imm))
    (hd : inst.dst.toNat < 11) (himm : inst.imm.toNat < 64) :
    (∀ x : Ebpf.State, Agrees inst x) ↔ inst.imm.toNat % 4 = 0 ∨ 32 ≤ inst.imm.toNat := by
  constructor
  · intro h
    have hx := (agrees_lshImm_iff hop hd himm).1 (h (stateWith inst.dst 0x100000000 0)) false
    rw [show (stateWith inst.dst 0x100000000 0).reg inst.dst = 0x100000000 from if_pos rfl] at hx
    exact lshVal_wrong _ himm false hx
  · intro h x
    exact (agrees_lshImm_iff hop hd himm).2 fun c => lshVal_eq _ c h

/-- **Shifts to the left, and by a register**, by `n`: the code is right for all values iff `n` is
as `shift64Right` says. -/
theorem shift64_agrees_iff (inst : EbpfInst) (op : Ebpf.AluOp) (form : Form)
    (hop : Op.ofCode inst.opcode = some (.alu64 op form))
    (hshift : (op, form) ∈ [(.lsh, .imm), (.lsh, .reg), (.rsh, .reg), (.arsh, .reg)])
    (hd : inst.dst.toNat < 11) (hr : inst.src.toNat < 11) (n : Nat) (hn : n < 64)
    (himm : form = .imm → inst.imm.toNat = n) :
    (∀ x : Ebpf.State, (operandVal form (x.reg inst.src) inst.imm).toNat = n → Agrees inst x) ↔
      shift64Right inst op form n := by
  simp only [List.mem_cons, List.not_mem_nil, or_false, Prod.mk.injEq] at hshift
  rcases hshift with ⟨rfl, rfl⟩ | ⟨rfl, rfl⟩ | ⟨rfl, rfl⟩ | ⟨rfl, rfl⟩
  · obtain rfl := himm rfl
    have hamt : ∀ x : Ebpf.State, (operandVal .imm (x.reg inst.src) inst.imm).toNat =
        inst.imm.toNat :=
      fun x => toNat_sext_of_lt hn
    simp only [hamt, forall_const]
    exact lshImm_agrees_iff hop hd hn
  · exact lshReg_agrees_iff hop hd hr hn
  · exact rshReg_agrees_iff hop hd hr hn
  · exact arshReg_agrees_iff hop hd hr hn

/-- `r7 <<= 8` for `r7 = 1`. -/
theorem shift64_agrees_byte :
    Agrees { opcode := 0x67, dst := 7, src := 0, offset := 0, imm := 8 } (stateWith 7 1 0) :=
  (shift64_agrees_iff _ .lsh .imm (by decide) (by decide) (by decide) (by decide) 8 (by decide)
    fun _ => rfl).2 (.inl rfl) _ (by decide)

/-- `r7 <<= 1` of `2^32`: the high half is shifted out instead. -/
theorem lsh_one_disagrees :
    ¬ Agrees { opcode := 0x67, dst := 7, src := 0, offset := 0, imm := 1 }
      (stateWith 7 0x100000000 0) :=
  fun h => absurd ((agrees_lshImm_iff (by decide) (by decide) (by decide)).1 h false) (by decide)

end

end BlueSwat.Jit
