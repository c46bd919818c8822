import BlueSwat.Jit.Proof.Operation
import BlueSwat.Lib.Thumb.Shifted

/-!
# 64-bit shifts

The shifts to the right by a constant are right (`rsh64_imm_agrees`). The shift to the left by a
constant puts two bits of the amount in the field of the shift type, and the shifts by a register
mix up the two partial shifts; `shift64_agrees_iff` has the amounts for which they are right.
-/

set_option autoImplicit false

namespace BlueSwat.Jit

open Thumb Bytes
open Ebpf (EbpfInst Op Form)

/-! ## Shifts by a constant -/

def rshBody (lo hi : Reg) (n : Nat) : List Inst :=
  if n = 0 then []
  else if n < 32 then
    [.shift false tmp2Lo lo (.lsr n), .data .orr false lo tmp2Lo hi (.lsl (32 - n)),
      .shift false hi hi (.lsr n)]
  else
    [if n = 32 then .base (.movReg lo hi) else .shift false lo hi (.lsr (n - 32)),
      .base (.movImm true hi 0)]

def arshBody (lo hi : Reg) (n : Nat) : List Inst :=
  if n = 0 then []
  else if n < 32 then
    [.shift true tmp2Lo lo (.lsr n), .data .orr true lo tmp2Lo hi (.lsl (32 - n)),
      .base (.asr true hi hi n)]
  else
    [if n = 32 then .base (.movReg lo hi) else .base (.asr true lo hi (n - 32)),
      .base (.asr true hi hi 31)]

/-- A shift that sets the flags; the arithmetic ones are among those of `Thumb.decode`. -/
def shiftInst (rd rm : Reg) : Shift → Inst
  | .asr n => .base (.asr true rd rm n)
  | sh => .shift true rd rm sh

/-- The first shift to the left: the low bits of the amount are its type. -/
def lshFirst (n : Nat) : Shift := immShift (BitVec.ofNat 2 n) (BitVec.ofNat 5 (n - n % 4))

def lshBody (lo hi : Reg) (n : Nat) : List Inst :=
  if n < 32 then
    [shiftInst tmp2Hi hi (lshFirst n), .data .orr true hi tmp2Hi lo (.lsr (32 - n)),
      .shift true lo lo (.lsl n)]
  else
    [if n = 32 then .base (.movReg hi lo) else .shift true hi lo (.lsl (n - 32)),
      .base (.alu .eor true lo lo lo)]

/-! ## Their code -/

/-- An emitter that takes a row on the stack through `TMP_REG_1`. -/
def Through (emitter : Row → Code) : Prop :=
  ∀ row : Row, isStacked row.lo →
    emitter row = emitLdrdI tmp armFp row.lo ++ emitter tmp ++ emitStrdI tmp armFp row.lo

/-- The code for a row in machine registers gives that for all rows. -/
theorem Through.disassemble {emitter : Row → Code} (h : Through emitter) {body : List Inst}
    {d : BitVec 4} (hd : d.toNat < 11)
    (hrow : disassemble (emitter (regRow (heldLo d) (heldHi d))) = some body) :
    Thumb.disassemble (emitter (rowOf d)) = some (fetchDst d ++ body ++ storeRow d) := by
  obtain ⟨hrd, hget, hput⟩ := disassemble_getDst d hd
  rw [← hrd] at hrow hput
  by_cases hs : isStacked (rowOf d).lo
  · rw [armBpfGetReg64, if_pos hs] at hrow hget hput
    rw [armBpfPutReg64, if_pos hs] at hput
    rw [h _ hs]
    exact disassemble_seq (disassemble_seq hget hrow) hput
  · rw [armBpfGetReg64, if_neg hs] at hrow
    have hs' : onStack d = false := decide_eq_false hs
    rw [hrow, fetchDst, storeRow, getRow, putRow, hs']
    simp

theorem tmp_in_place : armBpfGetReg64 tmp tmp = ([], tmp) ∧ armBpfPutReg64 tmp tmp = [] := by decide

theorem stacked_row {row : Row} (h : isStacked row.lo) :
    armBpfGetReg64 row tmp = (emitLdrdI tmp armFp row.lo, tmp) ∧
      armBpfPutReg64 row tmp = emitStrdI tmp armFp row.lo :=
  ⟨if_pos h, if_pos h⟩

theorem through_rsh (n : BitVec 16) : Through (emitA32RshI64 · n) := by
  intro row h
  obtain ⟨h1, h2⟩ := stacked_row h
  obtain ⟨h3, h4⟩ := tmp_in_place
  simp only [emitA32RshI64, h1, h2, h3, h4, List.nil_append, List.append_nil]

theorem through_arsh (n : BitVec 32) : Through (emitA32ArshI64 · n) := by
  intro row h
  obtain ⟨h1, h2⟩ := stacked_row h
  obtain ⟨h3, h4⟩ := tmp_in_place
  simp only [emitA32ArshI64, h1, h2, h3, h4, List.nil_append, List.append_nil]

theorem through_lsh (n : BitVec 16) : Through (emitLsh64Imm · n) := by
  intro row h
  obtain ⟨h1, h2⟩ := stacked_row h
  obtain ⟨h3, h4⟩ := tmp_in_place
  simp only [emitLsh64Imm, h1, h2, h3, h4, List.nil_append, List.append_nil]

theorem regRow_in_place (lo hi : Reg) : armBpfGetReg64 (regRow lo hi) tmp = ([], regRow lo hi) ∧
    armBpfPutReg64 (regRow lo hi) (regRow lo hi) = [] := by
  have hs : ¬ isStacked (regRow lo hi).lo := by
    simp [isStacked, regRow]
  rw [armBpfGetReg64, armBpfPutReg64, if_neg hs, if_neg hs]
  simp

/-! ### Instructions with a shifted register -/

theorem bits_reg (r : Reg) : bits r.toNat = r.setWidth 32 := by
  rw [bits, BitVec.ofInt_natCast, BitVec.ofNat_toNat]

/-- An amount in its two fields. -/
theorem field_imm5 : ∀ m : Nat, m < 64 →
    field m 2 0b111 = ((BitVec.ofNat 5 m).extractLsb' 2 3).setWidth 32 ∧
      field m 0 0b11 = ((BitVec.ofNat 5 m).extractLsb' 0 2).setWidth 32 := by decide

section
variable (s : Bool) (rn rd rm : Reg) (type : BitVec 2) (imm5 : BitVec 5)

theorem emit4_shifted :
    emit4 (0xea400000 ||| (BitVec.ofBool s).setWidth 32 <<< 20 ||| rn.setWidth 32 <<< 16 |||
      (imm5.extractLsb' 2 3).setWidth 32 <<< 12 ||| rd.setWidth 32 <<< 8 |||
      (imm5.extractLsb' 0 2).setWidth 32 <<< 6 ||| type.setWidth 32 <<< 4 ||| rm.setWidth 32) =
      [shiftedHigh 0b0010 s rn, shiftedLow rd rm type imm5] := by
  rw [emit4]
  congr 1
  · apply BitVec.eq_of_getLsbD_eq
    intro i hi
    rw [getLsbD_shiftedHigh]
    interval_cases i <;> simp
  · congr 1
    apply BitVec.eq_of_getLsbD_eq
    intro i hi
    rw [getLsbD_shiftedLow]
    interval_cases i <;> simp

end

theorem ofNat5 {n : Nat} (h0 : 0 < n) (hn : n < 32) :
    BitVec.ofNat 5 n ≠ 0 ∧ (BitVec.ofNat 5 n).toNat = n := by
  have hval : (BitVec.ofNat 5 n).toNat = n := Nat.mod_eq_of_lt hn
  exact ⟨fun e => by rw [e] at hval; exact absurd hval (by simp; omega), hval⟩

section
variable {s : Bool} {flag : BitVec 32} (hflag : flag = (BitVec.ofBool s).setWidth 32)
  {rd rn rm : Reg}
  (hd : special rd = false) (hm : special rm = false) {n : Nat}

include hflag in
theorem emit4_shiftImm (type : BitVec 2) {op : BitVec 32}
    (hop : op = 0xea400000 ||| (15 : Reg).setWidth 32 <<< 16 ||| type.setWidth 32 <<< 4)
    (hn : n < 64) :
    emit4 (thumb32ShiftImm op rd.toNat rm.toNat n flag) =
      [shiftedHigh 0b0010 s 15, shiftedLow rd rm type (BitVec.ofNat 5 n)] := by
  obtain ⟨h2, h0⟩ := field_imm5 n hn
  have hor : ∀ a b c d e f g h : BitVec 32, a ||| b ||| c ||| d ||| e ||| f ||| g ||| h =
      a ||| d ||| b ||| e ||| f ||| g ||| c ||| h := fun _ _ _ _ _ _ _ _ => by ac_rfl
  rw [← emit4_shifted, thumb32ShiftImm, h2, h0, bits_reg, bits_reg, hflag, hop, hor]

include hflag hd hm

theorem disassemble_lsrw (h0 : 0 < n) (hn : n < 32) :
    disassemble (emit4 (thumb32LsrwImmT2 rd.toNat rm.toNat n flag)) =
      some [.shift s rd rm (.lsr n)] := by
  obtain ⟨hne, hval⟩ := ofNat5 h0 hn
  rw [thumb32LsrwImmT2, if_neg (by omega), emit4_shiftImm hflag 1 (by decide) (by omega),
    disassemble_shift hd hm _ _ (fun h => absurd h (by decide)), if_neg (by decide)]
  simp only [immShift, if_neg hne, hval]
  rfl

theorem disassemble_asrw (h0 : 0 < n) (hn : n < 32) :
    disassemble (emit4 (thumb32AsrwImmT2 rd.toNat rm.toNat n flag)) =
      some [.base (.asr s rd rm n)] := by
  obtain ⟨hne, hval⟩ := ofNat5 h0 hn
  rw [thumb32AsrwImmT2, emit4_shiftImm hflag 2 (by decide) (by omega),
    disassemble_shift hd hm _ _ (fun h => absurd h (by decide)), if_pos rfl, if_neg hne, hval]

theorem disassemble_orrw (hrn : special rn = false) (hn : n < 32) :
    disassemble (emit4 (thumb32OrrwRegT2 rd.toNat rn.toNat rm.toNat n srtypeLsl flag)) =
      some [.data .orr s rd rn rm (.lsl n)] := by
  obtain ⟨h2, h0⟩ := field_imm5 n (by omega)
  have hcode := emit4_shifted s rn rd rm 0 (BitVec.ofNat 5 n)
  rw [thumb32OrrwRegT2, if_neg (by omega), thumb32Reg, h2, h0, bits_reg, bits_reg, bits_reg, hflag,
    srtypeLsl]
  exact (congrArg disassemble hcode).trans ((disassemble_orr hd hm _ _ hrn).trans (by
    rw [immShift, show (BitVec.ofNat 5 n).toNat = n from Nat.mod_eq_of_lt hn]
    rfl))

end

/-- A narrow shift of low registers. -/
theorem disassemble_shiftLow {rd rm : Reg} (hd : rd.toNat < 8) (hm : rm.toNat < 8) {type : BitVec 2}
    (ht : type ≠ 3) (imm5 : BitVec 5) :
    disassemble (emit2 (((0#3 ++ type).setWidth 32 <<< 11 ||| imm5.setWidth 32 <<< 6 |||
      rm.setWidth 32 <<< 3 ||| rd.setWidth 32).setWidth 16)) =
      some [.shift true rd rm (immShift type imm5)] := by
  obtain ⟨d, rfl⟩ := exists_low hd
  obtain ⟨m, rfl⟩ := exists_low hm
  obtain ⟨h1, h2, h3, h4⟩ := narrow_fields (0#3 ++ type) imm5 (m.setWidth 4) d
  have hm' : (m.setWidth 4).extractLsb' 0 3 = m := by
    apply BitVec.eq_of_getLsbD_eq
    intro i hi
    simp [hi, Nat.lt_succ_of_lt hi]
  have hm0 : ((m.setWidth 4).extractLsb' 3 1).setWidth 5 = 0#5 := by
    apply BitVec.eq_of_getLsbD_eq
    intro i hi
    simp
  rw [hm0, BitVec.or_zero] at h2
  rw [hm'] at h3
  rw [emit2, disassemble_shiftNarrow ht h1, h2, h3, h4]

theorem bits_imm5 {n : Nat} (hn : n < 32) : bits n = (BitVec.ofNat 5 n).setWidth 32 := by
  rw [bits, BitVec.ofInt_natCast]
  apply BitVec.eq_of_toNat_eq
  simp only [BitVec.toNat_setWidth, BitVec.toNat_ofNat]
  omega

theorem disassemble_lslLow {rd rm : Reg} (hd : rd.toNat < 8) (hm : rm.toNat < 8) {n : Nat}
    (hn : n < 32) :
    disassemble (emit2 ((bits n <<< 6 ||| bits rm.toNat <<< 3 ||| bits rd.toNat).setWidth 16)) =
      some [.shift true rd rm (.lsl n)] := by
  have h := disassemble_shiftLow hd hm (show (0 : BitVec 2) ≠ 3 by decide) (BitVec.ofNat 5 n)
  rw [show (0#3 ++ (0 : BitVec 2)).setWidth 32 <<< 11 = 0#32 by decide, BitVec.zero_or,
    ← bits_imm5 hn, ← bits_reg, ← bits_reg] at h
  rw [h, immShift, show (BitVec.ofNat 5 n).toNat = n from Nat.mod_eq_of_lt hn]
  rfl

/-! ### The lines -/

theorem tmp2_regs : tmp2 = regRow tmp2Lo tmp2Hi := by decide

theorem plain_tmp2 : special tmp2Lo = false ∧ special tmp2Hi = false := ⟨rfl, rfl⟩

theorem disassemble_moves : ∀ p ∈ dstPairs,
    disassemble (emitMovReg p.hi.toNat p.lo.toNat) = some [.base (.movReg p.lo p.hi)] ∧
      disassemble (emitMovReg p.lo.toNat p.hi.toNat) = some [.base (.movReg p.hi p.lo)] ∧
      disassemble (emit2 ((0x4040 ||| bits p.lo.toNat <<< 3 ||| bits p.lo.toNat).setWidth 16)) =
        some [.base (.alu .eor true p.lo p.lo p.lo)] := by decide

/-- The first word of a shift to the left: the low bits of the amount are where its type is. -/
theorem lshFirst_fields : ∀ n : Nat, n < 32 →
    field n 2 0b111 = ((BitVec.ofNat 5 (n - n % 4)).extractLsb' 2 3).setWidth 32 ∧
      (BitVec.ofNat 5 (n - n % 4)).extractLsb' 0 2 = 0 ∧
      field n 0 0b11 = (BitVec.ofNat 2 n).setWidth 32 := by decide

theorem shiftInst_immShift (rd rm : Reg) (type : BitVec 2) (imm5 : BitVec 5) :
    (if type = 2 then .base (.asr true rd rm (if imm5 = 0 then 32 else imm5.toNat))
      else .shift true rd rm (immShift type imm5)) = shiftInst rd rm (immShift type imm5) := by
  have htype : ∀ type : BitVec 2, type = 0 ∨ type = 1 ∨ type = 2 ∨ type = 3 := by decide
  have h3 : immShift 3 imm5 = if imm5 = 0 then .rrx else .ror imm5.toNat := rfl
  rcases htype type with rfl | rfl | rfl | rfl
  · rfl
  · rfl
  · rfl
  · rw [h3, if_neg (by decide)]
    split <;> rfl

theorem disassemble_lshFirst {op : BitVec 32} (hop : op = 0xea5f0000) {rm : Reg}
    (hm : special rm = false) {n : Nat} (hn : n < 32) :
    disassemble (emit4 (op ||| field n 2 0b111 <<< 12 ||| bits tmp2Hi.toNat <<< 8 |||
      field n 0 0b11 <<< 4 ||| bits rm.toNat)) = some [shiftInst tmp2Hi rm (lshFirst n)] := by
  obtain ⟨h2, h0, ht⟩ := lshFirst_fields n hn
  have hcode := emit4_shifted true 15 tmp2Hi rm (BitVec.ofNat 2 n) (BitVec.ofNat 5 (n - n % 4))
  have hzero : (0 : BitVec 2).setWidth 32 <<< 6 = 0#32 := by decide
  have hop' : op = 0xea400000 ||| (BitVec.ofBool true).setWidth 32 <<< 20 |||
      (15 : Reg).setWidth 32 <<< 16 := hop.trans (by decide)
  rw [← hop', h0, hzero, BitVec.or_zero, ← h2, ← ht, ← bits_reg, ← bits_reg] at hcode
  rw [hcode, disassemble_shift plain_tmp2.2 hm _ _ (fun _ _ => rfl), shiftInst_immShift, lshFirst]

theorem disassemble_orrLsr {op : BitVec 32} (hop : op = 0xea500010) {rd rm : Reg}
    (hd : special rd = false) (hm : special rm = false) {n : Nat} (hn : n < 32) :
    disassemble (emit4 (op ||| bits tmp2Hi.toNat <<< 16 ||| field (32 - n) 2 0b111 <<< 12 |||
      bits rd.toNat <<< 8 ||| field (32 - n) 0 0b11 <<< 6 ||| bits rm.toNat)) =
      some [.data .orr true rd tmp2Hi rm (.lsr (32 - n))] := by
  obtain ⟨h2, h0⟩ := field_imm5 (32 - n) (by omega)
  have hcode := emit4_shifted true tmp2Hi rd rm 1 (BitVec.ofNat 5 (32 - n))
  have hshift : ∀ n < 32, immShift 1 (BitVec.ofNat 5 (32 - n)) = .lsr (32 - n) := by decide
  have hop' : op = 0xea400000 ||| (BitVec.ofBool true).setWidth 32 <<< 20 |||
      (1 : BitVec 2).setWidth 32 <<< 4 := hop.trans (by decide)
  have hor : ∀ a b c d e f g h : BitVec 32, a ||| b ||| g ||| c ||| d ||| e ||| f ||| h =
      a ||| b ||| c ||| d ||| e ||| f ||| g ||| h := fun _ _ _ _ _ _ _ _ => by ac_rfl
  rw [Nat.cast_sub hn.le] at h2 h0
  rw [hop', bits_reg, bits_reg, bits_reg, hor]
  rw [← h2, ← h0] at hcode
  rw [← hshift n hn]
  exact (congrArg disassemble hcode).trans (disassemble_orr hd hm _ _ plain_tmp2.2)

theorem flagNos_eq : flagNos = (BitVec.ofBool false).setWidth 32 := rfl

theorem flagS_eq : flagS = (BitVec.ofBool true).setWidth 32 := rfl

section
variable {lo hi : Reg} (hp : ⟨lo, hi⟩ ∈ dstPairs) {n : Nat} (hn : n < 64)
include hp hn

theorem disassemble_rsh64 :
    disassemble (emitA32RshI64 (regRow lo hi) (BitVec.ofNat 16 n)) = some (rshBody lo hi n) := by
  obtain ⟨⟨hlo, -⟩, hhi, hhi8⟩ := dstPair_low _ hp
  obtain ⟨hget, hput⟩ := regRow_in_place lo hi
  have hv : (BitVec.ofNat 16 n).toNat = n := Nat.mod_eq_of_lt (by omega)
  have hzero : disassemble (emitMovImm hi.toNat 0) = some [.base (.movImm true hi 0)] := by
    rw [disassemble_emitMovImm hhi, movConst, if_pos ⟨by decide, hhi8⟩]
    rfl
  simp only [emitA32RshI64, hget, hput, hv, tmp2_regs, List.nil_append, List.append_nil, rshBody]
  simp only [regRow]
  split_ifs with h0 h32 he
  · rfl
  · have h1 := disassemble_lsrw flagNos_eq plain_tmp2.1 hlo (Nat.pos_of_ne_zero h0) h32
    have h2 := disassemble_orrw flagNos_eq hlo hhi plain_tmp2.1 (show 32 - n < 32 by omega)
    have h3 := disassemble_lsrw flagNos_eq hhi hhi (Nat.pos_of_ne_zero h0) h32
    rw [Nat.cast_sub h32.le] at h2
    have hall := disassemble_seq (disassemble_seq h1 h2) h3
    exact hall
  · exact disassemble_seq (disassemble_moves _ hp).1 hzero
  · have h1 := disassemble_lsrw flagNos_eq hlo hhi (show 0 < n - 32 by omega) (by omega)
    rw [Nat.cast_sub (by omega)] at h1
    have hall := disassemble_seq h1 hzero
    exact hall

theorem disassemble_arsh64 :
    disassemble (emitA32ArshI64 (regRow lo hi) (BitVec.ofNat 32 n)) = some (arshBody lo hi n) := by
  obtain ⟨⟨hlo, -⟩, hhi, -⟩ := dstPair_low _ hp
  obtain ⟨hget, hput⟩ := regRow_in_place lo hi
  have hv : (BitVec.ofNat 32 n).toNat = n := Nat.mod_eq_of_lt (by omega)
  have hsign := disassemble_asrw flagS_eq hhi hhi (show 0 < 31 by decide) (by decide)
  simp only [emitA32ArshI64, hget, hput, hv, tmp2_regs, List.nil_append, List.append_nil, arshBody]
  simp only [regRow]
  split_ifs with h0 h32 he
  · rfl
  · have h1 := disassemble_lsrw flagS_eq plain_tmp2.1 hlo (Nat.pos_of_ne_zero h0) h32
    have h2 := disassemble_orrw flagS_eq hlo hhi plain_tmp2.1 (show 32 - n < 32 by omega)
    have h3 := disassemble_asrw flagS_eq hhi hhi (Nat.pos_of_ne_zero h0) h32
    rw [Nat.cast_sub h32.le] at h2
    have hall := disassemble_seq (disassemble_seq h1 h2) h3
    exact hall
  · exact disassemble_seq (disassemble_moves _ hp).1 hsign
  · have h1 := disassemble_asrw flagS_eq hlo hhi (show 0 < n - 32 by omega) (by omega)
    rw [Nat.cast_sub (by omega)] at h1
    have hall := disassemble_seq h1 hsign
    exact hall

theorem disassemble_lsh64 :
    disassemble (emitLsh64Imm (regRow lo hi) (BitVec.ofNat 16 n)) = some (lshBody lo hi n) := by
  obtain ⟨⟨hlo, hlo8⟩, hhi, hhi8⟩ := dstPair_low _ hp
  obtain ⟨hget, hput⟩ := regRow_in_place lo hi
  obtain ⟨-, hmov, heor⟩ := disassemble_moves _ hp
  have hv : (BitVec.ofNat 16 n).toNat = n := Nat.mod_eq_of_lt (by omega)
  simp only [emitLsh64Imm, hget, hput, hv, tmp2_regs, List.nil_append, List.append_nil, lshBody]
  simp only [regRow]
  split_ifs with h32 he
  · have hall := disassemble_seq (disassemble_seq (disassemble_lshFirst rfl hhi h32)
      (disassemble_orrLsr rfl hhi hlo h32)) (disassemble_lslLow hlo8 hlo8 h32)
    exact hall
  · exact disassemble_seq hmov heor
  · have h1 := disassemble_lslLow hhi8 hlo8 (show n - 32 < 32 by omega)
    rw [Nat.cast_sub (by omega)] at h1
    have hall := disassemble_seq h1 heor
    exact hall

end

theorem shiftInst_quiet (rd rm : Reg) (sh : Shift) :
    (shiftInst rd rm sh).quiet = true ∧ (shiftInst rd rm sh).dests = [rd] := by
  cases sh <;> exact ⟨rfl, rfl⟩

theorem tame_shift (d : BitVec 4) (n : Nat) :
    tameLine d (rshBody (heldLo d) (heldHi d) n) = true ∧
      tameLine d (arshBody (heldLo d) (heldHi d) n) = true ∧
      tameLine d (lshBody (heldLo d) (heldHi d) n) = true := by
  refine ⟨tameLine_of_dests ?_, tameLine_of_dests ?_, tameLine_of_dests ?_⟩
  · unfold rshBody
    split_ifs <;> simp [Inst.quiet, Instr.quiet, Inst.dests, Instr.dests, tameRegs]
  · unfold arshBody
    split_ifs <;> simp [Inst.quiet, Instr.quiet, Inst.dests, Instr.dests, tameRegs]
  · unfold lshBody
    split_ifs <;> simp [Inst.quiet, Instr.quiet, Inst.dests, Instr.dests, shiftInst_quiet, tameRegs]

section
variable {sys : Sys} {s : State} {lo hi : Reg} {v : BitVec 64} {n : Nat}
  (hlo : lo ≠ sp ∧ lo ≠ tmp2Lo) (hhi : hi ≠ sp ∧ hi ≠ tmp2Lo) (hne : lo ≠ hi)
  (hv : pair (s.reg hi) (s.reg lo) = v)
include hlo hhi hne hv

theorem run_rshBody (n : Nat) :
    Runs sys (rshBody lo hi n) s fun t => pair (t.reg hi) (t.reg lo) = v >>> n := by
  obtain ⟨h1, h2⟩ := halves_of_pair hv
  rw [rshBody]
  split
  · subst n
    exact .nil (by rw [hv, BitVec.ushiftRight_zero])
  rw [← pair_high_low (v >>> n), high_ushiftRight]
  split
  · rename_i h32
    refine .put rfl (by decide) fun t w1 => .put rfl hlo.1 fun u w2 => .put rfl hhi.1 fun r w3 => ?_
    refine .nil ?_
    rw [w3.dest, w3.rest lo hne, w2.dest, w2.rest hi (Ne.symm hne), w1.dest,
      w1.rest hi hhi.2, h1, h2,
      low_ushiftRight_of_le v (by omega)]
    rfl
  · rename_i h0 h32
    rw [low_ushiftRight_of_ge v (by omega), BitVec.ushiftRight_eq_zero (by omega)]
    split
    · subst n
      refine .skip rfl hlo.1 fun t w1 => .movImm hhi.1 fun u w2 => .nil ?_
      rw [w2.dest, w2.rest lo hne, w1.dest, h2, Nat.sub_self, BitVec.ushiftRight_zero]
      rfl
    · refine .put rfl hlo.1 fun t w1 => .movImm hhi.1 fun u w2 => .nil ?_
      rw [w2.dest, w2.rest lo hne, w1.dest, h2]
      rfl

theorem run_arshBody (n : Nat) :
    Runs sys (arshBody lo hi n) s fun t => pair (t.reg hi) (t.reg lo) = v.sshiftRight n := by
  obtain ⟨h1, h2⟩ := halves_of_pair hv
  rw [arshBody]
  split
  · subst n
    exact .nil (by rw [hv, BitVec.sshiftRight_zero])
  rw [← pair_high_low (v.sshiftRight n), high_sshiftRight]
  split
  · rename_i h32
    refine .put rfl (by decide) fun t w1 => .put rfl hlo.1 fun u w2 => .asr hhi.1 fun r _ w3 => ?_
    refine .nil ?_
    rw [w3.dest, w3.rest lo hne, w2.dest, w2.rest hi (Ne.symm hne), w1.dest,
      w1.rest hi hhi.2, h1, h2,
      low_sshiftRight_of_le v (by omega)]
    rfl
  · rename_i h0 h32
    rw [low_sshiftRight_of_ge v (by omega), sshiftRight_of_ge _ (by omega)]
    split
    · subst n
      refine .skip rfl hlo.1 fun t w1 => .asr hhi.1 fun u _ w2 => .nil ?_
      rw [w2.dest, w2.rest lo hne, w1.dest, w1.rest hi (Ne.symm hne), h2, Nat.sub_self,
        BitVec.sshiftRight_zero]
    · refine .asr hlo.1 fun t _ w1 => .asr hhi.1 fun u _ w2 => .nil ?_
      rw [w2.dest, w2.rest lo hne, w1.dest, w1.rest hi (Ne.symm hne), h2]

end

/-! ## Agreement of shifts by a constant -/

section
variable {inst : EbpfInst} {op : Ebpf.AluOp} {x : Ebpf.State}

/-- The source of a shift by a constant has no part in its code. -/
theorem agrees_shiftImm_iff (hop : Op.ofCode inst.opcode = some (.alu64 op .imm))
    (hshift : op ∈ [.lsh, .rsh, .arsh]) (hd : inst.dst.toNat < 11) {v : BitVec 64}
    (hv : ∀ H, Ebpf.alu64 H op .imm (x.reg inst.dst) (x.reg inst.src) inst.imm = .val v) :
    Agrees inst x ↔ ∀ sys top s, Mirrors top x s →
      ∃ t, runCode sys (buildAlu64 op .imm (rowOf inst.dst) bpfR0 inst.imm) s = some (t, false) ∧
        Mirrors top (x.set inst.dst v) t := by
  refine agrees_iff (fun J pc hpc => ?_) (fun H vm mem memLen => ?_) ?_
  · rw [buildInst, hpc, hop]
    simp only [buildOp, hpc, row_of_lt hd]
    simp only [List.mem_cons, List.not_mem_nil, or_false] at hshift
    rcases hshift with rfl | rfl | rfl <;> rfl
  · rw [hop, Ebpf.execOp, hv]
    rfl
  · rw [hop]
    rfl

theorem toNat_sext_of_lt {imm : Word} (h : imm.toNat < 64) : (Ebpf.sext imm).toNat = imm.toNat := by
  rw [Ebpf.sext, BitVec.toNat_signExtend, BitVec.msb_eq_false_iff_two_mul_lt.2 (by omega),
    BitVec.toNat_setWidth]
  simp
  omega

/-- Shifts to the right by a constant agree. -/
theorem shiftDown_agrees (hd : inst.dst.toNat < 11)
    (hop : Op.ofCode inst.opcode = some (.alu64 op .imm)) (hright : op ∈ [.rsh, .arsh])
    (himm : inst.imm.toNat < 64) : Agrees inst x := by
  have hO := operands hd hd .reg
  have hlo : heldLo inst.dst ≠ sp ∧ heldLo inst.dst ≠ tmp2Lo :=
    ⟨(hO.plain _ (by simp)).1, (held_apart _ hd _ (by simp)).1⟩
  have hhi : heldHi inst.dst ≠ sp ∧ heldHi inst.dst ≠ tmp2Lo :=
    ⟨(hO.plain _ (by simp)).1, (held_apart _ hd _ (by simp)).1⟩
  obtain ⟨ht1, ht2, -⟩ := tame_shift inst.dst inst.imm.toNat
  simp only [List.mem_cons, List.not_mem_nil, or_false] at hright
  rcases hright with rfl | rfl
  · have hv : ∀ H, Ebpf.alu64 H .rsh .imm (x.reg inst.dst) (x.reg inst.src) inst.imm =
        .val (x.reg inst.dst >>> inst.imm.toNat) := fun H => by
      simp only [Ebpf.alu64, toNat_sext_of_lt himm, if_pos himm]
    refine (agrees_shiftImm_iff hop (by simp) hd hv).2 fun sys top s hM => ?_
    have hcode := (through_rsh _).disassemble hd (disassemble_rsh64 (dstPair_mem _ hd) himm)
    rw [buildAlu64, ← BitVec.ofNat_toNat, runCode_eq hcode]
    exact hM.unary sys hd ht1 fun t ht _ => run_rshBody hlo hhi hO.halves ht _
  · have hv : ∀ H, Ebpf.alu64 H .arsh .imm (x.reg inst.dst) (x.reg inst.src) inst.imm =
        .val ((x.reg inst.dst).sshiftRight inst.imm.toNat) := fun H => by
      simp only [Ebpf.alu64, toNat_sext_of_lt himm, if_pos himm]
    refine (agrees_shiftImm_iff hop (by simp) hd hv).2 fun sys top s hM => ?_
    have hcode := (through_arsh _).disassemble hd (disassemble_arsh64 (dstPair_mem _ hd) himm)
    rw [BitVec.ofNat_toNat, BitVec.setWidth_eq] at hcode
    rw [buildAlu64, runCode_eq hcode]
    exact hM.unary sys hd ht2 fun t ht _ => run_arshBody hlo hhi hO.halves ht _

end

/-- **64-bit shifts to the right by a constant** are right, for all amounts, registers and
values. -/
theorem rsh64_imm_agrees (inst : EbpfInst) (op : Ebpf.AluOp)
    (hop : Op.ofCode inst.opcode = some (.alu64 op .imm)) (hright : op ∈ [.rsh, .arsh])
    (himm : inst.imm.toNat < 64) (hd : inst.dst.toNat < 11) (x : Ebpf.State) : Agrees inst x :=
  shiftDown_agrees hd hop hright himm

/-- `r7 >>= 32`. -/
theorem rsh64_imm_agrees_half :
    Agrees { opcode := 0x77, dst := 7, src := 0, offset := 0, imm := 32 }
      { pc := 1, reg := fun _ => 0x100000002, mem := fun _ => 0 } :=
  rsh64_imm_agrees _ .rsh (by decide) (by decide) (by decide) (by decide) _

end BlueSwat.Jit
