import BlueSwat.Jit.Proof.Word
import BlueSwat.Jit.Proof.WordLow
import BlueSwat.Lib.Thumb.Access

/-!
# The encodings of the accesses

What the loads and stores that `emit_ldx_reg` and `emit_str_reg` choose by the size and the offset
do, for all offsets that are handed to them.
-/

set_option autoImplicit false

namespace BlueSwat.Jit

open Thumb Bytes
open Ebpf (Size)

/-! ## Fields -/

section
variable (k f : BitVec 4) (rn rt : Reg) (b : BitVec 8)

theorem emit4_access :
    emit4 (0xf8000000 ||| k.setWidth 32 <<< 20 ||| rn.setWidth 32 <<< 16 |||
      rt.setWidth 32 <<< 12 |||
      (f.setWidth 32 <<< 8 ||| b.setWidth 32)) = [accessHigh k rn, accessLow rt f b] := by
  rw [emit4]
  congr 1
  · apply BitVec.eq_of_getLsbD_eq
    intro i hi
    rw [getLsbD_accessHigh]
    interval_cases i <;> simp
  · congr 1
    apply BitVec.eq_of_getLsbD_eq
    intro i hi
    rw [getLsbD_accessLow]
    interval_cases i <;> simp

theorem emit4_fields {op y : BitVec 32} (hop : op = 0xf8000000 ||| k.setWidth 32 <<< 20)
    (hy : y = f.setWidth 32 <<< 8 ||| b.setWidth 32) :
    emit4 (op ||| bits rn.toNat <<< 16 ||| bits rt.toNat <<< 12 ||| y) =
      [accessHigh k rn, accessLow rt f b] := by
  rw [bits_reg, bits_reg, hop, hy]
  exact emit4_access k f rn rt b

end

/-- A number of 12 bits in the fields of an access. -/
theorem bits_fields {n : Nat} (hn : n < 4096) :
    bits n = (BitVec.ofNat 4 (n / 256)).setWidth 32 <<< 8 ||| (BitVec.ofNat 8 n).setWidth 32 := by
  have hlo : (BitVec.ofNat 8 n).setWidth 32 = BitVec.ofNat 32 (n % 256) := by
    apply BitVec.eq_of_toNat_eq
    simp only [BitVec.toNat_setWidth, BitVec.toNat_ofNat]
  have hhi : (BitVec.ofNat 4 (n / 256)).setWidth 32 <<< 8 =
      BitVec.ofNat 32 (2 ^ 8 * (n / 256)) := by
    apply BitVec.eq_of_toNat_eq
    simp only [BitVec.toNat_shiftLeft, BitVec.toNat_setWidth, BitVec.toNat_ofNat, Nat.shiftLeft_eq]
    omega
  rw [hlo, hhi, bits, BitVec.ofInt_natCast]
  apply BitVec.eq_of_toNat_eq
  rw [BitVec.toNat_or, BitVec.toNat_ofNat, BitVec.toNat_ofNat, BitVec.toNat_ofNat,
    Nat.mod_eq_of_lt (by omega), Nat.mod_eq_of_lt (by omega), Nat.mod_eq_of_lt (by omega),
    ← Nat.two_pow_add_eq_or_of_lt (show n % 256 < 2 ^ 8 by omega)]
  omega

/-- The low bits of an offset. -/
theorem field_low (off : Int) {k : Nat} (hk : k ≤ 32) :
    field off 0 (BitVec.ofNat 32 (2 ^ k - 1)) = (BitVec.ofInt k off).setWidth 32 := by
  have hpow : 2 ^ k ≤ 2 ^ 32 := Nat.pow_le_pow_right (by decide) hk
  have hpos : 0 < 2 ^ k := Nat.two_pow_pos k
  have hdvd : ((2 ^ k : Nat) : Int) ∣ ((2 ^ 32 : Nat) : Int) :=
    Int.natCast_dvd_natCast.2 (Nat.pow_dvd_pow 2 hk)
  have hmod : (off % ((2 ^ 32 : Nat) : Int) % ((2 ^ k : Nat) : Int)).toNat =
      (off % ((2 ^ 32 : Nat) : Int)).toNat % 2 ^ k := by
    rw [Int.toNat_emod (Int.emod_nonneg _ (by decide)) (by omega), Int.toNat_natCast]
  rw [field, BitVec.sshiftRight_zero, bits]
  apply BitVec.eq_of_toNat_eq
  rw [BitVec.toNat_and, BitVec.toNat_setWidth, BitVec.toNat_ofInt, BitVec.toNat_ofInt,
    BitVec.toNat_ofNat, Nat.mod_eq_of_lt (show 2 ^ k - 1 < 2 ^ 32 by omega),
    Nat.and_two_pow_sub_one_eq_mod, ← Int.emod_emod_of_dvd off hdvd, hmod,
    Nat.mod_eq_of_lt (Nat.lt_of_lt_of_le (Nat.mod_lt _ hpos) hpow)]

theorem append_fields (f : BitVec 4) (b : BitVec 8) :
    (f ++ b).setWidth 32 = f.setWidth 32 <<< 8 ||| b.setWidth 32 := by
  apply BitVec.eq_of_toNat_eq
  rw [BitVec.toNat_setWidth_of_le (by decide), BitVec.toNat_append, BitVec.toNat_or,
    BitVec.toNat_shiftLeft, BitVec.toNat_setWidth_of_le (by decide),
    BitVec.toNat_setWidth_of_le (by decide), Nat.mod_eq_of_lt]
  have := f.isLt
  rw [Nat.shiftLeft_eq]
  omega

section
variable (rt rn : Reg) {off : Int}

theorem emit4_ldrbShort (hoff : off ≤ 0xff ∧ off ≥ -0xff) :
    emit4 (thumb32LdrbImmT3 rt.toNat rn.toNat off) =
      [accessHigh (accessKind false .byte true) rn,
        accessLow rt (if 0 ≤ off then 0b1110 else 0b1100) (BitVec.ofNat 8 off.natAbs)] := by
  rw [thumb32LdrbImmT3, BitVec.or_assoc]
  refine emit4_fields _ _ _ _ _ (by decide) ?_
  rw [bits_fields (by omega), Nat.div_eq_of_lt (by omega), ← BitVec.or_assoc]
  congr 1
  by_cases h : 0 ≤ off
  · rw [if_pos h, puw, if_pos trivial, if_pos h]
    decide
  · rw [if_neg h, puw, if_pos trivial, if_neg h]
    decide

theorem emit4_ldrbLong (h0 : 0 ≤ off) (hoff : off ≤ 0xfff) :
    emit4 (0xf8900000 ||| bits rn.toNat <<< 16 ||| bits rt.toNat <<< 12 ||| bits off) =
      [accessHigh (accessKind true .byte true) rn,
        accessLow rt (BitVec.ofNat 4 (off.natAbs / 256)) (BitVec.ofNat 8 off.natAbs)] := by
  obtain ⟨n, rfl⟩ := Int.eq_ofNat_of_zero_le h0
  exact emit4_fields _ _ _ _ _ (by decide) (bits_fields (by omega))

theorem emit4_ldrhShort :
    emit4 (0xf8300000 ||| bits rn.toNat <<< 16 ||| bits rt.toNat <<< 12 ||| 0b1110 <<< 8 |||
      field off 0 0xff) = [accessHigh (accessKind false .half true) rn,
        accessLow rt 0b1110 (BitVec.ofInt 8 off)] := by
  rw [BitVec.or_assoc]
  exact emit4_fields _ _ _ _ _ (by decide) (congrArg₂ _ (by decide) (@field_low off 8 (by decide)))

/-- The flags of a load of a word: an offset of more than 8 bits changes them. -/
def wordFlags (off : Int) : BitVec 4 :=
  (if 0 ≤ off then 0b1110 else 0b1100) ||| BitVec.ofNat 4 (off.natAbs / 256)

theorem emit4_ldrShort (h0 : off ≠ 0) (hoff : -0xfff ≤ off ∧ off ≤ 0xfff) :
    emit4 (thumb32LdrImmT4 rt.toNat rn.toNat off) =
      [accessHigh (accessKind false .word true) rn,
        accessLow rt (wordFlags off) (BitVec.ofNat 8 off.natAbs)] := by
  have hsplit : ∀ op a b p n : BitVec 32, op = 0xf8500000 ||| 0x800 →
      op ||| a ||| b ||| p ||| n = 0xf8500000 ||| a ||| b ||| (0x800 ||| p ||| n) := by
    rintro _ a b p n rfl
    ac_rfl
  have hflags : ∀ g : BitVec 4,
      (0x800 : BitVec 32) ||| (0b100 ||| 0b010 : BitVec 32) <<< 8 ||| g.setWidth 32 <<< 8 =
        (0b1110 ||| g).setWidth 32 <<< 8 ∧
      (0x800 : BitVec 32) ||| (0b100 ||| 0 : BitVec 32) <<< 8 ||| g.setWidth 32 <<< 8 =
        (0b1100 ||| g).setWidth 32 <<< 8 := by decide
  rw [thumb32LdrImmT4, hsplit _ _ _ _ _ (by decide)]
  refine emit4_fields _ _ _ _ _ (by decide) ?_
  rw [bits_fields (by omega), ← BitVec.or_assoc, puw, if_pos h0, wordFlags]
  congr 1
  by_cases h : 0 ≤ off
  · rw [if_pos h, if_pos h]
    exact (hflags _).1
  · rw [if_neg h, if_neg h]
    exact (hflags _).2

theorem emit4_ldrLong :
    emit4 (0xf8d00000 ||| bits rn.toNat <<< 16 ||| bits rt.toNat <<< 12 ||| field 0 0 0xfff) =
      [accessHigh (accessKind true .word true) rn, accessLow rt 0 0] :=
  emit4_fields _ _ _ _ _ (by decide) (by decide)

end

/-! ## Loads -/

/-- The code loads to `rt`, or stores `rt`, at the offset `z` from `b`; the sum is written back if
`wb`. -/
def Accesses (ld : Bool) (c : Code) (w : Width) (rt b : Reg) (wb : Bool) (z : Int) : Prop :=
  ∃ u, ∀ sys s c', runCode sys (c ++ c') s =
    (Inst.exec sys s (.access ld w u rt b ⟨true, wb, bits z⟩)).bind (runCode sys c')

theorem accesses_of_disassemble {c : Code} {w : Width} {u : Bool} {rt b : Reg} {wb : Bool} {z : Int}
    (h : disassemble c = some [.load w u rt b ⟨true, wb, bits z⟩]) : Accesses true c w rt b wb z :=
  ⟨u, fun _ _ _ => runCode_bind (disassemble_append h) (fun _ _ e =>
    Inst.noConfusion (Option.some.inj e))
    rfl⟩

/-- The registers of the low halves that are loaded, and those that can be the base. -/
def loadRegs : List Reg := [0, 2, 4, 6]

def baseRegs : List Reg := [0, 2, 4, 7, 8]

theorem load_registers : (∀ rt ∈ loadRegs, special rt = false ∧ rt.toNat < 8) ∧
    ∀ rm ∈ baseRegs, rm ≠ 15 ∧ (rm.toNat < 8 ↔ rm ≠ 8) ∧
      (rm ≠ 8 → (rm.extractLsb' 0 3).setWidth 4 = rm ∧ rm.extractLsb' 3 1 = 0) := by decide

/-- The offset of 8 bits. -/
theorem memOff_bits (u : Bool) (n : Nat) :
    memOff u ((BitVec.ofNat 8 n).setWidth 32) =
      bits (if u then (n % 256 : Nat) else -(n % 256 : Nat)) := by
  have h : (BitVec.ofNat 8 n).setWidth 32 = BitVec.ofNat 32 (n % 256) := by
    apply BitVec.eq_of_toNat_eq
    simp only [BitVec.toNat_setWidth, BitVec.toNat_ofNat]
  rw [h, memOff, bits]
  cases u with
  | true => exact (BitVec.ofInt_natCast _ _).symm
  | false =>
    rw [if_neg Bool.false_ne_true, if_neg Bool.false_ne_true, BitVec.ofInt_neg,
      BitVec.ofInt_natCast]

section
variable {rt rm : Reg} {off : Int}

/-- An access with an offset of 8 bits. -/
theorem accesses_short {ld : Bool} {w : Width} {f : BitVec 4} {n : Nat} {wb : Bool} {z : Int}
    (ht : special rt = false) (hm : rm ≠ 15) (h3 : f.getLsbD 3 = true) (h2 : f.getLsbD 2 = true)
    (h0 : f.getLsbD 0 = wb) (hwb : wb = true → rm ≠ rt)
    (hz : (if f.getLsbD 1 then ((n % 256 : Nat) : Int) else -(n % 256 : Nat)) = z) :
    Accesses ld [accessHigh (accessKind false w ld) rm,
      accessLow rt f (BitVec.ofNat 8 n)] w rt rm wb
      z := by
  subst h0 hz
  refine ⟨f.getLsbD 1 && !f.getLsbD 0, fun sys s c => ?_⟩
  rw [← memOff_bits]
  exact runCode_accessShort w ld f rm rt _ ht hm h3 h2 hwb sys s c

/-- The flags for an offset that is added or subtracted. -/
theorem accesses_signed {ld : Bool} {w : Width} (ht : special rt = false) (hm : rm ≠ 15)
    (hoff : off ≤ 0xff ∧ off ≥ -0xff) :
    Accesses ld [accessHigh (accessKind false w ld) rm,
      accessLow rt (if 0 ≤ off then 0b1110 else 0b1100) (BitVec.ofNat 8 off.natAbs)] w rt rm false
      off := by
  by_cases h : 0 ≤ off
  · rw [if_pos h]
    exact accesses_short ht hm rfl rfl rfl (fun e => by cases e)
      (show ((_ : Nat) : Int) = _ by omega)
  · rw [if_neg h]
    exact accesses_short ht hm rfl rfl rfl (fun e => by cases e)
      (show -((_ : Nat) : Int) = _ by omega)

theorem accesses_long {ld : Bool} {w : Width} {f : BitVec 4} {b : BitVec 8}
    (ht : special rt = false) (hm : rm ≠ 15)
    {z : Int} (hz : (f ++ b).setWidth 32 = bits z) :
    Accesses ld [accessHigh (accessKind true w ld) rm, accessLow rt f b] w rt rm false z := by
  refine ⟨false, fun sys s c => ?_⟩
  rw [← hz]
  exact runCode_accessLong w ld f rm rt b ht hm sys s c

theorem disassemble_ldrbNarrow (ht : rt.toNat < 8) (hm : (rm.extractLsb' 0 3).setWidth 4 = rm)
    (hm' : rm.extractLsb' 3 1 = 0) {n : Nat} (hn : n < 32) :
    disassemble (emit2 (thumb16LdrbImmT1 rt.toNat rm.toNat n)) =
      some [.load .byte false rt rm ⟨true, false, bits n⟩] := by
  obtain ⟨q, rfl⟩ := exists_low ht
  obtain ⟨h1, h2, h3, h4⟩ := narrow_fields 0b01111 (BitVec.ofNat 5 n) rm q
  have hb : bits n = (BitVec.ofNat 5 n).setWidth 32 := by
    rw [bits, BitVec.ofInt_natCast]
    apply BitVec.eq_of_toNat_eq
    simp only [BitVec.toNat_setWidth, BitVec.toNat_ofNat]
    omega
  rw [thumb16LdrbImmT1, bits_reg, bits_reg, hb]
  have hd := disassemble_narrowLoad false h1
  rw [h2, h3, h4, hm, hm'] at hd
  refine hd.trans ?_
  rw [show ((0 : BitVec 1).setWidth 5) = 0#5 from rfl, BitVec.or_zero]
  rfl

theorem accesses_ldrb (hrt : rt ∈ loadRegs) (hrm : rm ∈ baseRegs) (hoff : off ≤ 0xfff)
    (hok : 0 ≤ off ∨ -255 ≤ off ∧ (off ≤ -32 ∨ rm = 8)) :
    Accesses true (emitLdrbI rt.toNat rm.toNat off) .byte rt rm false off := by
  obtain ⟨ht, ht8⟩ := load_registers.1 rt hrt
  obtain ⟨hm, hm8, hm'⟩ := load_registers.2 rm hrm
  rw [emitLdrbI]
  split
  · rename_i h
    have h8 : rm ≠ 8 := hm8.1 (by omega)
    obtain ⟨n, rfl⟩ := Int.eq_ofNat_of_zero_le (show 0 ≤ off by
      rcases hok with h0 | ⟨-, h0 | h0⟩
      · exact h0
      · omega
      · exact absurd h0 h8)
    exact accesses_of_disassemble (disassemble_ldrbNarrow ht8 (hm' h8).1 (hm' h8).2 (by omega))
  split
  · rename_i h
    rw [emit4_ldrbShort rt rm h]
    exact accesses_signed ht hm h
  · rename_i h1 h2
    have h0 : 0 ≤ off := by omega
    rw [if_pos (by omega), emit4_ldrbLong rt rm h0 hoff]
    obtain ⟨n, rfl⟩ := Int.eq_ofNat_of_zero_le h0
    refine accesses_long ht hm ?_
    rw [append_fields]
    exact (bits_fields (by omega)).symm

theorem bits_negative (hoff : -65536 ≤ off ∧ off < 0) :
    (bits off).extractLsb' 16 16 = BitVec.allOnes 16 := by
  apply BitVec.eq_of_toNat_eq
  rw [BitVec.extractLsb'_toNat, bits, BitVec.toNat_ofInt, Nat.shiftRight_eq_div_pow,
    BitVec.toNat_allOnes]
  omega

theorem decodeWide_ones (h : Half) : decodeWide (BitVec.allOnes 16) h = none := by
  rfl

/-- The sign of an offset is in the opcode then. -/
theorem runCode_ldrbLong {x : BitVec 32} (hoff : -65536 ≤ off ∧ off < 0) (sys : Sys) (s : State)
    (c : Code) : runCode sys (emit4 (x ||| bits off) ++ c) s = none := by
  have hh : (x ||| bits off).extractLsb' 16 16 = BitVec.allOnes 16 := by
    rw [BitVec.extractLsb'_or, bits_negative hoff, BitVec.or_allOnes]
  rw [runCode, emit4, hh, List.cons_append, List.cons_append, disassemble,
    if_pos (by decide), decodeWide_ones]
  rfl

/-- A narrow load with a negative offset has the opcode of a wide instruction. -/
theorem isWide_ldrbNarrow {r q : Int} (hoff : -31 ≤ off ∧ off < 0) :
    isWide (thumb16LdrbImmT1 r q off) = true := by
  have hones : (bits off).extractLsb' 5 5 = 0b11111 := by
    apply BitVec.eq_of_toNat_eq
    rw [BitVec.extractLsb'_toNat, bits, BitVec.toNat_ofInt, Nat.shiftRight_eq_div_pow]
    show _ = 31
    omega
  rw [thumb16LdrbImmT1]
  generalize bits off = v at hones
  refine isWide_of_extract (c := 0b11111) ?_ (by decide)
  apply BitVec.eq_of_getLsbD_eq
  intro i hi
  have hv := congrArg (BitVec.getLsbD · i) hones
  simp only [BitVec.getLsbD_extractLsb', hi, decide_true, Bool.true_and] at hv
  interval_cases i <;> simp_all

/-- Code that is cut off within an instruction, or ends with a halfword that is none. -/
theorem runCode_cut {h : Half} {c : Code} (hh : isWide h = true)
    (hc : c = [] ∨ ∃ h1 h2, c = [h1, h2] ∧ disassemble [h2] = none) (sys : Sys) (s : State) :
    runCode sys (emit2 h ++ c) s = none := by
  have hd : disassemble (emit2 h ++ c) = none := by
    rcases hc with rfl | ⟨h1, h2, rfl, h2n⟩
    · rw [emit2, List.append_nil, disassemble, if_pos hh]
    · rw [emit2, List.singleton_append, disassemble, if_pos hh, h2n]
      cases decodeWide h h1 <;> rfl
  rw [runCode, hd]
  rfl

theorem bits_toNat {z : Int} {n : Nat} (h : z = n) : BitVec.ofNat 32 n = bits z := by
  rw [h, bits, BitVec.ofInt_natCast]

/-- The narrow load of a halfword doubles its offset; a base above `r7` changes it. -/
theorem disassemble_ldrhNarrow (ht : rt.toNat < 8) :
    disassemble (emit2 ((0x8800 ||| field off 0 31 <<< 6 ||| bits rm.toNat <<< 3 |||
      bits rt.toNat).setWidth 16)) = some [.load .half false rt ((rm.extractLsb' 0 3).setWidth 4)
        ⟨true, false, bits (2 * (off % 32) +
          if rm.extractLsb' 3 1 = 1 ∧ off % 2 = 0 then 2 else 0)⟩] := by
  obtain ⟨q, rfl⟩ := exists_low ht
  obtain ⟨h1, h2, h3, h4⟩ := narrow_fields 0b10001 (BitVec.ofInt 5 off) rm q
  have hf : field off 0 31 = (BitVec.ofInt 5 off).setWidth 32 := @field_low off 5 (by decide)
  have hd := disassemble_narrowLoad true h1
  rw [h2, h3, h4] at hd
  rw [bits_reg, bits_reg, hf]
  refine hd.trans ?_
  -- the bit above the field of the base is the lowest one of the offset
  have htwice : ∀ imm : BitVec 5, ∀ e : BitVec 1, ((imm ||| e.setWidth 5) ++ 0#1).setWidth 32 =
      BitVec.ofNat 32 (2 * imm.toNat + if e = 1 ∧ imm.toNat % 2 = 0 then 2 else 0) := by decide
  have himm : (BitVec.ofInt 5 off).toNat = (off % 32).toNat := BitVec.toNat_ofInt ..
  have hz : 2 * (off % 32) + (if rm.extractLsb' 3 1 = 1 ∧ off % 2 = 0 then 2 else 0) =
      ((2 * (off % 32).toNat +
        if rm.extractLsb' 3 1 = 1 ∧ (off % 32).toNat % 2 = 0 then 2 else 0 : Nat) : Int) := by
    by_cases he : rm.extractLsb' 3 1 = 1
    · simp only [he, true_and]
      split_ifs <;> omega
    · simp only [he, false_and, if_false]
      omega
  rw [if_pos rfl, if_pos rfl, htwice, himm, bits_toNat hz]

/-- A load of a halfword. -/
theorem accesses_ldrh (hrt : rt ∈ loadRegs) (hrm : rm ∈ baseRegs)
    (hoff : off ≤ 0xff ∧ off ≥ -0xff) :
    ∃ b z, Accesses true (emitLdrhI rt.toNat rm.toNat off) .half rt b false z ∧ (b = rm ∨ b = 0) ∧
      0 ≤ z ∧ z < 256 ∧ if off = 0 ∧ rm ≠ 8 ∨ 32 ≤ off then b = rm ∧ z = off else z ≠ off := by
  obtain ⟨ht, ht8⟩ := load_registers.1 rt hrt
  obtain ⟨hm, hm8, hm'⟩ := load_registers.2 rm hrm
  rw [emitLdrhI]
  split
  · rename_i h
    refine ⟨_, _, accesses_of_disassemble (disassemble_ldrhNarrow ht8), ?_⟩
    by_cases h8 : rm = 8
    · subst h8
      refine ⟨.inr rfl, ?_⟩
      have he : (8 : Reg).extractLsb' 3 1 = 1 := by decide
      simp only [he, true_and, ne_eq, not_true_eq_false, and_false, false_or]
      refine ⟨by omega, by split <;> omega, ?_⟩
      rw [if_neg (by omega)]
      split <;> omega
    · obtain ⟨hb, he⟩ := hm' h8
      have he' : rm.extractLsb' 3 1 ≠ 1 := he ▸ by decide
      refine ⟨.inl hb, ?_⟩
      simp only [he', hb, h8, ne_eq, not_false_eq_true, and_true, false_and, if_false, true_and]
      refine ⟨by omega, by omega, ?_⟩
      split <;> omega
  · rename_i h
    have hn : BitVec.ofInt 8 off = BitVec.ofNat 8 (off % 256).toNat := by
      apply BitVec.eq_of_toNat_eq
      simp only [BitVec.toNat_ofInt, BitVec.toNat_ofNat]
      omega
    rw [emit4_ldrhShort, hn]
    refine ⟨rm, off % 256, accesses_short ht hm rfl rfl rfl (fun e => by cases e)
      (show ((_ : Nat) : Int) = _ by omega), .inl rfl, by omega, by omega, ?_⟩
    split
    · exact ⟨rfl, by omega⟩
    · omega

/-- The other offsets of a load of a byte. -/
theorem ldrb_undefined (hrt : rt ∈ loadRegs) (hrm : rm ∈ baseRegs)
    (hoff : -0xfff ≤ off ∧ off ≤ 0xfff)
    (hbad : ¬ (0 ≤ off ∨ -255 ≤ off ∧ (off ≤ -32 ∨ rm = 8))) {c : Code}
    (hc : c = [] ∨ ∃ h1 h2, c = [h1, h2] ∧ disassemble [h2] = none) (sys : Sys) (s : State) :
    runCode sys (emitLdrbI rt.toNat rm.toNat off ++ c) s = none := by
  obtain ⟨-, ht8⟩ := load_registers.1 rt hrt
  obtain ⟨-, hm8, -⟩ := load_registers.2 rm hrm
  rw [emitLdrbI]
  by_cases hfar : off < -255
  · rw [if_neg (by omega), if_neg (by omega), if_pos (by omega)]
    exact runCode_ldrbLong (by omega) sys s c
  · have h8 : rm ≠ 8 := fun e => hbad (.inr ⟨by omega, .inr e⟩)
    have hn : rm.toNat < 8 := hm8.2 h8
    have h32 : ¬ off ≤ -32 := fun e => hbad (.inr ⟨by omega, .inl e⟩)
    have h0 : ¬ 0 ≤ off := fun e => hbad (.inl e)
    rw [if_pos (by omega)]
    exact runCode_cut (isWide_ldrbNarrow (by omega)) hc sys s

/-- A load of a word. -/
theorem accesses_ldr (rt rm : Reg) (off : Int) (ht : special rt = false) (hm : rm ≠ 15)
    (hne : rm ≠ rt ∨ -255 ≤ off ∧ off ≤ 255)
    (hoff : -0xfff ≤ off ∧ off ≤ 0xfff) :
    ∃ wb z, Accesses true (emitLdrI rt.toNat rm.toNat off) .word rt rm wb z ∧ -255 ≤ z ∧ z ≤ 255 ∧
      (-255 ≤ off ∧ off ≤ 255 → wb = false ∧ z = off) := by
  rw [emitLdrI]
  split
  · rename_i h0
    subst h0
    rw [emit4_ldrLong]
    exact ⟨false, 0, accesses_long ht hm (by decide), by decide, by decide, fun _ => ⟨rfl, rfl⟩⟩
  · rename_i h0
    rw [emit4_ldrShort rt rm h0 hoff]
    by_cases h : -255 ≤ off ∧ off ≤ 255
    · have hf : wordFlags off = if 0 ≤ off then 0b1110 else 0b1100 := by
        rw [wordFlags, Nat.div_eq_of_lt (by omega)]
        exact BitVec.or_zero
      rw [hf]
      exact ⟨false, off, accesses_signed ht hm (by omega), h.1, h.2, fun _ => ⟨rfl, rfl⟩⟩
    · have hflags : ∀ g : BitVec 4, (0b1110 ||| g).getLsbD 3 = true ∧
          (0b1110 ||| g).getLsbD 2 = true ∧
          (0b1100 ||| g).getLsbD 3 = true ∧ (0b1100 ||| g).getLsbD 2 = true := by decide
      obtain ⟨h3, h2⟩ : (wordFlags off).getLsbD 3 = true ∧ (wordFlags off).getLsbD 2 = true := by
        rw [wordFlags]
        split
        · exact ⟨(hflags _).1, (hflags _).2.1⟩
        · exact (hflags _).2.2
      refine ⟨_, _, accesses_short ht hm h3 h2 rfl (fun _ => hne.resolve_right h) rfl, ?_, ?_,
        fun e => absurd e h⟩
      · split <;> omega
      · split <;> omega

/-- The load of a byte, a halfword or a word. -/
def loadCode (rt rm off : Int) : Width → Code
  | .byte => emitLdrbI rt rm off
  | .half => emitLdrhI rt rm off
  | .word => emitLdrI rt rm off

/-- The bases and offsets that are encoded as they are. -/
def encodes (rm : Reg) (off : Int) : Width → Prop
  | .byte => 0 ≤ off ∨ -255 ≤ off ∧ (off ≤ -32 ∨ rm = 8)
  | .half => off = 0 ∧ rm ≠ 8 ∨ 32 ≤ off
  | .word => -255 ≤ off ∧ off ≤ 255

/-- The greatest offset that a load is emitted for. -/
def reach : Width → Int
  | .half => 0xff
  | .byte | .word => 0xfff

section
variable {w : Width} (hrt : rt ∈ loadRegs) (hrm : rm ∈ baseRegs) (hne : rm ≠ rt)
  (hoff : -reach w ≤ off ∧ off ≤ reach w)
include hrt hrm hne hoff

/-- **Loads from the right place.** -/
theorem accesses_right (hok : encodes rm off w) :
    Accesses true (loadCode rt.toNat rm.toNat off w) w rt rm false off := by
  cases w with
  | byte => exact accesses_ldrb hrt hrm hoff.2 hok
  | half =>
    obtain ⟨b, z, hA, -, -, -, hif⟩ := accesses_ldrh hrt hrm ⟨hoff.2, hoff.1⟩
    rw [if_pos (show off = 0 ∧ rm ≠ 8 ∨ 32 ≤ off from hok)] at hif
    rw [hif.1, hif.2] at hA
    exact hA
  | word =>
    obtain ⟨wb, z, hA, -, -, hif⟩ := accesses_ldr rt rm off (load_registers.1 rt hrt).1
      (load_registers.2 rm hrm).1 (.inl hne) hoff
    obtain ⟨rfl, rfl⟩ := hif hok
    exact hA

/-- **Loads from another place**, or none. -/
theorem accesses_wrong (hbad : ¬ encodes rm off w) {c : Code}
    (hc : c = [] ∨ ∃ h1 h2, c = [h1, h2] ∧ disassemble [h2] = none) :
    (∀ sys s, runCode sys (loadCode rt.toNat rm.toNat off w ++ c) s = none) ∨
      ∃ b wb z, Accesses true (loadCode rt.toNat rm.toNat off w) w rt b wb z ∧
        (b = rm ∨ b = 0) ∧ z ≠ off ∧ -255 ≤ z ∧ z ≤ 255 := by
  cases w with
  | byte => exact .inl (ldrb_undefined hrt hrm hoff hbad hc)
  | half =>
    obtain ⟨b, z, hA, hb, h0, h1, hif⟩ := accesses_ldrh hrt hrm ⟨hoff.2, hoff.1⟩
    rw [if_neg (show ¬ (off = 0 ∧ rm ≠ 8 ∨ 32 ≤ off) from hbad)] at hif
    exact .inr ⟨b, false, z, hA, hb, hif, by omega, by omega⟩
  | word =>
    obtain ⟨wb, z, hA, h0, h1, -⟩ := accesses_ldr rt rm off (load_registers.1 rt hrt).1
      (load_registers.2 rm hrm).1 (.inl hne) hoff
    refine .inr ⟨rm, wb, z, hA, .inl rfl, fun e => hbad ?_, h0, h1⟩
    subst e
    exact ⟨h0, h1⟩

end

end

/-! ## Stores -/

section
variable {rt rn : Reg} {off : Int}

/-- The encoders of the stores of a byte and a halfword set all flags. -/
theorem emit4_strNarrow {op : BitVec 32} {w : Width}
    (hop : op = (0xf8000000 ||| (accessKind false w false).setWidth 32 <<< 20) ||| 0x800)
    (hoff : -0xfff ≤ off ∧ off ≤ 0xfff) :
    emit4 (thumb32StrNarrow op rn.toNat rt.toNat off) =
      [accessHigh (accessKind false w false) rn,
        accessLow rt 0b1111 (BitVec.ofNat 8 off.natAbs)] := by
  have hsplit : ∀ o a b p n : BitVec 32, (o ||| 0x800) ||| a ||| b ||| p ||| n =
      o ||| a ||| b ||| (0x800 ||| p ||| n) := by
    intro o a b p n
    ac_rfl
  rw [thumb32StrNarrow, hop, hsplit]
  refine emit4_fields _ _ _ _ _ rfl ?_
  rw [bits_fields (by omega), ← BitVec.or_assoc, puw]
  congr 1
  generalize BitVec.ofNat 4 (off.natAbs / 256) = g
  revert g
  split_ifs <;> decide

theorem emit4_strI :
    emitStrI rn.toNat rt.toNat off =
      [accessHigh (accessKind false .word false) rn,
        accessLow rt (if off = 0 then 0b1000 else if 0 < off then 0b1110 else 0b1100)
          (BitVec.ofNat 8 off.natAbs)] := by
  have hf : field off.natAbs 0 0xff = (BitVec.ofNat 8 off.natAbs).setWidth 32 := by
    rw [← BitVec.ofInt_natCast]
    exact @field_low off.natAbs 8 (by decide)
  rw [emitStrI, BitVec.or_assoc]
  refine emit4_fields _ _ _ _ _ (by decide) ?_
  rw [hf, puw]
  congr 1
  split_ifs <;> first | decide | omega

/-- A store of a byte or a halfword: the sign of the offset is lost, and the base is written. -/
theorem accesses_strNarrow {op : BitVec 32} {w : Width}
    (hop : op = (0xf8000000 ||| (accessKind false w false).setWidth 32 <<< 20) ||| 0x800)
    (ht : special rt = false) (hn : rn ≠ 15) (hne : rn ≠ rt) (hoff : -0xfff ≤ off ∧ off ≤ 0xfff) :
    Accesses false (emit4 (thumb32StrNarrow op rn.toNat rt.toNat off)) w rt rn true
      (off.natAbs % 256 : Nat) := by
  rw [emit4_strNarrow hop hoff]
  exact accesses_short ht hn rfl rfl rfl (fun _ => hne) rfl

theorem strNarrow_undefined {op : BitVec 32} {w : Width}
    (hop : op = (0xf8000000 ||| (accessKind false w false).setWidth 32 <<< 20) ||| 0x800)
    (hoff : -0xfff ≤ off ∧ off ≤ 0xfff) (sys : Sys) (s : State) (c : Code) :
    runCode sys (emit4 (thumb32StrNarrow op rn.toNat rn.toNat off) ++ c) s = none := by
  rw [emit4_strNarrow hop hoff]
  exact runCode_accessUndefined w false 0b1111 rn rn _ (.inr ⟨rfl, rfl⟩) sys s c

/-- A store of a word: 8 bits of the offset are left. -/
theorem accesses_strI (ht : special rt = false) (hn : rn ≠ 15) (h0 : off ≠ 0) :
    Accesses false (emitStrI rn.toNat rt.toNat off) .word rt rn false
      (if 0 < off then ((off.natAbs % 256 : Nat) : Int) else -(off.natAbs % 256 : Nat)) := by
  rw [emit4_strI, if_neg h0]
  by_cases h : 0 < off
  · rw [if_pos h, if_pos h]
    exact accesses_short ht hn rfl rfl rfl (fun e => by cases e) rfl
  · rw [if_neg h, if_neg h]
    exact accesses_short ht hn rfl rfl rfl (fun e => by cases e) rfl

theorem strI_undefined (sys : Sys) (s : State) (c : Code) :
    runCode sys (emitStrI rn.toNat rt.toNat 0 ++ c) s = none := by
  rw [emit4_strI, if_pos rfl]
  exact runCode_accessUndefined .word false 0b1000 rn rt _ (.inl ⟨rfl, rfl⟩) sys s c

end

end BlueSwat.Jit
