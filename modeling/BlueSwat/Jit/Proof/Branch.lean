import Mathlib.Tactic.IntervalCases
import BlueSwat.Jit.Layout
import BlueSwat.Jit.Proof.EmitSize

/-!
# Branches decode to their distance

`branchTarget_emitJump`, `branchTarget_emitB`: an even distance that is in range is the one that the
branch goes. The encoders put the bits of the distance from 1 on into the immediate of the
instruction (`thumb16BT1_fields` and the like), and the decoder sign-extends them to the distance
(`signExtend_field`). The wide unconditional branch has the opcode of the conditional one, so it is
decoded as that; `branches_decode_iff` has all encoders over the distances that they accept.
-/

set_option autoImplicit false

namespace BlueSwat.Jit

open Ebpf

/-! ## The bits of a distance -/

theorem extractLsb'_append {w : Nat} (x : BitVec w) (a n m : Nat) :
    x.extractLsb' (a + n) m ++ x.extractLsb' a n = x.extractLsb' a (m + n) := by
  apply BitVec.eq_of_getLsbD_eq
  intro i hi
  rw [BitVec.getLsbD_append, BitVec.getLsbD_extractLsb', BitVec.getLsbD_extractLsb',
    BitVec.getLsbD_extractLsb']
  by_cases h : i < n
  · simp [h, hi]
  · simp [h, hi, show i - n < m by omega, show a + n + (i - n) = a + i by omega]

theorem toNat_field_append {n : Nat} (m : Int) (hn : n ≤ 31) :
    (((BitVec.ofInt 32 (2 * m)).extractLsb' 1 n ++ 0#1).toNat : Int) = 2 * m % (2 * 2 ^ n) := by
  have hhalf : (2 * m % 2 ^ 32).toNat / 2 = (m % 2 ^ 31).toNat := by omega
  have hdvd : (2 : Int) ^ n ∣ 2 ^ 31 := pow_dvd_pow 2 hn
  have hcast : ((m % 2 ^ 31).toNat : Int) = m % 2 ^ 31 :=
    Int.toNat_of_nonneg (Int.emod_nonneg m (by decide))
  rw [BitVec.toNat_append, BitVec.extractLsb'_toNat, BitVec.toNat_ofInt,
    Int.mul_emod_mul_of_pos _ _ (by decide)]
  show (((2 * m % 2 ^ 32).toNat >>> 1 % 2 ^ n) <<< 1 ||| 0 : Nat) = (_ : Int)
  rw [Nat.or_zero, Nat.shiftLeft_eq, Nat.pow_one, Nat.shiftRight_eq_div_pow, Nat.pow_one, hhalf,
    Int.natCast_mul, Int.natCast_emod, hcast, Nat.cast_pow, Nat.cast_ofNat,
    Int.emod_emod_of_dvd m hdvd, Int.mul_comm]

/-- An even distance that `n + 1` bits hold is its bits from 1 on, sign-extended. -/
theorem signExtend_field {n : Nat} {off : Int} (hn : n ≤ 31) (hr : -2 ^ n ≤ off ∧ off < 2 ^ n)
    (he : off % 2 = 0) :
    ((BitVec.ofInt 32 off).extractLsb' 1 n ++ 0#1).signExtend 32 = BitVec.ofInt 32 off := by
  obtain ⟨m, rfl⟩ : ∃ m, off = 2 * m := ⟨off / 2, by omega⟩
  have hpow : (2 : Int) ^ n ≤ 2 ^ 31 := pow_le_pow_right₀ (by decide) hn
  have hsucc : ((2 ^ (n + 1) : Nat) : Int) = 2 * 2 ^ n := by
    rw [Nat.cast_pow, Nat.cast_ofNat, pow_succ, Int.mul_comm]
  apply BitVec.eq_of_toInt_eq
  rw [BitVec.toInt_signExtend_of_le (by omega), BitVec.toInt_eq_toNat_bmod,
    toNat_field_append m hn, ← hsucc, Int.emod_bmod, BitVec.toInt_ofInt,
    Int.bmod_eq_of_le (by omega) (by omega), Int.bmod_eq_of_le (by omega) (by omega)]

/-- Bit 20 of a distance that 21 bits hold is its sign. -/
theorem extract_sign {off : Int} (hr : -2 ^ 20 ≤ off ∧ off < 2 ^ 20) :
    (BitVec.ofInt 32 off).extractLsb' 20 1 = BitVec.ofBool (off < 0) := by
  have hbit : (BitVec.ofInt 32 off).getLsbD 20 = decide (off < 0) := by
    rw [BitVec.getLsbD, BitVec.toNat_ofInt, Nat.testBit_eq_decide_div_mod_eq, decide_eq_decide]
    omega
  apply BitVec.eq_of_getLsbD_eq
  intro i hi
  obtain rfl : i = 0 := by omega
  simpa using hbit

/-! ## The encodings -/

/-- A halfword of a branch: the first bit rules out the other instructions. -/
theorem decode16_branch {h : BitVec 16} (h15 : h.getLsbD 15 = true) :
    Thumb.decode16 h =
      if h.extractLsb' 12 4 = 0b1101 then
        Thumb.guarded (14 ≤ (h.extractLsb' 8 4).toNat)
          (.b (h.extractLsb' 8 4) ((h.extractLsb' 0 8 ++ 0#1).signExtend 32))
      else if h.extractLsb' 11 5 = 0b11100 then
        some (.b Thumb.always ((h.extractLsb' 0 11 ++ 0#1).signExtend 32))
      else none := by
  have hne : ∀ {n s : Nat} (k : Nat) (c : BitVec n), k < n → s + k = 15 → c.getLsbD k = false →
      h.extractLsb' s n ≠ c := by
    rintro n s k c hk hs hc rfl
    rw [BitVec.getLsbD_extractLsb', hs, h15, Bool.and_true, decide_eq_false_iff_not] at hc
    exact hc hk
  simp only [Thumb.decode16]
  rw [if_neg (hne 4 _ (by decide) rfl rfl), if_neg (hne 9 _ (by decide) rfl rfl),
    if_neg (hne 9 _ (by decide) rfl rfl), if_neg (hne 7 _ (by decide) rfl rfl),
    if_neg (hne 7 _ (by decide) rfl rfl)]

theorem getLsbD_of_extract {h : BitVec 16} {n s : Nat} {c : BitVec n}
    (hc : h.extractLsb' s n = c) {k : Nat} (hk : k < n) : h.getLsbD (s + k) = c.getLsbD k := by
  rw [← hc, BitVec.getLsbD_extractLsb', decide_eq_true hk, Bool.true_and]

theorem thumb16BT1_fields (off : Int) (cond : BitVec 4) :
    (thumb16BT1 off cond).extractLsb' 12 4 = 0b1101 ∧ (thumb16BT1 off cond).extractLsb' 8 4 = cond ∧
      (thumb16BT1 off cond).extractLsb' 0 8 = (BitVec.ofInt 32 off).extractLsb' 1 8 := by
  simp only [thumb16BT1, field, bits]
  generalize BitVec.ofInt 32 off = w
  refine ⟨?_, ?_, ?_⟩ <;>
  · apply BitVec.eq_of_getLsbD_eq
    intro i hi
    interval_cases i <;> simp [BitVec.getElem_sshiftRight]

theorem thumb16BT2_fields (off : Int) :
    (thumb16BT2 off).extractLsb' 11 5 = 0b11100 ∧
      (thumb16BT2 off).extractLsb' 0 11 = (BitVec.ofInt 32 off).extractLsb' 1 11 := by
  simp only [thumb16BT2, field, bits]
  generalize BitVec.ofInt 32 off = w
  constructor <;>
  · apply BitVec.eq_of_getLsbD_eq
    intro i hi
    interval_cases i <;> simp [BitVec.getElem_sshiftRight]

/-- The first halfword of the wide conditional branch. -/
theorem thumb32BwT3_high (off : Int) (cond : BitVec 4) :
    let h := (thumb32BwT3 off cond).extractLsb' 16 16
    h.extractLsb' 11 5 = 0b11110 ∧ h.extractLsb' 10 1 = BitVec.ofBool (off < 0) ∧
      h.extractLsb' 6 4 = cond ∧ h.extractLsb' 0 6 = (BitVec.ofInt 32 off).extractLsb' 12 6 := by
  simp only [thumb32BwT3, field, bits, sign]
  generalize BitVec.ofInt 32 off = w
  refine ⟨?_, ?_, ?_, ?_⟩ <;>
  · apply BitVec.eq_of_getLsbD_eq
    intro i hi
    by_cases h : off < 0 <;> interval_cases i <;> simp [BitVec.getElem_sshiftRight, h]

/-- And the second. -/
theorem thumb32BwT3_low (off : Int) (cond : BitVec 4) :
    let h := (thumb32BwT3 off cond).extractLsb' 0 16
    h.extractLsb' 14 2 = 0b10 ∧ h.extractLsb' 13 1 = (BitVec.ofInt 32 off).extractLsb' 18 1 ∧
      h.extractLsb' 12 1 = 0 ∧ h.extractLsb' 11 1 = (BitVec.ofInt 32 off).extractLsb' 19 1 ∧
      h.extractLsb' 0 11 = (BitVec.ofInt 32 off).extractLsb' 1 11 := by
  simp only [thumb32BwT3, field, bits, sign]
  generalize BitVec.ofInt 32 off = w
  refine ⟨?_, ?_, ?_, ?_, ?_⟩ <;>
  · apply BitVec.eq_of_getLsbD_eq
    intro i hi
    by_cases h : off < 0 <;> interval_cases i <;> simp [BitVec.getElem_sshiftRight, h]

/-- The first halfword of the wide unconditional branch, and the bit of the second that should tell
it from the conditional one. -/
theorem thumb32BwT4_fields (off : Int) :
    ((thumb32BwT4 off).extractLsb' 16 16).extractLsb' 11 5 = 0b11110 ∧
      ((thumb32BwT4 off).extractLsb' 0 16).extractLsb' 14 2 = 0b10 ∧
      ((thumb32BwT4 off).extractLsb' 0 16).getLsbD 12 = false := by
  simp only [thumb32BwT4, field, bits, sign]
  generalize BitVec.ofInt 32 off = w
  refine ⟨?_, ?_, by by_cases h : off < 0 <;> simp [h]⟩ <;>
  · apply BitVec.eq_of_getLsbD_eq
    intro i hi
    by_cases h : off < 0 <;> interval_cases i <;> simp [BitVec.getElem_sshiftRight, h]

/-! ## Decoding -/

section
variable {off : Int} {cond : BitVec 4}

/-- The narrow conditional branch, whatever its distance. -/
theorem narrow_branch (off : Int) (hc : cond.toNat < 14) :
    Thumb.isWide (thumb16BT1 off cond) = false ∧
      Thumb.decode16 (thumb16BT1 off cond) =
        some (.b cond (((BitVec.ofInt 32 off).extractLsb' 1 8 ++ 0#1).signExtend 32)) := by
  obtain ⟨hop, hcond, himm⟩ := thumb16BT1_fields off cond
  have h15 := getLsbD_of_extract hop (show 3 < 4 by decide)
  have h13 := getLsbD_of_extract hop (show 1 < 4 by decide)
  constructor
  · have hlt : ∀ x : BitVec 5, x.getLsbD 2 = false → ¬ 29 ≤ x.toNat := by decide
    exact decide_eq_false (hlt _ (by simpa using h13))
  · rw [decode16_branch h15, if_pos hop, hcond, himm, Thumb.guarded, decide_eq_false (by omega)]
    rfl

theorem decode_thumb16BT1 (hc : cond.toNat < 14) (hr : -2 ^ 8 ≤ off ∧ off < 2 ^ 8)
    (he : off % 2 = 0) :
    Thumb.decode (thumb16BT1 off cond) 0 = some (.b cond (BitVec.ofInt 32 off), 2) := by
  obtain ⟨hnarrow, hdec⟩ := narrow_branch off hc
  rw [Thumb.decode, hnarrow, hdec, signExtend_field (by decide) hr he]
  rfl

theorem decode_thumb16BT2 (hr : -2 ^ 11 ≤ off ∧ off < 2 ^ 11) (he : off % 2 = 0) :
    Thumb.decode (thumb16BT2 off) 0 = some (.b Thumb.always (BitVec.ofInt 32 off), 2) := by
  obtain ⟨hop, himm⟩ := thumb16BT2_fields off
  have h15 := getLsbD_of_extract hop (show 4 < 5 by decide)
  have h12 := getLsbD_of_extract hop (show 1 < 5 by decide)
  have hnarrow : Thumb.isWide (thumb16BT2 off) = false := by
    rw [Thumb.isWide, hop]
    rfl
  have hcond : (thumb16BT2 off).extractLsb' 12 4 ≠ 0b1101 := fun h =>
    Bool.false_ne_true (h12.symm.trans (getLsbD_of_extract h (show 0 < 4 by decide)))
  rw [Thumb.decode, hnarrow, decode16_branch h15, if_neg hcond, if_pos hop, himm,
    signExtend_field (by decide) hr he]
  rfl

/-- Two halfwords of a wide branch. -/
theorem wide_branch {h1 h2 : BitVec 16} (hop : h1.extractLsb' 11 5 = 0b11110)
    (hop2 : h2.extractLsb' 14 2 = 0b10) :
    Thumb.isWide h1 = true ∧ Thumb.decode32 h1 h2 = Thumb.decodeBranch h1 h2 := by
  have hshifted : h1.extractLsb' 9 7 ≠ 0b1110101 := fun h =>
    Bool.false_ne_true ((getLsbD_of_extract hop (show 0 < 5 by decide)).symm.trans
      (getLsbD_of_extract h (show 2 < 7 by decide)))
  constructor
  · rw [Thumb.isWide, hop]
    rfl
  · rw [Thumb.decode32, if_neg hshifted, if_pos hop, if_pos hop2]

/-- The wide conditional branch, whatever its distance. -/
theorem decodeBranch_thumb32BwT3 (off : Int) (hc : cond.toNat < 14) :
    let w := BitVec.ofInt 32 off
    Thumb.decodeBranch ((thumb32BwT3 off cond).extractLsb' 16 16)
        ((thumb32BwT3 off cond).extractLsb' 0 16) =
      some (.b cond ((BitVec.ofBool (off < 0) ++ w.extractLsb' 19 1 ++ w.extractLsb' 18 1 ++
        w.extractLsb' 12 6 ++ w.extractLsb' 1 11 ++ 0#1).signExtend 32)) := by
  obtain ⟨-, hs, hcond, himm6⟩ := thumb32BwT3_high off cond
  obtain ⟨-, hj1, h12, hj2, himm11⟩ := thumb32BwT3_low off cond
  have hlink := getLsbD_of_extract h12 (show 0 < 1 by decide)
  rw [Thumb.decodeBranch, if_neg (by rw [hlink]; decide)]
  simp only [hs, hj1, hj2, himm6, himm11, hcond]
  rw [Thumb.guarded, decide_eq_false (by omega)]
  rfl

theorem decode_thumb32BwT3 (hc : cond.toNat < 14) (hr : -2 ^ 20 ≤ off ∧ off < 2 ^ 20)
    (he : off % 2 = 0) :
    Thumb.decode ((thumb32BwT3 off cond).extractLsb' 16 16)
        ((thumb32BwT3 off cond).extractLsb' 0 16) =
      some (.b cond (BitVec.ofInt 32 off), 4) := by
  obtain ⟨hwide, hdec⟩ := wide_branch (thumb32BwT3_high off cond).1 (thumb32BwT3_low off cond).1
  rw [Thumb.decode, if_pos hwide, hdec, decodeBranch_thumb32BwT3 off hc, ← extract_sign hr,
    extractLsb'_append _ 19 1 1, extractLsb'_append _ 18 1 2, extractLsb'_append _ 12 6 3,
    extractLsb'_append _ 1 11 9, signExtend_field (by decide) hr he]
  rfl

/-- The wide unconditional branch is taken for a conditional one, or is undefined. -/
theorem decode_thumb32BwT4 (off : Int) (d : BitVec 32) (n : Nat) :
    Thumb.decode ((thumb32BwT4 off).extractLsb' 16 16) ((thumb32BwT4 off).extractLsb' 0 16) ≠
      some (.b Thumb.always d, n) := by
  obtain ⟨hop, hop2, hlink⟩ := thumb32BwT4_fields off
  obtain ⟨hwide, hdec⟩ := wide_branch hop hop2
  rw [Thumb.decode, if_pos hwide, hdec, Thumb.decodeBranch, if_neg (by rw [hlink]; decide),
    Thumb.guarded]
  split
  · exact Option.some_ne_none _ ∘ Eq.symm
  · rename_i h14
    intro h
    have hcond := (Thumb.Instr.b.inj (Prod.mk.inj (Option.some.inj h)).1).1
    rw [hcond] at h14
    exact h14 rfl

end

theorem jumpCond_lt {c : Cond} {cond : BitVec 4} (h : jumpCond c = some cond) :
    cond.toNat < 14 := by
  cases c <;> cases h <;> decide

/-! ## Round trips -/

/-- The code is one branch under `cond` by `off`. -/
def DecodesTo (code : Code) (cond : BitVec 4) (off : Int) : Prop :=
  Thumb.decode (code.getD 0 0) (code.getD 1 0) =
    some (.b cond (BitVec.ofInt 32 off), 2 * code.length)

instance (code : Code) (cond : BitVec 4) (off : Int) : Decidable (DecodesTo code cond off) :=
  inferInstanceAs (Decidable (_ = _))

theorem emitBCond_ne_nil {instNum : Nat} {off : Int} {cond : BitVec 4}
    (h : -1048576 < off ∧ off < 1048574) : emitBCond instNum off cond ≠ [] := by
  rw [emitBCond, if_pos h]
  split <;> exact List.cons_ne_nil _ _

theorem emitBCond_decodes {instNum : Nat} {off : Int} {cond : BitVec 4} (hc : cond.toNat < 14)
    (he : off % 2 = 0) (h : emitBCond instNum off cond ≠ []) :
    DecodesTo (emitBCond instNum off cond) cond off := by
  unfold emitBCond at h ⊢
  split
  · exact decode_thumb16BT1 hc (by omega) he
  · rename_i hn
    rw [if_neg hn] at h
    split
    · exact decode_thumb32BwT3 hc (by omega) he
    · rename_i hw
      exact absurd (if_neg hw) h

theorem emitB_decodes_iff {off : Int} (he : off % 2 = 0) (h : emitB off ≠ []) :
    DecodesTo (emitB off) Thumb.always off ↔ -2048 < off ∧ off < 2046 := by
  unfold emitB at h ⊢
  split
  · rename_i hn
    exact iff_of_true (decode_thumb16BT2 (by omega) he) hn
  · rename_i hn
    rw [if_neg hn] at h
    split
    · exact iff_of_false (decode_thumb32BwT4 off _ _) hn
    · rename_i hw
      exact absurd (if_neg hw) h

/-- **The branch encoders**, over the even distances that they accept: conditional branches decode
to what they were made from, unconditional ones iff the distance is one of the narrow form. -/
theorem branches_decode_iff (instNum : Nat) (off : Int) (he : off % 2 = 0) :
    (∀ cond : BitVec 4, cond.toNat < 14 → emitBCond instNum off cond ≠ [] →
      DecodesTo (emitBCond instNum off cond) cond off) ∧
    (emitB off ≠ [] → (DecodesTo (emitB off) Thumb.always off ↔ -2048 < off ∧ off < 2046)) :=
  ⟨fun _ hc h => emitBCond_decodes hc he h, emitB_decodes_iff he⟩

/-- `BNE` and `B`, by -6. -/
theorem branches_decode_back :
    DecodesTo (emitBCond 0 (-6) condNe) condNe (-6) ∧ DecodesTo (emitB (-6)) Thumb.always (-6) :=
  ⟨(branches_decode_iff 0 (-6) rfl).1 condNe (by decide) (by decide),
    ((branches_decode_iff 0 (-6) rfl).2 (by decide)).2 (by decide)⟩

/-- `B` by 4096 comes out as `BEQ` by 790528. -/
theorem emitB_far_conditional :
    emitB 4096 ≠ [] ∧ DecodesTo (emitB 4096) condEq 790528 ∧
      ¬ DecodesTo (emitB 4096) Thumb.always 4096 :=
  ⟨by decide, by decide, fun h => absurd ((emitB_decodes_iff rfl (by decide)).1 h) (by decide)⟩

/-! ## Targets -/

theorem toInt_ofInt_small {off : Int} (h : -256 ≤ off ∧ off < 2046) :
    (BitVec.ofInt 32 off).toInt = off := by
  rw [BitVec.toInt_ofInt]
  exact Int.bmod_eq_of_le (by omega) (by omega)

theorem branchTarget_of_decode {a : Nat} {code : Code} {cond : BitVec 4} {off : Int}
    (h : DecodesTo code cond off) (hr : -256 ≤ off ∧ off < 2046) :
    branchTarget a code = some (a + 4 + off) := by
  rw [branchTarget, h]
  simp only [if_true, toInt_ofInt_small hr]

theorem branchTarget_emitJump {instNum : Nat} {off : Int} {c : Cond} {cond : BitVec 4}
    (hc : jumpCond c = some cond) (h : -256 ≤ off ∧ off ≤ 254) (he : off % 2 = 0) (a : Nat) :
    branchTarget a (emitJump instNum off c) = some (a + 4 + off) := by
  simp only [emitJump, hc]
  exact branchTarget_of_decode
    (emitBCond_decodes (jumpCond_lt hc) he (emitBCond_ne_nil (by omega))) (by omega)

theorem branchTarget_emitB {off : Int} (h : -256 ≤ off ∧ off < 2046) (he : off % 2 = 0) (a : Nat) :
    branchTarget a (emitB off) = some (a + 4 + off) := by
  rw [emitB, if_pos (by omega)]
  exact branchTarget_of_decode (decode_thumb16BT2 (by omega) he) (by omega)

end BlueSwat.Jit
