import Mathlib.Tactic.IntervalCases
import BlueSwat.Lib.Thumb.Line

/-!
# Data processing with a shifted register

The wide encodings, put together from their fields, and the instructions that they are
(`disassemble_shift`, `disassemble_orr`); the narrow shifts (`disassemble_shiftNarrow`).
-/

set_option autoImplicit false

namespace Thumb

def shiftedHigh (op : BitVec 4) (s : Bool) (rn : Reg) : Half :=
  0b1110101#7 ++ (op ++ (BitVec.ofBool s ++ rn))

def shiftedLow (rd rm : Reg) (type : BitVec 2) (imm5 : BitVec 5) : Half :=
  0#1 ++ (imm5.extractLsb' 2 3 ++ (rd ++ (imm5.extractLsb' 0 2 ++ (type ++ rm))))

section
variable (op : BitVec 4) (s : Bool) (rn rd rm : Reg) (type : BitVec 2) (imm5 : BitVec 5)

theorem getLsbD_shiftedHigh (i : Nat) :
    (shiftedHigh op s rn).getLsbD i = if i < 9 then if i < 5 then if i < 4 then rn.getLsbD i
      else (BitVec.ofBool s).getLsbD (i - 4) else op.getLsbD (i - 5)
      else (0b1110101#7).getLsbD (i - 9) := by
  rw [shiftedHigh, BitVec.getLsbD_append, BitVec.getLsbD_append, BitVec.getLsbD_append]

theorem getLsbD_shiftedLow (i : Nat) :
    (shiftedLow rd rm type imm5).getLsbD i = if i < 15 then if i < 12 then if i < 8 then
      if i < 6 then if i < 4 then rm.getLsbD i else type.getLsbD (i - 4)
      else (imm5.extractLsb' 0 2).getLsbD (i - 6) else rd.getLsbD (i - 8)
      else (imm5.extractLsb' 2 3).getLsbD (i - 12) else (0#1).getLsbD (i - 15) := by
  rw [shiftedLow, BitVec.getLsbD_append, BitVec.getLsbD_append, BitVec.getLsbD_append,
    BitVec.getLsbD_append, BitVec.getLsbD_append]

theorem shiftedHigh_fields :
    (shiftedHigh op s rn).extractLsb' 9 7 = 0b1110101 ∧ (shiftedHigh op s rn).extractLsb' 5 4 = op ∧
      (shiftedHigh op s rn).getLsbD 4 = s ∧ (shiftedHigh op s rn).extractLsb' 0 4 = rn := by
  refine ⟨BitVec.extractLsb'_append_eq_left, ?_, ?_, ?_⟩
  · rw [shiftedHigh, BitVec.extractLsb'_append_eq_of_add_le (by decide)]
    exact BitVec.extractLsb'_append_eq_left
  · rw [getLsbD_shiftedHigh]
    simp
  · rw [shiftedHigh, BitVec.extractLsb'_append_eq_of_add_le (by decide),
      BitVec.extractLsb'_append_eq_of_add_le (by decide)]
    exact BitVec.extractLsb'_append_eq_right

theorem shiftedLow_fields :
    (shiftedLow rd rm type imm5).getLsbD 15 = false ∧
      (shiftedLow rd rm type imm5).extractLsb' 12 3 = imm5.extractLsb' 2 3 ∧
      (shiftedLow rd rm type imm5).extractLsb' 8 4 = rd ∧
      (shiftedLow rd rm type imm5).extractLsb' 6 2 = imm5.extractLsb' 0 2 ∧
      (shiftedLow rd rm type imm5).extractLsb' 4 2 = type ∧
      (shiftedLow rd rm type imm5).extractLsb' 0 4 = rm := by
  refine ⟨?_, ?_, ?_, ?_, ?_, ?_⟩
  · rw [getLsbD_shiftedLow]
    simp
  · rw [shiftedLow, BitVec.extractLsb'_append_eq_of_add_le (by decide)]
    exact BitVec.extractLsb'_append_eq_left
  · rw [shiftedLow, BitVec.extractLsb'_append_eq_of_add_le (by decide),
      BitVec.extractLsb'_append_eq_of_add_le (by decide)]
    exact BitVec.extractLsb'_append_eq_left
  · rw [shiftedLow, BitVec.extractLsb'_append_eq_of_add_le (by decide),
      BitVec.extractLsb'_append_eq_of_add_le (by decide),
      BitVec.extractLsb'_append_eq_of_add_le (by decide)]
    exact BitVec.extractLsb'_append_eq_left
  · rw [shiftedLow, BitVec.extractLsb'_append_eq_of_add_le (by decide),
      BitVec.extractLsb'_append_eq_of_add_le (by decide),
      BitVec.extractLsb'_append_eq_of_add_le (by decide),
      BitVec.extractLsb'_append_eq_of_add_le (by decide)]
    exact BitVec.extractLsb'_append_eq_left
  · rw [shiftedLow, BitVec.extractLsb'_append_eq_of_add_le (by decide),
      BitVec.extractLsb'_append_eq_of_add_le (by decide),
      BitVec.extractLsb'_append_eq_of_add_le (by decide),
      BitVec.extractLsb'_append_eq_of_add_le (by decide)]
    exact BitVec.extractLsb'_append_eq_right

theorem imm5_fields : imm5.extractLsb' 2 3 ++ imm5.extractLsb' 0 2 = imm5 := by
  rw [BitVec.extractLsb'_append_extractLsb'_eq_extractLsb' (by decide)]
  simp

theorem isWide_shiftedHigh : isWide (shiftedHigh op s rn) = true := by
  have h : (shiftedHigh op s rn).extractLsb' 11 5 = 0b11101 := by
    apply BitVec.eq_of_getLsbD_eq
    intro i hi
    rw [BitVec.getLsbD_extractLsb', getLsbD_shiftedHigh]
    interval_cases i <;> simp
  rw [isWide, h]
  rfl

/-- What the decoders make of the fields. -/
theorem decodeWide_shifted :
    decodeWide (shiftedHigh op s rn) (shiftedLow rd rm type imm5) =
      ((decodeShifted (shiftedHigh op s rn) (shiftedLow rd rm type imm5)).map .base).or
        (decodeData (shiftedHigh op s rn) (shiftedLow rd rm type imm5)) := by
  obtain ⟨h9, -⟩ := shiftedHigh_fields op s rn
  obtain ⟨l15, -⟩ := shiftedLow_fields rd rm type imm5
  have h32 : decode32 (shiftedHigh op s rn) (shiftedLow rd rm type imm5) =
      decodeShifted (shiftedHigh op s rn) (shiftedLow rd rm type imm5) := by
    rw [decode32, if_pos h9, l15, if_neg Bool.false_ne_true]
  rw [decodeWide, h32]
  cases decodeShifted (shiftedHigh op s rn) (shiftedLow rd rm type imm5) with
  | some i => rfl
  | none => rw [if_pos h9, l15, if_neg Bool.false_ne_true]; rfl

end

section
variable {s : Bool} {rn rd rm : Reg} (hd : special rd = false) (hm : special rm = false)
  (type : BitVec 2) (imm5 : BitVec 5)
include hd hm

/-- **A shift by a constant**; the arithmetic ones are among those of `Thumb.decode`, and a move is
no shift. -/
theorem disassemble_shift (h0 : type = 0 → imm5 = 0 → s = true) :
    disassemble [shiftedHigh 0b0010 s 15, shiftedLow rd rm type imm5] =
      some [if type = 2 then .base (.asr s rd rm (if imm5 = 0 then 32 else imm5.toNat))
        else .shift s rd rm (immShift type imm5)] := by
  obtain ⟨-, h5, h4, h0'⟩ := shiftedHigh_fields 0b0010 s 15
  obtain ⟨-, l12, l8, l6, l4, l0⟩ := shiftedLow_fields rd rm type imm5
  have himm := imm5_fields imm5
  have hd' : decodeWide (shiftedHigh 0b0010 s 15) (shiftedLow rd rm type imm5) =
      some (if type = 2 then .base (.asr s rd rm (if imm5 = 0 then 32 else imm5.toNat))
        else .shift s rd rm (immShift type imm5)) := by
    rw [decodeWide_shifted, decodeShifted, decodeData]
    simp only [h5, h4, h0', l12, l8, l6, l4, l0, himm, and_self, if_true, hd, hm, guarded, only,
      Bool.or_self, Bool.false_eq_true, if_false]
    by_cases hmov : type = 0 ∧ imm5 = 0
    · have h2 : type ≠ 2 := hmov.1 ▸ by decide
      simp [hmov, h0 hmov.1 hmov.2]
    · rw [if_neg hmov]
      by_cases h2 : type = 2
      · simp only [if_pos h2, Option.map_some, Option.some_or]
      · simp only [if_neg h2, Option.map_none, Option.none_or]
  rw [disassemble, if_pos (isWide_shiftedHigh _ _ _), hd']
  rfl

theorem disassemble_orr (hn : special rn = false) :
    disassemble [shiftedHigh 0b0010 s rn, shiftedLow rd rm type imm5] =
      some [.data .orr s rd rn rm (immShift type imm5)] := by
  obtain ⟨-, h5, h4, h0⟩ := shiftedHigh_fields 0b0010 s rn
  obtain ⟨-, l12, l8, l6, l4, l0⟩ := shiftedLow_fields rd rm type imm5
  have himm := imm5_fields imm5
  have hn' : rn ≠ 15 := by
    rintro rfl
    cases hn
  have hdec : decodeWide (shiftedHigh 0b0010 s rn) (shiftedLow rd rm type imm5) =
      some (.data .orr s rd rn rm (immShift type imm5)) := by
    rw [decodeWide_shifted, decodeShifted, decodeData]
    simp only [h5, h4, h0, l12, l8, l6, l4, l0, himm, hn', and_false, if_false]
    simp [hd, hm, hn, only]
  rw [disassemble, if_pos (isWide_shiftedHigh _ _ _), hdec]
  rfl

end

/-! ## Narrow instructions -/

section
variable {h : Half} {op : BitVec 5}

/-- A field at the top of a halfword has the opcode at its top. -/
theorem extract_ne_of_opcode (hop : h.extractLsb' 11 5 = op) {k n : Nat} {a : BitVec n}
    (hk : k + n = 16) (hn : 5 ≤ n) (ha : a.extractLsb' (n - 5) 5 ≠ op) : h.extractLsb' k n ≠ a := by
  rintro rfl
  refine ha ?_
  rw [← hop]
  apply BitVec.eq_of_getLsbD_eq
  intro i hi
  have h1 : n - 5 + i < n := by omega
  have h2 : k + (n - 5 + i) = 11 + i := by omega
  simp only [BitVec.getLsbD_extractLsb', hi, h1, h2, decide_true, Bool.true_and]

/-- A part of the opcode. -/
theorem extract_eq_of_opcode (hop : h.extractLsb' 11 5 = op) {j n : Nat} (hn : j + n ≤ 5) :
    h.extractLsb' (11 + j) n = op.extractLsb' j n := by
  rw [← hop]
  apply BitVec.eq_of_getLsbD_eq
  intro i hi
  have h1 : j + i < 5 := by omega
  simp only [BitVec.getLsbD_extractLsb', hi, h1, decide_true, Bool.true_and, Nat.add_assoc]

/-- **A narrow shift** by a constant. -/
theorem disassemble_shiftNarrow {type : BitVec 2} (ht : type ≠ 3)
    (hop : h.extractLsb' 11 5 = 0#3 ++ type) :
    disassemble [h] = some [.shift true ((h.extractLsb' 0 3).setWidth 4)
      ((h.extractLsb' 3 3).setWidth 4) (immShift type (h.extractLsb' 6 5))] := by
  have ne : ∀ {k n : Nat} {a : BitVec n},
      k + n = 16 ∧ 5 ≤ n ∧ (∀ type : BitVec 2, type ≠ 3 → a.extractLsb' (n - 5) 5 ≠ 0#3 ++ type) →
      h.extractLsb' k n ≠ a := fun ⟨hk, hn, ha⟩ => extract_ne_of_opcode hop hk hn (ha type ht)
  have h12 : h.extractLsb' 12 4 ≠ 0b1101 := by
    rw [extract_eq_of_opcode (j := 1) hop (by decide)]
    exact (show ∀ type : BitVec 2, (0#3 ++ type).extractLsb' 1 4 ≠ 0b1101 by decide) type
  have h13 : h.extractLsb' 13 3 = 0b000 :=
    (extract_eq_of_opcode (j := 2) hop (by decide)).trans BitVec.extractLsb'_append_eq_left
  have h11 : h.extractLsb' 11 2 = type :=
    (extract_eq_of_opcode (j := 0) hop (by decide)).trans BitVec.extractLsb'_append_eq_right
  have hwide : isWide h = false := by
    rw [isWide, hop]
    exact (show ∀ type : BitVec 2, decide (29 ≤ (0#3 ++ type).toNat) = false by decide) type
  have hit : itCond h = none := by
    rw [itCond, if_neg fun e => ne (by decide) e.1]
  have h16 : decode16 h = none := by
    rw [decode16, if_neg (ne (by decide)), if_neg (ne (by decide)), if_neg (ne (by decide)),
      if_neg (ne (by decide)), if_neg (ne (by decide)), if_neg h12, if_neg (ne (by decide))]
  have hdec : decodeNarrow h = some (.shift true ((h.extractLsb' 0 3).setWidth 4)
      ((h.extractLsb' 3 3).setWidth 4) (immShift type (h.extractLsb' 6 5))) := by
    rw [decodeNarrow, h16]
    dsimp only
    rw [if_pos ⟨h13, by rw [h11]; exact ht⟩, h11]
  rw [disassemble.eq_def]
  simp only [hwide, hit, hdec]
  rfl

end

/-- The fields of a narrow instruction with an opcode of five bits; a register that is not low is
also in the field of the constant. -/
theorem narrow_fields (op imm : BitVec 5) (rn : Reg) (rt : BitVec 3) :
    let h : Half := (op.setWidth 32 <<< 11 ||| imm.setWidth 32 <<< 6 ||| rn.setWidth 32 <<< 3 |||
      (rt.setWidth 4).setWidth 32).setWidth 16
    h.extractLsb' 11 5 = op ∧ h.extractLsb' 6 5 = imm ||| (rn.extractLsb' 3 1).setWidth 5 ∧
      h.extractLsb' 3 3 = rn.extractLsb' 0 3 ∧ h.extractLsb' 0 3 = rt := by
  refine ⟨?_, ?_, ?_, ?_⟩ <;>
  · apply BitVec.eq_of_getLsbD_eq
    intro i hi
    interval_cases i <;> simp

theorem exists_low {r : Reg} (h : r.toNat < 8) : ∃ q : BitVec 3, r = q.setWidth 4 :=
  ⟨r.setWidth 3, by
    apply BitVec.eq_of_toNat_eq
    simp only [BitVec.toNat_setWidth]
    omega⟩

end Thumb
