import Mathlib.Tactic.IntervalCases
import BlueSwat.Jit.Fragment
import BlueSwat.Jit.Proof.Branch

/-!
# Encodings with an operand that is not fixed

The code of most instructions is one of a few hundred sequences, over all registers and shift
amounts, and is taken apart by evaluation. Constants and offsets are not: here are the fields of the
encodings that hold them, and what they decode to.
-/

set_option autoImplicit false

namespace BlueSwat.Jit

open Thumb

/-! ## One instruction -/

section
variable {i : Inst}

theorem disassemble_emit4 {x : BitVec 32} (hw : isWide (x.extractLsb' 16 16) = true)
    (hd : decodeWide (x.extractLsb' 16 16) (x.extractLsb' 0 16) = some i) :
    disassemble (emit4 x) = some [i] := by
  rw [emit4, disassemble, if_pos hw, hd]
  rfl

theorem disassemble_emit2 {x : BitVec 16} (hn : isWide x = false) (hi : itCond x = none)
    (hd : decodeNarrow x = some i) : disassemble (emit2 x) = some [i] := by
  rw [emit2, disassemble.eq_def]
  simp only [hn, hi, hd]
  rfl

theorem isWide_of_extract {h : Half} {c : BitVec 5} (he : h.extractLsb' 11 5 = c)
    (hc : 0b11101 ≤ c.toNat) : isWide h = true := by
  rw [isWide, he]
  exact decide_eq_true hc

end

/-! ## Constants -/

section
variable (r : Reg) (v : Half)

theorem movHalf_high (op : BitVec 6) :
    let h := (movHalf ((0b11110 : BitVec 32) <<< 27 ||| op.setWidth 32 <<< 20) (r.setWidth 8)
      v).extractLsb' 16 16
    h.extractLsb' 11 5 = 0b11110 ∧ h.extractLsb' 4 6 = op ∧
      h.extractLsb' 0 4 = v.extractLsb' 12 4 ∧ h.extractLsb' 10 1 = v.extractLsb' 11 1 := by
  simp only [movHalf]
  refine ⟨?_, ?_, ?_, ?_⟩ <;>
  · apply BitVec.eq_of_getLsbD_eq
    intro i hi
    interval_cases i <;> simp

theorem movHalf_low (op : BitVec 6) :
    let h := (movHalf ((0b11110 : BitVec 32) <<< 27 ||| op.setWidth 32 <<< 20) (r.setWidth 8)
      v).extractLsb' 0 16
    h.getLsbD 15 = false ∧ h.extractLsb' 8 4 = r ∧
      h.extractLsb' 12 3 = v.extractLsb' 8 3 ∧ h.extractLsb' 0 8 = v.extractLsb' 0 8 := by
  simp only [movHalf]
  refine ⟨by simp, ?_, ?_, ?_⟩ <;>
  · apply BitVec.eq_of_getLsbD_eq
    intro i hi
    interval_cases i <;> simp

/-- `movw` and `movt`. -/
theorem disassemble_movHalf {op : BitVec 6} {x : BitVec 32}
    (hx : x = (0b11110 : BitVec 32) <<< 27 ||| op.setWidth 32 <<< 20) {i : Instr}
    (hi : op = 0b100100 ∧ i = .movImm false r (v.setWidth 32) ∨ op = 0b101100 ∧ i = .movTop r v)
    (hr : special r = false) :
    disassemble (emit4 (movHalf x (r.setWidth 8) v)) = some [.base i] := by
  subst hx
  obtain ⟨a1, a2, a3, a4⟩ := movHalf_high r v op
  obtain ⟨b1, b2, b3, b4⟩ := movHalf_low r v op
  refine disassemble_emit4 (isWide_of_extract a1 (by decide)) ?_
  generalize (movHalf _ (r.setWidth 8) v).extractLsb' 16 16 = h1 at *
  generalize (movHalf _ (r.setWidth 8) v).extractLsb' 0 16 = h2 at *
  have himm : h1.extractLsb' 0 4 ++
      (h1.extractLsb' 10 1 ++ h2.extractLsb' 12 3 ++ h2.extractLsb' 0 8) = v := by
    have e1 : v.extractLsb' 11 1 ++ v.extractLsb' 8 3 = v.extractLsb' 8 4 :=
      extractLsb'_append v 8 3 1
    have e2 : v.extractLsb' 8 4 ++ v.extractLsb' 0 8 = v.extractLsb' 0 12 :=
      extractLsb'_append v 0 8 4
    rw [a3, a4, b3, b4, e1, e2]
    exact (extractLsb'_append v 0 12 4).trans BitVec.extractLsb'_eq_self
  have h9 : h1.extractLsb' 9 7 ≠ 0b1110101 := fun e => by
    have := getLsbD_of_extract e (k := 6) (by decide)
    have := getLsbD_of_extract e (k := 5) (by decide)
    have := getLsbD_of_extract e (k := 3) (by decide)
    have := getLsbD_of_extract a1 (k := 1) (by decide)
    simp_all
  have hbr : h2.extractLsb' 14 2 ≠ 0b10 := fun e => by
    have := getLsbD_of_extract e (k := 1) (by decide)
    simp_all
  have hdec : decode32 h1 h2 = decodePlain h1 h2 := by
    rw [decode32, if_neg h9, if_pos a1, if_neg hbr, if_neg (by rw [b1]; decide)]
  rw [decodeWide, hdec, decodePlain]
  simp only [a2, b2, himm]
  rcases hi with ⟨rfl, rfl⟩ | ⟨rfl, rfl⟩
  · rw [if_neg (by decide), if_pos rfl, hr]
    rfl
  · rw [if_neg (by decide), if_neg (by decide), if_pos rfl, hr]
    rfl

theorem movNarrow_fields (r : BitVec 3) (b : BitVec 8) :
    let h : Half := (0x2000 ||| ((r.setWidth 4).setWidth 8).setWidth 32 <<< 8 |||
      b.setWidth 32).setWidth 16
    h.extractLsb' 11 5 = 0b00100 ∧ h.extractLsb' 8 3 = r ∧ h.extractLsb' 0 8 = b := by
  refine ⟨?_, ?_, ?_⟩ <;>
  · apply BitVec.eq_of_getLsbD_eq
    intro i hi
    interval_cases i <;> simp

theorem disassemble_movNarrow (r : BitVec 3) (b : BitVec 8) :
    disassemble (emit2 ((0x2000 ||| ((r.setWidth 4).setWidth 8).setWidth 32 <<< 8 |||
      b.setWidth 32).setWidth 16)) =
        some [.base (.movImm true (r.setWidth 4) (b.setWidth 32))] := by
  obtain ⟨h1, h2, h3⟩ := movNarrow_fields r b
  generalize (0x2000 ||| _ ||| b.setWidth 32).setWidth 16 = h at *
  refine disassemble_emit2 (by rw [isWide, h1]; rfl) ?_ ?_
  · have hne : h.extractLsb' 8 8 ≠ 0xbf := fun e => by
      have := getLsbD_of_extract e (k := 7) (by decide)
      have := getLsbD_of_extract h1 (k := 4) (by decide)
      simp_all
    rw [itCond, if_neg fun e => hne e.1]
  · rw [decodeNarrow, decode16]
    simp only [h1, h2, h3, if_true]

/-- **A constant** is moved as `movConst` says. -/
theorem disassemble_emitMovImm {r : Reg} (hr : special r = false) (v : Word) :
    disassemble (emitMovImm r.toNat v) = some ((movConst r v).map .base) := by
  have hrd : BitVec.ofInt 8 r.toNat = r.setWidth 8 := by
    rw [BitVec.ofInt_natCast, BitVec.ofNat_toNat]
  have hlt : (r.setWidth 8).toNat = r.toNat := BitVec.toNat_setWidth_of_le (by decide)
  have hw := disassemble_movHalf r (v.setWidth 16) (x := 0xf2400000) (by decide)
    (.inl ⟨rfl, rfl⟩) hr
  have ht := disassemble_movHalf r ((v >>> 16).setWidth 16) (x := 0xf2c00000) (by decide)
    (.inr ⟨rfl, rfl⟩) hr
  simp only [emitMovImm, hrd, hlt, movConst]
  split
  · rename_i h
    obtain ⟨r3, rfl⟩ : ∃ r3 : BitVec 3, r = r3.setWidth 4 := ⟨r.setWidth 3, by
      apply BitVec.eq_of_toNat_eq
      simp only [BitVec.toNat_setWidth]
      omega⟩
    obtain ⟨b, rfl⟩ : ∃ b : BitVec 8, v = b.setWidth 32 := ⟨v.setWidth 8, by
      apply BitVec.eq_of_toNat_eq
      simp only [BitVec.toNat_setWidth]
      omega⟩
    exact disassemble_movNarrow r3 b
  · split
    · rw [disassemble_append hw, ht]
      rfl
    · rw [List.append_nil, hw]
      rfl

end

end BlueSwat.Jit
