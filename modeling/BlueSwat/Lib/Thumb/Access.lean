import Mathlib.Tactic.IntervalCases
import BlueSwat.Lib.Thumb.Shifted

/-!
# Loads and stores of Thumb code

The wide encodings of an access to one byte, halfword or word, put together from their fields
(`accessWord`), and how code runs that begins with one (`runCode_access`): two of the encodings are
also instructions of `Thumb.decode`, and do the same there.
-/

set_option autoImplicit false

namespace Thumb

open Bytes

/-! ## Runs of code -/

section
variable {sys : Sys} {s t : State} {c c' : List Half} {is : List Inst}

theorem runCode_append (h : disassemble c = some is) (hr : runLine sys is s = some (t, false)) :
    runCode sys (c ++ c') s = runCode sys c' t := by
  rw [runCode, disassemble_append h, runCode]
  cases disassemble c' with
  | none => rfl
  | some js => exact runLine_seq hr

/-- Code runs an instruction that does what `o` does, and then the rest. -/
theorem runCode_bind {code : List Half} {o o' : Option Inst}
    (hd : disassemble code = o.bind fun i => (disassemble c').map (i :: ·))
    (hb : ∀ cond off, o ≠ some (.base (.b cond off)))
    (he : o.bind (Inst.exec sys s) = o'.bind (Inst.exec sys s)) :
    runCode sys code s = (o'.bind (Inst.exec sys s)).bind (runCode sys c') := by
  rw [← he, runCode, hd]
  cases o with
  | none => rfl
  | some i =>
    have hi : ∀ cond off, i ≠ .base (.b cond off) := fun cond off e => hb cond off (e ▸ rfl)
    unfold runCode
    cases disassemble c' with
    | none => cases he : i.exec sys s <;> simp [he]
    | some js => exact runLine_cons hi

end

/-! ## Encodings -/

def Width.code : Width → BitVec 2
  | .byte => 0
  | .half => 1
  | .word => 2

def Inst.access (ld : Bool) : Width → Bool → Reg → Reg → Index → Inst :=
  if ld then .load else .store

/-- The kind of an access: whether its offset has 12 bits, what it accesses, and whether it
loads. -/
def accessKind (long : Bool) (w : Width) (ld : Bool) : BitVec 4 :=
  BitVec.ofBool long ++ (w.code ++ BitVec.ofBool ld)

def accessHigh (k : BitVec 4) (rn : Reg) : Half := 0xf8#8 ++ (k ++ rn)

def accessLow (rt : Reg) (f : BitVec 4) (b : BitVec 8) : Half := rt ++ (f ++ b)

section
variable (k f : BitVec 4) (rn rt : Reg) (b : BitVec 8)

theorem getLsbD_accessHigh (i : Nat) :
    (accessHigh k rn).getLsbD i = if i < 8 then if i < 4 then rn.getLsbD i else k.getLsbD (i - 4)
      else (0xf8#8).getLsbD (i - 8) := by
  rw [accessHigh, BitVec.getLsbD_append, BitVec.getLsbD_append]

theorem getLsbD_accessLow (i : Nat) :
    (accessLow rt f b).getLsbD i = if i < 12 then if i < 8 then b.getLsbD i else f.getLsbD (i - 8)
      else rt.getLsbD (i - 12) := by
  rw [accessLow, BitVec.getLsbD_append, BitVec.getLsbD_append]

theorem accessHigh_fields :
    (accessHigh k rn).extractLsb' 8 8 = 0xf8 ∧ (accessHigh k rn).extractLsb' 4 12 = 0xf8#8 ++ k ∧
      (accessHigh k rn).extractLsb' 0 4 = rn ∧
        (accessHigh k rn).extractLsb' 5 2 = k.extractLsb' 1 2 ∧
      (accessHigh k rn).getLsbD 4 = k.getLsbD 0 ∧ (accessHigh k rn).getLsbD 7 = k.getLsbD 3 := by
  unfold accessHigh
  refine ⟨BitVec.extractLsb'_append_eq_left, ?_, ?_, ?_, ?_, ?_⟩
  · have he : (0xf8#8 ++ (k ++ rn) : Half) = 0xf8#8 ++ k ++ rn := BitVec.append_assoc.symm
    rw [he]
    exact BitVec.extractLsb'_append_eq_left
  · rw [BitVec.extractLsb'_append_eq_of_add_le (by decide)]
    exact BitVec.extractLsb'_append_eq_right
  · rw [BitVec.extractLsb'_append_eq_of_add_le (by decide),
      BitVec.extractLsb'_append_eq_of_le (by decide)]
  · exact getLsbD_accessHigh k rn 4
  · exact getLsbD_accessHigh k rn 7

theorem accessLow_fields :
    (accessLow rt f b).extractLsb' 12 4 = rt ∧ (accessLow rt f b).extractLsb' 8 4 = f ∧
      (accessLow rt f b).extractLsb' 0 8 = b ∧ (accessLow rt f b).extractLsb' 0 12 = f ++ b ∧
      ∀ i < 4, (accessLow rt f b).getLsbD (8 + i) = f.getLsbD i := by
  unfold accessLow
  refine ⟨BitVec.extractLsb'_append_eq_left, ?_, ?_, BitVec.extractLsb'_append_eq_right, ?_⟩
  · rw [BitVec.extractLsb'_append_eq_of_add_le (by decide)]
    exact BitVec.extractLsb'_append_eq_left
  · rw [BitVec.extractLsb'_append_eq_of_add_le (by decide)]
    exact BitVec.extractLsb'_append_eq_right
  · intro i hi
    refine (getLsbD_accessLow f rt b (8 + i)).trans ?_
    rw [if_pos (by omega), if_neg (by omega), Nat.add_sub_cancel_left]

/-- The first halfwords of the accesses. -/
theorem accessHigh_wide : ∀ k : BitVec 4, ∀ rn : Reg, isWide (accessHigh k rn) = true ∧
    (accessHigh k rn).extractLsb' 9 7 ≠ 0b1110101 ∧ (accessHigh k rn).extractLsb' 11 5 ≠ 0b11110 ∧
    accessHigh k rn ≠ 0xe92d ∧ accessHigh k rn ≠ 0xe8bd := by decide

theorem decodeAccess_eq (long : Bool) (w : Width) (ld : Bool) :
    decodeAccess (accessHigh (accessKind long w ld) rn) (accessLow rt f b) =
      if special rt || rn == 15 then none
      else if long then some (.access ld w false rt rn ⟨true, false, (f ++ b).setWidth 32⟩)
      else if !f.getLsbD 3 || (!f.getLsbD 2 && !f.getLsbD 0) || (f.getLsbD 0 && rn == rt) then none
      else some (.access ld w (f.getLsbD 2 && f.getLsbD 1 && !f.getLsbD 0) rt rn
        ⟨f.getLsbD 2, f.getLsbD 0, memOff (f.getLsbD 1) (b.setWidth 32)⟩) := by
  obtain ⟨-, -, h0, h5, h4, h7⟩ := accessHigh_fields (accessKind long w ld) rn
  obtain ⟨l12, -, l0, l0', hf⟩ := accessLow_fields f rt b
  have hk : ((accessKind long w ld).extractLsb' 1 2).toNat = w.code.toNat ∧
      (accessKind long w ld).getLsbD 0 = ld ∧ (accessKind long w ld).getLsbD 3 = long := by
    cases long <;> cases w <;> cases ld <;> decide
  rw [decodeAccess]
  simp only [h0, h5, h4, h7, l12, l0, l0', hf 0 (by decide), hf 1 (by decide), hf 2 (by decide),
    hf 3 (by decide), hk]
  cases w <;> rfl

end

/-! ## Narrow loads -/

section
variable {h : Half}

/-- **A narrow load** of a byte or a halfword. -/
theorem disassemble_narrowLoad (half : Bool)
    (hop : h.extractLsb' 11 5 = if half then 0b10001 else 0b01111) :
    disassemble [h] = some [.load (if half then .half else .byte) false
      ((h.extractLsb' 0 3).setWidth 4) ((h.extractLsb' 3 3).setWidth 4)
      ⟨true, false, if half then (h.extractLsb' 6 5 ++ 0#1).setWidth 32
        else (h.extractLsb' 6 5).setWidth 32⟩] := by
  have ne : ∀ {k n : Nat} {a : BitVec n}, k + n = 16 ∧ 5 ≤ n ∧
      a.extractLsb' (n - 5) 5 ≠ 0b01111 ∧ a.extractLsb' (n - 5) 5 ≠ 0b10001 →
      h.extractLsb' k n ≠ a := fun ⟨hk, hn, ha, ha'⟩ =>
    extract_ne_of_opcode hop hk hn (by cases half; exacts [ha, ha'])
  have h12 : h.extractLsb' 12 4 ≠ 0b1101 := by
    rw [extract_eq_of_opcode (j := 1) hop (by decide)]
    cases half <;> decide
  have h13 : h.extractLsb' 13 3 ≠ 0b000 := by
    rw [extract_eq_of_opcode (j := 2) hop (by decide)]
    cases half <;> decide
  have hwide : isWide h = false := by
    rw [isWide, hop]
    cases half <;> decide
  have hit : itCond h = none := by
    rw [itCond, if_neg fun e => ne (by decide) e.1]
  -- no instruction of `Thumb.decode` has one of the opcodes
  have h16 : decode16 h = none := by
    rw [decode16, if_neg (ne (by decide)), if_neg (ne (by decide)), if_neg (ne (by decide)),
      if_neg (ne (by decide)), if_neg (ne (by decide)), if_neg h12, if_neg (ne (by decide))]
  have hdec : decodeNarrow h = some (.load (if half then .half else .byte) false
      ((h.extractLsb' 0 3).setWidth 4) ((h.extractLsb' 3 3).setWidth 4)
      ⟨true, false, if half then (h.extractLsb' 6 5 ++ 0#1).setWidth 32
        else (h.extractLsb' 6 5).setWidth 32⟩) := by
    rw [decodeNarrow, h16]
    dsimp only
    rw [if_neg fun e => h13 e.1, if_neg (ne (by decide)), if_neg (ne (by decide)),
      if_neg (ne (by decide)), if_neg (ne (by decide)), if_neg (ne (by decide)),
      if_neg (ne (by decide)), if_neg (ne (by decide)), if_neg (ne (by decide)),
      if_neg (ne (by decide)), hop]
    cases half <;> rfl
  rw [disassemble.eq_def]
  simp only [hwide, hit, hdec]
  rfl

end

/-! ## Execution -/

theorem allows_word (sys : Sys) (a : Word) :
    sys.allows true a 4 =
      (sys.unpriv a && sys.unpriv (a + 1) && sys.unpriv (a + 2) && sys.unpriv (a + 3)) := by
  simp [Sys.allows, List.range_succ, Bool.and_assoc]

theorem skip_zero (s : State) : s.skip 0 = s := by
  rw [State.skip, BitVec.add_zero]

/-- The loads of a word that `Thumb.decode` knows. -/
theorem exec_ldr (sys : Sys) (s : State) (rt rn : Reg) (off : Word) :
    Inst.exec sys s (.base (.ldr rt rn off)) =
      Inst.exec sys s (.load .word false rt rn ⟨true, false, off⟩) := by
  rw [Inst.exec, if_pos (by rfl), Thumb.exec, skip_zero]
  rfl

theorem exec_ldrt (sys : Sys) (s : State) (rt rn : Reg) (off : Word) :
    Inst.exec sys s (.base (.ldrt rt rn off)) =
      Inst.exec sys s (.load .word true rt rn ⟨true, false, off⟩) := by
  rw [Inst.exec, if_pos (by rfl), Thumb.exec, skip_zero, Inst.exec]
  simp only [Width.bytes, allows_word]
  rfl

theorem access_ne_branch (ld : Bool) (w : Width) (u : Bool) (rt rn : Reg) (ix : Index)
    (cond : BitVec 4) (off : Word) : Inst.access ld w u rt rn ix ≠ .base (.b cond off) := by
  cases ld <;> exact Inst.noConfusion

section
variable (long : Bool) (w : Width) (ld : Bool) (f : BitVec 4) (rn rt : Reg) (b : BitVec 8)

/-- An access is executed as `decodeAccess` says. -/
theorem decodeWide_access (sys : Sys) (s : State) :
    let o := decodeWide (accessHigh (accessKind long w ld) rn) (accessLow rt f b)
    (∀ cond off, o ≠ some (.base (.b cond off))) ∧
      o.bind (Inst.exec sys s) =
        (decodeAccess (accessHigh (accessKind long w ld) rn) (accessLow rt f b)).bind
          (Inst.exec sys s) := by
  obtain ⟨-, h9, h11, hpush, hpop⟩ := accessHigh_wide (accessKind long w ld) rn
  obtain ⟨h8, h4, h0, -⟩ := accessHigh_fields (accessKind long w ld) rn
  obtain ⟨l12, l8, l0, -⟩ := accessLow_fields f rt b
  have hacc := decodeAccess_eq f rn rt b long w ld
  have he9 : (0xf8 : BitVec 8) ≠ 0xe9 := by decide
  have hmem : decode32 (accessHigh (accessKind long w ld) rn) (accessLow rt f b) =
      if accessKind long w ld = 5 ∧ f = 0b1100 then
        guarded (special rt || rn == 15) (.ldr rt rn (memOff false (b.setWidth 32)))
      else if accessKind long w ld = 5 ∧ f = 0b1110 then
        guarded (special rt || rn == 15) (.ldrt rt rn (memOff true (b.setWidth 32)))
      else none := by
    have hk : ∀ k : BitVec 4, (0xf8#8 ++ k = (0xf85 : BitVec 12)) ↔ k = 5 := by decide
    rw [decode32, if_neg h9, if_neg h11, decodeMem]
    simp only [if_neg hpush, if_neg hpop, h8, h4, h0, l12, l8, l0, he9, false_and, if_false, hk]
  have hwide : decodeWide (accessHigh (accessKind long w ld) rn) (accessLow rt f b) =
      ((decode32 (accessHigh (accessKind long w ld) rn) (accessLow rt f b)).map .base).or
        (decodeAccess (accessHigh (accessKind long w ld) rn) (accessLow rt f b)) := by
    rw [decodeWide]
    cases decode32 (accessHigh (accessKind long w ld) rn) (accessLow rt f b) with
    | some i => rfl
    | none => simp only [if_neg h9, if_neg h11, if_pos h8, Option.map_none, Option.none_or]
  have hkind : accessKind long w ld = 5 → long = false ∧ w = .word ∧ ld = true := by
    cases long <;> cases w <;> cases ld <;> decide
  rw [hwide, hmem]
  cases hbad : (special rt || rn == 15) with
  | true =>
    rw [hacc, hbad]
    simp [guarded]
  | false =>
    split
    · rename_i h
      obtain ⟨rfl, rfl, rfl⟩ := hkind h.1
      obtain ⟨-, rfl⟩ := h
      rw [hacc, hbad]
      exact ⟨fun _ _ e => Instr.noConfusion (Inst.base.inj (Option.some.inj e)),
        exec_ldr sys s rt rn _⟩
    split
    · rename_i h
      obtain ⟨rfl, rfl, rfl⟩ := hkind h.1
      obtain ⟨-, rfl⟩ := h
      rw [hacc, hbad]
      exact ⟨fun _ _ e => Instr.noConfusion (Inst.base.inj (Option.some.inj e)),
        exec_ldrt sys s rt rn _⟩
    · refine ⟨fun cond off e => ?_, rfl⟩
      rw [hacc, hbad, Option.map_none, Option.none_or, if_neg Bool.false_ne_true] at e
      split_ifs at e
      · exact access_ne_branch _ _ _ _ _ _ _ _ (Option.some.inj e)
      · exact access_ne_branch _ _ _ _ _ _ _ _ (Option.some.inj e)

/-- **Code that begins with an access.** -/
theorem runCode_access (sys : Sys) (s : State) (c : List Half) :
    runCode sys (accessHigh (accessKind long w ld) rn :: accessLow rt f b :: c) s =
      ((decodeAccess (accessHigh (accessKind long w ld) rn) (accessLow rt f b)).bind
        (Inst.exec sys s)).bind (runCode sys c) := by
  obtain ⟨hb, he⟩ := decodeWide_access long w ld f rn rt b sys s
  refine runCode_bind ?_ hb he
  rw [disassemble, if_pos (accessHigh_wide _ rn).1]

/-- An access at an offset of 12 bits. -/
theorem runCode_accessLong (ht : special rt = false) (hn : rn ≠ 15) (sys : Sys) (s : State)
    (c : List Half) :
    runCode sys (accessHigh (accessKind true w ld) rn :: accessLow rt f b :: c) s =
      (Inst.exec sys s (.access ld w false rt rn ⟨true, false, (f ++ b).setWidth 32⟩)).bind
        (runCode sys c) := by
  rw [runCode_access, decodeAccess_eq, ht, beq_eq_false_iff_ne.2 hn]
  rfl

/-- An access at an offset of 8 bits, with the flags that `decodeAccess` reads. -/
theorem runCode_accessShort (ht : special rt = false) (hn : rn ≠ 15) (h3 : f.getLsbD 3 = true)
    (h2 : f.getLsbD 2 = true) (h0 : f.getLsbD 0 = true → rn ≠ rt) (sys : Sys) (s : State)
    (c : List Half) :
    runCode sys (accessHigh (accessKind false w ld) rn :: accessLow rt f b :: c) s =
      (Inst.exec sys s (.access ld w (f.getLsbD 1 && !f.getLsbD 0) rt rn
        ⟨true, f.getLsbD 0, memOff (f.getLsbD 1) (b.setWidth 32)⟩)).bind (runCode sys c) := by
  have hwb : (f.getLsbD 0 && rn == rt) = false := by
    cases h : f.getLsbD 0 with
    | false => rfl
    | true => exact beq_eq_false_iff_ne.2 (h0 h)
  rw [runCode_access, decodeAccess_eq, ht, beq_eq_false_iff_ne.2 hn, h3, h2, hwb]
  rfl

/-- Flags without a meaning, or write-back to the register that is loaded or stored. -/
theorem runCode_accessUndefined
    (h : f.getLsbD 2 = false ∧ f.getLsbD 0 = false ∨ f.getLsbD 0 = true ∧ rn = rt) (sys : Sys)
    (s : State) (c : List Half) :
    runCode sys (accessHigh (accessKind false w ld) rn :: accessLow rt f b :: c) s = none := by
  have hbad : (!f.getLsbD 3 || (!f.getLsbD 2 && !f.getLsbD 0) || (f.getLsbD 0 && rn == rt)) =
      true := by
    rcases h with ⟨h2, h0⟩ | ⟨h0, rfl⟩
    · rw [h2, h0]
      cases f.getLsbD 3 <;> rfl
    · rw [h0, beq_self_eq_true, Bool.and_self, Bool.or_true]
  rw [runCode_access, decodeAccess_eq, if_neg Bool.false_ne_true, if_pos hbad, ite_self]
  rfl

end

theorem allows_of_forall {sys : Sys} {a : Word} {n : Nat} (u : Bool)
    (h : ∀ b, Within b a n → sys.unpriv b = true) : sys.allows u a n = true := by
  cases u with
  | false => rfl
  | true =>
    rw [Sys.allows, Bool.not_true, Bool.false_or, List.all_eq_true]
    exact fun k hk => h _ (within_add (List.mem_range.1 hk))

section
variable {sys : Sys} {s : State} {u wb : Bool} {w : Width} {rt rn : Reg} {off : Word}

theorem exec_load (h : sys.allows u (s.reg rn + off) w.bytes = true) :
    Inst.exec sys s (.access true w u rt rn ⟨true, wb, off⟩) =
      some ((s.writeBack rn ⟨true, wb, off⟩).set rt
        (BitVec.ofNat 32 (read s.mem (s.reg rn + off) w.bytes))) := if_pos h

theorem exec_store (h : sys.allows u (s.reg rn + off) w.bytes = true) :
    Inst.exec sys s (.access false w u rt rn ⟨true, wb, off⟩) =
      some { s.writeBack rn ⟨true, wb, off⟩ with
        mem := write s.mem (s.reg rn + off) w.bytes ((s.reg rt).setWidth 64) } := if_pos h

/-- A loaded word could have been moved. -/
theorem runLine_movImm (sys : Sys) (s : State) (q : Reg) (v : Word) :
    runLine sys [.base (.movImm false q v)] s = some (s.set q v, false) := by
  show some ((s.set q v).skip 0, false) = _
  rw [skip_zero]

end

end Thumb
