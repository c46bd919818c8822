import BlueSwat.Jit.Size

/-!
# The size of emitted code

`buildInst_spec`: in both passes an instruction takes what the table of `Size` says. There is one
lemma for each emitter, on regular rows: a pair of stack offsets, or one of the pairs `r0`/`r1` to
`r8`/`r9`.
-/

set_option autoImplicit false

namespace BlueSwat.Jit

open Ebpf

/-- The bytes of a piece of code. -/
def size (c : Code) : Nat := 2 * c.length

@[simp] theorem size_nil : size [] = 0 := rfl

@[simp] theorem size_append (a b : Code) : size (a ++ b) = size a + size b := by
  simp only [size, List.length_append]
  omega

@[simp] theorem size_emit2 (x : BitVec 16) : size (emit2 x) = 2 := rfl

@[simp] theorem size_emit4 (x : BitVec 32) : size (emit4 x) = 4 := rfl

theorem size_ite (p : Prop) [Decidable p] (a b : Code) :
    size (if p then a else b) = if p then size a else size b := apply_ite size p a b

/-! ## Rows -/

/-- Both halves on the stack, or an even register and the next one. -/
def Row.Regular (r : Row) : Prop :=
  (isStacked r.lo ∧ isStacked r.hi) ∨ (0 ≤ r.lo ∧ r.lo ≤ 8 ∧ r.lo % 2 = 0 ∧ r.hi = r.lo + 1)

theorem regular_tmp2 : tmp2.Regular := .inr (by decide)

/-- The 15 rows of the table. -/
theorem bpf2a32_of_lt {beyond : Row} {reg : BitVec 4} (h : reg.toNat < 15) :
    bpf2a32 beyond reg = bpf2a32 bpfR0 reg := by
  unfold bpf2a32
  generalize reg.toNat = k at h
  have hk : k = 0 ∨ k = 1 ∨ k = 2 ∨ k = 3 ∨ k = 4 ∨ k = 5 ∨ k = 6 ∨ k = 7 ∨ k = 8 ∨ k = 9 ∨
      k = 10 ∨ k = 11 ∨ k = 12 ∨ k = 13 ∨ k = 14 := by omega
  rcases hk with rfl | rfl | rfl | rfl | rfl | rfl | rfl | rfl | rfl | rfl | rfl | rfl | rfl | rfl |
    rfl <;> rfl

theorem regular_bpf2a32 (reg : BitVec 4) : (bpf2a32 bpfR0 reg).Regular := by
  have key : ∀ r : BitVec 4, (isStacked (bpf2a32 bpfR0 r).lo ∧ isStacked (bpf2a32 bpfR0 r).hi) ∨
      (0 ≤ (bpf2a32 bpfR0 r).lo ∧ (bpf2a32 bpfR0 r).lo ≤ 8 ∧ (bpf2a32 bpfR0 r).lo % 2 = 0 ∧
        (bpf2a32 bpfR0 r).hi = (bpf2a32 bpfR0 r).lo + 1) := by decide
  exact key reg

theorem Row.Regular.stacked_hi {r : Row} (h : r.Regular) : isStacked r.hi ↔ isStacked r.lo := by
  unfold Regular isStacked at *
  omega

/-- Where an operand is held, it is in a register. -/
theorem Row.Regular.heldRow {r t : Row} (h : r.Regular) (ht : t.Regular) (h0 : ¬ isStacked t.lo) :
    (heldRow r t).Regular ∧ ¬ isStacked (heldRow r t).lo := by
  unfold Jit.heldRow
  split
  · exact ⟨ht, h0⟩
  · exact ⟨h, ‹_›⟩

/-! ## Single instructions -/

theorem ofInt_lt_eight {rd : Int} (h : -128 ≤ rd ∧ rd < 128) :
    (BitVec.ofInt 8 rd).toNat < 8 ↔ 0 ≤ rd ∧ rd < 8 := by
  rw [BitVec.toNat_ofInt]
  omega

theorem size_emitMovImm {rd : Int} (h : -128 ≤ rd ∧ rd < 128) (val : BitVec 32) :
    size (emitMovImm rd val) = immSize rd val := by
  simp only [emitMovImm, immSize, ofInt_lt_eight h, size_ite, size_append, size_emit2, size_emit4,
    size_nil]
  split_ifs <;> omega

theorem size_emitMovReg {src dst : Int} (hs : src ≠ 13) (hd : dst ≠ 13) :
    size (emitMovReg src dst) = 2 := by
  rw [emitMovReg, if_pos ⟨hd, hs⟩, size_emit2]

theorem size_emitLdrI (rt rn off : Int) : size (emitLdrI rt rn off) = 4 := by
  rw [emitLdrI, size_ite, size_emit4, size_emit4, ite_self]

theorem size_emitCmpReg (rn rm : Int) : size (emitCmpReg rn rm) = 2 := by
  rw [emitCmpReg, size_ite, size_emit2, size_emit2, ite_self]

@[simp] theorem size_emitLdrdI (rt : Row) (rn off : Int) : size (emitLdrdI rt rn off) = 4 := rfl

@[simp] theorem size_emitStrI (rn rt off : Int) : size (emitStrI rn rt off) = 4 := rfl

@[simp] theorem size_emitStrdI (rn : Row) (rt off : Int) : size (emitStrdI rn rt off) = 4 := rfl

/-! ## Rows in and out of registers -/

theorem armBpfGetReg32_size (r t : Int) : size (armBpfGetReg32 r t).1 = spill r := by
  unfold armBpfGetReg32 spill
  split
  · exact size_emitLdrI _ _ _
  · rfl

theorem armBpfGetReg32_held (r t : Int) : (armBpfGetReg32 r t).2 = held r t := by
  unfold armBpfGetReg32 held
  split <;> rfl

theorem armBpfGetReg64_size (r t : Row) : size (armBpfGetReg64 r t).1 = spill r.lo := by
  unfold armBpfGetReg64 spill
  split <;> rfl

theorem armBpfGetReg64_held (r t : Row) : (armBpfGetReg64 r t).2 = heldRow r t := by
  unfold armBpfGetReg64 heldRow
  split <;> rfl

theorem size_armBpfPutReg32 {r src : Int} (hr : r ≠ 13) (hs : src ≠ 13) :
    size (armBpfPutReg32 r src) = if r = src ∧ ¬ isStacked r then 0 else putSize r := by
  unfold armBpfPutReg32 putSize
  by_cases hst : isStacked r
  · simp [hst]
  · by_cases h : r = src
    · subst h
      simp [hst]
    · simp [hst, h, size_emitMovReg hs hr]

/-- A row that was taken from its registers or from the stack is put back: one store, or nothing. -/
theorem size_armBpfPutReg64 (r t : Row) :
    size (armBpfPutReg64 r (heldRow r t)) = spill r.lo := by
  unfold armBpfPutReg64 heldRow spill
  by_cases h : isStacked r.lo <;> simp [h]

/-! ## Arithmetic -/

theorem size_emitLowOr (narrow wide : BitVec 32) (rd rn : Int) :
    size (emitLowOr narrow wide rd rn) = if lowReg rn ∧ lowReg rd then 2 else 4 := by
  rw [emitLowOr, size_ite, size_emit2, size_emit4]

/-- The operations that `emit_alu64_reg` is called with. -/
def AluOp.Plain : AluOp → Prop
  | .div | .mod | .mov => False
  | _ => True

theorem size_emitAluOp {op : AluOp} (h : AluOp.Plain op) (rd rn : Int) (hi : Bool) :
    size (emitAluOp rd rn true hi op) = opSize op rd rn := by
  cases op with
  | div | mod | mov => exact h.elim
  | add | sub => cases hi <;> rfl
  | or => simp [emitAluOp, opSize, emitOrrReg, size_ite]
  | and => simp [emitAluOp, opSize, emitAndReg, size_ite]
  | xor | mul | lsh | rsh | arsh => exact size_emitLowOr _ _ _ _

/-- On registers, nothing is loaded or stored. -/
theorem size_emitAlu32Reg {op : AluOp} (h : AluOp.Plain op) {rd rn : Int} (hd : ¬ isStacked rd)
    (hn : ¬ isStacked rn) (hi : Bool) :
    size (emitAlu32Reg rd rn true hi op) = opSize op rd rn := by
  simp [emitAlu32Reg, armBpfGetReg32, armBpfPutReg32, hd, hn, size_emitAluOp h]

section
variable {d s : Row}

theorem not_isStacked_held {r t : Int} (ht : ¬ isStacked t) : ¬ isStacked (held r t) := by
  unfold held
  split <;> assumption

theorem size_emitAlu64Reg_true {op : AluOp} (h : AluOp.Plain op) (hd : d.Regular) (hs : s.Regular) :
    size (emitAlu64Reg true d s op) = 2 * spill d.lo + spill s.lo +
      opSize op (heldRow d tmp).lo (heldRow s tmp2).lo +
      opSize op (heldRow d tmp).hi (heldRow s tmp2).hi := by
  obtain ⟨hd1, hd2⟩ := hd.heldRow (t := tmp) (.inr (by decide)) (by decide)
  obtain ⟨hs1, hs2⟩ := hs.heldRow regular_tmp2 (by decide)
  have hd3 := mt hd1.stacked_hi.1 hd2
  have hs3 := mt hs1.stacked_hi.1 hs2
  simp only [emitAlu64Reg, if_true, armBpfGetReg64_held, size_append, armBpfGetReg64_size,
    size_emitAlu32Reg h hd2 hs2, size_emitAlu32Reg h hd3 hs3, size_armBpfPutReg64]
  omega

theorem size_emitAlu64Reg_false {op : AluOp} (h : AluOp.Plain op) (hd : d.Regular) :
    size (emitAlu64Reg false d s op) = 2 * spill d.lo + spill s.lo +
      opSize op (heldRow d tmp).lo (held s.lo tmp2.lo) := by
  obtain ⟨hd1, hd2⟩ := hd.heldRow (t := tmp) (.inr (by decide)) (by decide)
  have hs2 : ¬ isStacked (held s.lo tmp2.lo) := not_isStacked_held (by decide)
  simp only [emitAlu64Reg, Bool.false_eq_true, if_false, armBpfGetReg64_held, size_append,
    armBpfGetReg64_size, armBpfGetReg32_size, armBpfGetReg32_held, size_emitAlu32Reg h hd2 hs2,
    size_armBpfPutReg64]
  omega

theorem size_emitAlu32Imm {r : Int} (hr : r ≠ 13) (val : BitVec 16) (opcode : BitVec 32) :
    size (emitAlu32Imm r val opcode) = 2 + 2 * spill r := by
  have h : held r tmp.hi ≠ 13 := by
    unfold held
    split
    · decide
    · exact hr
  simp only [emitAlu32Imm, size_append, armBpfGetReg32_size, armBpfGetReg32_held, size_emit2,
    size_armBpfPutReg32 hr h]
  unfold held spill putSize
  by_cases hs : isStacked r <;> simp [hs]

theorem Row.Regular.lo_range {r : Row} (h : r.Regular) (h0 : ¬ isStacked r.lo) :
    0 ≤ r.lo ∧ r.lo ≤ 8 ∧ r.lo % 2 = 0 ∧ r.hi = r.lo + 1 := by
  rcases h with h | h
  · exact absurd h.1 h0
  · exact h

theorem Row.Regular.ne {r : Row} (h : r.Regular) {k : Int} (hk : 9 < k) : r.lo ≠ k ∧ r.hi ≠ k := by
  unfold Regular isStacked at h
  omega

/-- A result in a register that is no half of the row. -/
theorem Row.Regular.size_put {r : Row} (h : r.Regular) (src : Int) (hs : 9 < src) (h13 : src ≠ 13) :
    size (armBpfPutReg32 r.lo src) = putSize r.lo ∧
      size (armBpfPutReg32 r.hi src) = putSize r.lo := by
  have hl := h.ne hs
  have h1 := h.ne (k := 13) (by decide)
  have hp : putSize r.hi = putSize r.lo := by simp only [putSize, h.stacked_hi]
  constructor
  · rw [size_armBpfPutReg32 h1.1 h13, if_neg fun e => hl.1 e.1]
  · rw [size_armBpfPutReg32 h1.2 h13, if_neg fun e => hl.2 e.1, hp]

theorem size_emitU32DivMod (isDiv : Bool) (form : Form) (imm : BitVec 16) :
    size (emitU32DivMod d s isDiv form imm) = divModSize isDiv form d s := by
  have hput : size (armBpfPutReg32 d.lo (held d.lo tmp2.lo)) = spill d.lo := by
    by_cases h : isStacked d.lo <;> simp [held, spill, h, armBpfPutReg32]
  have himm : size (emitMovImm tmp2.hi (imm.setWidth 32)) = 4 := by
    rw [size_emitMovImm (by decide)]
    have := imm.isLt
    simp only [immSize, BitVec.toNat_setWidth]
    rw [if_neg (fun h => absurd h.2.2 (by decide)), if_pos (by omega)]
  cases form <;> cases isDiv <;>
    simp only [emitU32DivMod, divModSize, size_append, armBpfGetReg32_size, armBpfGetReg32_held,
      himm, hput, if_true, Bool.false_eq_true, if_false, size_emit4] <;> omega

/-! ## 64-bit shifts, negation and multiplication -/

theorem size_emitLsh64Reg (hd : d.Regular) :
    size (emitLsh64Reg d s) = spill s.lo + spill d.lo + 32 + 2 * putSize d.lo := by
  have hlo : size (armBpfPutReg32 d.lo tmp2.hi) = putSize d.lo := by
    rw [size_armBpfPutReg32 (hd.ne (by decide)).1 (by decide), if_neg]
    rintro ⟨h, h0⟩
    have := hd.lo_range h0
    rw [h] at this
    exact absurd this.2.2.1 (by decide)
  have hhi := (hd.size_put armIp (by decide) (by decide)).2
  simp only [emitLsh64Reg, size_append, armBpfGetReg32_size, armBpfGetReg64_size, size_emit4, hlo,
    hhi]
  omega

theorem size_emitA32RshR64 (hd : d.Regular) :
    size (emitA32RshR64 d s) = spill s.lo + spill d.lo + 32 + 2 * putSize d.lo := by
  have hlo := (hd.size_put armLr (by decide) (by decide)).1
  have hhi := (hd.size_put armIp (by decide) (by decide)).2
  simp only [emitA32RshR64, size_append, armBpfGetReg32_size, armBpfGetReg64_size, size_emit4, hlo,
    hhi]
  omega

theorem size_emitA32ArshR64 (hd : d.Regular) :
    size (emitA32ArshR64 d s) = spill s.lo + spill d.lo + 34 + 2 * putSize d.lo := by
  have hlo := (hd.size_put armLr (by decide) (by decide)).1
  have hhi := (hd.size_put armIp (by decide) (by decide)).2
  simp only [emitA32ArshR64, size_append, armBpfGetReg32_size, armBpfGetReg64_size, size_emit2,
    size_emit4, hlo, hhi]
  omega

theorem size_emitMovImm_heldRow (hd : d.Regular) (v w : BitVec 32) :
    size (emitMovImm (heldRow d tmp).lo v) = immSize (heldRow d tmp).lo v ∧
      size (emitMovImm (heldRow d tmp).hi w) = immSize (heldRow d tmp).hi w := by
  obtain ⟨h1, h2⟩ := hd.heldRow (t := tmp) (.inr (by decide)) (by decide)
  have := h1.lo_range h2
  exact ⟨size_emitMovImm (by omega) _, size_emitMovImm (by omega) _⟩

theorem size_emitMovReg_heldRow (hd : d.Regular) :
    size (emitMovReg (heldRow d tmp).lo (heldRow d tmp).hi) = 2 ∧
      size (emitMovReg (heldRow d tmp).hi (heldRow d tmp).lo) = 2 := by
  obtain ⟨h1, h2⟩ := hd.heldRow (t := tmp) (.inr (by decide)) (by decide)
  have := h1.lo_range h2
  exact ⟨size_emitMovReg (by omega) (by omega), size_emitMovReg (by omega) (by omega)⟩

theorem size_emitLsh64Imm (hd : d.Regular) (v : BitVec 16) :
    size (emitLsh64Imm d v) = 2 * spill d.lo + if v.toNat < 32 then 10 else 4 := by
  simp only [emitLsh64Imm, size_append, armBpfGetReg64_size, armBpfGetReg64_held, size_ite,
    size_emit2, size_emit4, size_armBpfPutReg64, (size_emitMovReg_heldRow hd).1]
  split_ifs <;> omega

theorem size_emitA32RshI64 (hd : d.Regular) (v : BitVec 16) :
    size (emitA32RshI64 d v) = 2 * spill d.lo +
      if v.toNat = 0 then 0
      else if v.toNat < 32 then 12
      else (if v.toNat = 32 then 2 else 4) + immSize (heldRow d tmp).hi 0 := by
  simp only [emitA32RshI64, size_append, armBpfGetReg64_size, armBpfGetReg64_held, size_ite,
    size_nil, size_emit4, size_armBpfPutReg64, (size_emitMovReg_heldRow hd).2,
    (size_emitMovImm_heldRow hd 0 0).2]
  split_ifs <;> omega

theorem size_emitA32ArshI64 (hd : d.Regular) (v : BitVec 32) :
    size (emitA32ArshI64 d v) = 2 * spill d.lo +
      if v.toNat = 0 then 0 else if v.toNat < 32 then 12 else if v.toNat = 32 then 6 else 8 := by
  simp only [emitA32ArshI64, size_append, armBpfGetReg64_size, armBpfGetReg64_held, size_ite,
    size_nil, size_emit4, size_armBpfPutReg64, (size_emitMovReg_heldRow hd).2]
  split_ifs <;> omega

theorem size_emitA32Neg64 : size (emitA32Neg64 d) = 8 + 2 * spill d.lo := by
  simp only [emitA32Neg64, size_append, armBpfGetReg64_size, armBpfGetReg64_held, size_emit4,
    size_armBpfPutReg64]
  omega

theorem size_emitA32MulR64 (hd : d.Regular) :
    size (emitA32MulR64 d s) = spill d.lo + spill s.lo + 16 + putSize d.lo + spill d.lo := by
  have hlo := (hd.size_put armIp (by decide) (by decide)).1
  have hhi : size (armBpfPutReg32 d.hi (heldRow d tmp).hi) = spill d.lo := by
    unfold armBpfPutReg32 heldRow spill
    by_cases h : isStacked d.lo <;> simp [h, hd.stacked_hi]
  simp only [emitA32MulR64, size_append, armBpfGetReg64_size, armBpfGetReg64_held, size_emit2,
    size_emit4, hlo, hhi]

/-! ## Moves -/

theorem size_emitA32MovReg (hd : d.Regular) (hs : s.Regular) :
    size (emitA32MovReg s.lo d.lo) =
      spill s.lo + if held s.lo tmp.hi = d.lo then 0 else putSize d.lo := by
  have h1 := (hd.ne (k := 13) (by decide)).1
  have h2 : held s.lo tmp.hi ≠ 13 ∧ ¬ isStacked (held s.lo tmp.hi) := by
    refine ⟨?_, not_isStacked_held (by decide)⟩
    unfold held
    split
    · decide
    · exact (hs.ne (by decide)).1
  simp only [emitA32MovReg, size_append, armBpfGetReg32_size, armBpfGetReg32_held,
    size_armBpfPutReg32 h1 h2.1]
  congr 1
  by_cases h : held s.lo tmp.hi = d.lo
  · have : ¬ isStacked d.lo := h ▸ h2.2
    simp [h, this]
  · simp [h, Ne.symm h]

theorem size_emitMovReg64 (hd : d.Regular) (hs : s.Regular) (is64 : Bool) :
    size (emitMovReg64 is64 d s) =
      if is64 then (if isStacked s.lo ∧ isStacked d.lo then 8 else 4)
      else spill s.lo + if held s.lo tmp.hi = d.lo then 0 else putSize d.lo := by
  have h1 := hd.ne (k := 13) (by decide)
  have h2 := hs.ne (k := 13) (by decide)
  cases is64
  · simpa [emitMovReg64] using size_emitA32MovReg hd hs
  · simp only [emitMovReg64, size_ite, size_append, size_emitLdrdI, size_emitStrdI,
      size_emitMovReg h2.1 h1.1, size_emitMovReg h2.2 h1.2]
    by_cases ha : isStacked s.lo <;> by_cases hb : isStacked d.lo <;> simp [ha, hb]

theorem size_emitMovI64 (hd : d.Regular) (val : BitVec 64) :
    size (emitMovI64 d val) = immSize (heldRow d tmp).lo (val.setWidth 32) +
      immSize (heldRow d tmp).hi ((val >>> 32).setWidth 32) + spill d.lo := by
  have h := size_emitMovImm_heldRow hd (val.setWidth 32) ((val >>> 32).setWidth 32)
  simp only [emitMovI64, size_append]
  exact congrArg₂ (· + ·) (congrArg₂ (· + ·) h.1 h.2) (size_armBpfPutReg64 d tmp)

/-- The two halves of a sign-extended constant. -/
theorem halves_signExtend (imm : BitVec 32) :
    (imm.signExtend 64).setWidth 32 = imm ∧
      ((imm.signExtend 64) >>> 32).setWidth 32 = signHalf imm := by
  constructor
  · apply BitVec.eq_of_getLsbD_eq
    intro i hi
    have h : i < 64 := by omega
    simp only [BitVec.getLsbD_setWidth, BitVec.getLsbD_signExtend, hi, h, decide_true,
      Bool.true_and, if_true]
  · apply BitVec.eq_of_getLsbD_eq
    intro i hi
    have key : ∀ b : Bool, ∀ j : Fin 32,
        (if b then (0xffffffff : BitVec 32) else 0).getLsbD j = b := by decide
    have h : 32 + i < 64 := by omega
    have h' : ¬ 32 + i < 32 := by omega
    rw [signHalf, key imm.msb ⟨i, hi⟩]
    simp only [BitVec.getLsbD_setWidth, BitVec.getLsbD_ushiftRight,
      BitVec.getLsbD_signExtend, hi, h,
      h', decide_true, Bool.true_and, if_false]

theorem halves_or (lo hi : BitVec 32) :
    (lo.setWidth 64 ||| hi.setWidth 64 <<< 32).setWidth 32 = lo ∧
      ((lo.setWidth 64 ||| hi.setWidth 64 <<< 32) >>> 32).setWidth 32 = hi := by
  constructor
  · apply BitVec.eq_of_getLsbD_eq
    intro i h
    simp [h]
  · apply BitVec.eq_of_getLsbD_eq
    intro i h
    have h' : 32 + i < 64 := by omega
    simp [h, h']

theorem size_emitMovSeImm64 (hd : d.Regular) (imm : BitVec 32) :
    size (emitMovSeImm64 true d imm) = immSize (heldRow d tmp).lo imm +
      immSize (heldRow d tmp).hi (signHalf imm) + spill d.lo := by
  have h := halves_signExtend imm
  simp only [emitMovSeImm64, if_true, size_emitMovI64 hd, h.1, h.2]

theorem size_emitMovSeImm64_tmp2 (imm : BitVec 32) :
    size (emitMovSeImm64 true tmp2 imm) = imm64Size imm :=
  size_emitMovSeImm64 regular_tmp2 imm

/-! ## Loads and stores -/

theorem size_emitAddReg (dst src : Int) : size (emitAddReg dst src false false) = 2 := rfl

theorem size_far (off src : Int) :
    size (emitMovImm tmp.hi (bits off) ++ emitAddReg tmp.hi src false false) = farSize off := by
  rw [size_append, size_emitMovImm (by decide), size_emitAddReg, farSize]

theorem size_emitLdrbI {off : Int} (rt rn : Int) (h : -0xfff ≤ off ∧ off ≤ 0xfff) :
    size (emitLdrbI rt rn off) =
      if (off ≤ 31 ∧ off ≥ -31) ∧ rt < 8 ∧ rn < 8 then 2 else 4 := by
  simp only [emitLdrbI, size_ite, size_emit2, size_emit4, size_nil]
  split_ifs <;> omega

theorem size_emitLdrhI {off : Int} (rt rn : Int) (h : -0xff ≤ off ∧ off ≤ 0xff) :
    size (emitLdrhI rt rn off) = if off ≤ 31 ∧ off ≥ -31 then 2 else 4 := by
  simp only [emitLdrhI, size_ite, size_emit2, size_emit4, size_nil]
  split_ifs <;> omega

theorem size_emitLoad {sz : Size} {off : Int} (h : isLdstImm off sz) (rd : Row) (rm : Int) :
    size (emitLoad rd rm off sz) = loadSize sz rd.lo rm off := by
  cases sz with
  | b => exact size_emitLdrbI _ _ h
  | h => exact size_emitLdrhI _ _ h
  | w => exact size_emitLdrI _ _ _
  | dw => simp [emitLoad, size_emitLdrI, loadSize]

theorem isLdstImm_zero (sz : Size) : isLdstImm 0 sz := by
  cases sz <;> decide

/-- The copy of a base: no base register is the temporary one. -/
theorem size_emitA32MovReg_base (hs : s.Regular) :
    size (emitA32MovReg (held s.lo tmp2.lo) tmp.hi) = 2 := by
  have hn : ¬ isStacked (held s.lo tmp2.lo) := not_isStacked_held (by decide)
  have h : held s.lo tmp2.lo ≠ 13 ∧ tmp.hi ≠ held s.lo tmp2.lo := by
    unfold held
    split
    · decide
    · have := hs.lo_range ‹_›
      refine ⟨(hs.ne (by decide)).1, fun h => ?_⟩
      rw [← h] at this
      exact absurd this.2.2.1 (by decide)
  simp only [emitA32MovReg, armBpfGetReg32, hn, if_false, List.nil_append]
  rw [size_armBpfPutReg32 (by decide) h.1, if_neg fun e => h.2 e.1]
  rfl

theorem size_ldxBase (hs : s.Regular) (rd : Row) (off : Int) (sz : Size) :
    size (ldxBase rd (held s.lo tmp2.lo) off sz).1 +
      size (emitLoad rd (ldxBase rd (held s.lo tmp2.lo) off sz).2.1
        (ldxBase rd (held s.lo tmp2.lo) off sz).2.2 sz) =
      ldxBaseSize sz rd.lo (held s.lo tmp2.lo) off := by
  unfold ldxBase ldxBaseSize
  by_cases h1 : isLdstImm off sz
  · by_cases h2 : rd.lo = held s.lo tmp2.lo
    · simp [h1, h2, size_emitLoad h1, size_emitA32MovReg_base hs]
    · simp [h1, h2, size_emitLoad h1]
  · simp only [if_pos h1, size_far, size_emitLoad (isLdstImm_zero sz)]

theorem emitLdxReg_eq (rn off : Int) (sz : Size) : emitLdxReg d rn off sz =
    (ldxBase (heldRow d tmp) rn off sz).1 ++
      emitLoad (heldRow d tmp) (ldxBase (heldRow d tmp) rn off sz).2.1
        (ldxBase (heldRow d tmp) rn off sz).2.2 sz ++
      armBpfPutReg64 d (heldRow d tmp) := rfl

theorem size_emitLdxReg (hs : s.Regular) (off : Int) (sz : Size) :
    spill s.lo + size (emitLdxReg d (held s.lo tmp2.lo) off sz) = ldxSize sz d s off := by
  rw [emitLdxReg_eq, size_append, size_append, size_ldxBase hs, size_armBpfPutReg64, ldxSize]
  omega

theorem size_emitStore (src : Row) (rd off : Int) (sz : Size) :
    size (emitStore src rd off sz) = if sz = .dw then 8 else 4 := by
  cases sz <;> rfl

theorem size_emitStrReg (src : Row) (off : Int) (sz : Size) :
    size (emitStrReg d.lo src off sz) = strSize sz d off := by
  have hf := size_far off (armBpfGetReg32 d.lo tmp.lo).2
  rw [size_append] at hf
  by_cases h : isLdstImm off sz
  · simp only [emitStrReg, strSize, h, not_true_eq_false, if_true, if_false, size_append,
      armBpfGetReg32_size, size_emitStore]
    omega
  · simp only [emitStrReg, strSize, h, not_false_eq_true, if_true, if_false, size_append,
      armBpfGetReg32_size, size_emitStore]
    omega

/-! ## Comparisons -/

theorem size_emitCmpCond (rd rt rm rn : Int) (c : Cond) :
    size (emitCmpCond rd rt rm rn c) = cmpSize c := by
  cases c <;> simp [emitCmpCond, cmpSize, size_emitCmpReg]

theorem size_buildCompare (hs : s.Regular) (imm : BitVec 32) (c : Cond) (form : Form) :
    size (buildCompare d s imm c form) =
      (match form with | .reg => 2 * spill s.lo | .imm => imm64Size imm) + spill d.lo +
        cmpSize c := by
  have hsp : spill s.hi = spill s.lo := by simp only [spill, hs.stacked_hi]
  cases form
  · simp only [buildCompare, size_append, size_emitMovSeImm64_tmp2, armBpfGetReg64_size,
      size_emitCmpCond]
  · simp only [buildCompare, size_append, armBpfGetReg32_size, armBpfGetReg64_size,
      size_emitCmpCond, hsp]
    omega

/-! ## One instruction -/

theorem size_buildMov (hd : d.Regular) (hs : s.Regular) (hb : -128 ≤ d.lo ∧ -128 ≤ d.hi)
    (is64 : Bool) (form : Form) (imm : BitVec 32) :
    size (buildMov is64 form d s imm) = movSize is64 form d s imm := by
  have hr : d.lo < 128 ∧ d.hi < 128 := by
    unfold Row.Regular isStacked at hd
    omega
  cases form
  · cases is64
    · exact size_emitMovImm ⟨hb.1, hr.1⟩ imm
    · exact size_emitMovSeImm64 hd imm
  · simp only [buildMov, movSize, size_ite, size_emitMovImm (⟨hb.2, hr.2⟩ : -128 ≤ d.hi ∧ _),
      size_emitMovReg64 hd hs]

/-- The return value says whether the shift is refused. -/
theorem buildShift32_spec (hd : d.Regular) (imm opcode : BitVec 32) :
    size (buildShift32 d imm opcode).1 =
        (if imm.toInt > 31 ∨ imm = 0 then 0 else 2 + 2 * spill d.lo) ∧
      (buildShift32 d imm opcode).2 = if imm.toInt > 31 then -1 else 0 := by
  unfold buildShift32
  by_cases h1 : imm.toInt > 31
  · simp [h1]
  · by_cases h2 : imm = 0
    · simp [h2]
    · rw [if_neg h1, if_pos h2, if_neg (fun h => h.elim h1 h2), if_neg h1]
      exact ⟨size_emitAlu32Imm (hd.ne (by decide)).1 _ _, rfl⟩

theorem size_buildAluOp_true (hd : d.Regular) (hs : s.Regular) {op : AluOp} (h : AluOp.Plain op)
    (form : Form) (imm : BitVec 32) :
    size (buildAluOp true op form d s imm) = (match form with
      | .imm => imm64Size imm + 2 * spill d.lo + opSize op (heldRow d tmp).lo tmp2.lo +
          opSize op (heldRow d tmp).hi tmp2.hi
      | .reg => 2 * spill d.lo + spill s.lo + opSize op (heldRow d tmp).lo (heldRow s tmp2).lo +
          opSize op (heldRow d tmp).hi (heldRow s tmp2).hi) := by
  cases form
  · have e : heldRow tmp2 tmp2 = tmp2 := rfl
    have e' : spill tmp2.lo = 0 := rfl
    simp only [buildAluOp, size_append, size_emitMovSeImm64_tmp2,
      size_emitAlu64Reg_true h hd regular_tmp2, e, e']
    omega
  · exact size_emitAlu64Reg_true h hd hs

theorem size_buildAluOp_false (hd : d.Regular) {op : AluOp} (h : AluOp.Plain op)
    (form : Form) (imm : BitVec 32) :
    size (buildAluOp false op form d s imm) = (match form with
      | .imm => immSize tmp2.lo imm + 2 * spill d.lo + opSize op (heldRow d tmp).lo tmp2.lo
      | .reg => 2 * spill d.lo + spill s.lo +
          opSize op (heldRow d tmp).lo (held s.lo tmp2.lo)) := by
  cases form
  · have e : held tmp2.lo tmp2.lo = tmp2.lo := rfl
    have e' : spill tmp2.lo = 0 := rfl
    have e2 : size (emitMovSeImm64 false tmp2 imm) = immSize tmp2.lo imm :=
      size_emitMovImm (by decide) imm
    simp only [buildAluOp, size_append, e2, size_emitAlu64Reg_false h hd, e, e']
    omega
  · exact size_emitAlu64Reg_false h hd

theorem size_buildAlu64 (hd : d.Regular) (hs : s.Regular) (hb : -128 ≤ d.lo ∧ -128 ≤ d.hi)
    (op : AluOp) (form : Form) (imm : BitVec 32) :
    size (buildAlu64 op form d s imm) = alu64Size op form d s imm := by
  cases op with
  | mov => exact size_buildMov hd hs hb true form imm
  | div => exact size_emitU32DivMod true form _
  | mod => exact size_emitU32DivMod false form _
  | add | sub | or | and | xor =>
    cases form <;> simp only [buildAlu64, alu64Size] <;>
      exact size_buildAluOp_true hd hs (by trivial) _ imm
  | lsh =>
    cases form
    · exact size_emitLsh64Imm hd _
    · exact size_emitLsh64Reg hd
  | rsh =>
    cases form
    · exact size_emitA32RshI64 hd _
    · exact size_emitA32RshR64 hd
  | arsh =>
    cases form
    · exact size_emitA32ArshI64 hd imm
    · exact size_emitA32ArshR64 hd
  | mul =>
    cases form
    · have e : spill tmp2.lo = 0 := rfl
      simp only [buildAlu64, alu64Size, size_append, size_emitMovSeImm64_tmp2,
        size_emitA32MulR64 hd, e]
      omega
    · exact size_emitA32MulR64 hd

theorem buildAlu32_spec (hd : d.Regular) (hs : s.Regular) (hb : -128 ≤ d.lo ∧ -128 ≤ d.hi)
    (op : AluOp) (form : Form) (imm : BitVec 32) :
    size (buildAlu32 op form d s imm).1 = alu32Size op form d s imm ∧
      (buildAlu32 op form d s imm).2 =
        if (op = .lsh ∨ op = .rsh ∨ op = .arsh) ∧ form = .imm ∧ imm.toInt > 31 then -1 else 0 := by
  have hshift := buildShift32_spec hd imm
  cases op with
  | mov => exact ⟨size_buildMov hd hs hb false form imm, by simp [buildAlu32]⟩
  | div => exact ⟨size_emitU32DivMod true form _, by simp [buildAlu32]⟩
  | mod => exact ⟨size_emitU32DivMod false form _, by simp [buildAlu32]⟩
  | add | sub | or | and | xor | mul =>
    refine ⟨?_, by cases form <;> simp [buildAlu32]⟩
    cases form <;> simp only [buildAlu32, alu32Size] <;>
      exact size_buildAluOp_false hd (by trivial) _ imm
  | lsh | rsh | arsh =>
    cases form
    · refine ⟨(hshift _).1, (hshift _).2.trans ?_⟩
      simp
    · refine ⟨?_, by simp [buildAlu32]⟩
      simp only [buildAlu32, alu32Size]
      exact size_buildAluOp_false hd (by trivial) _ imm

end

/-! ## Branches -/

theorem size_emitB (off : Int) : size (emitB off) = exitSize off := by
  simp only [emitB, exitSize, size_ite, size_emit2, size_emit4, size_nil]

theorem size_emitJump {instNum : Nat} {off : Int} (h : -256 ≤ off ∧ off ≤ 255)
    (hn : ¬ useB4 instNum → off ≤ 254) (c : Cond) :
    size (emitJump instNum off c) = branchSize instNum c := by
  unfold emitJump branchSize
  cases jumpCond c with
  | none => simp
  | some cond =>
    simp only [emitBCond, size_ite, size_emit2, size_emit4, size_nil]
    by_cases hb : useB4 instNum
    · rw [if_neg fun e => e.1 hb, if_pos (by omega)]
      simp [hb]
    · rw [if_pos ⟨hb, h.1, hn hb⟩]
      simp [hb]

/-- The recorded ends of the instructions are even. -/
def EvenOffsets (s : JitState) : Prop := ∀ i : Nat, i < s.instNum → (s.offsets i).toNat % 2 = 0

section
variable {s : JitState} {pc : Nat}

/-- A distance is the difference of two bytes: every branch of a jump has the short range. -/
theorem EvenOffsets.range (h : EvenOffsets s) (hpc : pc < s.instNum) (target bsize : Int)
    (hb : bsize = 2 ∨ bsize = 4) :
    -256 ≤ bpf2a32Offset s pc target bsize ∧ bpf2a32Offset s pc target bsize ≤ 251 + bsize := by
  have h1 := h pc hpc
  have h2 := (s.offsets pc).isLt
  have h3 := (s.offsets target).isLt
  unfold bpf2a32Offset
  split <;> omega

theorem EvenOffsets.size_branch (h : EvenOffsets s) (hpc : pc < s.instNum) (target : Int)
    (c : Cond) :
    size (emitJump s.instNum
      (bpf2a32Offset s pc target (if useB4 s.instNum then 4 else 2)) c) =
        branchSize s.instNum c := by
  by_cases hb : useB4 s.instNum
  · have := h.range hpc target 4 (.inr rfl)
    rw [if_pos hb]
    exact size_emitJump (by omega) (fun hn => absurd hb hn) c
  · have := h.range hpc target 2 (.inl rfl)
    rw [if_neg hb]
    exact size_emitJump (by omega) (fun _ => by omega) c

theorem EvenOffsets.size_ja (h : EvenOffsets s) (hpc : pc < s.instNum) (target : Int) :
    size (emitB (bpf2a32Offset s pc target 2)) = 2 := by
  have := h.range hpc target 2 (.inl rfl)
  rw [size_emitB, exitSize, if_pos (by omega)]

end

/-! ## The table -/

/-- An instruction whose register fields are rows of `bpf2a32`, and that is no call. -/
structure Tabled (inst : EbpfInst) : Prop where
  dst : inst.dst.toNat < 15
  src : inst.src.toNat < 15
  noCall : inst.opcode ≠ Op.call.code

theorem tabled_of {insts : Nat → EbpfInst} {n : Nat}
    (h : ∀ i < n, (insts i).dst.toNat < 15 ∧ (insts i).src.toNat < 15 ∧
      (insts i).opcode ≠ Op.call.code) : ∀ i < n, Tabled (insts i) := fun i hi =>
  ⟨(h i hi).1, (h i hi).2.1, (h i hi).2.2⟩

theorem bpf2a32_byte (reg : BitVec 4) :
    -128 ≤ (bpf2a32 bpfR0 reg).lo ∧ -128 ≤ (bpf2a32 bpfR0 reg).hi := by
  have key : ∀ r : BitVec 4, -128 ≤ (bpf2a32 bpfR0 r).lo ∧ -128 ≤ (bpf2a32 bpfR0 r).hi := by decide
  exact key reg

/-- What `build_inst` returns. -/
def opcodeRet (imm : BitVec 32) (op : Option Op) : Int :=
  if refusedOp imm op then -1 else if op = some .lddw then 1 else 0

theorem buildOp_spec {s : JitState} {pc : Nat} (hdst : (s.insts pc).dst.toNat < 15)
    (hsrc : (s.insts pc).src.toNat < 15) (he : EvenOffsets s) (hpc : pc < s.instNum)
    {op : Option Op} (hcall : op ≠ some .call) :
    size (buildOp s pc op).1 = opcodeSize s.insts s.instNum (exitSize (epilogueOffset s)) pc op ∧
      (buildOp s pc op).2 = opcodeRet (s.insts pc).imm op := by
  have hd := regular_bpf2a32 (s.insts pc).dst
  have hs := regular_bpf2a32 (s.insts pc).src
  have hb := bpf2a32_byte (s.insts pc).dst
  have ed := @bpf2a32_of_lt s.beyond _ hdst
  have es := @bpf2a32_of_lt s.beyond _ hsrc
  unfold buildOp opcodeSize
  simp only [ed, es]
  rcases op with _ | op
  · exact ⟨rfl, rfl⟩
  cases op with
  | alu32 op form =>
    have h := buildAlu32_spec hd hs hb op form (s.insts pc).imm
    refine ⟨h.1, h.2.trans ?_⟩
    cases op <;> cases form <;> simp [opcodeRet, refusedOp]
  | alu64 op form => exact ⟨size_buildAlu64 hd hs hb op form _, rfl⟩
  | neg32 => exact ⟨size_emitAlu32Imm (hd.ne (by decide)).1 _ _, rfl⟩
  | neg64 => exact ⟨size_emitA32Neg64, rfl⟩
  | le | be => exact ⟨rfl, rfl⟩
  | lddw =>
    have h := halves_or (s.insts pc).imm (s.insts (pc + 1)).imm
    exact ⟨by rw [size_emitMovI64 hd, h.1, h.2], rfl⟩
  | ldx sz =>
    refine ⟨?_, rfl⟩
    simp only [buildLdx, size_append, armBpfGetReg32_size, armBpfGetReg32_held, size_emitLdxReg hs]
  | st sz =>
    refine ⟨?_, rfl⟩
    have e : size (emitMovImm tmp2.lo (s.insts pc).imm) = _ := size_emitMovImm (by decide) _
    cases sz <;> simp [buildSt, size_emitStrReg, size_emitMovSeImm64_tmp2, e]
  | stx sz =>
    refine ⟨?_, rfl⟩
    simp only [buildStx, size_append, armBpfGetReg64_size, size_emitStrReg]
  | ja =>
    refine ⟨?_, rfl⟩
    simp only [buildJump, size_append, size_nil, size_ite, he.size_ja hpc, Nat.zero_add]
  | jcond c form =>
    refine ⟨?_, rfl⟩
    simp only [buildJump, jcondSize, ed, es]
    split
    · rfl
    · cases form <;> simp only [size_append, size_buildCompare hs, he.size_branch hpc]
  | exit =>
    refine ⟨?_, rfl⟩
    simp only [buildJump, size_append, size_nil, size_ite, size_emitB, Nat.zero_add]
  | call => exact absurd rfl hcall

/-- **The table is right**: the bytes of an instruction and the value returned, in both passes. -/
theorem buildInst_spec {s : JitState} {pc : Nat} (ht : Tabled (s.insts pc)) (he : EvenOffsets s)
    (hpc : pc < s.instNum) :
    size (buildInst s pc).1 = instSize s.insts s.instNum (exitSize (epilogueOffset s)) pc ∧
      (buildInst s pc).2 = opcodeRet (s.insts pc).imm (Op.ofCode (s.insts pc).opcode) :=
  buildOp_spec ht.dst ht.src he hpc fun h => ht.noCall (Op.ofCode_eq_some.1 h)

end BlueSwat.Jit
