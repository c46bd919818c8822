import BlueSwat.Ebpf.Proof.Exec
import BlueSwat.Jit.Proof.Templates

/-!
# The generated code simulates the interpreter

`Know.Holds k v w`: the register value `v` of the interpreter and the row value `w` of the machine
are as `k` says. Each template keeps it (`Know.Holds.alu`, `holds_load`), and a comparison that
`decides` accepts comes out the same on both sides (`decides_agree`). `check_sound` puts them
together along a run: from related states, the interpreter returns a value and the machine comes
back with it in `r1:r0`.
-/

set_option autoImplicit false

namespace BlueSwat.Jit

open Thumb Machine Bytes
open Ebpf (sext zext Form Cond EbpfInst Op Returns Decodes)

/-! ## Values -/

section
variable {mem ctx imm : Word} {k k' kd ks : Know} {v w v' w' : BitVec 64}

/-- The struct is at `mem` for the interpreter and at `ctx` for the machine. -/
def Know.Holds (mem ctx : Word) (v w : BitVec 64) : Know → Prop
  | .nothing => True
  | .base => v = zext mem ∧ low w = ctx
  | .val exact small => low v = low w ∧ (exact = true → v = w) ∧ (small = true → high v = 0)

theorem ext_pair (hl : low v = low w) (hh : high v = high w) : v = w := by
  rw [← pair_high_low v, ← pair_high_low w, hl, hh]

theorem high_sext (h : imm.msb = false) : high (sext imm) = 0 := by
  rw [sext, high_signExtend, h]
  rfl

/-- Operations keep what is known of a row. -/
theorem Know.Holds.alu {op : Ebpf.AluOp} (hk : Know.alu op imm k = some k')
    (h : k.Holds mem ctx v w) :
    k'.Holds mem ctx (aluVal op imm v) (aluVal op imm w) := by
  unfold Know.alu at hk
  split at hk
  · -- mov
    cases hk
    refine ⟨rfl, fun _ => rfl, fun hs => high_sext ?_⟩
    rwa [Bool.not_eq_true'] at hs
  · -- add
    cases hk
    refine ⟨?_, fun he => congrArg (· + sext imm) (h.2.1 he), fun hs => by cases hs⟩
    rw [aluVal, aluVal, low_add, low_add, h.1]
  · -- and: the high word of the immediate is zero
    obtain ⟨hm, ⟨⟩⟩ := Option.ite_none_left_eq_some.1 hk
    have hl : low (v &&& sext imm) = low (w &&& sext imm) := by rw [low_and, low_and, h.1]
    have hh : ∀ u : BitVec 64, high (u &&& sext imm) = 0 := fun u => by
      rw [high_and, high_sext (by simpa using hm)]
      exact BitVec.and_zero
    exact ⟨hl, fun _ => ext_pair hl ((hh v).trans (hh w).symm), fun _ => hh v⟩
  · -- lsh: only the low word is left
    obtain ⟨-, ⟨⟩⟩ := Option.ite_none_right_eq_some.1 hk
    have hl : low (v <<< 32) = low (w <<< 32) := by rw [low_shiftLeft, low_shiftLeft, h.1]
    refine ⟨hl, fun _ => ext_pair hl ?_, fun hs => by cases hs⟩
    rw [aluVal, aluVal, high_shiftLeft_of_ge _ (by decide), high_shiftLeft_of_ge _ (by decide), h.1]
  · -- rsh
    obtain ⟨-, ⟨⟩⟩ := Option.ite_none_right_eq_some.1 hk
    obtain rfl := h.2.1 rfl
    exact ⟨rfl, fun _ => rfl, fun _ =>
      (high_ushiftRight v 32).trans (BitVec.ushiftRight_eq_zero (Nat.le_refl 32))⟩
  · -- arsh
    obtain ⟨-, ⟨⟩⟩ := Option.ite_none_right_eq_some.1 hk
    obtain rfl := h.2.1 rfl
    exact ⟨rfl, fun _ => rfl, fun hs => by cases hs⟩
  · cases hk

/-- A loaded word is known but for the high word of its row. -/
theorem holds_load {x : Word} (h : low w = x) : (Know.val false true).Holds mem ctx (zext x) w :=
  ⟨(low_setWidth x).trans h.symm, fun he => (by cases he), fun _ => high_setWidth x⟩

theorem Know.Holds.of_exact (h : k.Holds mem ctx v w) (he : k.exact = true) : v = w := by
  cases k with
  | nothing | base => cases he
  | val e sm => exact h.2.1 he

theorem Know.Holds.of_small (h : k.Holds mem ctx v w) (hs : k.small = true) :
    high v = 0 ∧ low v = low w := by
  cases k with
  | nothing | base => cases hs
  | val e sm => exact ⟨h.2.2 hs, h.1⟩

/-! ## Comparisons -/

theorem beq_of_small (hv : high v = 0) (hw : high w = 0) : (v == w) = (low v == low w) := by
  rw [Bool.eq_iff_iff, beq_iff_eq, beq_iff_eq]
  exact ⟨fun h => h ▸ rfl, fun h => ext_pair h (hv.trans hw.symm)⟩

theorem ult_of_small (hv : high v = 0) (hw : high w = 0) : v.ult w = (low v).ult (low w) := by
  rw [BitVec.ult, BitVec.ult, toNat_eq_pair v, toNat_eq_pair w, hv, hw, decide_eq_decide]
  exact Nat.add_lt_add_iff_left

theorem zext_eq_sext (h : imm.msb = false) : zext imm = sext imm := by
  refine ext_pair ?_ ?_
  · rw [zext, sext, low_setWidth, low_signExtend]
  · rw [zext, high_setWidth, high_sext h]

theorem operand_small {form : Form} (h : ks.Holds mem ctx v' w')
    (hs : operandSmall form ks imm = true) :
    high (operandVal form v' imm) = 0 ∧
      low (operandVal form v' imm) = low (operandVal form w' imm) := by
  cases form with
  | imm => exact ⟨high_sext (by simpa [operandSmall] using hs), rfl⟩
  | reg => exact h.of_small hs

theorem operand_exact {form : Form} (h : ks.Holds mem ctx v' w')
    (he : operandExact form ks = true) : operandVal form v' imm = operandVal form w' imm := by
  cases form with
  | imm => rfl
  | reg => exact h.of_exact he

/-- The unsigned comparison takes a small immediate as the others do. -/
theorem gt_holds {form : Form} (hs : operandSmall form ks imm = true) :
    Cond.gt.holds form v v' imm = (operandVal form v' imm).ult v := by
  cases form with
  | imm => exact congrArg (BitVec.ult · v) (zext_eq_sext (by simpa [operandSmall] using hs))
  | reg => rfl

/-- **A comparison that the check accepts comes out as in the interpreter.** -/
theorem decides_agree {cond : Cond} {form : Form} {c : BitVec 4}
    (hd : decides cond form kd ks imm = some c) (h : kd.Holds mem ctx v w)
    (h' : ks.Holds mem ctx v' w') :
    cond.holds form v v' imm = codeHolds cond w (operandVal form w' imm) := by
  cases cond with
  | eq =>
    obtain ⟨hs, -⟩ := Option.ite_none_right_eq_some.1 hd
    rw [Bool.and_eq_true] at hs
    obtain ⟨h1, h2⟩ := h.of_small hs.1
    obtain ⟨h3, h4⟩ := operand_small h' hs.2
    rw [codeHolds, ← h2, ← h4, ← beq_of_small h1 h3]
    cases form <;> rfl
  | ne =>
    obtain ⟨hs, -⟩ := Option.ite_none_right_eq_some.1 hd
    rw [Bool.and_eq_true] at hs
    obtain ⟨h1, h2⟩ := h.of_small hs.1
    obtain ⟨h3, h4⟩ := operand_small h' hs.2
    rw [codeHolds, ← h2, ← h4, bne, ← beq_of_small h1 h3]
    cases form <;> rfl
  | gt =>
    obtain ⟨hs, -⟩ := Option.ite_none_right_eq_some.1 hd
    rw [Bool.and_eq_true] at hs
    obtain ⟨h1, h2⟩ := h.of_small hs.1
    obtain ⟨h3, h4⟩ := operand_small h' hs.2
    rw [codeHolds, ← h2, ← h4, ← ult_of_small h3 h1]
    exact gt_holds hs.2
  | sgt =>
    obtain ⟨hs, -⟩ := Option.ite_none_right_eq_some.1 hd
    rw [Bool.and_eq_true] at hs
    obtain rfl := h.of_exact hs.1
    rw [codeHolds, ← operand_exact h' hs.2]
    cases form <;> rfl
  | _ => cases hd

end

/-! ## Calls -/

/-- One call of a policy on both sides. The interpreter runs `prog` with the struct at `mem` in its
memory `M`. The machine runs `code` at `base`, called in memory `M0` with the struct at `ctx`; the
frame is at `top`, and `lr` is the return address. Both sides find the same words at the offsets
`fields` of the struct; the machine reads them without privilege. -/
structure Call (asm : List EbpfInst) (code : Code) (fields : List Nat) where
  prog : Nat → BitVec 8
  host : Ebpf.Host
  memLen : BitVec 32
  M : Mem
  mem : Word
  base : Word
  unpriv : Word → Bool
  M0 : Mem
  ctx : Word
  top : Word
  lr : Word
  words : Nat → Word
  decodes : Decodes prog asm
  room : Room code base top M0
  thumb : lr.getLsbD 0 = true
  short : ∀ k ∈ fields, k < 2 ^ 15
  read : ∀ k ∈ fields, Bytes.read M (mem + BitVec.ofNat 32 k) 4 = (words k).toNat
  held : ∀ k ∈ fields, Bytes.read M0 (ctx + BitVec.ofNat 32 k) 4 = (words k).toNat
  apart : ∀ k ∈ fields, ∀ j < 4,
    ¬ Within (ctx + BitVec.ofNat 32 k + BitVec.ofNat 32 j) (top - 256) 288
  readable : ∀ k ∈ fields, ∀ j < 4, unpriv (ctx + BitVec.ofNat 32 k + BitVec.ofNat 32 j) = true

namespace Call

section
variable {asm : List EbpfInst} {code : Code} {fields : List Nat} (c : Call asm code fields)

/-- The machine is in its frame, and the rows are as `τ` says for the registers `R`. -/
structure Related (τ : BitVec 4 → Know) (R : BitVec 4 → BitVec 64) (s : State) : Prop where
  frame : Frame c.top c.lr c.M0 s
  rows : ∀ r, r.toNat < 11 → (τ r).Holds c.mem c.ctx (R r) (rowVal s r)

/-- From `s` the code returns with `v` in `r1:r0`. -/
def Back (s : State) (v : BitVec 64) : Prop :=
  ∃ t, Reach (step c.unpriv) s t ∧ t.pc = c.lr &&& 0xfffffffe ∧ t.reg 0 = low v ∧ t.reg 1 = high v

/-- From related states at instruction `pc`, both sides return the same value. -/
def Simulates (place : Nat → Nat) (fuel pc : Nat) (τ : BitVec 4 → Know) : Prop :=
  ∀ R s, c.Related τ R s → s.pc = c.base + BitVec.ofNat 32 (place pc) →
    ∃ v, Returns c.host c.prog c.mem c.memLen fuel ⟨BitVec.ofNat 16 pc, R, c.M⟩ v ∧ c.Back s v

end

section
variable {asm : List EbpfInst} {code : Code} {fields : List Nat} {c : Call asm code fields}
  {τ : BitVec 4 → Know} {R : BitVec 4 → BitVec 64} {s s' : State} {v : BitVec 64} {k : Know}
  {d : BitVec 4} {place : Nat → Nat} {fuel pc : Nat} {inst : EbpfInst}

theorem Back.of_reach (h : Reach (step c.unpriv) s s') (hb : c.Back s' v) : c.Back s v := by
  obtain ⟨t, ht, he⟩ := hb
  exact ⟨t, Relation.ReflTransGen.trans h ht, he⟩

theorem Related.write (h : c.Related τ R s) (hF : Frame c.top c.lr c.M0 s')
    (hrow : k.Holds c.mem c.ctx v (rowVal s' d))
    (hkeep : ∀ r, r.toNat < 11 → r ≠ d → rowVal s' r = rowVal s r) :
    c.Related (fun r => if r = d then k else τ r) (Ebpf.setReg R d v) s' where
  frame := hF
  rows r hr := by
    by_cases hrd : r = d
    · subst hrd
      simpa [Ebpf.setReg] using hrow
    · simp only [Ebpf.setReg, if_neg hrd, hkeep r hr hrd]
      exact h.rows r hr

theorem Related.same (h : c.Related τ R s) (hF : Frame c.top c.lr c.M0 s')
    (hkeep : ∀ r, r.toNat < 11 → rowVal s' r = rowVal s r) : c.Related τ R s' :=
  ⟨hF, fun r hr => by rw [hkeep r hr]; exact h.rows r hr⟩

/-- The struct is as it was at the call. -/
theorem Related.word (h : c.Related τ R s) {k : Nat} (hk : k ∈ fields) :
    Thumb.word s.mem (c.ctx + BitVec.ofNat 32 k) = c.words k :=
  (word_congr fun j hj => h.frame.outside _ (c.apart k hk j hj)).trans (word_of_read (c.held k hk))

/-! ## One instruction of the machine -/

theorem blockAt_iff {r : BitVec 4} {is : List Instr} :
    blockAt code place pc r is = true ↔ r.toNat < 11 ∧ tame r is = true ∧
      scan code (place pc) (is ++ putRow r) = some (place (pc + 1)) := by
  simp only [blockAt, Bool.and_eq_true, decide_eq_true_eq, beq_iff_eq, and_assoc]

theorem alu_moves {op : Ebpf.AluOp} {imm : Word} (h : c.Related τ R s)
    (hpc : s.pc = c.base + BitVec.ofNat 32 (place pc)) (hk : Know.alu op imm (τ d) = some k)
    (hb : blockAt code place pc d (aluTemplate op d imm) = true) :
    ∃ s', Moves c.unpriv c.top c.M0 s s' ∧ s'.pc = c.base + BitVec.ofNat 32 (place (pc + 1)) ∧
      c.Related (fun r => if r = d then k else τ r) (Ebpf.setReg R d (aluVal op imm (R d))) s' := by
  obtain ⟨hd, ht, hs⟩ := blockAt_iff.1 hb
  obtain ⟨t, hc, hv⟩ : ∃ t, compute c.unpriv (aluTemplate op d imm) s = some t ∧
      heldVal t d = aluVal op imm (rowVal s d) :=
    compute_aluTemplate hk (h.frame.fp ▸ c.room.aligned) hd
  obtain ⟨s', hmove, hpc', hF, hrow, hkeep⟩ := block_run c.room h.frame hd ht hs hpc hc
  refine ⟨s', hmove, hpc', h.write hF ?_ hkeep⟩
  rw [hrow, hv]
  exact (h.rows d hd).alu hk

theorem load_moves {r : BitVec 4} {off : BitVec 16} (h : c.Related τ R s)
    (hpc : s.pc = c.base + BitVec.ofNat 32 (place pc)) (hbase : τ r = .base)
    (hsrc : onStack r = false) (hlt : r.toNat < 11) (hoff : off.toNat ∈ fields)
    (hb : blockAt code place pc d (loadTemplate d r (off.setWidth 32)) = true) :
    ∃ s', Moves c.unpriv c.top c.M0 s s' ∧ s'.pc = c.base + BitVec.ofNat 32 (place (pc + 1)) ∧
      c.Related (fun r => if r = d then .val false true else τ r)
        (Ebpf.setReg R d (zext (c.words off.toNat))) s' := by
  obtain ⟨hd, ht, hs⟩ := blockAt_iff.1 hb
  have hw : low (rowVal s r) = c.ctx := by
    have := h.rows r hlt
    rw [hbase] at this
    exact this.2
  have hctx : s.reg (heldLo r) = c.ctx := by
    rw [← hw, rowVal, hsrc]
    exact (low_pair _ _).symm
  have hoff32 : off.setWidth 32 = BitVec.ofNat 32 off.toNat := by
    apply BitVec.eq_of_toNat_eq
    rw [BitVec.toNat_setWidth, BitVec.toNat_ofNat]
  obtain ⟨t, hc, hlow⟩ : ∃ t, compute c.unpriv (loadTemplate d r (off.setWidth 32)) s = some t ∧
      low (heldVal t d) = c.words off.toNat := by
    refine compute_loadTemplate hd ?_ ?_ <;> rw [hctx, hoff32]
    · exact h.word hoff
    · exact c.readable _ hoff
  obtain ⟨s', hmove, hpc', hF, hrow, hkeep⟩ := block_run c.room h.frame hd ht hs hpc hc
  exact ⟨s', hmove, hpc', h.write hF (holds_load (by rw [hrow, hlow])) hkeep⟩

theorem branchAt_spec {target : Nat} {is : List Instr} {cond : BitVec 4}
    (h : branchAt code place pc target is cond = true) :
    idle is = true ∧ ∃ k o len, scan code (place pc) is = some k ∧
      instrAt code k = some (.b cond o, len) ∧ k + len = place (pc + 1) ∧
      BitVec.ofNat 32 k + 4 + o = BitVec.ofNat 32 (place target) := by
  simp only [branchAt, Bool.and_eq_true] at h
  obtain ⟨hidle, h⟩ := h
  split at h
  · cases h
  · rename_i k hk
    split at h
    · rename_i cond' o len hi
      simp only [Bool.and_eq_true, beq_iff_eq] at h
      obtain ⟨⟨rfl, h1⟩, h2⟩ := h
      exact ⟨hidle, k, o, len, hk, hi, h1, h2⟩
    · cases h

/-- The machine branches as the interpreter does. -/
theorem jump_moves {r : BitVec 4} {imm : Word} {cond : Cond} {form : Form} {cc : BitVec 4}
    {target : Nat} (h : c.Related τ R s) (hpc : s.pc = c.base + BitVec.ofNat 32 (place pc))
    (hdec : decides cond form (τ d) (τ r) imm = some cc) (hd : d.toNat < 11) (hr : r.toNat < 11)
    (hb : branchAt code place pc target (cmpTemplate cond form d r imm) cc = true) :
    ∃ s', Moves c.unpriv c.top c.M0 s s' ∧ c.Related τ R s' ∧
      s'.pc = c.base + BitVec.ofNat 32
        (place (if cond.holds form (R d) (R r) imm then target else pc + 1)) := by
  obtain ⟨hidle, k, o, len, hs, hat, hnext, htarget⟩ := branchAt_spec hb
  obtain ⟨t, hc, hp⟩ : ∃ t, compute c.unpriv (cmpTemplate cond form d r imm) s = some t ∧
      t.flags.passes cc = codeHolds cond (rowVal s d) (operandVal form (rowVal s r) imm) :=
    compute_cmpTemplate hdec (h.frame.fp ▸ c.room.aligned) hd hr
  obtain ⟨s', hmove, hpc', hF, hkeep⟩ := branch_run c.room h.frame hidle hs hat hpc hc
  refine ⟨s', hmove, h.same hF hkeep, ?_⟩
  rw [hpc', hp, ← decides_agree hdec (h.rows d hd) (h.rows r hr), htarget, hnext]
  split <;> rfl

/-! ## One instruction on both sides -/

theorem ofNat_succ (pc : Nat) : BitVec.ofNat 16 pc + 1 = BitVec.ofNat 16 (pc + 1) :=
  (BitVec.ofNat_add pc 1).symm

theorem exit_sound (hi : Ebpf.instAt c.prog (BitVec.ofNat 16 pc).toNat = inst)
    (hop : inst.opcode = Op.exit.code) (he : (τ 0).exact = true)
    (hs : (scan code (place pc) [epilogueMov, epiloguePop]).isSome = true) :
    c.Simulates place (fuel + 1) pc τ := by
  intro R s h hpc
  obtain ⟨opcode, d, r, off, imm⟩ := inst
  subst hop
  refine ⟨R 0, .exit hi, ?_⟩
  obtain ⟨off, hoff⟩ := Option.isSome_iff_exists.1 hs
  have hv : R 0 = pair (s.reg 1) (s.reg 0) := (h.rows 0 (by decide)).of_exact he
  obtain ⟨u, hpath, hupc, -, hur, -⟩ := epilogue_run c.room h.frame c.thumb hoff hpc
  refine ⟨u, hpath.reach, hupc, ?_, ?_⟩
  · rw [hur 0 (by decide) (by decide), hv, low_pair]
  · rw [hur 1 (by decide) (by decide), hv, high_pair]

theorem alu_sound {op : Ebpf.AluOp} (hi : Ebpf.instAt c.prog (BitVec.ofNat 16 pc).toNat = inst)
    (hop : inst.opcode = (Op.alu64 op .imm).code)
    (hk : Know.alu op inst.imm (τ inst.dst) = some k)
    (hb : blockAt code place pc inst.dst (aluTemplate op inst.dst inst.imm) = true)
    (ih : c.Simulates place fuel (pc + 1) fun r => if r = inst.dst then k else τ r) :
    c.Simulates place (fuel + 1) pc τ := by
  intro R s h hpc
  obtain ⟨opcode, d, r, off, imm⟩ := inst
  subst hop
  obtain ⟨s', hmove, hpc', hrel⟩ := alu_moves h hpc hk hb
  obtain ⟨v, hret, hback⟩ := ih _ s' hrel hpc'
  refine ⟨v, .alu64 hi (alu64_eq_aluVal hk c.host (R d) _) ?_, hback.of_reach hmove.path.reach⟩
  rw [ofNat_succ]
  exact hret

theorem load_sound (hi : Ebpf.instAt c.prog (BitVec.ofNat 16 pc).toNat = inst)
    (hop : inst.opcode = (Op.ldx .w).code) (hbase : τ inst.src = .base)
    (hsrc : onStack inst.src = false) (hlt : inst.src.toNat < 11)
    (hoff : inst.offset.toNat ∈ fields)
    (hb : blockAt code place pc inst.dst
      (loadTemplate inst.dst inst.src (inst.offset.setWidth 32)) = true)
    (ih : c.Simulates place fuel (pc + 1) fun r => if r = inst.dst then .val false true else τ r) :
    c.Simulates place (fuel + 1) pc τ := by
  intro R s h hpc
  obtain ⟨opcode, d, r, off, imm⟩ := inst
  subst hop
  obtain ⟨s', hmove, hpc', hrel⟩ := load_moves h hpc hbase hsrc hlt hoff hb
  obtain ⟨v, hret, hback⟩ := ih _ s' hrel hpc'
  refine ⟨v, .ldxw (c.words off.toNat) hi ?_ ?_, hback.of_reach hmove.path.reach⟩
  · have hv : R r = zext c.mem := by
      have := h.rows r hlt
      rw [hbase] at this
      exact this.1
    have hshort : off.toNat < 2 ^ 15 := c.short _ hoff
    have hint : off.toInt = off.toNat := BitVec.toInt_eq_toNat_of_lt (by omega)
    rw [hv, Ebpf.effAddr_zext, hint, BitVec.ofInt_natCast]
    exact c.read _ hoff
  · rw [ofNat_succ]
    exact hret

theorem jump_sound {cond : Cond} {form : Form} {cc : BitVec 4} {target : Nat}
    (hi : Ebpf.instAt c.prog (BitVec.ofNat 16 pc).toNat = inst)
    (hop : inst.opcode = (Op.jcond cond form).code)
    (hdec : decides cond form (τ inst.dst) (τ inst.src) inst.imm = some cc)
    (hd : inst.dst.toNat < 11) (hsrc : inst.src.toNat < 11)
    (ht : BitVec.ofNat 16 (pc + 1) + inst.offset = BitVec.ofNat 16 target)
    (hb : branchAt code place pc target (cmpTemplate cond form inst.dst inst.src inst.imm) cc =
      true)
    (ihNext : c.Simulates place fuel (pc + 1) τ) (ihTarget : c.Simulates place fuel target τ) :
    c.Simulates place (fuel + 1) pc τ := by
  intro R s h hpc
  obtain ⟨opcode, d, r, off, imm⟩ := inst
  subst hop
  obtain ⟨s', hmove, hrel, hpc'⟩ := jump_moves h hpc hdec hd hsrc hb
  cases hholds : cond.holds form (R d) (R r) imm with
  | true =>
    rw [hholds, if_pos rfl] at hpc'
    obtain ⟨v, hret, hback⟩ := ihTarget R s' hrel hpc'
    refine ⟨v, .jcond true hi hholds (fun _ => ?_) (fun hf => by cases hf),
      hback.of_reach hmove.path.reach⟩
    rw [ofNat_succ, ht]
    exact hret
  | false =>
    rw [hholds, if_neg (by decide)] at hpc'
    obtain ⟨v, hret, hback⟩ := ihNext R s' hrel hpc'
    refine ⟨v, .jcond false hi hholds (fun hf => by cases hf) (fun _ => ?_),
      hback.of_reach hmove.path.reach⟩
    rw [ofNat_succ]
    exact hret

/-! ## Whole runs -/

/-- What the check has seen at instruction `inst`. -/
inductive Seen (asm : List EbpfInst) (code : Code) (place : Nat → Nat) (fields : List Nat)
    (fuel pc : Nat) (τ : BitVec 4 → Know) (inst : EbpfInst) : Prop
  | exit (hop : inst.opcode = Op.exit.code) (he : (τ 0).exact = true)
      (hs : (scan code (place pc) [epilogueMov, epiloguePop]).isSome = true)
  | load (hop : inst.opcode = (Op.ldx .w).code) (hbase : τ inst.src = .base)
      (hsrc : onStack inst.src = false) (hlt : inst.src.toNat < 11)
      (hoff : inst.offset.toNat ∈ fields)
      (hb : blockAt code place pc inst.dst
        (loadTemplate inst.dst inst.src (inst.offset.setWidth 32)) = true)
      (hc : check asm code place fields fuel (pc + 1)
        (fun r => if r = inst.dst then .val false true else τ r) = true)
  | alu {op : Ebpf.AluOp} {k : Know} (hop : inst.opcode = (Op.alu64 op .imm).code)
      (hk : Know.alu op inst.imm (τ inst.dst) = some k)
      (hb : blockAt code place pc inst.dst (aluTemplate op inst.dst inst.imm) = true)
      (hc : check asm code place fields fuel (pc + 1)
        (fun r => if r = inst.dst then k else τ r) = true)
  | jump {cond : Cond} {form : Form} {cc : BitVec 4} {target : Nat}
      (hop : inst.opcode = (Op.jcond cond form).code)
      (hdec : decides cond form (τ inst.dst) (τ inst.src) inst.imm = some cc)
      (hd : inst.dst.toNat < 11) (hr : inst.src.toNat < 11)
      (ht : BitVec.ofNat 16 (pc + 1) + inst.offset = BitVec.ofNat 16 target)
      (hb : branchAt code place pc target
        (cmpTemplate cond form inst.dst inst.src inst.imm) cc = true)
      (hnext : check asm code place fields fuel (pc + 1) τ = true)
      (htarget : check asm code place fields fuel target τ = true)

theorem check_seen (h : check asm code place fields (fuel + 1) pc τ = true) :
    ∃ inst, asm[pc]? = some inst ∧ Seen asm code place fields fuel pc τ inst := by
  simp only [check] at h
  split at h
  · cases h
  · rename_i inst hinst
    refine ⟨inst, hinst, ?_⟩
    split at h
    · rename_i hop
      rw [Bool.and_eq_true] at h
      exact .exit (Op.ofCode_eq_some.1 hop) h.1 h.2
    · rename_i hop
      simp only [Bool.and_eq_true, beq_iff_eq, decide_eq_true_eq, Bool.not_eq_true'] at h
      obtain ⟨⟨⟨⟨⟨hbase, hsrc⟩, hlt⟩, hoff⟩, hb⟩, hc⟩ := h
      exact .load (Op.ofCode_eq_some.1 hop) hbase hsrc hlt (by simpa using hoff) hb hc
    · rename_i op hop
      split at h
      · cases h
      · rename_i k hk
        rw [Bool.and_eq_true] at h
        exact .alu (Op.ofCode_eq_some.1 hop) hk h.1 h.2
    · rename_i cond form hop
      split at h
      · cases h
      · rename_i cc hdec
        simp only [Bool.and_eq_true, decide_eq_true_eq] at h
        obtain ⟨⟨⟨⟨hd, hr⟩, hb⟩, hnext⟩, htarget⟩ := h
        refine .jump (Op.ofCode_eq_some.1 hop) hdec hd hr ?_ hb hnext htarget
        rw [BitVec.ofNat_toNat, BitVec.setWidth_eq]
    · cases h

/-- **The check is sound**: the induction is on the length of the longest path left. -/
theorem check_sound (c : Call asm code fields) (hlen : asm.length < 2 ^ 16) :
    ∀ {fuel pc : Nat} {τ : BitVec 4 → Know}, check asm code place fields fuel pc τ = true →
      c.Simulates place fuel pc τ := by
  intro fuel
  induction fuel with
  | zero =>
    intro pc τ h
    cases h
  | succ fuel ih =>
    intro pc τ h
    obtain ⟨inst, hinst, hseen⟩ := check_seen h
    have hpc : (BitVec.ofNat 16 pc).toNat = pc := by
      obtain ⟨hlt, -⟩ := List.getElem?_eq_some_iff.1 hinst
      rw [BitVec.toNat_ofNat]
      omega
    have hi : Ebpf.instAt c.prog (BitVec.ofNat 16 pc).toNat = inst := by
      rw [hpc]
      exact c.decodes pc inst hinst
    cases hseen with
    | exit hop he hs => exact exit_sound hi hop he hs
    | load hop hbase hsrc hlt hoff hb hc => exact load_sound hi hop hbase hsrc hlt hoff hb (ih hc)
    | alu hop hk hb hc => exact alu_sound hi hop hk hb (ih hc)
    | jump hop hdec hd hr ht hb hnext htarget =>
      exact jump_sound hi hop hdec hd hr ht hb (ih hnext) (ih htarget)

end

end Call

end BlueSwat.Jit
