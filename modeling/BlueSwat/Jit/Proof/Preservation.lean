import BlueSwat.Ebpf.Proof.Step
import BlueSwat.Jit.Proof.Constant
import BlueSwat.Jit.Proof.Jump
import BlueSwat.Jit.Proof.Pieces

/-!
# The translation preserves the meaning of programs

From instructions to programs: if the program is aligned, the machine follows the interpreter as
long as the interpreter executes instructions that agree with their code (`Faithful`). One step of
the interpreter is a run of the machine from the place of the instruction to the place of the next
one (`follows_step`), and an `EXIT` leads to the epilogue (`follows_exit`).
-/

set_option autoImplicit false

namespace BlueSwat.Jit

open Thumb Machine Bytes
open Ebpf (EbpfInst EbpfVm Op Cond Form Host Ret instAt vmStep visited nextSlot)

/-! ## Branches -/

theorem itCond_of_branch {h : Half} {cond : BitVec 4} {off : Word}
    (hd : decode16 h = some (.b cond off)) : itCond h = none := by
  refine if_neg fun e => ?_
  -- bit 14 of an `IT` is clear, and that of a branch is set
  have h15 := getLsbD_of_extract e.1 (show 7 < 8 by decide)
  have h14 := getLsbD_of_extract e.1 (show 6 < 8 by decide)
  rw [decode16_branch h15] at hd
  split at hd
  · rename_i hc
    have := getLsbD_of_extract hc (show 2 < 4 by decide)
    exact Bool.false_ne_true (h14.symm.trans this)
  · split at hd
    · rename_i hc
      have := getLsbD_of_extract hc (show 3 < 5 by decide)
      exact Bool.false_ne_true (h14.symm.trans this)
    · cases hd

/-- Code that is one branch. -/
theorem disassemble_of_branchTarget {a : Nat} {c : Code} {z : Int} (h : branchTarget a c = some z) :
    ∃ cond off, disassemble c = some [.base (.b cond off)] ∧ z = a + 4 + off.toInt := by
  unfold branchTarget at h
  split at h
  · rename_i cond off len hdec
    obtain ⟨hlen, hz⟩ := Option.ite_none_right_eq_some.1 h
    refine ⟨cond, off, ?_, (Option.some.inj hz).symm⟩
    rw [decode] at hdec
    split at hdec
    · rename_i hw
      obtain ⟨i, hi, he⟩ := Option.map_eq_some_iff.1 hdec
      obtain ⟨rfl, rfl⟩ := Prod.mk.inj he
      obtain ⟨h1, h2, rfl⟩ : ∃ h1 h2, c = [h1, h2] := List.length_eq_two.1 (by omega)
      have hw : isWide h1 = true := hw
      have hi : decode32 h1 h2 = _ := hi
      rw [disassemble, if_pos hw, decodeWide, hi]
      rfl
    · rename_i hw
      obtain ⟨i, hi, he⟩ := Option.map_eq_some_iff.1 hdec
      obtain ⟨rfl, rfl⟩ := Prod.mk.inj he
      obtain ⟨h1, rfl⟩ : ∃ h1, c = [h1] := List.length_eq_one_iff.1 (by omega)
      have hw : ¬ isWide h1 = true := hw
      have hi : decode16 h1 = _ := hi
      have hnar : decodeNarrow h1 = some (.base (.b cond off)) := by rw [decodeNarrow, hi]
      rw [disassemble.eq_def]
      simp only [if_neg hw, itCond_of_branch hi, hnar]
      rfl
  · cases h

theorem addr_branch (P : Program) {a b : Nat} {off : Word} (h : (b : Int) = a + 4 + off.toInt) :
    P.addr a + 4 + off = P.addr b := by
  have hb : BitVec.ofNat 32 b = BitVec.ofNat 32 a + 4 + off := by
    rw [← BitVec.ofInt_natCast 32 b, h, BitVec.ofInt_add, BitVec.ofInt_add, BitVec.ofInt_toInt,
      BitVec.ofInt_natCast]
    rfl
  rw [Program.addr, Program.addr, hb]
  simp only [BitVec.add_assoc]

theorem disassemble_emitB {off : Int} (h : -2048 < off ∧ off < 2046) :
    ∃ dist, disassemble (emitB off) = some [.base (.b always dist)] := by
  obtain ⟨hop, -⟩ := thumb16BT2_fields off
  have h15 := getLsbD_of_extract hop (show 4 < 5 by decide)
  have h12 := getLsbD_of_extract hop (show 1 < 5 by decide)
  have hcond : (thumb16BT2 off).extractLsb' 12 4 ≠ 0b1101 := fun h =>
    Bool.false_ne_true (h12.symm.trans (getLsbD_of_extract h (show 0 < 4 by decide)))
  have hdec := decode16_branch h15
  rw [if_neg hcond, if_pos hop] at hdec
  have hnarrow : isWide (thumb16BT2 off) = false := by
    rw [isWide, hop]
    rfl
  rw [emitB, if_pos h]
  exact ⟨_, disassemble_emit2 hnarrow (itCond_of_branch hdec) (by rw [decodeNarrow, hdec])⟩

theorem narrow_of_length {off : Int} (h : (emitB off).length = 1) : -2048 < off ∧ off < 2046 := by
  by_contra hn
  rw [emitB, if_neg hn] at h
  split at h <;> cases h

/-- **A branch that is taken**, to a target inside the code. -/
theorem step_to {P : Program} (sys : Sys) {s : State} {a b : Nat} {c : Code} {cond : BitVec 4}
    {off : Word} (hc : P.Has a c) (hd : disassemble c = some [.base (.b cond off)])
    (ht : branchTarget a c = some (b : Int)) (hpc : s.pc = P.addr a)
    (hp : s.flags.passes cond = true) : P.step sys s = .next { s with pc := P.addr b } := by
  obtain ⟨cond', off', hd', hb⟩ := disassemble_of_branchTarget ht
  have heq : [Inst.base (.b cond off)] = [.base (.b cond' off')] :=
    Option.some.inj (hd.symm.trans hd')
  cases heq
  rw [Program.step_branch hc hd hpc, if_pos hp, addr_branch P hb]

theorem passes_always (f : Flags) : f.passes always = true := rfl

/-! ## One step -/

/-- The state of the interpreter and the state of the machine, between two instructions. -/
structure Follows (code : Nat → BitVec 8) (n : Nat) (P : Program) (top : Word) (x : Ebpf.State)
    (s : State) : Prop where
  mirrors : Mirrors top x s
  placed : ∃ a, (x.pc.toNat, a) ∈ places code n ∧ s.pc = P.addr a

/-- The instruction that is next agrees with its code, and its accesses are clear of the rows. -/
def Faithful (sys : Sys) (top : Word) (vm : EbpfVm) (x : Ebpf.State) : Prop :=
  let inst := vm.fetch x.pc
  match Op.ofCode inst.opcode with
  | some (.jcond cond form) => JumpAgrees inst cond form (x.jump 1)
  | some .ja | some .lddw | some .exit => True
  | _ => Agrees inst (x.jump 1) ∧ Clear sys top inst (x.jump 1)

/-- Instructions on the registers of the interpreter, without calls. -/
structure Plain (inst : EbpfInst) : Prop where
  dst : inst.dst.toNat < 11
  src : inst.src.toNat < 11
  noCall : inst.opcode ≠ Op.call.code

theorem Plain.tabled {inst : EbpfInst} (h : Plain inst) : Tabled inst :=
  ⟨Nat.lt_trans h.dst (by decide), Nat.lt_trans h.src (by decide), h.noCall⟩

theorem Mirrors.withPc {top : Word} {x : Ebpf.State} {s : State} (h : Mirrors top x s) (p : Word) :
    Mirrors top x { s with pc := p } :=
  ⟨h.fp, h.aligned, h.rows, h.mem⟩

/-- What holds of a program and its code. -/
structure Translated (code : Nat → BitVec 8) (n : Nat) (P : Program) : Prop where
  plain : ∀ i < n, Plain (instAt code i)
  num : n < 2 ^ 13
  aligned : Aligned code n
  piece : ∀ i a, (i, a) ∈ places code n → ∃ t, Piece code n P i a t
  epilogue : P.Has (epilogueAt (instAt code) n) buildEpilogue

section
variable {vm : EbpfVm} {n : Nat} {P : Program} {H : Host} {mem : Ebpf.Addr} {memLen : BitVec 32}
  {sys : Sys} {top : Word} {x x' : Ebpf.State} {s : State} {i a : Nat} {t : JitState}

/-- The place of the next instruction. -/
theorem Translated.next_place (hP : Translated vm.insts n P) (ha : (i, a) ∈ places vm.insts n)
    (hn : nextSlot vm.insts i < n) :
    (nextSlot vm.insts i, a + preSize (instAt vm.insts) n i a) ∈ places vm.insts n := by
  have hlt : i < nextSlot vm.insts i := by
    unfold nextSlot
    split <;> omega
  have hr := hP.aligned.accepted i (by omega) (visited_of_mem ha)
  have := piece_next ha hr
  rwa [if_pos hn] at this

/-- The machine runs the code of one instruction to its end. -/
theorem Piece.run (hp : Piece vm.insts n P i a t) {u : State}
    (hr : runCode sys (buildInst t i).1 s = some (u, false)) (hpc : s.pc = P.addr a) :
    Reach (P.step sys) s { u with pc := P.addr (a + preSize (instAt vm.insts) n i a) } := by
  obtain ⟨is, hd, hline⟩ := Option.bind_eq_some_iff.1 hr
  rw [← hp.size]
  exact Program.reach_line hp.has hd hline hpc

theorem Translated.lt (hP : Translated vm.insts n P) (ha : (i, a) ∈ places vm.insts n) :
    i < 2 ^ 13 :=
  Nat.lt_trans (lt_of_mem_places ha) hP.num

/-- The next instruction: its code has run, and the program counters are behind it. -/
theorem follows_on (hP : Translated vm.insts n P) (ha : (i, a) ∈ places vm.insts n)
    (hp : Piece vm.insts n P i a t) {u : State}
    (hr : runCode sys (buildInst t i).1 s = some (u, false)) (hpc : s.pc = P.addr a)
    (hM : Mirrors top x' u) (hx : x'.pc.toNat = nextSlot vm.insts i) (hin : x'.pc.toNat < n) :
    ∃ s', Reach (P.step sys) s s' ∧ Follows vm.insts n P top x' s' := by
  refine ⟨_, hp.run hr hpc, hM.withPc _, _, ?_, rfl⟩
  rw [hx] at hin ⊢
  exact hP.next_place ha hin

/-- The interpreter goes on behind an instruction that does not jump. -/
theorem pc_nextSlot (hP : Translated vm.insts n P) (ha : (x.pc.toNat, a) ∈ places vm.insts n)
    (h : vmStep H vm mem memLen x = .next x')
    (hj : Ebpf.jumpTarget (vm.fetch x.pc) x (Ebpf.opAt vm x) = none) :
    x'.pc.toNat = nextSlot vm.insts x.pc.toNat := by
  have hlt := hP.lt ha
  have hl : Ebpf.isLddw vm.insts x.pc.toNat = true ↔ Ebpf.opAt vm x = some .lddw := by
    rw [isLddw_iff]
    rfl
  rw [Ebpf.vmStep_pc h, hj, Option.getD_none, BitVec.toNat_add, nextSlot]
  by_cases ho : Ebpf.opAt vm x = some .lddw
  · rw [if_pos (hl.2 ho), ho, show (Ebpf.slots (some .lddw)).toNat = 2 from rfl]
    omega
  · have hs : (Ebpf.slots (Ebpf.opAt vm x)).toNat = 1 := by
      unfold Ebpf.slots
      split
      · rename_i h'
        exact absurd h' ho
      · rfl
    rw [if_neg (mt hl.1 ho), hs]
    omega

/-- The interpreter jumps to the instruction that the branch goes to. -/
theorem pc_jump (hP : Translated vm.insts n P) {j : Nat} {b : Nat}
    (hj : (j, b) ∈ places vm.insts n)
    (ht : jumpTarget (vm.fetch x.pc) x.pc.toNat = (j : Nat)) :
    (x.pc + 1 + (vm.fetch x.pc).offset).toNat = j := by
  have hlt := hP.lt hj
  have hoff := BitVec.toInt_eq_toNat_cond (vm.fetch x.pc).offset
  have hpc := x.pc.isLt
  have ho := (vm.fetch x.pc).offset.isLt
  unfold jumpTarget at ht
  simp only [BitVec.toNat_add, show (1 : BitVec 16).toNat = 1 from rfl]
  split at hoff <;> omega

/-- **A jump that is taken**: the code in front of the branch has run. -/
theorem follows_jump (hP : Translated vm.insts n P)
    (hp : Piece vm.insts n P x.pc.toNat a t)
    (hx : Op.ofCode (vm.fetch x.pc).opcode ≠ some .exit)
    (hcode : (buildInst t x.pc.toNat).1 = (branchOf t x.pc.toNat).1 ++ (branchOf t x.pc.toNat).2)
    {u : State} {is : List Inst} {cond : BitVec 4} {off : Word}
    (hd : disassemble (branchOf t x.pc.toNat).1 = some is)
    (hr : runLine sys is s = some (u, false))
    (hbr : disassemble (branchOf t x.pc.toNat).2 = some [.base (.b cond off)])
    (hpass : u.flags.passes cond = true) (hpc : s.pc = P.addr a) (hM : Mirrors top x' u)
    (hx' : x'.pc = x.pc + 1 + (vm.fetch x.pc).offset) :
    ∃ s', Reach (P.step sys) s s' ∧ Follows vm.insts n P top x' s' := by
  have hne : (branchOf t x.pc.toNat).2 ≠ [] := by
    intro h
    rw [h] at hbr
    cases hbr
  obtain ⟨b, hb, hl⟩ := hp.lands hne
  have hx : (instAt vm.insts x.pc.toNat).opcode ≠ Op.exit.code :=
    fun h => hx (Op.ofCode_eq_some.2 h)
  rw [if_neg hx] at hl
  obtain ⟨j, hj, hjb⟩ := hl
  have hhas := hp.has
  rw [hcode] at hhas
  have hto := step_to sys (s := { u with
    pc := P.addr (a + 2 * (branchOf t x.pc.toNat).1.length) }) hhas.right hbr hb rfl hpass
  refine ⟨_, (Program.reach_line hhas.left hd hr hpc).tail hto, (hM.withPc _).withPc _, b, ?_, rfl⟩
  rw [hx', pc_jump hP hjb hj]
  exact hjb

/-- What `build_inst` emits for a jump. -/
theorem buildInst_jump {op : Op} (hop : Op.ofCode (t.insts i).opcode = some op)
    (hj : op = .ja ∨ op = .exit ∨ ∃ c f, op = .jcond c f) :
    (buildInst t i).1 = (branchOf t i).1 ++ (branchOf t i).2 := by
  rw [buildInst, branchOf, hop]
  rcases hj with rfl | rfl | ⟨c, f, rfl⟩ <;> rfl

theorem toNat_pc_succ (hP : Translated vm.insts n P) (ha : (x.pc.toNat, a) ∈ places vm.insts n)
    (hl : Op.ofCode (vm.fetch x.pc).opcode ≠ some .lddw) :
    (x.pc + 1).toNat = nextSlot vm.insts x.pc.toNat := by
  have hlt := hP.lt ha
  rw [nextSlot, if_neg (mt isLddw_iff.1 hl), BitVec.toNat_add,
    show (1 : BitVec 16).toNat = 1 from rfl]
  omega

theorem follows_ja (hP : Translated vm.insts n P) (hF : Follows vm.insts n P top x s)
    (hop : Op.ofCode (vm.fetch x.pc).opcode = some .ja)
    (hin : (x.pc + 1 + (vm.fetch x.pc).offset).toNat < n) :
    ∃ s', Reach (P.step sys) s s' ∧
      Follows vm.insts n P top ((x.jump 1).jump (vm.fetch x.pc).offset) s' := by
  obtain ⟨a, ha, hpc⟩ := hF.placed
  obtain ⟨t, hp⟩ := hP.piece _ _ ha
  have hti : t.insts x.pc.toNat = vm.fetch x.pc := congrFun hp.insts _
  have hM : Mirrors top ((x.jump 1).jump (vm.fetch x.pc).offset) s :=
    hF.mirrors.congr (fun _ _ => rfl) rfl
  have hcode := buildInst_jump (hti ▸ hop) (.inl rfl)
  have hb : branchOf t x.pc.toNat = ([], if (vm.fetch x.pc).offset.toInt = 0 then [] else
      emitB (bpf2a32Offset t x.pc.toNat (x.pc.toNat + (vm.fetch x.pc).offset.toInt) 2)) := by
    rw [branchOf, hti, hop]
    simp only [buildJump, hti]
  by_cases h0 : (vm.fetch x.pc).offset.toInt = 0
  · -- a jump by 0 has no code
    rw [hb, if_pos h0] at hcode
    have h0' : (vm.fetch x.pc).offset = 0#16 := BitVec.eq_of_toInt_eq h0
    refine follows_on hP ha hp (u := s) (by rw [hcode]; rfl) hpc hM ?_ hin
    change (x.pc + 1 + (vm.fetch x.pc).offset).toNat = _
    rw [h0', BitVec.add_zero, toNat_pc_succ hP ha (by rw [hop]; simp)]
  · rw [if_neg h0] at hb
    have hrange : -2048 < bpf2a32Offset t x.pc.toNat
        (x.pc.toNat + (vm.fetch x.pc).offset.toInt) 2 ∧ bpf2a32Offset t x.pc.toNat
        (x.pc.toNat + (vm.fetch x.pc).offset.toInt) 2 < 2046 := by
      have h1 := (t.offsets x.pc.toNat).isLt
      have h2 := (t.offsets (x.pc.toNat + (vm.fetch x.pc).offset.toInt)).isLt
      unfold bpf2a32Offset
      split <;> omega
    obtain ⟨dist, hdist⟩ := disassemble_emitB hrange
    exact follows_jump hP hp (by rw [hop]; simp) hcode
      (show disassemble _ = some [] by rw [hb]; rfl) rfl
      (by rw [hb]; exact hdist) (passes_always _) hpc hM rfl

/-- What the code in front of the branch of a conditional jump is. -/
theorem compare_quiet {d r : BitVec 4} (hd : d.toNat < 11) (form : Form) (imm : Word) (cond : Cond)
    (lo hi lo' hi' : Reg) :
    ∀ i ∈ fetchCompare form d r imm ++ compareBody cond lo hi lo' hi', i.quiet = true := by
  have hidle : idleLine (fetchCompare form d r imm ++ compareBody cond lo hi lo' hi') = true := by
    rw [idleLine_append, idle_fetchCompare hd, idle_compareBody]
    rfl
  intro i hi
  exact (Bool.and_eq_true_iff.1 (List.all_eq_true.1 hidle i hi)).1

/-- A conditional jump that takes its branch. -/
theorem jump_taken {inst : EbpfInst} (hpl : Plain inst) (hti : t.insts i = inst) {cond : Cond}
    {form : Form} (hop : Op.ofCode inst.opcode = some (.jcond cond form)) {u : State}
    (hrun : runCode sys (buildInst t i).1 s = some (u, true)) :
    ∃ is c off, disassemble (branchOf t i).1 = some is ∧
      disassemble (branchOf t i).2 = some [.base (.b c off)] ∧
      runLine sys is s = some (u, false) ∧ u.flags.passes c = true := by
  have hb : branchOf t i = buildJump t i (.jcond cond form) := by
    rw [branchOf, hti, hop]
  rw [buildInst_jump (hti ▸ hop) (.inr (.inr ⟨cond, form, rfl⟩)), hb] at hrun
  rw [hb]
  simp only [buildJump, hti, row_of_lt hpl.dst, row_of_lt hpl.src] at hrun ⊢
  split at hrun
  · cases hrun
  rename_i h0
  rw [if_neg h0]
  have hcmp := disassemble_buildCompare hpl.dst hpl.src inst.imm cond form
  have hquiet := compare_quiet (r := inst.src) hpl.dst form inst.imm cond (heldLo inst.dst)
    (heldHi inst.dst) (srcLo form inst.src) (srcHi form inst.src)
  have hrange := bpf2a32Offset_range t i (i + inst.offset.toInt)
    (if useB4 t.instNum then 4 else 2) (by split <;> simp)
  rcases disassemble_emitJump hrange cond with ⟨c, dist, -, hdis⟩ | ⟨-, hdis⟩
  · refine ⟨_, c, dist, hcmp, hdis, ?_⟩
    rw [runCode_eq (disassemble_seq hcmp hdis), runLine_append] at hrun
    obtain ⟨⟨w, b⟩, hline, hrest⟩ := Option.bind_eq_some_iff.1 hrun
    obtain rfl := runLine_quiet hquiet hline
    have hbranch : runLine sys [.base (.b c dist)] w = some (u, true) := hrest
    rw [runLine_branch] at hbranch
    obtain ⟨rfl, hpass⟩ := Prod.mk.inj (Option.some.inj hbranch)
    exact ⟨hline, hpass⟩
  · rw [runCode_eq (disassemble_seq hcmp hdis), List.append_nil] at hrun
    cases runLine_quiet hquiet hrun

theorem follows_jcond (hP : Translated vm.insts n P) (hF : Follows vm.insts n P top x s)
    {cond : Cond} {form : Form} (hop : Op.ofCode (vm.fetch x.pc).opcode = some (.jcond cond form))
    (hag : JumpAgrees (vm.fetch x.pc) cond form (x.jump 1))
    (hx' : x' = if cond.holds form ((x.jump 1).reg (vm.fetch x.pc).dst)
      ((x.jump 1).reg (vm.fetch x.pc).src) (vm.fetch x.pc).imm
      then (x.jump 1).jump (vm.fetch x.pc).offset else x.jump 1)
    (hin : x'.pc.toNat < n) :
    ∃ s', Reach (P.step sys) s s' ∧ Follows vm.insts n P top x' s' := by
  obtain ⟨a, ha, hpc⟩ := hF.placed
  obtain ⟨t, hp⟩ := hP.piece _ _ ha
  have hti : t.insts x.pc.toNat = vm.fetch x.pc := congrFun hp.insts _
  have hcode := buildInst_jump (hti ▸ hop) (.inr (.inr ⟨cond, form, rfl⟩))
  obtain ⟨u, taken, hrun, hM, htaken⟩ := hag t x.pc.toNat hti sys top s
    (hF.mirrors.congr (fun _ _ => rfl) rfl)
  have hM' : Mirrors top x' u := hM.congr (fun r _ => by rw [hx']; split <;> rfl)
    (by rw [hx']; split <;> rfl)
  have hnext := toNat_pc_succ hP ha (by rw [hop]; simp)
  cases taken with
  | false =>
    refine follows_on hP ha hp hrun hpc hM' ?_ hin
    rw [← hnext, hx']
    rcases htaken with ⟨-, h0⟩ | h0
    · split
      · change (x.pc + 1 + (vm.fetch x.pc).offset).toNat = _
        rw [show (vm.fetch x.pc).offset = 0#16 from h0, BitVec.add_zero]
      · rfl
    · rw [if_neg]
      · rfl
      · exact fun h => Bool.false_ne_true (h0.trans h)
  | true =>
    obtain ⟨is, cond', off, hd, hbr, hline, hpass⟩ :=
      jump_taken (hP.plain _ (lt_of_mem_places ha)) hti hop hrun
    refine follows_jump hP hp (by rw [hop]; simp) hcode hd hline hbr hpass hpc hM' ?_
    rcases htaken with ⟨-, h0⟩ | h0
    · rw [hx']
      split
      · rfl
      · change x.pc + 1 = _
        rw [show (vm.fetch x.pc).offset = 0#16 from h0, BitVec.add_zero]
    · rw [hx', if_pos h0.symm]
      rfl

theorem follows_lddw (hP : Translated vm.insts n P) (hF : Follows vm.insts n P top x s)
    (hop : Op.ofCode (vm.fetch x.pc).opcode = some .lddw)
    (h : vmStep H vm mem memLen x = .next x') (hin : x'.pc.toNat < n) :
    ∃ s', Reach (P.step sys) s s' ∧ Follows vm.insts n P top x' s' := by
  obtain ⟨a, ha, hpc⟩ := hF.placed
  obtain ⟨t, hp⟩ := hP.piece _ _ ha
  have hti : t.insts x.pc.toNat = vm.fetch x.pc := congrFun hp.insts _
  have hd := (hP.plain _ (lt_of_mem_places ha)).dst
  have hsucc : vm.fetch (x.pc + 1) = t.insts (x.pc.toNat + 1) := by
    have hlt := hP.lt ha
    rw [EbpfVm.fetch, hp.insts, BitVec.toNat_add, show (1 : BitVec 16).toNat = 1 from rfl,
      Nat.mod_eq_of_lt (by omega)]
  obtain ⟨u, hrun, hM⟩ := lddw_sets (by rw [hti, hop])
    (by rw [hti]; exact hd) sys top x s hF.mirrors
  have hnext := pc_nextSlot hP ha h (by rw [Ebpf.opAt, hop]; rfl)
  refine follows_on hP ha hp hrun hpc (hM.congr ?_ ?_) hnext hin
  · rw [vmStep, hop] at h
    cases h
    intro r _
    rw [hti, ← hsucc]
    rfl
  · rw [vmStep, hop] at h
    cases h
    rfl

/-- **One step of the interpreter is a run of the machine.** -/
theorem follows_step (hP : Translated vm.insts n P) (hF : Follows vm.insts n P top x s)
    (hf : Faithful sys top vm x) (h : vmStep H vm mem memLen x = .next x') (hin : x'.pc.toNat < n) :
    ∃ s', Reach (P.step sys) s s' ∧ Follows vm.insts n P top x' s' := by
  obtain ⟨a, ha, hpc⟩ := hF.placed
  obtain ⟨t, hp⟩ := hP.piece _ _ ha
  have hti : t.insts x.pc.toNat = vm.fetch x.pc := congrFun hp.insts _
  -- an instruction that agrees and does not jump
  have hon : Agrees (vm.fetch x.pc) (x.jump 1) ∧ Clear sys top (vm.fetch x.pc) (x.jump 1) →
      Ebpf.jumpTarget (vm.fetch x.pc) x (Ebpf.opAt vm x) = none →
      ∃ s', Reach (P.step sys) s s' ∧ Follows vm.insts n P top x' s' := by
    rintro ⟨hag, hclear⟩ hj
    obtain ⟨u, hrun, hM⟩ := hag t x.pc.toNat hti H vm mem memLen x' h sys top s
      (hF.mirrors.congr (fun _ _ => rfl) rfl) hclear
    exact follows_on hP ha hp hrun hpc hM (pc_nextSlot hP ha h hj) hin
  unfold Faithful at hf
  unfold Ebpf.opAt at hon
  cases hop : Op.ofCode (vm.fetch x.pc).opcode with
  | none =>
    simp only [hop] at hf hon
    exact hon hf rfl
  | some op =>
    simp only [hop] at hf hon
    cases op with
    | jcond cond form =>
      rw [vmStep, hop] at h
      exact follows_jcond hP hF hop hf (Outcome.next.inj h).symm hin
    | ja =>
      rw [vmStep, hop] at h
      cases h
      exact follows_ja hP hF hop hin
    | lddw => exact follows_lddw hP hF hop h hin
    | exit =>
      rw [vmStep, hop] at h
      cases h
    | _ => exact hon hf rfl

/-- **An `EXIT` leads to the epilogue.** -/
theorem follows_exit (hP : Translated vm.insts n P) (hF : Follows vm.insts n P top x s)
    (hop : Op.ofCode (vm.fetch x.pc).opcode = some .exit) :
    ∃ s', Reach (P.step sys) s s' ∧ Mirrors top x s' ∧
      s'.pc = P.addr (epilogueAt (instAt vm.insts) n) := by
  obtain ⟨a, ha, hpc⟩ := hF.placed
  obtain ⟨t, hp⟩ := hP.piece _ _ ha
  have hti : t.insts x.pc.toNat = vm.fetch x.pc := congrFun hp.insts _
  have hcode := buildInst_jump (hti ▸ hop) (.inr (.inl rfl))
  have hx : (instAt vm.insts x.pc.toNat).opcode = Op.exit.code := Op.ofCode_eq_some.1 hop
  have hb := branchOf_exit (s := t) (i := x.pc.toNat) (by rw [hti]; exact hx)
  have hsize := hp.size
  rw [hp.instNum] at hb
  rw [hcode, hb] at hsize
  by_cases hlast : x.pc.toNat + 1 = n
  · -- the last one falls into the epilogue
    rw [if_pos hlast] at hsize
    have hend := piece_next ha (by rw [refused, Op.ofCode_eq_some.2 hx]; rfl)
    have hn : nextSlot vm.insts x.pc.toNat = n := by
      rw [nextSlot, if_neg (mt isLddw_iff.1 (by rw [Op.ofCode_eq_some.2 hx]; simp)), hlast]
    rw [hn, if_neg (Nat.lt_irrefl n), ← hsize] at hend
    exact ⟨s, .refl s, hF.mirrors, hpc.trans (congrArg P.addr hend)⟩
  · rw [if_neg hlast] at hb hsize
    rw [preSize, instSize_exit hx hlast] at hsize
    have hlen : (emitB (epilogueOffset t)).length = 1 := by simpa using hsize
    obtain ⟨dist, hdist⟩ := disassemble_emitB (narrow_of_length hlen)
    obtain ⟨b, htarget, hl⟩ := hp.lands (by
      rw [hb]
      exact List.ne_nil_of_length_eq_add_one hlen)
    rw [if_pos hx] at hl
    have hhas := hp.has
    rw [hcode, hb] at hhas
    rw [hb] at htarget
    subst hl
    exact ⟨_, (Reach.refl s).tail (step_to sys hhas hdist htarget hpc (passes_always _)),
      hF.mirrors.withPc _, rfl⟩

end

end BlueSwat.Jit
