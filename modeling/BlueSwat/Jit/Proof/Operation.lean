import BlueSwat.Jit.Proof.RowCode

/-!
# Operations on two operands

The code of a two-operand instruction loads its operands, works on their registers and stores the
result. `disassemble_operands` has the shape; an operation gives its body as a function of the
registers, and what the body computes: `agrees_of_block` and `agrees_of_halves` take that to
`Agrees`.
-/

set_option autoImplicit false

namespace BlueSwat.Jit

open Thumb Bytes
open Ebpf (EbpfInst Op Form)

/-! ## Code -/

theorem disassemble_movSe (imm : Word) :
    disassemble (emitMovSeImm64 true tmp2 imm) = some ((movSext tmp2Lo tmp2Hi imm).map .base) := by
  have hlo : disassemble (emitMovImm tmp2.lo imm) = some ((movConst tmp2Lo imm).map .base) :=
    disassemble_emitMovImm (r := tmp2Lo) rfl imm
  have hhi : disassemble (emitMovImm tmp2.hi (if imm.msb then -1 else 0)) =
      some ((movConst tmp2Hi (if imm.msb then -1 else 0)).map .base) :=
    disassemble_emitMovImm (r := tmp2Hi) rfl _
  have hput : armBpfPutReg64 tmp2 tmp2 = [] := by decide
  have h1 : (imm.signExtend 64).setWidth 32 = imm := low_signExtend imm
  have h2 : (imm.signExtend 64 >>> 32).setWidth 32 = if imm.msb then -1 else 0 :=
    high_signExtend imm
  rw [emitMovSeImm64, if_pos rfl, emitMovI64, if_neg (by decide), hput, List.append_nil, h1, h2,
    disassemble_append hlo, hhi, movSext, List.map_append]
  rfl

/-- An emitter that works on the registers of its operands and puts the result to the row of the
first one. -/
def WorksOn (emitter core put : Row → Row → Code) : Prop :=
  ∀ a b, emitter a b = (armBpfGetReg64 a tmp).1 ++ ((armBpfGetReg64 b tmp2).1 ++
    (core (armBpfGetReg64 a tmp).2 (armBpfGetReg64 b tmp2).2 ++ put a (armBpfGetReg64 a tmp).2))

section
variable {emitter core put : Row → Row → Code} (hE : WorksOn emitter core put)
  {body : Reg → Reg → Reg → Reg → List Inst} (tail : BitVec 4 → List Inst)
  (hcore : ∀ p ∈ dstPairs, ∀ q ∈ srcPairs,
    disassemble (core (regRow p.lo p.hi) (regRow q.lo q.hi)) = some (body p.lo p.hi q.lo q.hi))
  (hput : ∀ d : BitVec 4, d.toNat < 11 →
    disassemble (put (rowOf d) (regRow (heldLo d) (heldHi d))) = some (tail d))
  {d r : BitVec 4} (hd : d.toNat < 11)
include hE hcore hput hd

theorem WorksOn.row {b : Row} {lo hi : Reg} {is : List Inst}
    (hb : (armBpfGetReg64 b tmp2).2 = regRow lo hi) (hmem : ⟨lo, hi⟩ ∈ srcPairs)
    (his : disassemble (armBpfGetReg64 b tmp2).1 = some is) :
    Thumb.disassemble (emitter (rowOf d) b) =
      some (fetchDst d ++ (is ++ (body (heldLo d) (heldHi d) lo hi ++ tail d))) := by
  obtain ⟨hrd, hget, -⟩ := disassemble_getDst d hd
  rw [hE, hrd, hb]
  exact disassemble_seq hget (disassemble_seq his
    (disassemble_seq (hcore _ (dstPair_mem d hd) _ hmem) (hput d hd)))

/-- The code of an operation with the body `body lo hi lo' hi'`; `tail d` puts the result in its
place. -/
theorem WorksOn.disassemble (hr : r.toNat < 11) {form : Form} {imm : Word} {c : Code}
    (hc : c = match form with
      | .imm => emitMovSeImm64 true tmp2 imm ++ emitter (rowOf d) tmp2
      | .reg => emitter (rowOf d) (rowOf r)) :
    Thumb.disassemble c = some (fetch form d r imm ++
      body (heldLo d) (heldHi d) (srcLo form r) (srcHi form r) ++ tail d) := by
  subst hc
  cases form with
  | imm =>
    have htmp2 : (armBpfGetReg64 tmp2 tmp2).2 = regRow tmp2Lo tmp2Hi := by decide
    have hnone : Thumb.disassemble (armBpfGetReg64 tmp2 tmp2).1 = some [] := by decide
    have hall := disassemble_seq (disassemble_movSe imm)
      (hE.row tail hcore hput hd htmp2 (srcPair_mem hd .imm) hnone)
    simpa only [fetch, srcLo, srcHi, true_or, if_true, List.append_assoc,
      List.nil_append] using hall
  | reg =>
    obtain ⟨hrs, hget⟩ := disassemble_getSrc r hr
    have hrow := hE.row tail hcore hput hd hrs (srcPair_mem hr .reg) hget
    simpa only [fetch, List.append_assoc] using hrow

end

/-- The halves are combined apart. -/
def emitHalves (op : Ebpf.AluOp) (a b : Row) : Code :=
  emitAlu32Reg a.lo b.lo true false op ++ emitAlu32Reg a.hi b.hi true true op

theorem disassemble_halves (op : Ebpf.AluOp) (body : Reg → Reg → Reg → Reg → List Inst)
    (hcore : ∀ p ∈ dstPairs, ∀ q ∈ srcPairs,
      disassemble (emitHalves op (regRow p.lo p.hi) (regRow q.lo q.hi)) =
        some (body p.lo p.hi q.lo q.hi))
    {d r : BitVec 4} (hd : d.toNat < 11) (hr : r.toNat < 11) {form : Form} {imm : Word} {c : Code}
    (hc : c = match form with
      | .imm => emitMovSeImm64 true tmp2 imm ++ emitAlu64Reg true (rowOf d) tmp2 op
      | .reg => emitAlu64Reg true (rowOf d) (rowOf r) op) :
    disassemble c = some (fetch form d r imm ++
      body (heldLo d) (heldHi d) (srcLo form r) (srcHi form r) ++ storeRow d) := by
  have hE : WorksOn (fun a b => emitAlu64Reg true a b op) (emitHalves op) armBpfPutReg64 :=
    fun a b => by
    simp only [emitAlu64Reg, emitHalves, if_true, List.append_assoc]
  exact hE.disassemble storeRow hcore (fun d hd => (disassemble_getDst d hd).2.2) hd hr hc

/-! ## Registers -/

theorem idle_fetch_form {d r : BitVec 4} (hd : d.toNat < 11) (hr : r.toNat < 11) (form : Form)
    (imm : Word) : idleLine (fetch form d r imm) = true := by
  obtain ⟨h1, h2⟩ := idle_fetch d r hd hr
  cases form with
  | imm => rw [fetch, idleLine_append, idle_movSext, h1]; rfl
  | reg => rw [fetch, idleLine_append, h1, h2]; rfl

theorem tameLine_append (d : BitVec 4) (is js : List Inst) :
    tameLine d (is ++ js) = (tameLine d is && tameLine d js) := List.all_append

/-- The registers that the code for `d` may write. -/
def tameRegs (d : BitVec 4) : List Reg := [heldLo d, heldHi d, tmp2Lo, tmp2Hi, ip, lr]

theorem tame_dest : ∀ d : BitVec 4, ∀ q ∈ tameRegs d,
    (scratch.contains q || q == lr || (!onStack d && (q == heldLo d || q == heldHi d))) = true := by
  decide

theorem tameLine_of_dests {d : BitVec 4} {is : List Inst}
    (h : ∀ i ∈ is, i.quiet = true ∧ ∀ q ∈ i.dests, q ∈ tameRegs d) : tameLine d is = true := by
  rw [tameLine, List.all_eq_true]
  intro i hi
  obtain ⟨hquiet, hdests⟩ := h i hi
  rw [hquiet, Bool.true_and, List.all_eq_true]
  exact fun q hq => tame_dest d q (hdests q hq)

theorem tame_low {d : BitVec 4} {i : Inst} (hi : i.quiet = true ∧ i.dests = [heldLo d]) :
    tameLine d [i] = true :=
  tameLine_of_dests (by simp [hi, tameRegs])

/-- Two instructions that write one half each. -/
theorem tame_halves {d : BitVec 4} {i j : Inst} (hi : i.quiet = true ∧ i.dests = [heldLo d])
    (hj : j.quiet = true ∧ j.dests = [heldHi d]) : tameLine d [i, j] = true :=
  tameLine_of_dests (by simp [hi, hj, tameRegs])

/-- The registers of the operands are no special ones, and a half of one operand is not the other
half of the other. -/
structure Operands (lo hi lo' hi' : Reg) : Prop where
  halves : lo ≠ hi
  cross : lo' ≠ hi ∧ hi' ≠ lo
  plain : ∀ q ∈ [lo, hi, lo', hi'], q ≠ sp ∧ q ≠ ip ∧ q ≠ lr

theorem operands {d r : BitVec 4} (hd : d.toNat < 11) (hr : r.toNat < 11) (form : Form) :
    Operands (heldLo d) (heldHi d) (srcLo form r) (srcHi form r) := by
  have key : ∀ p ∈ dstPairs, ∀ q ∈ srcPairs, p.lo ≠ p.hi ∧ (q.lo ≠ p.hi ∧ q.hi ≠ p.lo) ∧
      ∀ r ∈ [p.lo, p.hi, q.lo, q.hi], r ≠ sp ∧ r ≠ ip ∧ r ≠ lr := by decide
  obtain ⟨h1, h2, h3⟩ := key _ (dstPair_mem d hd) _ (srcPair_mem hr form)
  exact ⟨h1, h2, h3⟩

section
variable {inst : EbpfInst} {op : Ebpf.AluOp} {form : Form} {x : Ebpf.State} {v : BitVec 64}

theorem row_of_lt {beyond : Row} {r : BitVec 4} (hr : r.toNat < 11) : bpf2a32 beyond r = rowOf r :=
  bpf2a32_of_lt (by omega)

/-- Agreement of a 64-bit instruction in terms of its code. -/
theorem agrees_alu64_iff (hop : Op.ofCode inst.opcode = some (.alu64 op form))
    (hd : inst.dst.toNat < 11) (hr : inst.src.toNat < 11)
    (hv : ∀ H, Ebpf.alu64 H op form (x.reg inst.dst) (x.reg inst.src) inst.imm = .val v) :
    Agrees inst x ↔ ∀ sys top s, Mirrors top x s →
      ∃ t, runCode sys (buildAlu64 op form (rowOf inst.dst) (rowOf inst.src) inst.imm) s =
        some (t, false) ∧ Mirrors top (x.set inst.dst v) t := by
  refine agrees_iff (fun J pc hpc => ?_) (fun H vm mem memLen => ?_) ?_
  · rw [buildInst, hpc, hop]
    simp only [buildOp, hpc, row_of_lt hd, row_of_lt hr]
  · rw [hop, Ebpf.execOp, hv]
    rfl
  · rw [hop]
    rfl

end

/-- What a pair of registers holds, half by half. -/
theorem halves_of_pair {s : State} {lo hi : Reg} {v : BitVec 64}
    (hv : pair (s.reg hi) (s.reg lo) = v) : s.reg lo = low v ∧ s.reg hi = high v := by
  rw [← hv, low_pair, high_pair]
  exact ⟨rfl, rfl⟩

/-! ## Agreement -/

theorem tame_operation {d r : BitVec 4} (hd : d.toNat < 11) (hr : r.toNat < 11) (form : Form)
    (imm : Word) {body : List Inst} (hb : tameLine d body = true) :
    tameLine d (fetch form d r imm ++ body) = true := by
  rw [tameLine_append, tameLine_of_idle (idle_fetch_form hd hr form imm), hb, Bool.true_and]

/-- An operation on one register. -/
theorem Mirrors.unary {top : Word} {x : Ebpf.State} {s : State} {d : BitVec 4} {body : List Inst}
    {v : BitVec 64} (hM : Mirrors top x s) (sys : Sys) (hd : d.toNat < 11)
    (htame : tameLine d body = true)
    (hrun : ∀ t, heldVal t d = x.reg d → t.flags = s.flags →
      Runs sys body t fun u => heldVal u d = v) :
    Runs sys (Jit.fetchDst d ++ body ++ Jit.storeRow d) s (Mirrors top (x.set d v)) := by
  obtain ⟨t, ht, hval, hflags, -⟩ := hM.fetchDst sys hd
  obtain ⟨u, hu, hv⟩ := hrun t hval hflags
  have hidle := (idle_fetch d d hd hd).1
  have htame' : tameLine d (Jit.fetchDst d ++ body) = true := by
    rw [tameLine_append, tameLine_of_idle hidle, htame, Bool.true_and]
  subst hv
  exact hM.block hd htame' (by rw [runLine_seq ht, hu])

section
variable {inst : EbpfInst} {op : Ebpf.AluOp} {form : Form} {x : Ebpf.State} {v : BitVec 64}
  {body : List Inst}
  (hop : Op.ofCode inst.opcode = some (.alu64 op form))
  (hd : inst.dst.toNat < 11) (hr : inst.src.toNat < 11)
  (hv : ∀ H, Ebpf.alu64 H op form (x.reg inst.dst) (x.reg inst.src) inst.imm = .val v)
  (htame : tameLine inst.dst body = true)
include hop hd hr hv htame

/-- An operation that leaves its result in the registers of the row. -/
theorem agrees_of_block
    (hcode : disassemble (buildAlu64 op form (rowOf inst.dst) (rowOf inst.src) inst.imm) =
      some (fetch form inst.dst inst.src inst.imm ++ body ++ storeRow inst.dst))
    (hrun : ∀ (sys : Sys) (top : Word) (c : Bool) (t : State),
      Loaded top x form inst.dst inst.src inst.imm c t →
      Runs sys body t fun u => heldVal u inst.dst = v) : Agrees inst x := by
  refine (agrees_alu64_iff hop hd hr hv).2 fun sys top s hM => ?_
  obtain ⟨t, ht, hval⟩ := (hM.fetch sys hd hr form inst.imm).append (hrun sys top s.flags.c)
  obtain ⟨u, hu, hMu⟩ := hM.block hd (tame_operation hd hr form inst.imm htame) ht
  exact ⟨u, by rw [runCode_eq hcode, hu], hval ▸ hMu⟩

/-- What an operation that agrees leaves in the registers of the row. -/
theorem block_value
    (hcode : disassemble (buildAlu64 op form (rowOf inst.dst) (rowOf inst.src) inst.imm) =
      some (fetch form inst.dst inst.src inst.imm ++ body ++ storeRow inst.dst))
    (hA : Agrees inst x) {top : Word} {s : State} (hM : Mirrors top x s) {P : BitVec 64 → Prop}
    (hrun : ∀ (sys : Sys) (t : State), Loaded top x form inst.dst inst.src inst.imm s.flags.c t →
      Runs sys body t fun u => P (heldVal u inst.dst)) : P v := by
  have sys : Sys := ⟨fun _ => true, false⟩
  obtain ⟨t, ht, hval⟩ := (hM.fetch sys hd hr form inst.imm).append (hrun sys)
  obtain ⟨u, hu, hMu⟩ := hM.block hd (tame_operation hd hr form inst.imm htame) ht
  obtain ⟨u', hu', hMu'⟩ := (agrees_alu64_iff hop hd hr hv).1 hA sys top s hM
  rw [runCode_eq hcode, hu] at hu'
  cases hu'
  have := hMu.unique hMu' inst.dst hd
  rw [set_reg, set_reg] at this
  exact this ▸ hval

/-- An operation that leaves the halves of its result in `a` and `b`. -/
theorem agrees_of_halves {a b : Reg} (hb : b ≠ heldLo inst.dst)
    (hcode : disassemble (buildAlu64 op form (rowOf inst.dst) (rowOf inst.src) inst.imm) =
      some (fetch form inst.dst inst.src inst.imm ++ body ++
        (putHalf inst.dst false a ++ putHalf inst.dst true b)))
    (hrun : ∀ (sys : Sys) (top : Word) (c : Bool) (t : State),
      Loaded top x form inst.dst inst.src inst.imm c t →
      Runs sys body t fun u => pair (u.reg b) (u.reg a) = v) : Agrees inst x := by
  refine (agrees_alu64_iff hop hd hr hv).2 fun sys top s hM => ?_
  obtain ⟨t, ht, hval⟩ := (hM.fetch sys hd hr form inst.imm).append (hrun sys top s.flags.c)
  obtain ⟨u, hu, hMu⟩ := hM.halves hd (tame_operation hd hr form inst.imm htame) ht hb
  exact ⟨u, by rw [runCode_eq hcode, hu], hval ▸ hMu⟩

end

end BlueSwat.Jit
