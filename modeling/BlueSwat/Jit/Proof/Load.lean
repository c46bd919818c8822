import BlueSwat.Jit.Proof.Access
import BlueSwat.Jit.Proof.Constant
import BlueSwat.Jit.Proof.Jump

/-!
# Loads

The code of `emit_ldx_reg` brings the address to a base register and an offset, loads, and stores
the row. `ldxNarrow_agrees` and `ldxDouble_agrees` say for which registers and offsets this is what
the interpreter does: the base and the offset must be encoded as they are, and a load of less than
eight bytes does not write the high half. For the others there is a state where the code goes wrong
(`ldxNarrow_disagrees`, `ldxDouble_disagrees`).
-/

set_option autoImplicit false

namespace BlueSwat.Jit

open Thumb Bytes
open Ebpf (EbpfInst Op Size effAddr)

/-! ## Agreement of an access -/

/-- For an access of the `n` bytes at `a`, with one code and one result; the interpreter has it if
it lets the access through. -/
theorem agrees_access_iff {inst : EbpfInst} {x x' : Ebpf.State} {c : Code} (size : Size) {a : Word}
    {n : Nat} (hacc : accessed inst x (Op.ofCode inst.opcode) = (a, n))
    (hcode : ∀ (J : JitState) (pc : Nat), J.insts pc = inst → (buildInst J pc).1 = c)
    (hexec : ∀ H vm mem memLen, Ebpf.execOp H vm mem memLen inst x (Op.ofCode inst.opcode) =
      Ebpf.checked H vm mem memLen inst x size x') :
    Agrees inst x ↔ ∀ sys top s, Mirrors top x s →
      (∀ b, Within b a n → ¬ Within b (top - 64) 64 ∧ sys.unpriv b = true) →
      ∃ t, runCode sys c s = some (t, false) ∧ Mirrors top x' t := by
  have hclear : ∀ sys top, Clear sys top inst x ↔
      ∀ b, Within b a n → ¬ Within b (top - 64) 64 ∧ sys.unpriv b = true := by
    intro sys top
    rw [Clear, hacc]
  constructor
  · intro h sys top s hM hC
    have hJ := h (genJitState (fun _ => inst) 1 (fun _ => 0) bpfR0 fun _ => 0) 0 rfl
      ⟨0, fun _ _ _ _ => 0⟩ ⟨fun _ => 0, false, fun _ _ _ => none⟩ 0 0 x' (hexec _ _ _ _)
      sys top s hM
      ((hclear sys top).2 hC)
    rwa [hcode _ 0 rfl] at hJ
  · intro h J pc hpc H vm mem memLen x'' hx sys top s hM hC
    rw [hexec, Ebpf.checked] at hx
    split at hx
    · cases hx
      rw [hcode J pc hpc]
      exact h sys top s hM ((hclear sys top).1 hC)
    · cases hx

theorem effAddr_eq (v : BitVec 64) (off : BitVec 16) : effAddr v off = low v + bits off.toInt := by
  have hz : (off.signExtend 64).setWidth 32 = bits off.toInt := by
    apply BitVec.eq_of_getLsbD_eq
    intro i hi
    rw [show bits off.toInt = off.signExtend 32 from rfl]
    simp only [BitVec.getLsbD_setWidth, BitVec.getLsbD_signExtend, hi, show i < 64 by omega,
      decide_true, Bool.true_and]
  rw [effAddr, BitVec.setWidth_add _ _ (by decide), hz]
  rfl

/-! ## The base -/

/-- An offset that does not fit is added to `q`. -/
def addressInsts (q : Reg) (off : Int) : List Inst :=
  (movConst tmpHi (bits off)).map .base ++ [.data .add false tmpHi tmpHi q (.lsl 0)]

theorem Mirrors.address {top : Word} {x : Ebpf.State} {s : State} (hM : Mirrors top x s) (sys : Sys)
    {q : Reg} (hq : q ≠ tmpHi) (off : Int) :
    Runs sys (addressInsts q off) s fun t => Mirrors top x t ∧ t.reg tmpHi = s.reg q + bits off ∧
      ∀ p, p ≠ tmpHi → t.reg p = s.reg p := by
  have hidle : idleLine (addressInsts q off) = true := by
    rw [addressInsts, idleLine_append, idle_movConst (by decide)]
    rfl
  have key : Runs sys (addressInsts q off) s fun t => t.reg tmpHi = s.reg q + bits off ∧
      ∀ p, p ≠ tmpHi → t.reg p = s.reg p := by
    refine (runs_movConst (q := tmpHi) (by decide) (bits off) sys s).append fun t ht => ?_
    refine .put rfl (by decide) fun u hu => .nil ⟨?_,
      fun p hp => (hu.rest p hp).trans (ht.2.2 p hp)⟩
    rw [hu.dest, dataResult, Shift.apply_lsl_zero, ht.1, ht.2.2 _ hq, BitVec.add_comm]
    exact addWithCarry_false _ _
  obtain ⟨t, ht, h1, h2⟩ := key
  exact ⟨t, ht, hM.idle hidle ht, h1, h2⟩

/-- The register that is the base of a load, and the offset that is left. -/
def baseReg (d r : BitVec 4) (off : Int) (size : Size) : Reg :=
  if ¬ isLdstImm off size ∨ heldLo d = halfReg r false tmp2Lo then tmpHi else halfReg r false tmp2Lo

def baseOff (off : Int) (size : Size) : Int := if isLdstImm off size then off else 0

/-- The address is computed, or a base that is loaded to is moved. -/
def baseInsts (d r : BitVec 4) (off : Int) (size : Size) : List Inst :=
  if ¬ isLdstImm off size then addressInsts (halfReg r false tmp2Lo) off
  else if heldLo d = halfReg r false tmp2Lo then [.base (.movReg tmpHi (halfReg r false tmp2Lo))]
  else []

/-- A base is added to the offset, or moved. -/
theorem disassemble_moveBase : ∀ q ∈ [heldLo 0, heldLo 1, heldLo 6, tmpLo, tmp2Lo],
    disassemble (emitAddReg tmp.hi q.toNat false false) =
      some [.data .add false tmpHi tmpHi q (.lsl 0)] ∧
      disassemble (emitA32MovReg q.toNat tmp.hi) = some [.base (.movReg tmpHi q)] := by decide

theorem base_mem : ∀ d : BitVec 4, d.toNat < 11 → ∀ q ∈ [tmpLo, tmp2Lo],
    halfReg d false q ∈ [heldLo 0, heldLo 1, heldLo 6, tmpLo, tmp2Lo] := by decide

section
variable {d r : BitVec 4} (hd : d.toNat < 11) (hr : r.toNat < 11) (off : Int) (size : Size)
include hr

theorem disassemble_ldxBase (rd : Row) (hlo : rd.lo = (heldLo d).toNat) :
    let p := ldxBase rd (halfReg r false tmp2Lo).toNat off size
    disassemble p.1 = some (baseInsts d r off size) ∧ p.2.1 = (baseReg d r off size).toNat ∧
      p.2.2 = baseOff off size := by
  obtain ⟨hadd, hmov⟩ := disassemble_moveBase _ (base_mem r hr tmp2Lo (by simp))
  have heq : rd.lo = ((halfReg r false tmp2Lo).toNat : Int) ↔
      heldLo d = halfReg r false tmp2Lo := by
    rw [hlo, Int.natCast_inj]
    exact BitVec.toNat_inj
  rw [ldxBase, baseInsts, baseReg, baseOff]
  by_cases hi : isLdstImm off size
  · by_cases he : heldLo d = halfReg r false tmp2Lo
    · simp only [hi, not_true_eq_false, if_false, heq, he, if_true, false_or]
      exact ⟨hmov, rfl, trivial⟩
    · simp only [hi, not_true_eq_false, if_false, heq, he, false_or, if_true]
      exact ⟨rfl, trivial, trivial⟩
  · simp only [hi, not_false_eq_true, if_true, true_or, if_false]
    exact ⟨disassemble_seq (disassemble_emitMovImm (r := tmpHi) (by decide) _) hadd, rfl, trivial⟩

theorem base_apart : halfReg r false tmp2Lo ≠ tmpHi := by
  revert r
  decide

/-- When the base is ready: the high temporary register is changed only if it is the base. -/
structure Based (top : Word) (x : Ebpf.State) (d r : BitVec 4) (off : Int) (size : Size)
    (s t : State) :
    Prop where
  mirrors : Mirrors top x t
  base : t.reg (baseReg d r off size) = low (x.reg r) + if isLdstImm off size then 0 else bits off
  kept : baseReg d r off size ≠ tmpHi → t.reg tmpHi = s.reg tmpHi

theorem Mirrors.base {top : Word} {x : Ebpf.State} {s : State} (hM : Mirrors top x s) (sys : Sys) :
    Runs sys (Jit.fetchHalf r false tmp2Lo ++ baseInsts d r off size) s
      (Based top x d r off size s) := by
  refine (hM.fetchHalf sys hr false (q := tmp2Lo) (by decide)).append fun t ht => ?_
  obtain ⟨hMt, hv, -, hk⟩ := ht
  have hkt : t.reg tmpHi = s.reg tmpHi := hk tmpHi (by decide)
  have hv' : t.reg (halfReg r false tmp2Lo) = low (x.reg r) := hv
  by_cases hi : isLdstImm off size
  · have hadd : low (x.reg r) + (if isLdstImm off size then 0 else bits off) = low (x.reg r) := by
      rw [if_pos hi]
      exact BitVec.add_zero _
    by_cases he : heldLo d = halfReg r false tmp2Lo
    · have hb : baseReg d r off size = tmpHi := if_pos (.inr he)
      have hinsts : baseInsts d r off size = [.base (.movReg tmpHi (halfReg r false tmp2Lo))] := by
        rw [baseInsts, if_neg (not_not_intro hi), if_pos he]
      have hrun : runLine sys [.base (.movReg tmpHi (halfReg r false tmp2Lo))] t =
          some ((t.set tmpHi (t.reg (halfReg r false tmp2Lo))).skip 0, false) := rfl
      rw [hinsts]
      refine ⟨_, hrun, hMt.idle rfl hrun, ?_, fun h => absurd hb h⟩
      rw [hb, hadd, ← hv']
      exact @set_reg_same t tmpHi (by decide) _
    · have hb : baseReg d r off size = halfReg r false tmp2Lo :=
        if_neg (not_or.2 ⟨not_not_intro hi, he⟩)
      have hinsts : baseInsts d r off size = [] := by
        rw [baseInsts, if_neg (not_not_intro hi), if_neg he]
      rw [hinsts]
      exact .nil ⟨hMt, by rw [hb, hadd, hv'], fun _ => hkt⟩
  · have hb : baseReg d r off size = tmpHi := if_pos (.inl hi)
    rw [baseInsts, if_pos hi]
    refine (hMt.address sys (base_apart hr) off).mono fun u hu => ⟨hu.1, ?_, fun h => absurd hb h⟩
    rw [hb, hu.2.1, hv', if_neg hi]

end

/-! ## The code -/

def putCode (d : BitVec 4) : Code := armBpfPutReg64 (rowOf d) (regRow (heldLo d) (heldHi d))

theorem disassemble_putCode {d : BitVec 4} (hd : d.toNat < 11) :
    disassemble (putCode d) = some (storeRow d) := (disassemble_getDst d hd).2.2

theorem putCode_length : ∀ d : BitVec 4, d.toNat < 11 → (onStack d = false → putCode d = []) ∧
    (onStack d = true → (putCode d).length = 2 ∧
      disassemble ((putCode d).drop 1) = none) := by decide

/-- Nothing, or two halfwords of which the second is no instruction by itself. -/
theorem putCode_cases {d : BitVec 4} (hd : d.toNat < 11) :
    putCode d = [] ∨ ∃ h1 h2, putCode d = [h1, h2] ∧ disassemble [h2] = none := by
  obtain ⟨h1, h2⟩ := putCode_length d hd
  cases hs : onStack d with
  | false => exact .inl (h1 hs)
  | true =>
    obtain ⟨hlen, hdrop⟩ := h2 hs
    obtain ⟨a, b, hab⟩ := List.length_eq_two.1 hlen
    exact .inr ⟨a, b, hab, by rwa [hab] at hdrop⟩

section
variable {d r : BitVec 4} (hd : d.toNat < 11) (hr : r.toNat < 11) (off : Int) (size : Size)
include hd hr

/-- The code, from where the base is ready. -/
theorem runCode_buildLdx {top : Word} {x : Ebpf.State} {s : State} (hM : Mirrors top x s)
    (sys : Sys) :
    ∃ t, Based top x d r off size s t ∧
      runCode sys (buildLdx (rowOf d) (rowOf r) off size) s =
        runCode sys (emitLoad (regRow (heldLo d) (heldHi d)) (baseReg d r off size).toNat
          (baseOff off size) size ++ putCode d) t := by
  have hrow := heldRow_eq d hd
  obtain ⟨hget, hgetd⟩ := disassemble_getLow hr (q := tmp2Lo) (by simp)
  obtain ⟨hb, hrm, hoff⟩ := disassemble_ldxBase (d := d) hr off size
    (regRow (heldLo d) (heldHi d)) rfl
  obtain ⟨t, ht, hB⟩ := hM.base (d := d) hr off size sys
  refine ⟨t, hB, ?_⟩
  have hlo : tmp2.lo = tmp2Lo.toNat := rfl
  rw [← runCode_append (disassemble_seq hgetd hb) ht]
  simp only [buildLdx, emitLdxReg, hrow, hlo, hget, hrm, hoff, putCode, List.append_assoc]

end

/-! ## Loaded rows -/

/-- The registers of a load. -/
theorem ldx_registers : ∀ d r : BitVec 4, d.toNat < 11 → r.toNat < 11 →
    heldLo d ∈ loadRegs ∧ special (heldHi d) = false ∧ heldLo d ≠ tmpHi ∧
      (heldHi d = tmpHi → onStack d = true) ∧ (onStack d = true → heldHi d = tmpHi) ∧
      halfReg r false tmp2Lo ∈ baseRegs ∧ heldHi d ≠ halfReg r false tmp2Lo ∧
      (heldLo d = halfReg r false tmp2Lo → onStack d = false) := by decide

section
variable {d r : BitVec 4} (hd : d.toNat < 11)
include hd

theorem baseReg_spec (hr : r.toNat < 11) (off : Int) (size : Size) :
    baseReg d r off size ∈ baseRegs ∧ baseReg d r off size ≠ heldLo d ∧
      (isLdstImm off size → baseReg d r off size ≠ heldHi d) := by
  obtain ⟨-, -, h1, h2, -, h3, h4, h5⟩ := ldx_registers d r hd hr
  unfold baseReg
  split
  · rename_i h
    refine ⟨by decide, Ne.symm h1, fun hi e => ?_⟩
    have := h5 (h.resolve_left (not_not_intro hi))
    rw [h2 e.symm] at this
    cases this
  · rename_i h
    exact ⟨h3, fun e => h (.inr e.symm), fun _ => Ne.symm h4⟩

variable {top : Word} {x : Ebpf.State} {t : State}

omit hd in
theorem tame_move {q : Reg} (hq : q ∈ [heldLo d, heldHi d, tmp2Lo, tmp2Hi, ip, lr]) (v : Word) :
    tameLine d [.base (.movImm false q v)] = true := by
  simp only [tameLine, List.all_cons, List.all_nil, Inst.quiet, Instr.quiet, Inst.dests,
    Instr.dests, tame_dest d q hq, Bool.and_self]

/-- A word is put to the low half of the row. -/
theorem Mirrors.loadLow (hM : Mirrors top x t) (sys : Sys) (v : Word) :
    ∃ u, runLine sys (Jit.storeRow d) (t.set (heldLo d) v) = some (u, false) ∧
      Mirrors top (x.set d (pair (t.reg (heldHi d)) v)) u := by
  have hO := operands hd hd .reg
  have hrun := runLine_movImm sys t (heldLo d) v
  obtain ⟨u, hu, hMu⟩ := hM.block hd (tame_move (by simp) v) hrun
  rw [runLine_seq hrun] at hu
  refine ⟨u, hu, ?_⟩
  rwa [heldVal, set_reg_of_ne _ (Ne.symm hO.halves), set_reg_same (hO.plain _ (by simp)).1] at hMu

/-- And one to each half. -/
theorem Mirrors.loadBoth (hM : Mirrors top x t) (sys : Sys) (v w : Word) :
    ∃ u, runLine sys (Jit.storeRow d) ((t.set (heldLo d) v).set (heldHi d) w) = some (u, false) ∧
      Mirrors top (x.set d (pair w v)) u := by
  have hO := operands hd hd .reg
  have hrun := (runLine_seq (runLine_movImm sys t (heldLo d) v)).trans
    (runLine_movImm sys _ (heldHi d) w)
  have htame : tameLine d ([.base (.movImm false (heldLo d) v)] ++
      [.base (.movImm false (heldHi d) w)]) = true := by
    rw [tameLine_append, tame_move (by simp), tame_move (by simp), Bool.and_self]
  obtain ⟨u, hu, hMu⟩ := hM.block hd htame hrun
  rw [runLine_seq hrun] at hu
  refine ⟨u, hu, ?_⟩
  rwa [heldVal, set_reg_same (hO.plain _ (by simp)).1, set_reg_of_ne _ hO.halves,
    set_reg_same (hO.plain _ (by simp)).1] at hMu

end

/-! ## Values -/

theorem ofNat_read_word (M : Mem) (a : Word) {n : Nat} (hn : n ≤ 4) :
    BitVec.ofNat 64 (read M a n) = pair 0 (BitVec.ofNat 32 (read M a n)) := by
  have h := read_lt M a n
  have h4 : 256 ^ n ≤ 256 ^ 4 := Nat.pow_le_pow_right (by decide) hn
  apply BitVec.eq_of_toNat_eq
  rw [toNat_pair, BitVec.toNat_ofNat, BitVec.toNat_ofNat]
  show _ = 0 * 2 ^ 32 + _
  omega

theorem ofNat_read_double (M : Mem) (a : Word) :
    BitVec.ofNat 64 (read M a 8) =
      pair (BitVec.ofNat 32 (read M (a + 4) 4)) (BitVec.ofNat 32 (read M a 4)) := by
  have h1 := read_lt M a 4
  have h2 := read_lt M (a + 4) 4
  have h := read_add M a 4 4
  apply BitVec.eq_of_toNat_eq
  rw [toNat_pair, BitVec.toNat_ofNat, BitVec.toNat_ofNat, BitVec.toNat_ofNat, h]
  show (_ + 256 ^ 4 * read M (a + 4) 4) % 2 ^ 64 = _
  omega

/-! ## Loads from the right place -/

theorem bits_add (a b : Int) : bits (a + b) = bits a + bits b := BitVec.ofInt_add ..

section
variable {sys : Sys} {top : Word} {x : Ebpf.State} {d r : BitVec 4} {off : Int} {size : Size}
  {s t : State}

theorem Based.addr (hB : Based top x d r off size s t) :
    t.reg (baseReg d r off size) + bits (baseOff off size) = low (x.reg r) + bits off := by
  rw [hB.base, baseOff]
  split
  · rw [BitVec.ofNat_eq_ofNat, BitVec.add_zero]
  · exact BitVec.add_zero _

/-- What the machine reads outside of the rows. -/
theorem Mirrors.read_eq (hM : Mirrors top x t) {a : Word} {n : Nat}
    (hC : ∀ b, Within b a n → ¬ Within b (top - 64) 64 ∧ sys.unpriv b = true) :
    read t.mem a n = read x.mem a n :=
  read_congr fun _ hi => hM.mem _ (hC _ (within_add hi)).1

variable (hd : d.toNat < 11)
include hd

/-- The loaded value is put to the low half; the high half is that of the register. -/
theorem Based.loadLow {c : Code} {w : Width} (hB : Based top x d r off size s t)
    (hA : Accesses true c w (heldLo d) (baseReg d r off size) false (baseOff off size))
    (hC : ∀ b, Within b (low (x.reg r) + bits off) w.bytes →
      ¬ Within b (top - 64) 64 ∧ sys.unpriv b = true) :
    ∃ u, runCode sys (c ++ putCode d) t = some (u, false) ∧
      Mirrors top (x.set d (pair (t.reg (heldHi d))
        (BitVec.ofNat 32 (read x.mem (low (x.reg r) + bits off) w.bytes)))) u := by
  obtain ⟨u, hu⟩ := hA
  have hput := disassemble_putCode hd
  have hallow :
      sys.allows u (t.reg (baseReg d r off size) + bits (baseOff off size)) w.bytes = true :=
    allows_of_forall u (hB.addr ▸ fun b hb => (hC b hb).2)
  rw [hu, exec_load hallow, hB.addr, hB.mirrors.read_eq hC, Option.bind_some, runCode_eq hput]
  exact hB.mirrors.loadLow hd sys _

/-- Both halves are loaded. -/
theorem Based.loadBoth {c c' : Code} (hB : Based top x d r off size s t)
    (hlo : baseReg d r off size ≠ heldLo d)
    (hA : Accesses true c .word (heldLo d) (baseReg d r off size) false (baseOff off size))
    (hA' : Accesses true c' .word (heldHi d) (baseReg d r off size) false (baseOff off size + 4))
    (hC : ∀ b, Within b (low (x.reg r) + bits off) 8 →
      ¬ Within b (top - 64) 64 ∧ sys.unpriv b = true) :
    ∃ u, runCode sys (c ++ (c' ++ putCode d)) t = some (u, false) ∧
      Mirrors top (x.set d (BitVec.ofNat 64 (read x.mem (low (x.reg r) + bits off) 8))) u := by
  obtain ⟨u, hu⟩ := hA
  obtain ⟨u', hu'⟩ := hA'
  have hput := disassemble_putCode hd
  have hC1 : ∀ b, Within b (low (x.reg r) + bits off) 4 →
      ¬ Within b (top - 64) 64 ∧ sys.unpriv b = true := fun b hb =>
    hC b (Nat.lt_of_lt_of_le hb (by decide))
  have hC2 : ∀ b, Within b (low (x.reg r) + bits off + 4) 4 →
      ¬ Within b (top - 64) 64 ∧ sys.unpriv b = true := fun b hb =>
    hC b (within_succ (n := 1) hb)
  have hallow : sys.allows u (t.reg (baseReg d r off size) + bits (baseOff off size)) 4 = true :=
    allows_of_forall u (hB.addr ▸ fun b hb => (hC1 b hb).2)
  rw [hu, exec_load hallow, hB.addr, Option.bind_some, hu']
  generalize hv : BitVec.ofNat 32 (read t.mem (low (x.reg r) + bits off) Width.word.bytes) = v
  -- the base is not the register that has been loaded
  have haddr : ((t.writeBack (baseReg d r off size) ⟨true, false, bits (baseOff off size)⟩).set
      (heldLo d) v).reg (baseReg d r off size) + bits (baseOff off size + 4) =
      low (x.reg r) + bits off + 4 := by
    rw [set_reg_of_ne _ hlo, bits_add, ← BitVec.add_assoc]
    exact congrArg (· + 4) hB.addr
  have hallow' : sys.allows u' (((t.writeBack (baseReg d r off size)
      ⟨true, false, bits (baseOff off size)⟩).set (heldLo d) v).reg (baseReg d r off size) +
      bits (baseOff off size + 4)) 4 = true :=
    allows_of_forall u' (haddr ▸ fun b hb => (hC2 b hb).2)
  rw [exec_load hallow', haddr, Option.bind_some, runCode_eq hput, ofNat_read_double,
    ← hB.mirrors.read_eq hC1, ← hB.mirrors.read_eq hC2]
  subst hv
  exact hB.mirrors.loadBoth hd sys _ _

end

/-! ## Loads from any place -/

/-- A system that lets code access every byte. -/
def openSys : Sys := ⟨fun _ => true, false⟩

theorem openSys_allows (u : Bool) (a : Word) (n : Nat) : openSys.allows u a n = true :=
  allows_of_forall u fun _ _ => rfl

section
variable {top : Word} {x : Ebpf.State} {d : BitVec 4} {t : State}

/-- A machine mirrors the state that it keeps. -/
theorem mirrors_rows (hf : t.reg fp = top) (hA : top.toNat % 4 = 0) :
    Mirrors top ⟨0, rowVal t, t.mem⟩ t := ⟨hf, hA, fun _ _ => rfl, fun _ _ => rfl⟩

/-- The row of the destination is stored. -/
theorem run_putCode (hd : d.toNat < 11) (hf : t.reg fp = top) (hA : top.toNat % 4 = 0) (sys : Sys) :
    ∃ u, runCode sys (putCode d) t = some (u, false) ∧ rowVal u d = heldVal t d := by
  have hput := disassemble_putCode hd
  have hrun : runLine sys [] t = some (t, false) := rfl
  obtain ⟨u, hu, hMu⟩ := (mirrors_rows hf hA).block hd rfl hrun
  refine ⟨u, (runCode_eq hput).trans hu, ?_⟩
  rw [hMu.rows d hd, set_reg]

theorem writeBack_reg_of_ne {q b : Reg} (ix : Index) (h : q ≠ b) :
    (t.writeBack b ix).reg q = t.reg q := by
  unfold State.writeBack
  split
  · exact set_reg_of_ne _ h
  · rfl

theorem writeBack_mem (b : Reg) (ix : Index) : (t.writeBack b ix).mem = t.mem := by
  unfold State.writeBack
  split <;> rfl

variable (hd : d.toNat < 11) (hM : Mirrors top x t)
include hd hM

/-- What is in the row after a load of at most a word. -/
theorem run_loadLow {c : Code} {w : Width} {b : Reg} {wb : Bool} {z : Int} (hb : b ≠ fp)
    (hA : Accesses true c w (heldLo d) b wb z) :
    ∃ u, runCode openSys (c ++ putCode d) t = some (u, false) ∧
      rowVal u d = pair ((t.writeBack b ⟨true, wb, bits z⟩).reg (heldHi d))
        (BitVec.ofNat 32 (read t.mem (t.reg b + bits z) w.bytes)) := by
  obtain ⟨hne, hsp⟩ := held_ne d hd
  obtain ⟨p, hp⟩ := hA
  rw [hp, exec_load (openSys_allows _ _ _), Option.bind_some]
  generalize hv : BitVec.ofNat 32 (read t.mem (t.reg b + bits z) w.bytes) = v
  have hf : ((t.writeBack b ⟨true, wb, bits z⟩).set (heldLo d) v).reg fp = top := by
    rw [set_reg_of_ne _ fun e => hsp (heldLo d) (by simp) (by simp [← e]),
      writeBack_reg_of_ne _ (Ne.symm hb), hM.fp]
  obtain ⟨u, hu, hrow⟩ := run_putCode hd hf hM.aligned openSys
  refine ⟨u, hu, hrow.trans ?_⟩
  have hlo : heldLo d ≠ sp := fun e => hsp (heldLo d) (by simp) (by simp [e])
  rw [heldVal, set_reg_of_ne _ (Ne.symm hne), set_reg_same hlo]

/-- After a load of two words. -/
theorem run_loadBoth {c c' : Code} {b : Reg} {wb wb' : Bool} {z z' : Int} (hb : b ≠ fp)
    (hlo : b ≠ heldLo d) (hA : Accesses true c .word (heldLo d) b wb z)
    (hA' : Accesses true c' .word (heldHi d) b wb' z') :
    ∃ u, runCode openSys (c ++ (c' ++ putCode d)) t = some (u, false) ∧
      rowVal u d = pair (BitVec.ofNat 32
          (read t.mem ((t.writeBack b ⟨true, wb, bits z⟩).reg b + bits z') 4))
        (BitVec.ofNat 32 (read t.mem (t.reg b + bits z) 4)) := by
  obtain ⟨hne, hsp⟩ := held_ne d hd
  have hspq : ∀ q ∈ [heldLo d, heldHi d], q ≠ sp ∧ fp ≠ q := fun q hq =>
    ⟨fun e => hsp q hq (by simp [e]), fun e => hsp q hq (by simp [e])⟩
  obtain ⟨p, hp⟩ := hA
  obtain ⟨p', hp'⟩ := hA'
  rw [hp, exec_load (openSys_allows _ _ _), Option.bind_some, hp',
    exec_load (openSys_allows _ _ _), Option.bind_some]
  generalize hv : BitVec.ofNat 32 (read t.mem (t.reg b + bits z) Width.word.bytes) = v
  generalize ht : (t.writeBack b ⟨true, wb, bits z⟩).set (heldLo d) v = t1
  have hb1 : t1.reg b = (t.writeBack b ⟨true, wb, bits z⟩).reg b := by
    rw [← ht, set_reg_of_ne _ hlo]
  have hm1 : t1.mem = t.mem := by
    rw [← ht]
    exact writeBack_mem b _
  have hf1 : t1.reg fp = top := by
    rw [← ht, set_reg_of_ne _ (hspq _ (by simp)).2, writeBack_reg_of_ne _ (Ne.symm hb), hM.fp]
  have hv1 : t1.reg (heldLo d) = v := by
    rw [← ht, set_reg_same (hspq _ (by simp)).1]
  rw [hb1, hm1]
  generalize hw : BitVec.ofNat 32 (read t.mem
    ((t.writeBack b ⟨true, wb, bits z⟩).reg b + bits z') Width.word.bytes) = w
  have hf : ((t1.writeBack b ⟨true, wb', bits z'⟩).set (heldHi d) w).reg fp = top := by
    rw [set_reg_of_ne _ (hspq _ (by simp)).2, writeBack_reg_of_ne _ (Ne.symm hb), hf1]
  obtain ⟨u, hu, hrow⟩ := run_putCode hd hf hM.aligned openSys
  refine ⟨u, hu, hrow.trans ?_⟩
  rw [heldVal, set_reg_same (hspq _ (by simp)).1, set_reg_of_ne _ hne,
    writeBack_reg_of_ne _ (Ne.symm hlo), hv1, ← hv, ← hw]
  rfl

end

/-! ## Offsets -/

/-- The offsets at which a load reads from the right place; `stacked` is the row of the base. -/
def offsetOk (stacked : Bool) (off : Int) : Size → Prop
  | .b => 0 ≤ off ∨ off < -4095 ∨ -255 ≤ off ∧ (off ≤ -32 ∨ stacked = true)
  | .h => off = 0 ∧ stacked = false ∨ 32 ≤ off ∨ off < -255
  | .w => -255 ≤ off ∧ off ≤ 255 ∨ off < -4095 ∨ 4095 < off
  | .dw => -255 ≤ off ∧ off ≤ 251 ∨ off < -4091 ∨ 4091 < off

instance (stacked : Bool) (off : Int) : (size : Size) → Decidable (offsetOk stacked off size)
  | .b | .h | .w | .dw => inferInstanceAs (Decidable (_ ∨ _))

def widthOf : Size → Width
  | .b => .byte
  | .h => .half
  | .w | .dw => .word

/-- An address that is computed is right. -/
theorem isLdstImm_of_not_ok {stacked : Bool} {off : Int} {size : Size}
    (h : ¬ offsetOk stacked off size) : isLdstImm off size := by
  cases size <;> simp only [offsetOk] at h <;> simp only [isLdstImm, offMax] <;> omega

/-- A load of at most a word. -/
theorem emitLoad_narrow {size : Size} (hsz : size ≠ .dw) (rd : Row) (rm off : Int) :
    emitLoad rd rm off size = loadCode rd.lo rm off (widthOf size) := by
  cases size with
  | dw => exact absurd rfl hsz
  | b | h | w => rfl

theorem widthOf_bytes {size : Size} (hsz : size ≠ .dw) : (widthOf size).bytes = size.bytes := by
  cases size with
  | dw => exact absurd rfl hsz
  | b | h | w => rfl

theorem baseOff_reach {size : Size} (hsz : size ≠ .dw) (off : Int) :
    -reach (widthOf size) ≤ baseOff off size ∧ baseOff off size ≤ reach (widthOf size) := by
  have hmax : reach (widthOf size) = offMax size := by
    cases size with
    | dw => exact absurd rfl hsz
    | b | h | w => rfl
  have h0 : 0 ≤ offMax size := by cases size <;> decide
  rw [hmax, baseOff]
  split
  · rename_i h
    exact h
  · omega

section
variable {d r : BitVec 4} (hd : d.toNat < 11) (hr : r.toNat < 11) (off : Int)
include hd hr

theorem baseReg_eq_tmp2 {size : Size} (hi : isLdstImm off size) :
    baseReg d r off size = 8 ↔ onStack r = true := by
  have h : ∀ d r : BitVec 4, d.toNat < 11 → r.toNat < 11 →
      ((if heldLo d = halfReg r false tmp2Lo then tmpHi else halfReg r false tmp2Lo) = 8 ↔
        onStack r = true) := by decide
  simp only [baseReg, hi, not_true_eq_false, false_or]
  exact h d r hd hr

/-- The offset that is left is encoded as it is. -/
theorem offsetOk_iff {size : Size} (hsz : size ≠ .dw) :
    offsetOk (onStack r) off size ↔
      encodes (baseReg d r off size) (baseOff off size) (widthOf size) := by
  by_cases hi : isLdstImm off size
  · have h8 := baseReg_eq_tmp2 hd hr off hi
    rw [baseOff, if_pos hi]
    obtain ⟨h1, h2⟩ := hi
    cases size with
    | b =>
      have h1' : -4095 ≤ off := h1
      simp only [offsetOk, widthOf, encodes, h8]
      cases onStack r <;> simp only [Bool.false_eq_true, or_false, or_true, and_true] <;> omega
    | h =>
      have h1' : -255 ≤ off := h1
      simp only [offsetOk, widthOf, encodes, ne_eq, h8, Bool.not_eq_true]
      cases onStack r <;> simp only [Bool.true_eq_false, eq_self, and_false, and_true, false_or] <;>
        omega
    | w =>
      have h1' : -4095 ≤ off := h1
      have h2' : off ≤ 4095 := h2
      simp only [offsetOk, widthOf, encodes]
      omega
    | dw => exact absurd rfl hsz
  · have h7 : baseReg d r off size = tmpHi := if_pos (.inl hi)
    rw [baseOff, if_neg hi, h7]
    cases size with
    | b =>
      have hi' : ¬ (-4095 ≤ off ∧ off ≤ 4095) := hi
      exact iff_of_true (show _ ∨ _ ∨ _ by omega) (.inl (by decide))
    | h =>
      have hi' : ¬ (-255 ≤ off ∧ off ≤ 255) := hi
      exact iff_of_true (show _ ∨ _ ∨ _ by omega) (.inl (by decide))
    | w =>
      have hi' : ¬ (-4095 ≤ off ∧ off ≤ 4095) := hi
      exact iff_of_true (show _ ∨ _ ∨ _ by omega) ⟨by decide, by decide⟩
    | dw => exact absurd rfl hsz

end

/-! ## A state to tell them apart -/

/-- An address far from the rows, if these are below address 0. -/
def origin : Word := 0x80000000

/-- All registers hold `origin`, below a high half `h`; memory has a 1 at `a`. -/
def hotState (h a : Word) : Ebpf.State := ⟨0, fun _ => pair h origin, hot a⟩

def hotMachine (h a : Word) : State :=
  mirrorOf 0 (hotState h a) (fun _ => 1) ⟨false, false, false, false⟩

theorem mirrors_hotMachine (h a : Word) : Mirrors 0 (hotState h a) (hotMachine h a) :=
  mirrors_mirrorOf _ _ _ rfl

theorem toNat_bits (z : Int) : (bits z).toNat = (z % 2 ^ 32).toNat := BitVec.toNat_ofInt ..

/-- An access that begins near an address that is far from 0. -/
theorem clear_of_far {a : Word} (ha : 2 ^ 17 ≤ a.toNat ∧ a.toNat + 2 ^ 17 ≤ 2 ^ 32) {z : Int}
    (hz : -65536 ≤ z ∧ z ≤ 65536) {n : Nat} (hn : n ≤ 8) {b : Word}
    (hb : Within b (a + bits z) n) : ¬ Within b (0 - 64 : Word) 64 := by
  have h64 : ((0 : Word) - 64).toNat = 2 ^ 32 - 64 := rfl
  have := b.isLt
  simp only [Within, BitVec.toNat_sub b, BitVec.toNat_add, toNat_bits, h64] at hb ⊢
  omega

theorem origin_far : 2 ^ 17 ≤ origin.toNat ∧ origin.toNat + 2 ^ 17 ≤ 2 ^ 32 := by decide

theorem origin_inj {z z' : Int} (hz : -65536 ≤ z ∧ z ≤ 65536) (hz' : -65536 ≤ z' ∧ z' ≤ 65536)
    (h : origin + bits z = origin + bits z') : z = z' := by
  have ho : origin.toNat = 2 ^ 31 := rfl
  have := congrArg BitVec.toNat h
  simp only [BitVec.toNat_add, toNat_bits, ho] at this
  omega

/-- What is read elsewhere is not 1. -/
theorem read_hot_wrong {M : Mem} {z z' : Int} (hz : -65536 ≤ z ∧ z ≤ 65536)
    (hz' : -65536 ≤ z' ∧ z' ≤ 65536) (hne : z ≠ z') {n : Nat} (hn : n ≤ 4)
    (hM : ∀ a, ¬ Within a (0 - 64 : Word) 64 → M a = hot (origin + bits z') a) :
    BitVec.ofNat 32 (read M (origin + bits z) n) ≠ 1 := by
  have hread : read M (origin + bits z) n = read (hot (origin + bits z')) (origin + bits z) n :=
    read_congr fun i hi => hM _ (clear_of_far origin_far hz (by omega) (within_add hi))
  have hlt := read_lt (hot (origin + bits z')) (origin + bits z) n
  have h4 : 256 ^ n ≤ 256 ^ 4 := Nat.pow_le_pow_right (by decide) hn
  have h1 := @read_hot_ne 32 _ _ (fun e => hne (origin_inj hz hz' e)) n
  intro e
  have := congrArg BitVec.toNat e
  rw [hread, BitVec.toNat_ofNat, Nat.mod_eq_of_lt (by omega)] at this
  exact h1 this

theorem offset_range (off : BitVec 16) : -65536 ≤ off.toInt ∧ off.toInt ≤ 65536 := by
  have h1 := BitVec.le_toInt off
  have h2 := BitVec.toInt_lt (x := off)
  omega

/-- The high temporary register is the base, or has not been written. -/
theorem Based.high_ne {d r : BitVec 4} {off : Int} {size : Size} {h a : Word} {t : State}
    (hB : Based 0 (hotState h a) d r off size (hotMachine h a) t) (hd : d.toNat < 11)
    (hr : r.toNat < 11) (hs : onStack d = true) (hoff : -65536 ≤ off ∧ off ≤ 65536) :
    t.reg (heldHi d) ≠ 0 := by
  obtain ⟨-, -, -, -, h7, -⟩ := ldx_registers d r hd hr
  rw [h7 hs]
  by_cases hb : baseReg d r off size = tmpHi
  · have hbase := hB.base
    rw [hb, show low ((hotState h a).reg r) = origin from low_pair _ _] at hbase
    have ho : origin.toNat = 2 ^ 31 := rfl
    intro e
    rw [e] at hbase
    have := congrArg BitVec.toNat hbase
    split at this
    · exact absurd this (by decide)
    · rw [BitVec.toNat_add, toNat_bits, ho] at this
      change 0 = _ at this
      omega
  · rw [hB.kept hb, hotMachine, mirrorOf_temp _ _ _ (by decide)]
    decide

/-! ## Agreement -/

section
variable {inst : EbpfInst} {size : Size} (hop : Op.ofCode inst.opcode = some (.ldx size))
  (hd : inst.dst.toNat < 11) (hr : inst.src.toNat < 11)
include hop hd hr

theorem agrees_ldx_iff {x : Ebpf.State} :
    Agrees inst x ↔ ∀ sys top s, Mirrors top x s →
      (∀ b, Within b (low (x.reg inst.src) + bits inst.offset.toInt) size.bytes →
        ¬ Within b (top - 64) 64 ∧ sys.unpriv b = true) →
      ∃ t, runCode sys (buildLdx (rowOf inst.dst) (rowOf inst.src) inst.offset.toInt size) s =
        some (t, false) ∧ Mirrors top (x.set inst.dst (BitVec.ofNat 64
          (read x.mem (low (x.reg inst.src) + bits inst.offset.toInt) size.bytes))) t := by
  rw [← effAddr_eq]
  refine agrees_access_iff size (by rw [hop]; rfl) (fun J pc hpc => ?_) fun H vm mem memLen => ?_
  · rw [buildInst, hpc, hop]
    simp only [buildOp, hpc, row_of_lt hd, row_of_lt hr]
  · rw [hop]
    rfl

/-- A load of at most a word leaves the high half. -/
theorem ldxNarrow_agrees (hsz : size ≠ .dw) (hs : onStack inst.dst = false)
    (hok : offsetOk (onStack inst.src) inst.offset.toInt size) {x : Ebpf.State}
    (hx : high (x.reg inst.dst) = 0) : Agrees inst x := by
  rw [agrees_ldx_iff hop hd hr]
  intro sys top s hM hC
  obtain ⟨t, hB, hrun⟩ := runCode_buildLdx hd hr inst.offset.toInt size hM sys
  obtain ⟨hlo, -⟩ := ldx_registers inst.dst inst.src hd hr
  obtain ⟨hb, hne, -⟩ := baseReg_spec hd hr inst.offset.toInt size
  have hA := accesses_right hlo hb hne (baseOff_reach hsz _) ((offsetOk_iff hd hr _ hsz).1 hok)
  have hhi : t.reg (heldHi inst.dst) = 0 := (halves_of_pair (hB.mirrors.held hd hs)).2.trans hx
  rw [← widthOf_bytes hsz] at hC ⊢
  rw [hrun, emitLoad_narrow hsz, ofNat_read_word _ _ (by cases size <;> decide), ← hhi]
  exact hB.loadLow hd hA hC

omit hop in
/-- The code for a load from a machine whose registers are `origin`. -/
theorem run_ldxNarrow (hsz : size ≠ .dw) (h a : Word) :
    ∃ t, Based 0 (hotState h a) inst.dst inst.src inst.offset.toInt size (hotMachine h a) t ∧
      (runCode openSys (buildLdx (rowOf inst.dst) (rowOf inst.src) inst.offset.toInt size)
          (hotMachine h a) = none ∨
        ∃ u b wb z,
          runCode openSys (buildLdx (rowOf inst.dst) (rowOf inst.src) inst.offset.toInt size)
            (hotMachine h a) = some (u, false) ∧
          rowVal u inst.dst = pair ((t.writeBack b ⟨true, wb, bits z⟩).reg (heldHi inst.dst))
            (BitVec.ofNat 32 (read t.mem (t.reg b + bits z) size.bytes)) ∧
          if offsetOk (onStack inst.src) inst.offset.toInt size then wb = false
          else t.reg b = origin ∧ z ≠ inst.offset.toInt ∧ -255 ≤ z ∧ z ≤ 255) := by
  obtain ⟨t, hB, hrun⟩ := runCode_buildLdx hd hr inst.offset.toInt size
    (mirrors_hotMachine h a) openSys
  obtain ⟨hlo, -⟩ := ldx_registers inst.dst inst.src hd hr
  obtain ⟨hb, hne, -⟩ := baseReg_spec hd hr inst.offset.toInt size
  have hfp : ∀ b ∈ baseRegs, b ≠ fp := by decide
  refine ⟨t, hB, ?_⟩
  rw [hrun, emitLoad_narrow hsz, ← widthOf_bytes hsz]
  by_cases hok : offsetOk (onStack inst.src) inst.offset.toInt size
  · have hA := accesses_right hlo hb hne (baseOff_reach hsz _) ((offsetOk_iff hd hr _ hsz).1 hok)
    obtain ⟨u, hu, hrow⟩ := run_loadLow hd hB.mirrors (hfp _ hb) hA
    exact .inr ⟨u, _, _, _, hu, hrow, by rw [if_pos hok]⟩
  · have hi := isLdstImm_of_not_ok hok
    have hbase : t.reg (baseReg inst.dst inst.src inst.offset.toInt size) = origin := by
      rw [hB.base, if_pos hi, BitVec.ofNat_eq_ofNat, BitVec.add_zero]
      exact low_pair _ _
    have hzero : t.reg 0 = origin := by
      have h0 := hB.mirrors.rows 0 (by decide)
      exact ((low_pair _ _).symm.trans (congrArg low h0)).trans (low_pair _ _)
    rcases accesses_wrong hlo hb hne (baseOff_reach hsz _) (mt (offsetOk_iff hd hr _ hsz).2 hok)
      (putCode_cases hd) with hnone | ⟨b, wb, z, hA, hbb, hz, hz1, hz2⟩
    · exact .inl (hnone openSys t)
    · have hbo : t.reg b = origin := by
        rcases hbb with rfl | rfl
        · exact hbase
        · exact hzero
      have hbf : b ≠ fp := by
        rcases hbb with rfl | rfl
        · exact hfp _ hb
        · decide
      obtain ⟨u, hu, hrow⟩ := run_loadLow hd hB.mirrors hbf hA
      rw [baseOff, if_pos hi] at hz
      exact .inr ⟨u, b, wb, z, hu, hrow, by rw [if_neg hok]; exact ⟨hbo, hz, hz1, hz2⟩⟩

/-- **A load of at most a word that goes wrong.** -/
theorem ldxNarrow_disagrees (hsz : size ≠ .dw) (h : Word)
    (hbad : ¬ (onStack inst.dst = false ∧ h = 0 ∧
      offsetOk (onStack inst.src) inst.offset.toInt size)) :
    ¬ Agrees inst (hotState h (origin + bits inst.offset.toInt)) := by
  have hoff := offset_range inst.offset
  generalize hA : origin + bits inst.offset.toInt = A
  have hlow : ∀ q, low ((hotState h A).reg q) = origin := fun _ => low_pair _ _
  have hbytes : 0 < size.bytes ∧ size.bytes ≤ 4 := by
    cases size with
    | dw => exact absurd rfl hsz
    | b | h | w => decide
  intro hag
  obtain ⟨u, hu, hMu⟩ := (agrees_ldx_iff hop hd hr).1 hag openSys 0 _ (mirrors_hotMachine h A)
    fun b hb => ⟨clear_of_far origin_far hoff (by omega) (hlow inst.src ▸ hb), rfl⟩
  have hrow := hMu.rows inst.dst hd
  rw [set_reg, hlow, hA, show (hotState h A).mem = hot A from rfl, ofNat_read_word _ _ hbytes.2,
    read_hot_self A hbytes.1 (by omega)] at hrow
  obtain ⟨t, hB, hnone | ⟨u', b, wb, z, hu', hrow', hif⟩⟩ := run_ldxNarrow hd hr hsz h A
  · rw [hnone] at hu
    cases hu
  rw [hu'] at hu
  cases hu
  rw [hrow'] at hrow
  have hhi := congrArg high hrow
  have hlo := congrArg low hrow
  rw [high_pair, high_pair] at hhi
  rw [low_pair, low_pair] at hlo
  split at hif
  · rename_i hok
    subst hif
    have hhi' : t.reg (heldHi inst.dst) = 0 := hhi
    cases hs : onStack inst.dst with
    | false =>
      rw [(halves_of_pair (hB.mirrors.held hd hs)).2] at hhi'
      exact hbad ⟨hs, (high_pair _ _).symm.trans hhi', hok⟩
    | true => exact hB.high_ne hd hr hs hoff hhi'
  · obtain ⟨hb, hz, h1, h2⟩ := hif
    rw [hb] at hlo
    refine read_hot_wrong (by omega) hoff hz hbytes.2 (fun a ha => ?_) hlo
    rw [hA]
    exact hB.mirrors.mem a ha

end

section
variable {inst : EbpfInst} (hop : Op.ofCode inst.opcode = some (.ldx .dw))
  (hd : inst.dst.toNat < 11) (hr : inst.src.toNat < 11)
include hop hd hr

/-- A load of two words writes both halves. -/
theorem ldxDouble_agrees {stacked : Bool} (hok : offsetOk stacked inst.offset.toInt .dw)
    (x : Ebpf.State) : Agrees inst x := by
  rw [agrees_ldx_iff hop hd hr]
  intro sys top s hM hC
  obtain ⟨t, hB, hrun⟩ := runCode_buildLdx hd hr inst.offset.toInt .dw hM sys
  obtain ⟨hlo, hshi, -⟩ := ldx_registers inst.dst inst.src hd hr
  obtain ⟨hb, hne, -⟩ := baseReg_spec hd hr inst.offset.toInt .dw
  have hz : -255 ≤ baseOff inst.offset.toInt .dw ∧ baseOff inst.offset.toInt .dw ≤ 251 := by
    simp only [offsetOk] at hok
    rw [baseOff]
    split
    · rename_i hi
      simp only [isLdstImm, offMax] at hi
      omega
    · decide
  have h15 := (load_registers.2 _ hb).1
  obtain ⟨wb, z, hA, -, -, hif⟩ := accesses_ldr (heldLo inst.dst) _ (baseOff inst.offset.toInt .dw)
    (load_registers.1 _ hlo).1 h15 (.inl hne) (by omega)
  obtain ⟨rfl, rfl⟩ := hif (by omega)
  obtain ⟨wb, z, hA', -, -, hif⟩ := accesses_ldr (heldHi inst.dst) _
    (baseOff inst.offset.toInt .dw + 4) hshi h15 (.inr (by omega)) (by omega)
  obtain ⟨rfl, rfl⟩ := hif (by omega)
  rw [hrun, emitLoad, List.append_assoc]
  exact hB.loadBoth hd hne hA hA' hC

/-- The halves that the code loads, next to those of the interpreter. -/
theorem agrees_halves (hi : isLdstImm inst.offset.toInt .dw) {b : Reg}
    (hb : b = baseReg inst.dst inst.src inst.offset.toInt .dw) {wb wb' : Bool} {z z' : Int}
    (hA : Accesses true (emitLdrI (heldLo inst.dst).toNat b.toNat inst.offset.toInt) .word
      (heldLo inst.dst) b wb z)
    (hA' : Accesses true (emitLdrI (heldHi inst.dst).toNat b.toNat (inst.offset.toInt + 4)) .word
      (heldHi inst.dst) b wb' z') {h a : Word} (hag : Agrees inst (hotState h a)) :
    ∃ t, Mirrors 0 (hotState h a) t ∧ t.reg b = origin ∧
      BitVec.ofNat 32 (read t.mem ((t.writeBack b ⟨true, wb, bits z⟩).reg b + bits z') 4) =
        BitVec.ofNat 32 (read (hot a) (origin + bits (inst.offset.toInt + 4)) 4) ∧
      BitVec.ofNat 32 (read t.mem (origin + bits z) 4) =
        BitVec.ofNat 32 (read (hot a) (origin + bits inst.offset.toInt) 4) := by
  have hlow : ∀ q, low ((hotState h a).reg q) = origin := fun _ => low_pair _ _
  obtain ⟨u, hu, hMu⟩ := (agrees_ldx_iff hop hd hr).1 hag openSys 0 _ (mirrors_hotMachine h a)
    fun b hb => ⟨clear_of_far origin_far (offset_range _) (by decide) (hlow inst.src ▸ hb), rfl⟩
  have hrow := hMu.rows inst.dst hd
  rw [set_reg, hlow] at hrow
  obtain ⟨t, hB, hrun⟩ := runCode_buildLdx hd hr inst.offset.toInt .dw
    (mirrors_hotMachine h a) openSys
  have hspec := baseReg_spec hd hr inst.offset.toInt .dw
  have hbase := hB.base
  rw [← hb] at hspec hbase
  rw [hlow, if_pos hi, BitVec.ofNat_eq_ofNat, BitVec.add_zero] at hbase
  have hfp : ∀ b ∈ baseRegs, b ≠ fp := by decide
  obtain ⟨u', hu', hrow'⟩ := run_loadBoth hd hB.mirrors (hfp b hspec.1) hspec.2.1 hA hA'
  rw [hrun, emitLoad, baseOff, if_pos hi, List.append_assoc, ← hb] at hu
  have heq : u' = u := (Prod.mk.inj (Option.some.inj (hu'.symm.trans hu))).1
  rw [heq, hrow, show Size.dw.bytes = 8 from rfl, ofNat_read_double, hbase] at hrow'
  refine ⟨t, hB.mirrors, hbase, ?_, ?_⟩
  · rw [bits_add, ← BitVec.add_assoc]
    exact ((high_pair _ _).symm.trans (congrArg high hrow'.symm)).trans (high_pair _ _)
  · exact ((low_pair _ _).symm.trans (congrArg low hrow'.symm)).trans (low_pair _ _)

/-- **A load of two words that goes wrong.** -/
theorem ldxDouble_disagrees {stacked : Bool} (h : Word)
    (hbad : ¬ offsetOk stacked inst.offset.toInt .dw) :
    ∃ a, ¬ Agrees inst (hotState h a) := by
  have hoff := offset_range inst.offset
  have hi := isLdstImm_of_not_ok hbad
  have hi' : -4091 ≤ inst.offset.toInt ∧ inst.offset.toInt ≤ 4091 := hi
  simp only [offsetOk] at hbad
  obtain ⟨hlo, hshi, -⟩ := ldx_registers inst.dst inst.src hd hr
  obtain ⟨hb, hne, hne'⟩ := baseReg_spec hd hr inst.offset.toInt .dw
  have h15 := (load_registers.2 _ hb).1
  obtain ⟨wb, z, hA, h1, h2, hif⟩ := accesses_ldr (heldLo inst.dst) _ inst.offset.toInt
    (load_registers.1 _ hlo).1 h15 (.inl hne) (by omega)
  obtain ⟨wb', z', hA', h1', h2', -⟩ := accesses_ldr (heldHi inst.dst) _
    (inst.offset.toInt + 4) hshi
    h15 (.inl (hne' hi)) (by omega)
  by_cases hs : -255 ≤ inst.offset.toInt ∧ inst.offset.toInt ≤ 255
  · -- the offset of the second word has nine bits
    obtain ⟨rfl, rfl⟩ := hif hs
    refine ⟨origin + bits (inst.offset.toInt + 4), fun hag => ?_⟩
    obtain ⟨t, hM, hbase, hhi, -⟩ := agrees_halves hop hd hr hi rfl hA hA' hag
    rw [read_hot_self _ (by decide) (by decide)] at hhi
    have hz : z' ≠ inst.offset.toInt + 4 := by omega
    have hhi' : BitVec.ofNat 32 (read t.mem (origin + bits z') 4) = 1 := hbase ▸ hhi
    exact read_hot_wrong (by omega) (by omega) hz (Nat.le_refl 4) (fun a ha => hM.mem a ha) hhi'
  · refine ⟨origin + bits inst.offset.toInt, fun hag => ?_⟩
    obtain ⟨t, hM, hbase, -, hlo⟩ := agrees_halves hop hd hr hi rfl hA hA' hag
    rw [read_hot_self _ (by decide) (by decide)] at hlo
    have hz : z ≠ inst.offset.toInt := by omega
    exact read_hot_wrong (by omega) hoff hz (Nat.le_refl 4) (fun a ha => hM.mem a ha) hlo

end

end BlueSwat.Jit
