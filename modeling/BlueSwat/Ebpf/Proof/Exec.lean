import BlueSwat.Ebpf.Proof.Memory
import BlueSwat.Lib.Record

/-!
# Rules for running a policy

`Returns H code mem memLen n s v`: from `s` the interpreter ends within `n` instructions in an
`EXIT` with value `v`, memory unchanged. There is one rule for each kind of instruction in the
shipped policies, to be applied from the first instruction of a program to its last, and a rule
for the compiler's idioms: a word extended by a pair of shifts, and a comparison that leaves its
verdict in `r0`.
-/

set_option autoImplicit false

namespace BlueSwat.Ebpf

open Machine

def setReg (R : BitVec 4 → BitVec 64) (r : BitVec 4) (v : BitVec 64) : BitVec 4 → BitVec 64 :=
  fun r' => if r' = r then v else R r'

@[simp] theorem setReg_same (R : BitVec 4 → BitVec 64) (r : BitVec 4) (v : BitVec 64) :
    setReg R r v r = v := if_pos rfl

@[simp] theorem setReg_setReg (R : BitVec 4 → BitVec 64) (r : BitVec 4) (u v : BitVec 64) :
    setReg (setReg R r u) r v = setReg R r v := by
  funext r'
  simp only [setReg]
  split <;> rfl

/-- The first slots of `code` hold the instructions `asm`. -/
def Decodes (code : Nat → BitVec 8) (asm : List EbpfInst) : Prop :=
  ∀ i inst, asm[i]? = some inst → instAt code i = inst

/-- An array of bytes holds its disassembly, whatever lies behind it. -/
theorem decodes_of {bytes : List (BitVec 8)} {rest : Nat → BitVec 8} {asm : List EbpfInst}
    (hasm : disasm bytes = asm) : Decodes (codeBytes bytes rest) asm := by
  intro i inst h
  rw [← hasm, disasm, List.getElem?_map, Option.map_eq_some_iff] at h
  obtain ⟨j, hj, rfl⟩ := h
  obtain ⟨hlt, rfl⟩ := List.getElem?_eq_some_iff.1 hj
  rw [List.getElem_range] at *
  have hb : ∀ k, k < bytes.length → codeBytes bytes rest k = codeBytes bytes (fun _ => 0) k := by
    intro k hk
    simp [codeBytes, List.getElem?_eq_getElem hk]
  rw [List.length_range] at hlt
  simp only [instAt, hb _ (show 8 * i < _ by omega), hb _ (show 8 * i + 1 < _ by omega),
    hb _ (show 8 * i + 2 < _ by omega), hb _ (show 8 * i + 3 < _ by omega),
    hb _ (show 8 * i + 4 < _ by omega), hb _ (show 8 * i + 5 < _ by omega),
    hb _ (show 8 * i + 6 < _ by omega), hb _ (show 8 * i + 7 < _ by omega)]

/-- From `s`, the run ends within `n` instructions in an `EXIT` with `v`; memory is unchanged. -/
def Returns (H : Host) (code : Nat → BitVec 8) (mem : Addr) (memLen : BitVec 32) (n : Nat)
    (s : State) (v : BitVec 64) : Prop :=
  ∃ s', run (vmStep H (defaultVm code) mem memLen) n s = some (s', .exit v) ∧ s'.mem = s.mem

namespace Returns

section
variable {H : Host} {code : Nat → BitVec 8} {mem : Addr} {memLen : BitVec 32} {n : Nat}
  {pc off : BitVec 16} {R : BitVec 4 → BitVec 64} {M : Mem} {d r : BitVec 4} {imm : BitVec 32}
  {v w : BitVec 64}

/-! ## One instruction -/

theorem mono {m : Nat} {s : State} (h : Returns H code mem memLen n s w) (hm : n ≤ m) :
    Returns H code mem memLen m s w := by
  obtain ⟨s', hr, hmem⟩ := h
  exact ⟨s', run_mono hr hm, hmem⟩

theorem step {s s' : State} (hs : vmStep H (defaultVm code) mem memLen s = .next s')
    (hm : s'.mem = s.mem) (h : Returns H code mem memLen n s' w) :
    Returns H code mem memLen (n + 1) s w := by
  obtain ⟨s'', hr, hmem⟩ := h
  exact ⟨s'', by rw [run_next hs, hr], hmem.trans hm⟩

theorem vmStep_at (op : Op) (hi : instAt code pc.toNat = ⟨op.code, d, r, off, imm⟩) :
    vmStep H (defaultVm code) mem memLen ⟨pc, R, M⟩ =
      execOp H (defaultVm code) mem memLen ⟨op.code, d, r, off, imm⟩ ⟨pc + 1, R, M⟩ (some op) :=
  vmStep_of op hi rfl

theorem exit (hi : instAt code pc.toNat = ⟨Op.exit.code, d, r, off, imm⟩) :
    Returns H code mem memLen (n + 1) ⟨pc, R, M⟩ (R 0) :=
  ⟨_, run_done (vmStep_at .exit hi), rfl⟩

theorem ldxw (x : BitVec 32) (hi : instAt code pc.toNat = ⟨(Op.ldx .w).code, d, r, off, imm⟩)
    (hx : Bytes.read M (effAddr (R r) off) 4 = x.toNat)
    (h : Returns H code mem memLen n ⟨pc + 1, setReg R d (zext x), M⟩ w) :
    Returns H code mem memLen (n + 1) ⟨pc, R, M⟩ w := by
  refine step ((vmStep_at (.ldx .w) hi).trans (checked_default _ _)) rfl ?_
  have hz : BitVec.ofNat 64 (Bytes.read M (effAddr (R r) off) 4) = zext x := by
    rw [hx]
    apply BitVec.eq_of_toNat_eq
    simp [zext]
  rw [← hz] at h
  exact h

theorem alu64 {o : AluOp} {f : Form}
    (hi : instAt code pc.toNat = ⟨(Op.alu64 o f).code, d, r, off, imm⟩)
    (hv : Ebpf.alu64 H o f (R d) (R r) imm = .val v)
    (h : Returns H code mem memLen n ⟨pc + 1, setReg R d v, M⟩ w) :
    Returns H code mem memLen (n + 1) ⟨pc, R, M⟩ w := by
  have hs : vmStep H (defaultVm code) mem memLen ⟨pc, R, M⟩ =
      .next ⟨pc + 1, setReg R d v, M⟩ := by
    rw [vmStep_at (.alu64 o f) hi]
    show State.alu _ d (Ebpf.alu64 H o f (R d) (R r) imm) = _
    rw [hv]
    rfl
  exact step hs rfl h

theorem jcond {c : Cond} {f : Form} (b : Bool)
    (hi : instAt code pc.toNat = ⟨(Op.jcond c f).code, d, r, off, imm⟩)
    (hb : c.holds f (R d) (R r) imm = b)
    (htaken : b = true → Returns H code mem memLen n ⟨pc + 1 + off, R, M⟩ w)
    (hnot : b = false → Returns H code mem memLen n ⟨pc + 1, R, M⟩ w) :
    Returns H code mem memLen (n + 1) ⟨pc, R, M⟩ w := by
  have hs : vmStep H (defaultVm code) mem memLen ⟨pc, R, M⟩ =
      .next (if c.holds f (R d) (R r) imm then ⟨pc + 1 + off, R, M⟩ else ⟨pc + 1, R, M⟩) :=
    vmStep_at (.jcond c f) hi
  rw [hb] at hs
  cases b with
  | true => exact step hs rfl (htaken rfl)
  | false => exact step hs rfl (hnot rfl)

theorem mov64 (hi : instAt code pc.toNat = ⟨(Op.alu64 .mov .imm).code, d, r, off, imm⟩)
    (h : Returns H code mem memLen n ⟨pc + 1, setReg R d (sext imm), M⟩ w) :
    Returns H code mem memLen (n + 1) ⟨pc, R, M⟩ w :=
  alu64 hi rfl h

/-! ## Idioms -/

/-- `LSH64 d, 32; ARSH64 d, 32` sign-extends a loaded word. -/
theorem signExtend {x : BitVec 32} {r' : BitVec 4} {off' : BitVec 16}
    (hi : instAt code pc.toNat = ⟨(Op.alu64 .lsh .imm).code, d, r, off, 32⟩)
    (hi' : instAt code (pc + 1).toNat = ⟨(Op.alu64 .arsh .imm).code, d, r', off', 32⟩)
    (hx : R d = zext x)
    (h : Returns H code mem memLen n ⟨pc + 1 + 1, setReg R d (sext x), M⟩ w) :
    Returns H code mem memLen (n + 2) ⟨pc, R, M⟩ w := by
  refine alu64 hi (v := zext x <<< 32) (by rw [hx]; rfl) (alu64 hi' (v := sext x) ?_ ?_)
  · rw [setReg_same]
    exact congrArg AluRes.val (Bytes.sshiftRight_shiftLeft_setWidth x)
  · rwa [setReg_setReg]

/-- `LSH64 d, 32; RSH64 d, 32` keeps the low word. -/
theorem zeroExtend {x : BitVec 32} {r' : BitVec 4} {off' : BitVec 16}
    (hi : instAt code pc.toNat = ⟨(Op.alu64 .lsh .imm).code, d, r, off, 32⟩)
    (hi' : instAt code (pc + 1).toNat = ⟨(Op.alu64 .rsh .imm).code, d, r', off', 32⟩)
    (hx : u32 (R d) = x)
    (h : Returns H code mem memLen n ⟨pc + 1 + 1, setReg R d (zext x), M⟩ w) :
    Returns H code mem memLen (n + 2) ⟨pc, R, M⟩ w := by
  refine alu64 hi (v := R d <<< 32) rfl (alu64 hi' (v := zext x) ?_ ?_)
  · rw [setReg_same, ← hx]
    exact congrArg AluRes.val (Bytes.ushiftRight_shiftLeft_setWidth (R d))
  · rwa [setReg_setReg]

theorem verdict {c : Cond} {f : Form} {r1 d2 r2 : BitVec 4} {off1 off2 : BitVec 16}
    {imm2 : BitVec 32} (b : Bool) (hi : instAt code pc.toNat = ⟨(Op.jcond c f).code, d, r, 1, imm⟩)
    (hi1 : instAt code (pc + 1).toNat = ⟨(Op.alu64 .mov .imm).code, 0, r1, off1, 0⟩)
    (hi2 : instAt code (pc + 1 + 1).toNat = ⟨Op.exit.code, d2, r2, off2, imm2⟩)
    (h1 : R 0 = 1) (hb : c.holds f (R d) (R r) imm = b) :
    Returns H code mem memLen (n + 3) ⟨pc, R, M⟩ (if b then 1 else 0) := by
  refine jcond b hi hb (fun hc => ?_) fun hc => ?_
  · rw [if_pos hc, ← h1]
    exact exit hi2
  · rw [hc]
    exact mov64 hi1 (exit hi2)

end

/-! ## Records -/

section
variable {ι : Type} [DecidableEq ι] {L : Record.Layout ι} {s : ι → BitVec 32}
  {H : Host} {code : Nat → BitVec 8} {mem : Addr} {memLen : BitVec 32} {n : Nat}
  {pc off : BitVec 16} {R : BitVec 4 → BitVec 64} {M : Mem} {d r : BitVec 4} {imm : BitVec 32}
  {w : BitVec 64}

/-- A load at the offset of slot `i` of a record loads that slot. -/
theorem slot (hM : L.Holds M mem s) (i : ι)
    (hi : instAt code pc.toNat = ⟨(Op.ldx .w).code, d, r, off, imm⟩)
    (hoff : off.toInt = L.offset i) (hr : R r = zext mem)
    (h : Returns H code mem memLen n ⟨pc + 1, setReg R d (zext (s i)), M⟩ w) :
    Returns H code mem memLen (n + 1) ⟨pc, R, M⟩ w := by
  refine ldxw (s i) hi ?_ h
  rw [hr, effAddr_zext, hoff, BitVec.ofInt_natCast, hM.read]

end

end Returns

end BlueSwat.Ebpf
