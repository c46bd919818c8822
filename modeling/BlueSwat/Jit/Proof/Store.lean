import BlueSwat.Jit.Proof.Load

/-!
# Stores

The encoders of the stores take the register with the value for the base and the base for the value,
so a store is right only if both are the same eBPF register and the offset is encoded as it is
(`accessRight`). `access_agrees_iff` is the result for all loads and stores.
-/

set_option autoImplicit false

namespace BlueSwat.Jit

open Thumb Bytes
open Ebpf (EbpfInst Op Size effAddr)

/-! ## What a store leaves alone -/

/-- The offset that a store is encoded with. -/
def storeOff (off : Int) : Size → Int
  | .b | .h => (off.natAbs % 256 : Nat)
  | .w | .dw => if 0 < off then ((off.natAbs % 256 : Nat) : Int) else -(off.natAbs % 256 : Nat)

/-- Code that stores once. -/
theorem store_spares {c c' : Code} {w : Width} {rt rn : Reg} {wb : Bool} {z : Int} {t u : State}
    (hA : Accesses false c w rt rn wb z) (hu : runCode openSys (c ++ c') t = some (u, false)) :
    ∃ t', runCode openSys c' t' = some (u, false) ∧
      t'.reg = (t.writeBack rn ⟨true, wb, bits z⟩).reg ∧
      ∀ a, ¬ Within a (t.reg rn + bits z) w.bytes → t'.mem a = t.mem a := by
  obtain ⟨p, hp⟩ := hA
  rw [hp, exec_store (openSys_allows _ _ _), Option.bind_some] at hu
  exact ⟨_, hu, rfl, fun a ha => write_of_not_within ha⟩

section
variable {lo hi rd : Reg} {off : Int} {t u : State}

/-- A store of a byte or a halfword. -/
theorem strNarrow_spares {op : BitVec 32} {w : Width}
    (hop : op = (0xf8000000 ||| (accessKind false w false).setWidth 32 <<< 20) ||| 0x800)
    (hlo : lo ≠ 15) (hrd : special rd = false) (hoff : -0xfff ≤ off ∧ off ≤ 0xfff)
    (hu : runCode openSys (emit4 (thumb32StrNarrow op lo.toNat rd.toNat off) ++ []) t =
      some (u, false))
    {a : Word} (ha : ¬ Within a (t.reg lo + bits (off.natAbs % 256 : Nat)) w.bytes) :
    u.mem a = t.mem a := by
  by_cases hne : lo = rd
  · subst hne
    rw [strNarrow_undefined hop hoff] at hu
    cases hu
  · obtain ⟨t', ht', -, hmem⟩ := store_spares (accesses_strNarrow hop hrd hlo hne hoff) hu
    cases ht'
    exact hmem a ha

/-- A store of a word, and the code after it. -/
theorem strI_spares {c : Code} (hlo : lo ≠ 15) (hrd : special rd = false)
    (hu : runCode openSys (emitStrI lo.toNat rd.toNat off ++ c) t = some (u, false)) :
    ∃ t', runCode openSys c t' = some (u, false) ∧ t'.reg = t.reg ∧
      ∀ a, ¬ Within a (t.reg lo + bits (storeOff off .w)) 4 → t'.mem a = t.mem a := by
  by_cases h0 : off = 0
  · subst h0
    rw [strI_undefined] at hu
    cases hu
  · exact store_spares (accesses_strI hrd hlo h0) hu

/-- **Only bytes at the value are written**, if the code runs at all. -/
theorem emitStore_spares {size : Size} (hlo : lo ≠ 15) (hhi : hi ≠ 15) (hrd : special rd = false)
    (hoff : isLdstImm off size)
    (hu : runCode openSys (emitStore ⟨hi.toNat, lo.toNat⟩ rd.toNat off size) t = some (u, false))
    {a : Word} (ha : ¬ Within a (t.reg lo + bits (storeOff off size)) (widthOf size).bytes)
    (ha' : size = .dw → ¬ Within a (t.reg hi + bits (storeOff (off + 4) .dw)) 4) :
    u.mem a = t.mem a := by
  rw [← List.append_nil (emitStore _ _ _ _)] at hu
  obtain ⟨h1, h2⟩ := hoff
  cases size with
  | b =>
    have h1' : -4095 ≤ off := h1
    exact strNarrow_spares (by decide) hlo hrd ⟨h1', h2⟩ hu ha
  | h =>
    have h1' : -255 ≤ off := h1
    have h2' : off ≤ 255 := h2
    exact strNarrow_spares (by decide) hlo hrd (by omega) hu ha
  | w =>
    obtain ⟨t', ht', -, hmem⟩ := strI_spares hlo hrd hu
    cases ht'
    exact hmem a ha
  | dw =>
    rw [emitStore, List.append_assoc] at hu
    obtain ⟨t', ht', hreg, hmem⟩ := strI_spares hlo hrd hu
    obtain ⟨t'', ht'', -, hmem'⟩ := strI_spares hhi hrd ht'
    cases ht''
    rw [hreg] at hmem'
    exact (hmem' a (ha' rfl)).trans (hmem a ha)

end

/-! ## The base -/

/-- The register that the base is in. -/
def storeBase (d : BitVec 4) (off : Int) (size : Size) : Reg :=
  if isLdstImm off size then halfReg d false tmpLo else tmpHi

/-- The base is loaded, and an offset that does not fit is added. -/
def storeBaseInsts (d : BitVec 4) (off : Int) (size : Size) : List Inst :=
  fetchHalf d false tmpLo ++
    if isLdstImm off size then [] else addressInsts (halfReg d false tmpLo) off

theorem base_plain : ∀ d : BitVec 4, d.toNat < 11 →
    special (halfReg d false tmpLo) = false ∧ halfReg d false tmpLo ≠ tmpHi := by decide

section
variable {d : BitVec 4} (hd : d.toNat < 11) (off : Int) (size : Size)
include hd

theorem special_storeBase : special (storeBase d off size) = false := by
  obtain ⟨hs, -⟩ := base_plain d hd
  unfold storeBase
  split
  · exact hs
  · rfl

/-- When the base is ready. -/
structure Placed (top : Word) (x : Ebpf.State) (d : BitVec 4) (off : Int) (size : Size)
    (s t : State) :
    Prop where
  mirrors : Mirrors top x t
  base : t.reg (storeBase d off size) = low (x.reg d) + if isLdstImm off size then 0 else bits off
  kept : ∀ q, q ≠ tmpLo → q ≠ tmpHi → t.reg q = s.reg q

theorem Mirrors.place {top : Word} {x : Ebpf.State} {s : State} (hM : Mirrors top x s) (sys : Sys) :
    Runs sys (storeBaseInsts d off size) s (Placed top x d off size s) := by
  obtain ⟨-, hne⟩ := base_plain d hd
  refine (hM.fetchHalf sys hd false (q := tmpLo) (by decide)).append fun t ht => ?_
  obtain ⟨hMt, hv, -, hk⟩ := ht
  have hv' : t.reg (halfReg d false tmpLo) = low (x.reg d) := hv
  by_cases hi : isLdstImm off size
  · rw [if_pos hi]
    refine .nil ⟨hMt, ?_, fun q h1 _ => hk q h1⟩
    rw [storeBase, if_pos hi, if_pos hi, hv', BitVec.ofNat_eq_ofNat, BitVec.add_zero]
  · rw [if_neg hi]
    refine (hMt.address sys hne off).mono fun u hu =>
      ⟨hu.1, ?_, fun q h1 h2 => (hu.2.2 q h2).trans (hk q h1)⟩
    rw [storeBase, if_neg hi, if_neg hi, hu.2.1, hv']

/-- The code of a store, from where the base is ready. -/
theorem runCode_emitStrReg {top : Word} {x : Ebpf.State} {s : State} (hM : Mirrors top x s)
    (sys : Sys)
    (src : Row) :
    ∃ t, Placed top x d off size s t ∧
      runCode sys (emitStrReg (rowOf d).lo src off size) s =
        runCode sys (emitStore src (storeBase d off size).toNat (baseOff off size) size) t := by
  obtain ⟨hget, hgetd⟩ : (armBpfGetReg32 (rowOf d).lo tmp.lo).2 = (halfReg d false tmpLo).toNat ∧
      disassemble (armBpfGetReg32 (rowOf d).lo tmp.lo).1 = some (fetchHalf d false tmpLo) :=
    disassemble_getHalf d hd false tmpLo (by simp)
  obtain ⟨hadd, -⟩ := disassemble_moveBase _ (base_mem d hd tmpLo (by simp))
  obtain ⟨t, ht, hP⟩ := hM.place hd off size sys
  refine ⟨t, hP, ?_⟩
  rw [storeBaseInsts] at ht
  by_cases hi : isLdstImm off size
  · rw [if_pos hi, List.append_nil] at ht
    rw [← runCode_append hgetd ht, storeBase, if_pos hi, baseOff, if_pos hi]
    simp only [emitStrReg, hget, hi, not_true_eq_false, if_false]
  · rw [if_neg hi] at ht
    have hfar := disassemble_seq (disassemble_emitMovImm (r := tmpHi) (by decide) (bits off)) hadd
    rw [← runCode_append (disassemble_seq hgetd hfar) ht, storeBase, if_neg hi, baseOff, if_neg hi]
    simp only [emitStrReg, hget, hi, not_false_eq_true, if_true, List.append_assoc]
    rfl

end

/-! ## Addresses apart -/

/-- Neither address is near the other. -/
def Far (a b : Word) : Prop := 2 ^ 17 ≤ (a - b).toNat ∧ (a - b).toNat + 2 ^ 17 ≤ 2 ^ 32

theorem far_or {a a' b : Word} (h : 2 ^ 18 ≤ (a - a').toNat ∧ (a - a').toNat + 2 ^ 18 ≤ 2 ^ 32) :
    Far a b ∨ Far a' b := by
  have := a.isLt
  have := a'.isLt
  have := b.isLt
  simp only [Far, BitVec.toNat_sub] at h ⊢
  omega

/-- Each of two addresses is near one of three at most. -/
theorem exists_far (b c : Word) : ∃ a : Word, Far a b ∧ Far a c ∧
    2 ^ 17 ≤ a.toNat ∧ a.toNat + 2 ^ 17 ≤ 2 ^ 32 := by
  have h12 : ∀ b, Far 0x20000000 b ∨ Far 0x40000000 b := fun _ => far_or (by decide)
  have h13 : ∀ b, Far 0x20000000 b ∨ Far 0x60000000 b := fun _ => far_or (by decide)
  have h23 : ∀ b, Far 0x40000000 b ∨ Far 0x60000000 b := fun _ => far_or (by decide)
  by_cases hb : Far 0x20000000 b
  · by_cases hc : Far 0x20000000 c
    · exact ⟨_, hb, hc, by decide, by decide⟩
    · rcases h23 b with h | h
      · exact ⟨_, h, (h12 c).resolve_left hc, by decide, by decide⟩
      · exact ⟨_, h, (h13 c).resolve_left hc, by decide, by decide⟩
  · rcases h23 c with h | h
    · exact ⟨_, (h12 b).resolve_left hb, h, by decide, by decide⟩
    · exact ⟨_, (h13 b).resolve_left hb, h, by decide, by decide⟩

section
variable {a b : Word} {k z : Int} {n : Nat} (hk : -65536 ≤ k ∧ k ≤ 65536) (hz : -255 ≤ z ∧ z ≤ 255)
include hk hz

theorem Far.not_within (h : Far a b) (hn : n ≤ 4) : ¬ Within (a + bits k) (b + bits z) n := by
  have := a.isLt
  have := b.isLt
  simp only [Far, Within, BitVec.toNat_sub, BitVec.toNat_add, toNat_bits] at h ⊢
  omega

theorem not_within_of_lt (h : k < z ∨ z + n ≤ k) (hn : n ≤ 4) :
    ¬ Within (a + bits k) (a + bits z) n := by
  have := a.isLt
  simp only [Within, BitVec.toNat_sub, BitVec.toNat_add, toNat_bits]
  omega

end

theorem storeOff_range (off : Int) (size : Size) :
    -255 ≤ storeOff off size ∧ storeOff off size ≤ 255 := by
  cases size with
  | b | h =>
    simp only [storeOff]
    omega
  | w | dw =>
    simp only [storeOff]
    split <;> omega

/-! ## Bytes that are kept -/

theorem isLdstImm_baseOff (off : Int) (size : Size) : isLdstImm (baseOff off size) size := by
  rw [baseOff]
  split
  · rename_i h
    exact h
  · cases size <;> decide

theorem src_ne_pc {r : BitVec 4} (hr : r.toNat < 11) : srcLo .reg r ≠ 15 ∧ srcHi .reg r ≠ 15 := by
  have hall : ∀ p ∈ srcPairs, p.lo ≠ 15 ∧ p.hi ≠ 15 := by decide
  exact hall _ (srcPair_mem hr .reg)

section
variable {d r : BitVec 4} (hd : d.toNat < 11) (off : Int) (size : Size) {top : Word}
  {x : Ebpf.State}
  {s : State} (hM : Mirrors top x s) (sys : Sys)
include hd hM

/-- The code of a store of a register, from where the base is ready. -/
theorem runCode_buildStx (hr : r.toNat < 11) :
    ∃ t, Mirrors top x t ∧ t.reg (srcLo .reg r) = low (x.reg r) ∧
      t.reg (srcHi .reg r) = high (x.reg r) ∧
      t.reg (storeBase d off size) = (low (x.reg d) + if isLdstImm off size then 0 else bits off) ∧
      runCode sys (buildStx (rowOf d) (rowOf r) off size) s =
        runCode sys (emitStore (regRow (srcLo .reg r) (srcHi .reg r))
          (storeBase d off size).toNat (baseOff off size) size) t := by
  obtain ⟨hget, hgetd⟩ := disassemble_getSrc r hr
  obtain ⟨t, ht, hv, -⟩ := hM.fetchSrc sys hr
  obtain ⟨t', hP, hrun⟩ := runCode_emitStrReg hd off size (hM.idle (idle_fetch d r hd hr).2 ht) sys
    (regRow (srcLo .reg r) (srcHi .reg r))
  obtain ⟨hlo, hhi⟩ := halves_of_pair hv
  have hq := src_apart r hr
  refine ⟨t', hP.mirrors, ?_, ?_, hP.base, ?_⟩
  · rw [hP.kept _ (hq _ (by simp)).1 (hq _ (by simp)).2, hlo]
  · rw [hP.kept _ (hq _ (by simp)).1 (hq _ (by simp)).2, hhi]
  · simp only [buildStx, hget]
    rw [runCode_append hgetd ht, hrun]

/-- The code of a store of an immediate. -/
theorem runCode_buildSt (imm : Word) :
    ∃ t, Mirrors top x t ∧ t.reg tmp2Lo = imm ∧
      (size = .dw → t.reg tmp2Hi = high (Ebpf.sext imm)) ∧
      runCode sys (buildSt (rowOf d) off imm size) s =
        runCode sys (emitStore ⟨tmp2Hi.toNat, tmp2Lo.toNat⟩ (storeBase d off size).toNat
          (baseOff off size) size) t := by
  by_cases hsz : size = .dw
  · subst hsz
    obtain ⟨t, ht, hv, -⟩ := runLine_movSext sys s imm
    obtain ⟨t', hP, hrun⟩ := runCode_emitStrReg hd off .dw (hM.idle (idle_movSext imm) ht) sys tmp2
    obtain ⟨hlo, hhi⟩ := halves_of_pair hv
    refine ⟨t', hP.mirrors, ?_, fun _ => ?_, ?_⟩
    · rw [hP.kept _ (by decide) (by decide), hlo]
      exact low_signExtend imm
    · rw [hP.kept _ (by decide) (by decide), hhi]
    · rw [buildSt, runCode_append (disassemble_movSe imm) ht, hrun]
      rfl
  · obtain ⟨t, ht, hv, -⟩ := runs_movConst (q := tmp2Lo) (by decide) imm sys s
    obtain ⟨t', hP, hrun⟩ := runCode_emitStrReg hd off size
      (hM.idle (idle_movConst (by decide) imm) ht) sys tmp2
    have hmov : disassemble (emitMovImm tmp2.lo imm) = some ((movConst tmp2Lo imm).map .base) :=
      disassemble_emitMovImm (r := tmp2Lo) rfl imm
    have hcode : buildSt (rowOf d) off imm size =
        emitMovImm tmp2.lo imm ++ emitStrReg (rowOf d).lo tmp2 off size := by
      cases size with
      | dw => exact absurd rfl hsz
      | b | h | w => rfl
    refine ⟨t', hP.mirrors, ?_, fun e => absurd e hsz, ?_⟩
    · rw [hP.kept _ (by decide) (by decide), hv]
    · rw [hcode, runCode_append hmov ht, hrun]
      rfl

end

section
variable {d r : BitVec 4} (hd : d.toNat < 11) {off : Int} {size : Size} {x : Ebpf.State}
  {s u : State}
  {a : Word} (hM : Mirrors 0 x s) (hout : ¬ Within a (0 - 64 : Word) 64)
include hd hM hout

theorem buildStx_keeps (hr : r.toNat < 11)
    (hu : runCode openSys (buildStx (rowOf d) (rowOf r) off size) s = some (u, false))
    (ha : ¬ Within a (low (x.reg r) + bits (storeOff (baseOff off size) size)) (widthOf size).bytes)
    (ha' : size = .dw →
      ¬ Within a (high (x.reg r) + bits (storeOff (baseOff off size + 4) .dw)) 4) :
    u.mem a = x.mem a := by
  obtain ⟨h15, h15'⟩ := src_ne_pc hr
  obtain ⟨t, hMt, hlo, hhi, -, hrun⟩ := runCode_buildStx hd off size hM openSys hr
  rw [hrun] at hu
  rw [← hlo] at ha
  rw [← hhi] at ha'
  exact (emitStore_spares h15 h15' (special_storeBase hd off size)
    (isLdstImm_baseOff off size) hu ha
    ha').trans (hMt.mem a hout)

theorem buildSt_keeps {imm : Word}
    (hu : runCode openSys (buildSt (rowOf d) off imm size) s = some (u, false))
    (ha : ¬ Within a (imm + bits (storeOff (baseOff off size) size)) (widthOf size).bytes)
    (ha' : size = .dw →
      ¬ Within a (high (Ebpf.sext imm) + bits (storeOff (baseOff off size + 4) .dw)) 4) :
    u.mem a = x.mem a := by
  obtain ⟨t, hMt, hlo, hhi, hrun⟩ := runCode_buildSt hd off size hM openSys imm
  rw [hrun] at hu
  rw [← hlo] at ha
  exact (emitStore_spares (by decide) (by decide) (special_storeBase hd off size)
    (isLdstImm_baseOff off size) hu ha fun e => by rw [hhi e]; exact ha' e).trans (hMt.mem a hout)

end

/-! ## Agreement of a store -/

/-- The bytes of the store, and its value `v`. -/
def StoreAgrees (inst : EbpfInst) (size : Size) (c : Code) (v : BitVec 64)
    (x : Ebpf.State) : Prop :=
  ∀ sys top s, Mirrors top x s →
    (∀ b, Within b (low (x.reg inst.dst) + bits inst.offset.toInt) size.bytes →
      ¬ Within b (top - 64) 64 ∧ sys.unpriv b = true) →
    ∃ t, runCode sys c s = some (t, false) ∧
      Mirrors top (x.store (low (x.reg inst.dst) + bits inst.offset.toInt) size.bytes v) t

section
variable {inst : EbpfInst} {size : Size} (hd : inst.dst.toNat < 11) {x : Ebpf.State}
include hd

theorem agrees_st_iff (hop : Op.ofCode inst.opcode = some (.st size)) :
    Agrees inst x ↔ StoreAgrees inst size (buildSt (rowOf inst.dst) inst.offset.toInt inst.imm size)
      (Ebpf.sext inst.imm) x := by
  rw [StoreAgrees, ← effAddr_eq]
  refine agrees_access_iff size (by rw [hop]; rfl) (fun J pc hpc => ?_) fun H vm mem memLen => ?_
  · rw [buildInst, hpc, hop]
    simp only [buildOp, hpc, row_of_lt hd]
  · rw [hop]
    rfl

theorem agrees_stx_iff (hop : Op.ofCode inst.opcode = some (.stx size)) (hr : inst.src.toNat < 11) :
    Agrees inst x ↔ StoreAgrees inst size
      (buildStx (rowOf inst.dst) (rowOf inst.src) inst.offset.toInt size) (x.reg inst.src) x := by
  rw [StoreAgrees, ← effAddr_eq]
  refine agrees_access_iff size (by rw [hop]; rfl) (fun J pc hpc => ?_) fun H vm mem memLen => ?_
  · rw [buildInst, hpc, hop]
    simp only [buildOp, hpc, row_of_lt hd, row_of_lt hr]
  · rw [hop]
    rfl

omit hd in
/-- **A byte that is not stored.** -/
theorem not_storeAgrees {c : Code} {v : BitVec 64}
    (hfar : 2 ^ 17 ≤ (low (x.reg inst.dst)).toNat ∧ (low (x.reg inst.dst)).toNat + 2 ^ 17 ≤ 2 ^ 32)
    {j : Nat} (hj : j < size.bytes)
    (hbyte : x.mem (low (x.reg inst.dst) + bits (inst.offset.toInt + j)) ≠ v.extractLsb' (8 * j) 8)
    (hkeep : ∀ s u, Mirrors 0 x s → runCode openSys c s = some (u, false) →
      ¬ Within (low (x.reg inst.dst) + bits (inst.offset.toInt + j)) (0 - 64 : Word) 64 →
      u.mem (low (x.reg inst.dst) + bits (inst.offset.toInt + j)) =
        x.mem (low (x.reg inst.dst) + bits (inst.offset.toInt + j))) :
    ¬ StoreAgrees inst size c v x := by
  intro h
  have hM := @mirrors_mirrorOf 0 x (fun _ => 0) ⟨false, false, false, false⟩ rfl
  have hoff := offset_range inst.offset
  have h8 : size.bytes ≤ 8 := by cases size <;> decide
  obtain ⟨t, ht, hMt⟩ := h openSys 0 _ hM fun b hb => ⟨clear_of_far hfar hoff h8 hb, rfl⟩
  generalize low (x.reg inst.dst) = a at *
  have haddr : a + bits (inst.offset.toInt + j) = a + bits inst.offset.toInt +
      BitVec.ofNat 32 j := by
    rw [bits_add, ← BitVec.add_assoc, bits, bits, BitVec.ofInt_natCast]
  have hw : Within (a + bits (inst.offset.toInt + j)) (a + bits inst.offset.toInt) size.bytes := by
    rw [haddr]
    exact within_add hj
  have hout := clear_of_far hfar hoff h8 hw
  have hval := hMt.mem _ hout
  rw [hkeep _ t hM ht hout] at hval
  have hat : (a + bits (inst.offset.toInt + j) - (a + bits inst.offset.toInt)).toNat = j := by
    rw [haddr]
    exact toNat_add_sub _ (by omega)
  refine hbyte (hval.trans ((if_pos hw).trans ?_))
  rw [hat]

end

/-! ## Stores that are wrong -/

section
variable {inst : EbpfInst} {size : Size} (hd : inst.dst.toNat < 11)
include hd

/-- **No store of an immediate is right**: the immediate is the address. -/
theorem st_disagrees (hop : Op.ofCode inst.opcode = some (.st size)) (h : Word) :
    ∃ x : Ebpf.State, high (x.reg inst.dst) = h ∧ ¬ Agrees inst x := by
  obtain ⟨a, hlo, hhi, hfar⟩ := exists_far inst.imm (high (Ebpf.sext inst.imm))
  refine ⟨⟨0, fun _ => pair h a, fun _ => (Ebpf.sext inst.imm).extractLsb' (8 * 0) 8 + 1⟩,
    high_pair .., ?_⟩
  have hoff := offset_range inst.offset
  rw [agrees_st_iff hd hop]
  refine not_storeAgrees (j := 0) ?_ (by cases size <;> decide) (by simp) fun s u hM hu hout => ?_
  · rw [low_pair]
    exact hfar
  · rw [low_pair] at hout ⊢
    exact buildSt_keeps hd hM hout hu
      (hlo.not_within (by omega) (storeOff_range _ _) (by cases size <;> decide))
      fun _ => hhi.not_within (by omega) (storeOff_range _ _) (by decide)

/-- A store at an address that is far from the value. -/
theorem stx_far_disagrees (hop : Op.ofCode inst.opcode = some (.stx size))
    (hr : inst.src.toNat < 11)
    {x : Ebpf.State} {a : Word} (ha : low (x.reg inst.dst) = a)
    (hfar : 2 ^ 17 ≤ a.toNat ∧ a.toNat + 2 ^ 17 ≤ 2 ^ 32) (hlo : Far a (low (x.reg inst.src)))
    (hhi : Far a (high (x.reg inst.src)))
    (hbyte : ∀ b, x.mem b ≠ (x.reg inst.src).extractLsb' (8 * 0) 8) : ¬ Agrees inst x := by
  subst ha
  have hoff := offset_range inst.offset
  rw [agrees_stx_iff hd hop hr]
  exact not_storeAgrees (j := 0) hfar (by cases size <;> decide) (hbyte _) fun s u hM hu hout =>
    buildStx_keeps hd hM hout hr hu
      (hlo.not_within (by omega) (storeOff_range _ _) (by cases size <;> decide))
      fun _ => hhi.not_within (by omega) (storeOff_range _ _) (by decide)

/-- **A store at another register is wrong**: the value is the address. -/
theorem stx_apart_disagrees (hop : Op.ofCode inst.opcode = some (.stx size))
    (hr : inst.src.toNat < 11)
    (hne : inst.src ≠ inst.dst) (h : Word) :
    ∃ x : Ebpf.State, high (x.reg inst.dst) = h ∧ ¬ Agrees inst x := by
  obtain ⟨x, hxd, hxs, hx⟩ : ∃ x : Ebpf.State, x.reg inst.dst = pair h origin ∧
      x.reg inst.src = pair 0x40000000 0x40000000 ∧ ∀ a, x.mem a = 1 :=
    ⟨⟨0, fun q => if q = inst.dst then pair h origin else pair 0x40000000 0x40000000, fun _ => 1⟩,
      if_pos rfl, if_neg hne, fun _ => rfl⟩
  have hfar : Far origin 0x40000000 := ⟨by decide, by decide⟩
  refine ⟨x, by rw [hxd, high_pair], stx_far_disagrees hd hop hr (a := origin) ?_
    (by decide) ?_ ?_ ?_⟩
  · rw [hxd, low_pair]
  · rwa [hxs, low_pair]
  · rwa [hxs, high_pair]
  · intro b
    rw [hx, hxs]
    decide

/-- A store at the value itself, where the offset is encoded as it is and the code is not
undefined. -/
def storeOk (stacked : Bool) (off : Int) : Size → Prop
  | .b | .h => stacked = true ∧ 0 ≤ off ∧ off ≤ 255
  | .w => off ≠ 0 ∧ -255 ≤ off ∧ off ≤ 255
  | .dw => False

end

/-- The byte that a wrong store of a register at itself leaves out. -/
def lostByte : Size → Nat
  | .b | .h | .w => 0
  | .dw => 4

section
variable {d : BitVec 4} (hd : d.toNat < 11) {off : Int} {size : Size} {x : Ebpf.State} {s : State}
  (hM : Mirrors 0 x s)
include hd hM

/-- The value and the base are the same register, or the offset is 0: the code is undefined. -/
theorem buildStx_undefined (h : off = 0 ∧ size = .w ∨
      onStack d = false ∧ isLdstImm off size ∧ (size = .b ∨ size = .h)) :
    runCode openSys (buildStx (rowOf d) (rowOf d) off size) s = none := by
  obtain ⟨t, -, -, -, -, hrun⟩ := runCode_buildStx hd off size hM openSys hd
  rw [hrun, ← List.append_nil (emitStore _ _ _ _)]
  rcases h with ⟨rfl, rfl⟩ | ⟨hs, hi, hsz⟩
  · exact strI_undefined openSys t []
  · have hsame : ∀ d : BitVec 4, d.toNat < 11 → onStack d = false →
        srcLo .reg d = halfReg d false tmpLo := by decide
    rw [hsame d hd hs, storeBase, if_pos hi, baseOff, if_pos hi]
    obtain ⟨h1, h2⟩ := hi
    rcases hsz with rfl | rfl
    · exact strNarrow_undefined (w := .byte) (by decide) ⟨h1, h2⟩ openSys t []
    · have h1' : -255 ≤ off := h1
      have h2' : off ≤ 255 := h2
      exact strNarrow_undefined (w := .half) (by decide) (by omega) openSys t []

end

/-- A store that is not right is undefined, or misses a byte. -/
theorem storeOff_apart {stacked : Bool} {off : Int} {size : Size}
    (hbad : ¬ storeOk stacked off size) :
    (off = 0 ∧ size = .w ∨ stacked = false ∧ isLdstImm off size ∧ (size = .b ∨ size = .h)) ∨
      off + lostByte size < storeOff (baseOff off size) size ∨
      storeOff (baseOff off size) size + (widthOf size).bytes ≤ off + lostByte size := by
  by_cases hi : isLdstImm off size
  · rw [baseOff, if_pos hi]
    cases size with
    | b | h =>
      cases stacked with
      | false => simp [hi]
      | true =>
        simp only [storeOk, true_and, not_and] at hbad
        simp only [storeOff, lostByte, widthOf, Width.bytes]
        omega
    | w =>
      simp only [storeOk, not_and] at hbad
      simp only [storeOff, lostByte, widthOf, Width.bytes, and_true, reduceCtorEq, or_self,
        and_false,
        or_false]
      split <;> omega
    | dw =>
      simp only [storeOff, lostByte, widthOf, Width.bytes]
      split <;> omega
  · rw [baseOff, if_neg hi]
    have hz : storeOff 0 size = 0 := by cases size <;> rfl
    rw [hz]
    cases size <;> simp only [isLdstImm, offMax, lostByte, widthOf, Width.bytes] at hi ⊢ <;> omega

section
variable {inst : EbpfInst} {size : Size} (hd : inst.dst.toNat < 11)
include hd

/-- **A store of a register at itself that is wrong.** -/
theorem stx_same_disagrees (hop : Op.ofCode inst.opcode = some (.stx size))
    (hsame : inst.src = inst.dst)
    (hbad : ¬ storeOk (onStack inst.dst) inst.offset.toInt size) (h : Word) :
    ∃ x : Ebpf.State, high (x.reg inst.dst) = h ∧ ¬ Agrees inst x := by
  obtain ⟨a, hhi, -, hfar⟩ := exists_far h h
  obtain ⟨x, hx, hbyte⟩ : ∃ x : Ebpf.State, x.reg inst.dst = pair h a ∧
      ∀ b, x.mem b ≠ (x.reg inst.dst).extractLsb' (8 * lostByte size) 8 :=
    ⟨⟨0, fun _ => pair h a, fun _ => (pair h a).extractLsb' (8 * lostByte size) 8 + 1⟩, rfl,
      by simp⟩
  refine ⟨x, by rw [hx, high_pair], ?_⟩
  have hoff := offset_range inst.offset
  have hj : lostByte size < size.bytes := by cases size <;> decide
  rw [agrees_stx_iff hd hop (hsame ▸ hd), hsame]
  refine not_storeAgrees ?_ hj (hbyte _) fun s u hM hu hout => ?_
  · rw [hx, low_pair]
    exact hfar
  rcases storeOff_apart hbad with hnone | hmiss
  · rw [buildStx_undefined hd hM hnone] at hu
    cases hu
  · have h8 : size.bytes ≤ 8 := by cases size <;> decide
    have h16 := BitVec.le_toInt inst.offset
    have h16' := BitVec.toInt_lt (x := inst.offset)
    refine buildStx_keeps hd hM hout hd hu
      (not_within_of_lt (by omega) (storeOff_range _ _) hmiss (by cases size <;> decide))
        fun _ => ?_
    rw [hx, low_pair, high_pair]
    exact hhi.not_within (by omega) (storeOff_range _ _) (by decide)

end

/-! ## Stores that are right -/

section
variable {top : Word} {x : Ebpf.State} {t : State} (hM : Mirrors top x t)
include hM

/-- Bytes are written that are none of the rows'. -/
theorem Mirrors.stored {a : Word} {n : Nat} (hclear : ∀ b, Within b a n → ¬ Within b (top - 64) 64)
    {v v' : BitVec 64} (hv : ∀ j < n, v'.extractLsb' (8 * j) 8 = v.extractLsb' (8 * j) 8) :
    Mirrors top (x.store a n v) { t with mem := write t.mem a n v' } where
  fp := hM.fp
  aligned := hM.aligned
  rows r hr := by
    rw [← show rowVal t r = (x.store a n v).reg r from hM.rows r hr]
    cases hs : onStack r with
    | false => simp only [rowVal, hs, Bool.false_eq_true, if_false]
    | true =>
      have hword : ∀ i : Bool, word (write t.mem a n v') (top + (slotAt r + halfOff i)) =
          word t.mem (top + (slotAt r + halfOff i)) := fun i =>
        word_congr fun k hk => write_of_not_within fun hw =>
          hclear _ hw (within_half hr hs i (within_add hk))
      rw [rowVal_stacked hs hM.fp, @rowVal_stacked top
        { t with mem := write t.mem a n v' } r hs hM.fp,
        hword true, hword false]
  mem b hb := by
    by_cases hw : Within b a n
    · exact (if_pos hw).trans ((hv _ hw).trans (if_pos hw).symm)
    · rw [show (x.store a n v).mem b = x.mem b from write_of_not_within hw, ← hM.mem b hb]
      exact write_of_not_within hw

theorem Mirrors.writeBack {b : Reg} (ix : Index) (hb : ix.wback = true → b ∈ scratch) :
    Mirrors top x (t.writeBack b ix) := by
  unfold State.writeBack
  split
  · rename_i hwb
    refine hM.idle ?_ (runLine_movImm openSys t b (t.reg b + ix.off))
    simp [idleLine, Inst.quiet, Instr.quiet, Inst.dests, Instr.dests, hb hwb]
  · exact hM

/-- Code that stores the low bytes of `v`. -/
theorem Mirrors.storeAt {c : Code} {w : Width} {rt b : Reg} {wb : Bool} {z : Int}
    (hA : Accesses false c w rt b wb z) (hb : wb = true → b ∈ scratch) {v : BitVec 64}
    (hv : t.reg rt = low v) {sys : Sys}
    (hclear : ∀ a, Within a (t.reg b + bits z) w.bytes →
      ¬ Within a (top - 64) 64 ∧ sys.unpriv a = true) :
    ∃ u, runCode sys c t = some (u, false) ∧
      Mirrors top (x.store (t.reg b + bits z) w.bytes v) u := by
  obtain ⟨p, hp⟩ := hA
  rw [← List.append_nil c, hp, exec_store (allows_of_forall p fun a ha => (hclear a ha).2),
    Option.bind_some]
  refine ⟨_, rfl, ?_⟩
  have hmem := writeBack_mem (t := t) b ⟨true, wb, bits z⟩
  have hMw := hM.writeBack ⟨true, wb, bits z⟩ hb
  rw [← hmem, hv]
  refine hMw.stored (fun a ha => (hclear a ha).1) fun j hj => ?_
  have h4 : w.bytes ≤ 4 := by cases w <;> decide
  ext k hk
  have hlt : 8 * j + k < 32 ∧ 8 * j + k < 64 := by omega
  simp [low, hlt]

end

theorem storeBase_apart : ∀ d : BitVec 4, d.toNat < 11 → onStack d = true →
    srcLo .reg d ∈ scratch ∧ srcLo .reg d ≠ halfReg d false tmpLo := by decide

section
variable {d : BitVec 4} (hd : d.toNat < 11) {off : Int}
include hd

/-- The value of a row on the stack is loaded once more for the base. -/
theorem accesses_stacked {op : BitVec 32} {w : Width}
    (hop : op = (0xf8000000 ||| (accessKind false w false).setWidth 32 <<< 20) ||| 0x800)
    (hs : onStack d = true) (hoff : 0 ≤ off ∧ off ≤ 255) :
    Accesses false
      (emit4 (thumb32StrNarrow op (srcLo .reg d).toNat (halfReg d false tmpLo).toNat off)) w
      (halfReg d false tmpLo) (srcLo .reg d) true off := by
  obtain ⟨h15, -⟩ := src_ne_pc hd
  obtain ⟨hrd, -⟩ := base_plain d hd
  have hA := accesses_strNarrow hop hrd h15 (storeBase_apart d hd hs).2
    (show -0xfff ≤ off ∧ off ≤ 0xfff by omega)
  rwa [show ((off.natAbs % 256 : Nat) : Int) = off by omega] at hA

/-- The code of a store that is right. -/
theorem storeOk_accesses {size : Size} (hok : storeOk (onStack d) off size) :
    isLdstImm off size ∧ (widthOf size).bytes = size.bytes ∧ ∃ wb,
      Accesses false (emitStore (regRow (srcLo .reg d) (srcHi .reg d))
        (halfReg d false tmpLo).toNat off size) (widthOf size) (halfReg d false tmpLo)
        (srcLo .reg d) wb off ∧ (wb = true → srcLo .reg d ∈ scratch) := by
  cases size with
  | b =>
    obtain ⟨hs, hoff⟩ := hok
    refine ⟨?_, rfl, true, accesses_stacked hd (by decide) hs hoff,
      fun _ => (storeBase_apart d hd hs).1⟩
    simp only [isLdstImm, offMax]
    omega
  | h =>
    obtain ⟨hs, hoff⟩ := hok
    refine ⟨?_, rfl, true, accesses_stacked hd (by decide) hs hoff,
      fun _ => (storeBase_apart d hd hs).1⟩
    simp only [isLdstImm, offMax]
    omega
  | w =>
    obtain ⟨h0, hoff⟩ := hok
    obtain ⟨h15, -⟩ := src_ne_pc hd
    obtain ⟨hrd, -⟩ := base_plain d hd
    have hA := accesses_strI hrd h15 h0
    rw [show (if 0 < off then ((off.natAbs % 256 : Nat) : Int) else -(off.natAbs % 256 : Nat)) = off
      by split <;> omega] at hA
    refine ⟨?_, rfl, false, hA, fun e => by cases e⟩
    simp only [isLdstImm, offMax]
    omega
  | dw => exact hok.elim

end

/-- **A store of a register at itself that is right.** -/
theorem stx_same_agrees {inst : EbpfInst} {size : Size} (hd : inst.dst.toNat < 11)
    (hop : Op.ofCode inst.opcode = some (.stx size)) (hsame : inst.src = inst.dst)
    (hok : storeOk (onStack inst.dst) inst.offset.toInt size) (x : Ebpf.State) : Agrees inst x := by
  rw [agrees_stx_iff hd hop (hsame ▸ hd), hsame]
  intro sys top s hM hclear
  obtain ⟨t, hMt, hlo, -, hbase, hrun⟩ := runCode_buildStx hd inst.offset.toInt size hM sys hd
  obtain ⟨hi, hbytes, wb, hA, hwb⟩ := storeOk_accesses hd hok
  rw [storeBase, if_pos hi, if_pos hi, BitVec.ofNat_eq_ofNat, BitVec.add_zero] at hbase
  rw [hrun, storeBase, if_pos hi, baseOff, if_pos hi]
  rw [← hlo, ← hbytes] at hclear ⊢
  exact hMt.storeAt hA hwb hbase hclear

/-! ## All accesses -/

def isAccess : Op → Bool
  | .ldx _ | .st _ | .stx _ => true
  | _ => false

/-- The accesses that are right for all values of the registers and the memory, where `h` is the
high half of the destination. A load of less than eight bytes leaves that half; a store takes the
value for the address. -/
def accessRight (inst : EbpfInst) (h : Word) : Op → Prop
  | .ldx .dw => offsetOk (onStack inst.src) inst.offset.toInt .dw
  | .ldx size =>
    onStack inst.dst = false ∧ h = 0 ∧ offsetOk (onStack inst.src) inst.offset.toInt size
  | .stx size => inst.src = inst.dst ∧ storeOk (onStack inst.dst) inst.offset.toInt size
  | _ => False

section
variable {inst : EbpfInst} {size : Size} (hd : inst.dst.toNat < 11) (hr : inst.src.toNat < 11)
  (h : Word)
include hd hr

theorem ldxNarrow_agrees_iff (hop : Op.ofCode inst.opcode = some (.ldx size)) (hsz : size ≠ .dw) :
    (∀ x : Ebpf.State, high (x.reg inst.dst) = h → Agrees inst x) ↔
      onStack inst.dst = false ∧ h = 0 ∧ offsetOk (onStack inst.src) inst.offset.toInt size := by
  refine ⟨fun hall => ?_, fun ⟨hs, h0, hok⟩ x hx =>
    ldxNarrow_agrees hop hd hr hsz hs hok (hx.trans h0)⟩
  by_contra hbad
  exact ldxNarrow_disagrees hop hd hr hsz h hbad (hall _ (high_pair ..))

theorem ldxDouble_agrees_iff (hop : Op.ofCode inst.opcode = some (.ldx .dw)) :
    (∀ x : Ebpf.State, high (x.reg inst.dst) = h → Agrees inst x) ↔
      offsetOk (onStack inst.src) inst.offset.toInt .dw := by
  refine ⟨fun hall => ?_, fun hok x _ => ldxDouble_agrees hop hd hr hok x⟩
  by_contra hbad
  obtain ⟨a, ha⟩ := ldxDouble_disagrees hop hd hr h hbad
  exact ha (hall _ (high_pair ..))

theorem stx_agrees_iff (hop : Op.ofCode inst.opcode = some (.stx size)) :
    (∀ x : Ebpf.State, high (x.reg inst.dst) = h → Agrees inst x) ↔
      inst.src = inst.dst ∧ storeOk (onStack inst.dst) inst.offset.toInt size := by
  refine ⟨fun hall => ?_, fun ⟨hsame, hok⟩ x _ => stx_same_agrees hd hop hsame hok x⟩
  by_contra hbad
  obtain ⟨x, hx, hno⟩ : ∃ x : Ebpf.State, high (x.reg inst.dst) = h ∧ ¬ Agrees inst x := by
    by_cases hsame : inst.src = inst.dst
    · exact stx_same_disagrees hd hop hsame (fun hok => hbad ⟨hsame, hok⟩) h
    · exact stx_apart_disagrees hd hop hr hsame h
  exact hno (hall x hx)

end

/-- **Loads and stores.** -/
theorem access_agrees_iff (inst : EbpfInst) (op : Op) (hop : Op.ofCode inst.opcode = some op)
    (hacc : isAccess op = true) (hd : inst.dst.toNat < 11) (hr : inst.src.toNat < 11) (h : Word) :
    (∀ x : Ebpf.State, high (x.reg inst.dst) = h → Agrees inst x) ↔ accessRight inst h op := by
  match op, hacc with
  | .ldx .dw, _ => exact ldxDouble_agrees_iff hd hr h hop
  | .ldx .b, _ | .ldx .h, _ | .ldx .w, _ => exact ldxNarrow_agrees_iff hd hr h hop (by decide)
  | .stx _, _ => exact stx_agrees_iff hd hr h hop
  | .st _, _ =>
    refine iff_of_false (fun hall => ?_) id
    obtain ⟨x, hx, hno⟩ := st_disagrees hd hop h
    exact hno (hall x hx)

/-- `r1 = *(u8 *)(r2 + 3)`, for `r1 = 7`: the octet at 18 is 18. -/
theorem access_agrees_byte :
    Agrees { opcode := 0x71, dst := 1, src := 2, offset := 3, imm := 0 } (mixedState.set 1 7) :=
  (access_agrees_iff _ (.ldx .b) (by decide) rfl (by decide) (by decide) 0).2
    ⟨by decide, rfl, by decide⟩ _ (by decide)

/-- `*(u32 *)(r1 + 4) = r6`: the word in `r1` is stored at 0x40000005. -/
theorem swapped_store_disagrees :
    ¬ Agrees { opcode := 0x63, dst := 1, src := 6, offset := 4, imm := 0 }
      { pc := 1, reg := fun q => if q = 1 then 0x80000000 else 0x40000001, mem := fun _ => 0 } :=
  @stx_far_disagrees _ .w (by decide) (by decide) (by decide) _ 0x80000000 (by decide) (by decide)
    ⟨by decide, by decide⟩ ⟨by decide, by decide⟩ fun _ => show (0 : BitVec 8) ≠ 1 by decide

end BlueSwat.Jit
