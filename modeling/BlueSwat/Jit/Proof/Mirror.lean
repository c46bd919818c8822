import BlueSwat.Jit.Proof.Decode

/-!
# Machines that mirror the interpreter

Rules for the parts of the code: instructions that write scratch registers keep `Mirrors`
(`Mirrors.idle`), those that write the registers of a row change that row (`Mirrors.tame`), and so
do the stores (`Mirrors.storeRow`, `Mirrors.putLo`, `Mirrors.putHi`). `mirrorOf` is a machine that
mirrors a given state, with temporary registers and flags of one's choice; `agrees_iff` brings
`Agrees` to runs of one piece of code.
-/

set_option autoImplicit false

namespace BlueSwat.Jit

open Thumb Bytes
open Ebpf (EbpfInst Op)

/-! ## States of the interpreter -/

theorem set_set (x : Ebpf.State) (d : BitVec 4) (v w : BitVec 64) :
    (x.set d v).set d w = x.set d w := by
  simp only [Ebpf.State.set]
  congr 1
  funext r
  split <;> rfl

theorem set_self (x : Ebpf.State) (d : BitVec 4) : x.set d (x.reg d) = x := by
  simp only [Ebpf.State.set]
  congr 1
  funext r
  split
  · rename_i h
    rw [h]
  · rfl

theorem set_reg (x : Ebpf.State) (d : BitVec 4) (v : BitVec 64) : (x.set d v).reg d = v :=
  if_pos rfl

theorem set_reg_ne (x : Ebpf.State) {d r : BitVec 4} (h : r ≠ d) (v : BitVec 64) :
    (x.set d v).reg r = x.reg r := if_neg h

/-! ## Instructions that keep the rows -/

/-- Quiet instructions that write only scratch registers and `lr`. -/
def idleLine (is : List Inst) : Bool :=
  is.all fun i => i.quiet && i.dests.all fun q => scratch.contains q || q == lr

section
variable {sys : Sys} {top : Word} {x : Ebpf.State} {s t : State} {d : BitVec 4} {is : List Inst}
  {b : Bool}

theorem tameLine_quiet (h : tameLine d is = true) : ∀ i ∈ is, i.quiet = true := by
  intro i hi
  have := List.all_eq_true.1 h i hi
  rw [Bool.and_eq_true] at this
  exact this.1

theorem tameLine_dests {q : Reg} (h : tameLine d is = true) (hq : q ∈ is.flatMap Inst.dests) :
    q ∈ lr :: scratch ∨ onStack d = false ∧ (q = heldLo d ∨ q = heldHi d) := by
  obtain ⟨i, hi, hqi⟩ := List.mem_flatMap.1 hq
  have := List.all_eq_true.1 h i hi
  rw [Bool.and_eq_true] at this
  have := List.all_eq_true.1 this.2 q hqi
  simp only [Bool.or_eq_true, List.contains_iff_mem, beq_iff_eq, Bool.and_eq_true,
    Bool.not_eq_true'] at this
  rw [List.mem_cons]
  exact this.imp_left Or.symm

theorem tameLine_of_idle (h : idleLine is = true) (d : BitVec 4) : tameLine d is = true := by
  refine List.all_eq_true.2 fun i hi => ?_
  have := List.all_eq_true.1 h i hi
  rw [Bool.and_eq_true] at this ⊢
  refine ⟨this.1, List.all_eq_true.2 fun q hq => ?_⟩
  rw [List.all_eq_true.1 this.2 q hq, Bool.true_or]

/-- Neither `fp` nor a register of a row is `lr` or a scratch register. -/
theorem kept_registers : fp ∉ lr :: scratch ∧
    ∀ r : BitVec 4, r.toNat < 11 → onStack r = false →
      heldLo r ∉ lr :: scratch ∧ heldHi r ∉ lr :: scratch := by decide

/-- The rows do not change but for that of `d`. -/
theorem tameLine_frame (h : tameLine d is = true) (hd : d.toNat < 11)
    (hr : runLine sys is s = some (t, b)) :
    t.mem = s.mem ∧ t.reg fp = s.reg fp ∧
      ∀ r, r.toNat < 11 → (r = d → onStack d = true) → rowVal t r = rowVal s r := by
  obtain ⟨hm, hk⟩ := runLine_frame (tameLine_quiet h) hr
  obtain ⟨hfp', hrow⟩ := kept_registers
  have hfp : t.reg fp = s.reg fp := by
    refine hk fp fun hq => ?_
    obtain hq | ⟨-, hq⟩ := tameLine_dests h hq
    · exact hfp' hq
    · have := (reserved_ne fp (by simp)).2 d hd
      exact hq.elim this.1 this.2
  refine ⟨hm, hfp, fun r hr11 hrd => rowVal_congr hm hfp fun hs => ?_⟩
  have key : ∀ q ∈ [heldLo r, heldHi r], t.reg q = s.reg q := by
    intro q hq
    refine hk q fun hqd => ?_
    obtain hqd | ⟨hsd, hqd⟩ := tameLine_dests h hqd
    · simp only [List.mem_cons, List.not_mem_nil, or_false] at hq
      rcases hq with rfl | rfl
      · exact (hrow r hr11 hs).1 hqd
      · exact (hrow r hr11 hs).2 hqd
    · have hne : r ≠ d := fun e => by rw [hrd e] at hsd; cases hsd
      obtain ⟨h1, h2⟩ := held_inj d r hd hr11 hne hsd hs q hq
      exact hqd.elim h1 h2
  exact ⟨key _ (by simp), key _ (by simp)⟩

theorem Mirrors.idle (hM : Mirrors top x s) (h : idleLine is = true)
    (hr : runLine sys is s = some (t, b)) : Mirrors top x t := by
  -- no row is the exception: take one that is on the stack
  obtain ⟨hm, hfp, hrows⟩ := tameLine_frame (tameLine_of_idle h 2) (by decide) hr
  exact ⟨hfp.trans hM.fp, hM.aligned,
    fun r hr => (hrows r hr fun _ => by decide).trans (hM.rows r hr), fun a ha => hm ▸ hM.mem a ha⟩

/-- A machine that differs in the row of `d`. -/
theorem Mirrors.of_rows (hM : Mirrors top x s) (hfp : t.reg Jit.fp = s.reg Jit.fp) (v : BitVec 64)
    (hd : rowVal t d = v) (hrows : ∀ r, r.toNat < 11 → r ≠ d → rowVal t r = rowVal s r)
    (hmem : ∀ a, ¬ Within a (top - 64) 64 → t.mem a = s.mem a) : Mirrors top (x.set d v) t where
  fp := hfp.trans hM.fp
  aligned := hM.aligned
  rows r hr := by
    by_cases hrd : r = d
    · subst hrd
      rw [hd, set_reg]
    · rw [hrows r hr hrd, hM.rows r hr]
      exact (if_neg hrd).symm
  mem a ha := (hmem a ha).trans (hM.mem a ha)

/-- Only the registers `r0` to `r10` and the memory count. -/
theorem Mirrors.congr {y : Ebpf.State} (hM : Mirrors top x s)
    (hreg : ∀ r, r.toNat < 11 → x.reg r = y.reg r) (hmem : x.mem = y.mem) : Mirrors top y s :=
  ⟨hM.fp, hM.aligned, fun r hr => (hM.rows r hr).trans (hreg r hr), hmem ▸ hM.mem⟩

/-- A machine mirrors one state only. -/
theorem Mirrors.unique {y : Ebpf.State} (hM : Mirrors top x s) (hM' : Mirrors top y s) :
    ∀ r, r.toNat < 11 → x.reg r = y.reg r := fun r hr =>
  (hM.rows r hr).symm.trans (hM'.rows r hr)

/-- The registers of a row are written: the row is what they hold, if it is not on the stack. -/
theorem Mirrors.tame (hM : Mirrors top x s) (hd : d.toNat < 11) (h : tameLine d is = true)
    (hr : runLine sys is s = some (t, b)) :
    Mirrors top (if onStack d then x else x.set d (heldVal t d)) t := by
  obtain ⟨hm, hfp, hrows⟩ := tameLine_frame h hd hr
  cases hs : onStack d with
  | true =>
    exact ⟨hfp.trans hM.fp, hM.aligned,
      fun r hr => (hrows r hr fun _ => hs).trans (hM.rows r hr), fun a ha => hm ▸ hM.mem a ha⟩
  | false =>
    refine hM.of_rows hfp _ ?_ (fun r hr hne => hrows r hr fun e => absurd e hne)
      fun a _ => congrFun hm a
    simp only [rowVal, heldVal, hs, Bool.false_eq_true, if_false]

end

/-! ## Stores -/

/-- The halves of rows on the stack do not overlap. -/
theorem halves_apart : ∀ r r' : BitVec 4, r.toNat < 11 → r'.toNat < 11 → onStack r = true →
    onStack r' = true → ∀ i j : Bool, (r', j) ≠ (r, i) →
    4 ≤ (slotAt r' + halfOff j - (slotAt r + halfOff i)).toNat ∧
      (slotAt r' + halfOff j - (slotAt r + halfOff i)).toNat + 4 ≤ 2 ^ 32 := by decide

/-- The halves of a row are below `top`. -/
theorem halves_range : ∀ r : BitVec 4, r.toNat < 11 → onStack r = true → ∀ i : Bool,
    2 ^ 32 - 64 ≤ (slotAt r + halfOff i).toNat ∧ (slotAt r + halfOff i).toNat + 4 ≤ 2 ^ 32 := by
  decide

section
variable {sys : Sys} {top : Word} {x : Ebpf.State} {s t : State} {d : BitVec 4} {is : List Inst}
  {a b : Reg}

theorem word_half_apart {M : Mem} {r r' : BitVec 4} (hr : r.toNat < 11) (hr' : r'.toNat < 11)
    (hs : onStack r = true) (hs' : onStack r' = true) {i j : Bool} (hne : (r', j) ≠ (r, i))
    (v : Word) :
    word (writeWord M (top + (slotAt r + halfOff i)) v) (top + (slotAt r' + halfOff j)) =
      word M (top + (slotAt r' + halfOff j)) := by
  obtain ⟨h1, h2⟩ := halves_apart r r' hr hr' hs hs' i j hne
  exact @word_storeAll_of_apart M _ _ [v] (by rwa [add_sub_add]) (by rwa [add_sub_add])

/-- The bytes of a half are among those of the rows. -/
theorem within_half {r : BitVec 4} (hr : r.toNat < 11) (hs : onStack r = true) (i : Bool) {c : Word}
    (hw : Within c (top + (slotAt r + halfOff i)) 4) : Within c (top - 64) 64 := by
  obtain ⟨h1, h2⟩ := halves_range r hr hs i
  have h64 : (64 : Word).toNat = 64 := rfl
  have := c.isLt
  have := top.isLt
  simp only [Within, BitVec.toNat_sub, BitVec.toNat_add top] at hw ⊢
  omega

/-- Where a half of a row is written, memory outside of the rows stays. -/
theorem writeWord_outside {M : Mem} {r : BitVec 4} (hr : r.toNat < 11) (hs : onStack r = true)
    (i : Bool) (v : Word) {c : Word} (hc : ¬ Within c (top - 64) 64) :
    writeWord M (top + (slotAt r + halfOff i)) v c = M c :=
  writeWord_of_not_within v fun hw => hc (within_half hr hs i hw)

theorem rowVal_stacked (hs : onStack d = true) (hf : s.reg fp = top) :
    rowVal s d = pair (word s.mem (top + (slotAt d + halfOff true)))
      (word s.mem (top + (slotAt d + halfOff false))) := by
  rw [rowVal, if_pos hs, hf, show slotAt d + halfOff false = slotAt d from BitVec.add_zero _,
    BitVec.add_assoc]
  rfl

/-- The other rows when a half of row `d` is written. -/
theorem rowVal_half_other (hf : s.reg fp = top) (hd : d.toNat < 11) (hs : onStack d = true)
    (i : Bool) (v : Word) {r : BitVec 4} (hr : r.toNat < 11) (hne : r ≠ d) :
    rowVal { s with mem := writeWord s.mem (top + (slotAt d + halfOff i)) v } r = rowVal s r := by
  cases hsr : onStack r with
  | false => simp only [rowVal, hsr, Bool.false_eq_true, if_false]
  | true =>
    have hne' : ∀ j : Bool, (r, j) ≠ (d, i) := fun j e => hne (Prod.mk.inj e).1
    have ht := @rowVal_stacked top
      { s with mem := writeWord s.mem (top + (slotAt d + halfOff i)) v } r hsr hf
    rw [ht, rowVal_stacked hsr hf]
    simp only [word_half_apart hd hr hs hsr (hne' true), word_half_apart hd hr hs hsr (hne' false)]

/-- A value with one half replaced. -/
def withHalf (v : BitVec 64) (hi : Bool) (w : Word) : BitVec 64 :=
  if hi then pair w (low v) else pair (high v) w

/-- One half of a row on the stack is stored. -/
theorem Mirrors.storeHalf (hM : Mirrors top x s) (sys : Sys) (a : Reg) (hd : d.toNat < 11)
    (hs : onStack d = true) (i : Bool) :
    ∃ t, runLine sys [Jit.storeHalf a (slotAt d + halfOff i)] s = some (t, false) ∧
      Mirrors top (x.set d (withHalf (x.reg d) i (s.reg a))) t ∧ t.reg = s.reg := by
  have hv := hM.rows d hd
  rw [rowVal_stacked hs hM.fp] at hv
  generalize ht :
    ({ s with mem := writeWord s.mem (top + (slotAt d + halfOff i)) (s.reg a) } : State) = t
  have hf : t.reg Jit.fp = top := by rw [← ht]; exact hM.fp
  have hm : t.mem = writeWord s.mem (top + (slotAt d + halfOff i)) (s.reg a) := by rw [← ht]
  refine ⟨t, ?_, hM.of_rows (hf.trans hM.fp.symm) _ ?_ (fun r hr hne => ?_) fun c hc => ?_,
    by rw [← ht]⟩
  · rw [← ht, ← hM.fp]
    rfl
  · rw [rowVal_stacked hs hf, hm, ← hv, withHalf, high_pair, low_pair]
    cases i with
    | false => rw [word_writeWord, word_half_apart hd hd hs hs (by simp), if_neg (by decide)]
    | true => rw [word_writeWord, word_half_apart hd hd hs hs (by simp), if_pos rfl]
  · rw [← ht]
    exact rowVal_half_other hM.fp hd hs i _ hr hne
  · rw [hm]
    exact writeWord_outside hd hs i _ hc

/-- A row on the stack is stored from the registers that hold it. -/
theorem Mirrors.storeRow (hM : Mirrors top x s) (sys : Sys) (hd : d.toNat < 11)
    (hs : onStack d = true) :
    ∃ t, runLine sys (Jit.storeRow d) s = some (t, false) ∧
      Mirrors top (x.set d (heldVal s d)) t := by
  have hal : Thumb.aligned (s.reg Jit.fp + slotAt d) = true :=
    hM.fp ▸ aligned_slotAt hM.aligned hd hs
  have hlo : heldLo d = tmpLo := if_pos hs
  have hhi : heldHi d = tmpHi := if_pos hs
  obtain ⟨h1, h2⟩ := rowVal_store hM.fp hd hs (s.reg tmpLo) (s.reg tmpHi)
  generalize ht : ({ s with
    mem := storeAll s.mem (top + slotAt d) [s.reg tmpLo, s.reg tmpHi] } : State) = t at h1 h2
  refine ⟨t.skip 0, ?_, ?_⟩
  · have hrow : Jit.storeRow d = [.base (.strd tmpLo tmpHi Jit.fp (slotAt d))] := by
      rw [Jit.storeRow, putRow, if_pos hs]
      rfl
    have he : Thumb.exec sys.unpriv s 0 (.strd tmpLo tmpHi Jit.fp (slotAt d)) =
        some (t.skip 0) := by
      rw [Thumb.exec, if_pos hal, ← ht, hM.fp]
    rw [hrow, runLine_cons (by rintro _ _ ⟨⟩), Inst.exec, if_pos (by rfl), he]
    rfl
  · have hskip : ∀ r, rowVal (t.skip 0) r = rowVal t r :=
      fun r => rowVal_congr rfl rfl fun _ => ⟨rfl, rfl⟩
    have hout : ∀ c, ¬ Within c (top - 64) 64 → t.mem c = s.mem c := by
      intro c hc
      obtain ⟨-, h3, h4⟩ := slotAt_range d hd hs
      rw [← ht]
      refine storeAll_of_not_within fun hw => hc ?_
      have h64 : (64 : Word).toNat = 64 := rfl
      have := c.isLt
      have := top.isLt
      simp only [Within, BitVec.toNat_sub, BitVec.toNat_add, List.length_cons, List.length_nil]
        at hw ⊢
      omega
    refine hM.of_rows (by rw [← ht]; rfl) _ ?_ (fun r hr hne => (hskip r).trans (h2 r hr hne)) hout
    rw [hskip, h1, heldVal, hlo, hhi]

/-- One half of a row is put in its place. -/
theorem Mirrors.putHalf (hM : Mirrors top x s) (sys : Sys) (a : Reg) (hd : d.toNat < 11)
    (i : Bool) :
    ∃ t, runLine sys (Jit.putHalf d i a) s = some (t, false) ∧
      Mirrors top (x.set d (withHalf (x.reg d) i (s.reg a))) t ∧
      ∀ q, q ≠ heldReg d i → t.reg q = s.reg q := by
  cases hs : onStack d with
  | true =>
    obtain ⟨t, ht, hMt, hreg⟩ := hM.storeHalf sys a hd hs i
    exact ⟨t, by rw [Jit.putHalf, if_pos hs]; exact ht, hMt, fun q _ => by rw [hreg]⟩
  | false =>
    have hv : pair (s.reg (heldHi d)) (s.reg (heldLo d)) = x.reg d := by
      have := hM.rows d hd
      rwa [rowVal, hs, if_neg Bool.false_ne_true] at this
    by_cases ha : a = heldReg d i
    · refine ⟨s, by rw [Jit.putHalf, hs, if_neg Bool.false_ne_true, if_pos ha]; rfl, ?_,
        fun _ _ => rfl⟩
      have : withHalf (x.reg d) i (s.reg a) = x.reg d := by
        rw [ha, ← hv]
        cases i
        · exact congrArg (pair · _) (high_pair _ _)
        · exact congrArg (pair _ ·) (low_pair _ _)
      rw [this, set_self]
      exact hM
    · obtain ⟨hne, hsp⟩ := held_ne d hd
      have hsp' : heldReg d i ≠ sp := by
        cases i
        · exact fun e => hsp (heldLo d) (by simp) (by simp [show heldLo d = sp from e])
        · exact fun e => hsp (heldHi d) (by simp) (by simp [show heldHi d = sp from e])
      have hrun : runLine sys [.base (.movReg (heldReg d i) a)] s =
          some ((s.set (heldReg d i) (s.reg a)).skip 0, false) := rfl
      have htame : tameLine d [.base (.movReg (heldReg d i) a)] = true := by
        cases i <;> simp [tameLine, Inst.quiet, Instr.quiet, Inst.dests, Instr.dests, heldReg, hs]
      have hMt := hM.tame hd htame hrun
      refine ⟨(s.set (heldReg d i) (s.reg a)).skip 0, by
        rw [Jit.putHalf, hs, if_neg Bool.false_ne_true, if_neg ha]; exact hrun, ?_,
        fun q hq => set_reg_of_ne _ hq⟩
      rw [hs, if_neg Bool.false_ne_true] at hMt
      have hval : heldVal ((s.set (heldReg d i) (s.reg a)).skip 0) d =
          withHalf (x.reg d) i (s.reg a) := by
        rw [← hv, heldVal, withHalf, high_pair, low_pair]
        cases i
        · exact congrArg₂ pair (set_reg_of_ne _ (Ne.symm hne)) (set_reg_same hsp' _)
        · exact congrArg₂ pair (set_reg_same hsp' _) (set_reg_of_ne _ hne)
      rwa [hval] at hMt

/-! ## Whole operations -/

/-- **An operation that leaves its result in the registers of the row.** -/
theorem Mirrors.block (hM : Mirrors top x s) (hd : d.toNat < 11) (htame : tameLine d is = true)
    (hrun : runLine sys is s = some (t, false)) :
    ∃ u, runLine sys (is ++ Jit.storeRow d) s = some (u, false) ∧
      Mirrors top (x.set d (heldVal t d)) u := by
  have hMt := hM.tame hd htame hrun
  rw [runLine_seq hrun]
  cases hs : onStack d with
  | true =>
    rw [hs, if_pos rfl] at hMt
    exact hMt.storeRow sys hd hs
  | false =>
    rw [hs, if_neg Bool.false_ne_true] at hMt
    exact ⟨t, by rw [Jit.storeRow, putRow, hs]; rfl, hMt⟩

/-- **An operation that leaves the halves of its result in `a` and `b`.** -/
theorem Mirrors.halves (hM : Mirrors top x s) (hd : d.toNat < 11) (htame : tameLine d is = true)
    (hrun : runLine sys is s = some (t, false)) (hb : b ≠ heldLo d) :
    ∃ u, runLine sys (is ++ (Jit.putHalf d false a ++ Jit.putHalf d true b)) s = some (u, false) ∧
      Mirrors top (x.set d (pair (t.reg b) (t.reg a))) u := by
  obtain ⟨v, hMt⟩ : ∃ v, Mirrors top (x.set d v) t := by
    have hMt := hM.tame hd htame hrun
    split at hMt
    · exact ⟨x.reg d, by rwa [set_self]⟩
    · exact ⟨_, hMt⟩
  obtain ⟨u, hu, hMu, hreg⟩ := hMt.putHalf sys a hd false
  obtain ⟨w, hw, hMw, -⟩ := hMu.putHalf sys b hd true
  refine ⟨w, by rw [runLine_seq hrun, runLine_seq hu, hw], ?_⟩
  rw [set_set, set_set, set_reg, set_reg, hreg b hb, withHalf, if_pos rfl, withHalf,
    if_neg Bool.false_ne_true, low_pair] at hMw
  exact hMw

/-- **An operation on the low half, whose result is in `a`.** -/
theorem Mirrors.lowHalf (hM : Mirrors top x s) (hd : d.toNat < 11) (htame : tameLine d is = true)
    (hrun : runLine sys is s = some (t, false))
    (hhi : onStack d = false → t.reg (heldHi d) = high (x.reg d)) :
    ∃ u, runLine sys (is ++ Jit.putHalf d false a) s = some (u, false) ∧
      Mirrors top (x.set d (pair (high (x.reg d)) (t.reg a))) u := by
  obtain ⟨v, hMt, hv⟩ : ∃ v, Mirrors top (x.set d v) t ∧ high v = high (x.reg d) := by
    have hMt := hM.tame hd htame hrun
    cases hs : onStack d with
    | true =>
      rw [hs, if_pos rfl] at hMt
      exact ⟨x.reg d, by rwa [set_self], rfl⟩
    | false =>
      rw [hs, if_neg Bool.false_ne_true] at hMt
      exact ⟨_, hMt, (high_pair _ _).trans (hhi hs)⟩
  obtain ⟨u, hu, hMu, -⟩ := hMt.putHalf sys a hd false
  refine ⟨u, by rw [runLine_seq hrun, hu], ?_⟩
  rw [set_set, set_reg, withHalf, if_neg Bool.false_ne_true, hv] at hMu
  exact hMu

end

/-! ## Operands -/

section
variable {top : Word} {x : Ebpf.State} {s : State} {d r : BitVec 4}

/-- A row on the stack is loaded to two registers. -/
theorem Mirrors.loadRow (hM : Mirrors top x s) (sys : Sys) (hr : r.toNat < 11)
    (hs : onStack r = true) (lo hi : Reg) (hlo : lo ≠ sp) (hhi : hi ≠ sp) (hne : lo ≠ hi) :
    ∃ t, runLine sys [.base (.ldrd lo hi Jit.fp (slotAt r))] s = some (t, false) ∧
      pair (t.reg hi) (t.reg lo) = x.reg r ∧ t.flags = s.flags ∧
      ∀ q, q ≠ lo → q ≠ hi → t.reg q = s.reg q := by
  have hal : Thumb.aligned (s.reg Jit.fp + slotAt r) = true :=
    hM.fp ▸ aligned_slotAt hM.aligned hr hs
  have hv := hM.rows r hr
  rw [rowVal, if_pos hs] at hv
  refine ⟨((s.set lo (word s.mem (s.reg Jit.fp + slotAt r))).set hi
    (word s.mem (s.reg Jit.fp + slotAt r + 4))).skip 0, ?_, ?_, rfl,
    fun q h1 h2 => (set_reg_of_ne _ h2).trans (set_reg_of_ne _ h1)⟩
  · rw [runLine_cons (by rintro _ _ ⟨⟩), Inst.exec, if_pos (by rfl), Thumb.exec, if_pos hal]
    rfl
  · rw [← hv]
    exact congrArg₂ pair (set_reg_same hhi _) ((set_reg_of_ne _ hne).trans (set_reg_same hlo _))

theorem Mirrors.fetchDst (hM : Mirrors top x s) (sys : Sys) (hd : d.toNat < 11) :
    ∃ t, runLine sys (Jit.fetchDst d) s = some (t, false) ∧ heldVal t d = x.reg d ∧
      t.flags = s.flags ∧ ∀ q, q ≠ tmpLo → q ≠ tmpHi → t.reg q = s.reg q := by
  cases hs : onStack d with
  | true =>
    obtain ⟨t, ht, hv, hf, hq⟩ := hM.loadRow sys hd hs tmpLo tmpHi (by decide) (by decide)
      (by decide)
    refine ⟨t, ?_, ?_, hf, hq⟩
    · rw [Jit.fetchDst, getRow, if_pos hs]
      exact ht
    · rw [heldVal, heldLo, heldHi, if_pos hs, if_pos hs, hv]
  | false =>
    have hv := hM.rows d hd
    rw [rowVal, hs, if_neg Bool.false_ne_true] at hv
    exact ⟨s, by rw [Jit.fetchDst, getRow, hs]; rfl, hv, rfl, fun _ _ _ => rfl⟩

theorem Mirrors.fetchSrc (hM : Mirrors top x s) (sys : Sys) (hr : r.toNat < 11) :
    ∃ t, runLine sys (Jit.fetchSrc r) s = some (t, false) ∧
      pair (t.reg (srcHi .reg r)) (t.reg (srcLo .reg r)) = x.reg r ∧
      t.flags = s.flags ∧ ∀ q, q ≠ tmp2Lo → q ≠ tmp2Hi → t.reg q = s.reg q := by
  cases hs : onStack r with
  | true =>
    obtain ⟨t, ht, hv, hf, hq⟩ := hM.loadRow sys hr hs tmp2Lo tmp2Hi (by decide) (by decide)
      (by decide)
    refine ⟨t, by rw [Jit.fetchSrc, if_pos hs]; exact ht, ?_, hf, hq⟩
    rw [srcLo, srcHi, if_pos (.inr hs), if_pos (.inr hs), hv]
  | false =>
    have hv := hM.rows r hr
    rw [rowVal, hs, if_neg Bool.false_ne_true] at hv
    refine ⟨s, by rw [Jit.fetchSrc, hs]; rfl, ?_, rfl, fun _ _ _ => rfl⟩
    rw [srcLo, srcHi, hs, if_neg (by decide), if_neg (by decide), hv]

def halfVal (v : BitVec 64) (hi : Bool) : Word := if hi then high v else low v

theorem idle_fetchHalf (r : BitVec 4) (hi : Bool) {q : Reg} (hq : q ∈ scratch) :
    idleLine (Jit.fetchHalf r hi q) = true := by
  unfold Jit.fetchHalf
  split
  · simp [idleLine, Inst.quiet, Instr.quiet, Inst.dests, Instr.dests, hq]
  · rfl

/-- One half of a row is loaded. -/
theorem Mirrors.fetchHalf (hM : Mirrors top x s) (sys : Sys) (hr : r.toNat < 11) (hi : Bool)
    {q : Reg}
    (hq : q ∈ scratch) :
    Runs sys (Jit.fetchHalf r hi q) s fun t => Mirrors top x t ∧
      t.reg (halfReg r hi q) = halfVal (x.reg r) hi ∧ t.flags = s.flags ∧
      ∀ p, p ≠ q → t.reg p = s.reg p := by
  have hsp : q ≠ sp := by
    revert hq
    revert q
    decide
  cases hs : onStack r with
  | true =>
    have hv := hM.rows r hr
    rw [rowVal_stacked hs hM.fp] at hv
    have hrun : runLine sys (Jit.fetchHalf r hi q) s =
        some ((s.set q (word s.mem (s.reg Jit.fp + (slotAt r + halfOff hi)))).skip 0, false) := by
      rw [Jit.fetchHalf, if_pos hs]
      rfl
    refine ⟨(s.set q (word s.mem (s.reg Jit.fp + (slotAt r + halfOff hi)))).skip 0, hrun,
      hM.idle (idle_fetchHalf r hi hq) hrun, ?_, rfl, fun p hp => set_reg_of_ne _ hp⟩
    · rw [halfReg, if_pos hs, ← hv, halfVal, high_pair, low_pair]
      refine (set_reg_same hsp _).trans ?_
      rw [hM.fp]
      cases hi <;> rfl
  | false =>
    have hv := hM.rows r hr
    rw [rowVal, hs, if_neg Bool.false_ne_true] at hv
    refine ⟨s, by rw [Jit.fetchHalf, hs]; rfl, hM, ?_, rfl, fun _ _ => rfl⟩
    rw [halfReg, hs, if_neg Bool.false_ne_true, ← hv, halfVal, high_pair, low_pair]
    cases hi <;> rfl

theorem idle_fetch : ∀ d r : BitVec 4, d.toNat < 11 → r.toNat < 11 →
    idleLine (Jit.fetchDst d) = true ∧ idleLine (Jit.fetchSrc r) = true := by decide

/-- A constant is moved to a scratch register. -/
theorem idle_movConst {q : Reg} (hq : q ∈ scratch) (v : Word) :
    idleLine ((movConst q v).map .base) = true := by
  unfold movConst
  split
  · simp [idleLine, Inst.quiet, Instr.quiet, Inst.dests, Instr.dests, hq]
  · split <;> simp [idleLine, Inst.quiet, Instr.quiet, Inst.dests, Instr.dests, hq]

theorem quiet_movConst (q : Reg) (v : Word) : ∀ i ∈ movConst q v, i.quiet = true := by
  unfold movConst
  split_ifs <;> simp [Instr.quiet]

theorem runs_movConst {q : Reg} (hq : q ≠ sp) (v : Word) (sys : Sys) (s : State) :
    Runs sys ((movConst q v).map .base) s fun t =>
      t.reg q = v ∧ t.flags.c = s.flags.c ∧ ∀ p, p ≠ q → t.reg p = s.reg p := by
  obtain ⟨t, ht, hv, hrest, -, hc⟩ := compute_movConst sys.unpriv s v hq
  exact ⟨t, by rw [runLine_base (quiet_movConst q v), ht]; rfl, hv, hc, hrest⟩

theorem idleLine_append (is js : List Inst) :
    idleLine (is ++ js) = (idleLine is && idleLine js) := List.all_append

theorem idle_movSext (imm : Word) : idleLine ((movSext tmp2Lo tmp2Hi imm).map .base) = true := by
  rw [movSext, List.map_append, idleLine_append, idle_movConst (by decide),
    idle_movConst (by decide)]
  rfl

theorem quiet_of_idle {is : List Instr} (h : idleLine (is.map .base) = true) :
    ∀ i ∈ is, i.quiet = true := fun i hi =>
  tameLine_quiet (tameLine_of_idle h 0) (.base i) (List.mem_map_of_mem hi)

theorem runLine_movSext (sys : Sys) (s : State) (imm : Word) :
    ∃ t, runLine sys ((movSext tmp2Lo tmp2Hi imm).map .base) s = some (t, false) ∧
      pair (t.reg tmp2Hi) (t.reg tmp2Lo) = Ebpf.sext imm ∧ t.flags.c = s.flags.c := by
  obtain ⟨t, ht, hv, -, -, hc⟩ := compute_movTmp2 sys.unpriv s imm
  exact ⟨t, by rw [runLine_base (quiet_of_idle (idle_movSext imm)), ht]; rfl, hv, hc⟩

theorem held_apart : ∀ r : BitVec 4, r.toNat < 11 → ∀ q ∈ [heldLo r, heldHi r],
    q ≠ tmp2Lo ∧ q ≠ tmp2Hi ∧ (onStack r = false → q ≠ tmpLo ∧ q ≠ tmpHi) := by decide

theorem src_apart : ∀ r : BitVec 4, r.toNat < 11 → ∀ q ∈ [srcLo .reg r, srcHi .reg r],
    q ≠ tmpLo ∧ q ≠ tmpHi := by decide

/-- After both operands are loaded; the carry is `c`. -/
structure Loaded (top : Word) (x : Ebpf.State) (form : Ebpf.Form) (d r : BitVec 4) (imm : Word)
    (c : Bool) (t : State) : Prop where
  mirrors : Mirrors top x t
  dst : heldVal t d = x.reg d
  operand : pair (t.reg (srcHi form r)) (t.reg (srcLo form r)) = operandVal form (x.reg r) imm
  carry : t.flags.c = c

/-- **Both operands are loaded**; the rows stay. -/
theorem Mirrors.fetch (hM : Mirrors top x s) (sys : Sys) (hd : d.toNat < 11) (hr : r.toNat < 11)
    (form : Ebpf.Form) (imm : Word) :
    Runs sys (Jit.fetch form d r imm) s (Loaded top x form d r imm s.flags.c) := by
  obtain ⟨hid, his⟩ := idle_fetch d r hd hr
  cases form with
  | imm =>
    obtain ⟨t, ht, hv, hc⟩ := runLine_movSext sys s imm
    have hMt := hM.idle (idle_movSext imm) ht
    obtain ⟨u, hu, hw, hf, hq⟩ := hMt.fetchDst sys hd
    refine ⟨u, by rw [Jit.fetch, runLine_seq ht, hu], hMt.idle hid hu, hw, ?_,
      (congrArg Flags.c hf).trans hc⟩
    rw [srcLo, srcHi, if_pos (.inl rfl), if_pos (.inl rfl), hq tmp2Hi (by decide) (by decide),
      hq tmp2Lo (by decide) (by decide), hv]
    rfl
  | reg =>
    obtain ⟨t, ht, hv, hf, -⟩ := hM.fetchDst sys hd
    have hMt := hM.idle hid ht
    obtain ⟨u, hu, hw, hf', hq⟩ := hMt.fetchSrc sys hr
    refine ⟨u, by rw [Jit.fetch, runLine_seq ht, hu], hMt.idle his hu, ?_, hw,
      congrArg Flags.c (hf'.trans hf)⟩
    rw [← hv, heldVal, heldVal]
    have hk : ∀ q ∈ [heldLo d, heldHi d], u.reg q = t.reg q := fun q hqm =>
      hq q (held_apart d hd q hqm).1 (held_apart d hd q hqm).2.1
    rw [hk (heldHi d) (by simp), hk (heldLo d) (by simp)]

end

/-! ## A machine for every state -/

/-- The rows on the stack, lowest first. -/
def stackedRegs : List (BitVec 4) := [10, 9, 8, 7, 5, 4, 3, 2]

/-- The words of the rows on the stack, lowest first. -/
def slotWords (x : Ebpf.State) : List Word :=
  stackedRegs.flatMap fun r => [low (x.reg r), high (x.reg r)]

/-- A machine that mirrors `x`, with the temporary registers `temps` and the flags `f`. -/
def mirrorOf (top : Word) (x : Ebpf.State) (temps : Reg → Word) (f : Flags) : State where
  reg q :=
    if q = fp then top
    else match q.toNat with
      | 0 => low (x.reg 0)
      | 1 => high (x.reg 0)
      | 2 => low (x.reg 1)
      | 3 => high (x.reg 1)
      | 4 => low (x.reg 6)
      | 5 => high (x.reg 6)
      | _ => temps q
  pc := 0
  flags := f
  mem := storeAll x.mem (top - 64) (slotWords x)

section
variable {top : Word} (x : Ebpf.State) (temps : Reg → Word) (f : Flags)

/-- The place of a row among those on the stack. -/
theorem slotAt_index : ∀ r : BitVec 4, r.toNat < 11 → onStack r = true → ∃ i < 8,
    stackedRegs[i]? = some r ∧ slotAt r = -64 + BitVec.ofNat 32 (4 * (2 * i)) ∧
      slotAt r + 4 = -64 + BitVec.ofNat 32 (4 * (2 * i + 1)) := by decide

theorem slotWords_get : ∀ i < 8, ∀ r, stackedRegs[i]? = some r →
    (slotWords x)[2 * i]? = some (low (x.reg r)) ∧
      (slotWords x)[2 * i + 1]? = some (high (x.reg r)) := by
  intro i hi r hr
  obtain rfl | rfl | rfl | rfl | rfl | rfl | rfl | rfl : i = 0 ∨ i = 1 ∨ i = 2 ∨ i = 3 ∨ i = 4 ∨
    i = 5 ∨ i = 6 ∨ i = 7 := by omega
  all_goals
    cases hr
    exact ⟨rfl, rfl⟩

theorem mirrors_mirrorOf (hA : top.toNat % 4 = 0) : Mirrors top x (mirrorOf top x temps f) where
  fp := rfl
  aligned := hA
  rows r hr := by
    cases hs : onStack r with
    | true =>
      obtain ⟨i, hi, hget, h0, h4⟩ := slotAt_index r hr hs
      obtain ⟨hlo, hhi⟩ := slotWords_get x i hi r hget
      have hlen : 4 * (slotWords x).length ≤ 2 ^ 32 := by simp [slotWords, stackedRegs]
      have hsub : ∀ a : Word, top + (-64 + a) = top - 64 + a := fun a => by
        rw [BitVec.sub_eq_add_neg, BitVec.add_assoc]
      rw [rowVal, if_pos hs, BitVec.add_assoc,
        show (mirrorOf top x temps f).reg Jit.fp = top from rfl,
        h4, h0, hsub, hsub]
      refine (congrArg₂ pair (word_storeAll hlen hhi) (word_storeAll hlen hlo)).trans ?_
      exact pair_high_low _
    | false =>
      have hcases : r = 0 ∨ r = 1 ∨ r = 6 := by
        revert hs hr r
        decide
      rcases hcases with rfl | rfl | rfl <;> exact pair_high_low _
  mem a ha := by
    refine storeAll_of_not_within fun hw => ha ?_
    simpa [slotWords, stackedRegs] using hw

/-- The temporary registers are as given. -/
theorem mirrorOf_temp {q : Reg} (hq : q ∈ lr :: scratch) :
    (mirrorOf top x temps f).reg q = temps q := by
  have h : ∀ q : Reg, q ∈ lr :: scratch → q ≠ fp ∧ q.toNat ∉ [0, 1, 2, 3, 4, 5] := by decide
  obtain ⟨h1, h2⟩ := h q hq
  simp only [mirrorOf, if_neg h1]
  split <;> first | rfl | simp_all

end

/-! ## Agreement and code -/

/-- For an instruction that accesses no memory and has one code and one result. -/
theorem agrees_iff {inst : EbpfInst} {x x' : Ebpf.State} {c : Code}
    (hcode : ∀ (J : JitState) (pc : Nat), J.insts pc = inst → (buildInst J pc).1 = c)
    (hexec : ∀ H vm mem memLen,
      Ebpf.execOp H vm mem memLen inst x (Op.ofCode inst.opcode) = .next x')
    (hclear : (accessed inst x (Op.ofCode inst.opcode)).2 = 0) :
    Agrees inst x ↔ ∀ sys top s, Mirrors top x s →
      ∃ t, runCode sys c s = some (t, false) ∧ Mirrors top x' t := by
  constructor
  · intro h sys top s hM
    have hJ := h (genJitState (fun _ => inst) 1 (fun _ => 0) bpfR0 fun _ => 0) 0 rfl
      ⟨0, fun _ _ _ _ => 0⟩ ⟨fun _ => 0, false, fun _ _ _ => none⟩ 0 0 x' (hexec _ _ _ _)
      sys top s hM
    rw [hcode _ 0 rfl] at hJ
    refine hJ fun a ha => ?_
    rw [hclear] at ha
    exact absurd ha (Nat.not_lt_zero _)
  · intro h J pc hpc H vm mem memLen x'' hx sys top s hM _
    rw [hexec] at hx
    cases hx
    rw [hcode J pc hpc]
    exact h sys top s hM

/-- Code whose effect is known, for a result of the interpreter. -/
theorem effect_iff {x x' : Ebpf.State} {c : Code} {y : State → Ebpf.State}
    (heff : ∀ sys top s, Mirrors top x s →
      ∃ t, runCode sys c s = some (t, false) ∧ Mirrors top (y s) t)
    (hmem : ∀ s, (y s).mem = x'.mem) :
    (∀ sys top s, Mirrors top x s → ∃ t, runCode sys c s = some (t, false) ∧ Mirrors top x' t) ↔
      ∀ top s, Mirrors top x s → ∀ r, r.toNat < 11 → (y s).reg r = x'.reg r := by
  constructor
  · intro h top s hM
    obtain ⟨t, ht, hMt⟩ := heff ⟨fun _ => true, false⟩ top s hM
    obtain ⟨u, hu, hMu⟩ := h ⟨fun _ => true, false⟩ top s hM
    rw [ht] at hu
    cases hu
    exact hMt.unique hMu
  · intro h sys top s hM
    obtain ⟨t, ht, hMt⟩ := heff sys top s hM
    exact ⟨t, ht, hMt.congr (h top s hM) (hmem s)⟩

/-- Two ways to set registers. -/
theorem set_eq_set_iff {x : Ebpf.State} {d r : BitVec 4} (hd : d.toNat < 11) (hr : r.toNat < 11)
    {v w : BitVec 64} :
    (∀ q, q.toNat < 11 → (x.set r v).reg q = (x.set d w).reg q) ↔
      if d = r then v = w else v = x.reg r ∧ w = x.reg d := by
  split
  · rename_i h
    subst h
    constructor
    · intro h
      have := h d hd
      rwa [set_reg, set_reg] at this
    · rintro rfl q _
      rfl
  · rename_i h
    constructor
    · intro hq
      have h1 := hq r hr
      have h2 := hq d hd
      rw [set_reg, set_reg_ne x (Ne.symm h)] at h1
      rw [set_reg, set_reg_ne x h] at h2
      exact ⟨h1, h2.symm⟩
    · rintro ⟨rfl, rfl⟩ q _
      rw [set_self, set_self]

/-- Code that sets `r` to a value that depends on nothing but `x`, where the interpreter sets
`d`. -/
theorem effect_at_iff {x : Ebpf.State} {c : Code} {d r : BitVec 4} (hd : d.toNat < 11)
    (hr : r.toNat < 11) {v w : BitVec 64}
    (heff : ∀ sys top s, Mirrors top x s →
      ∃ t, runCode sys c s = some (t, false) ∧ Mirrors top (x.set r v) t) :
    (∀ sys top s, Mirrors top x s →
      ∃ t, runCode sys c s = some (t, false) ∧ Mirrors top (x.set d w) t) ↔
      if d = r then v = w else v = x.reg r ∧ w = x.reg d := by
  refine (effect_iff heff fun _ => by rfl).trans ?_
  rw [← set_eq_set_iff hd hr]
  exact ⟨fun h => h 0 _ (mirrors_mirrorOf x (fun _ => 0) ⟨false, false, false, false⟩ rfl),
    fun h _ _ _ => h⟩

/-- Code that sets the same register. -/
theorem effect_set_iff {x : Ebpf.State} {c : Code} {d : BitVec 4} (hd : d.toNat < 11)
    {v w : BitVec 64}
    (heff : ∀ sys top s, Mirrors top x s →
      ∃ t, runCode sys c s = some (t, false) ∧ Mirrors top (x.set d v) t) :
    (∀ sys top s, Mirrors top x s →
      ∃ t, runCode sys c s = some (t, false) ∧ Mirrors top (x.set d w) t) ↔ v = w :=
  (effect_at_iff hd hd heff).trans (by rw [if_pos rfl])

end BlueSwat.Jit
