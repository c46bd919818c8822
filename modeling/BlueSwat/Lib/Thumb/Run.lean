import BlueSwat.Lib.Thumb

/-!
# Running Thumb code

Code is a list of halfwords, placed in memory at `base` (`CodeAt`). `scan code off is` reads the
instructions `is` from offset `off` on and gives the offset behind them.

A sequence of instructions that write registers and flags only (`Instr.quiet`) is run by `compute`,
which does not look at the program counter: `path_compute` is the rule that brings such a run to the
machine, and `compute_frame` says what it leaves alone. The other instructions are taken one by one
(`step_of_instrAt`).
-/

set_option autoImplicit false

namespace Thumb

open Machine Bytes

/-! ## Words in memory -/

section
variable {M M' : Mem} {a b : Word}

theorem word_congr (h : ∀ k < 4, M' (a + BitVec.ofNat 32 k) = M (a + BitVec.ofNat 32 k)) :
    word M' a = word M a := by
  simp only [word, Bytes.read, h 0 (by decide), h 1 (by decide), h 2 (by decide), h 3 (by decide)]

theorem half_congr (h : ∀ k < 2, M' (a + BitVec.ofNat 32 k) = M (a + BitVec.ofNat 32 k)) :
    half M' a = half M a := by
  simp only [half, Bytes.read, h 0 (by decide), h 1 (by decide)]

theorem word_of_read {x : Word} (h : Bytes.read M a 4 = x.toNat) : word M a = x := by
  rw [word, h, BitVec.ofNat_toNat, BitVec.setWidth_eq]

theorem toNat_add_sub (a : Word) {k : Nat} (hk : k < 2 ^ 32) :
    (a + BitVec.ofNat 32 k - a).toNat = k := by
  rw [BitVec.add_comm, BitVec.add_sub_cancel, BitVec.toNat_ofNat, Nat.mod_eq_of_lt hk]

theorem writeWord_of_not_within (v : Word) (h : ¬ Within b a 4) : writeWord M a v b = M b :=
  if_neg h

theorem word_writeWord (M : Mem) (a v : Word) : word (writeWord M a v) a = v := by
  refine word_of_read (read_four fun k hk => ?_)
  have h : (a + BitVec.ofNat 32 k - a).toNat = k := toNat_add_sub a (by omega)
  rw [writeWord, Bytes.write, h, if_pos hk]
  apply BitVec.eq_of_getLsbD_eq
  intro i hi
  simp only [BitVec.getLsbD_extractLsb', BitVec.getLsbD_setWidth, hi, decide_true, Bool.true_and,
    show 8 * k + i < 64 by omega]

theorem within_succ {n : Nat} (h : Within b (a + 4) (4 * n)) : Within b a (4 * (n + 1)) := by
  simp only [Within, BitVec.toNat_sub, BitVec.toNat_add] at h ⊢
  have := a.isLt
  have := b.isLt
  have h4 : (4 : Word).toNat = 4 := rfl
  omega

/-- A store of words leaves the bytes outside of them. -/
theorem storeAll_of_not_within {vs : List Word} :
    ∀ {M : Mem} {a : Word}, ¬ Within b a (4 * vs.length) → storeAll M a vs b = M b := by
  induction vs with
  | nil => exact fun _ => rfl
  | cons v vs ih =>
    intro M a h
    rw [storeAll, ih fun hw => h (within_succ hw)]
    refine writeWord_of_not_within v fun hw => h ?_
    simp only [Within, List.length_cons] at hw ⊢
    omega

/-- The words of a store are read back. -/
theorem word_storeAll {vs : List Word} :
    ∀ {M : Mem} {a : Word} {i : Nat} {v : Word}, 4 * vs.length ≤ 2 ^ 32 → vs[i]? = some v →
      word (storeAll M a vs) (a + BitVec.ofNat 32 (4 * i)) = v := by
  induction vs with
  | nil =>
    intro M a i v _ h
    simp at h
  | cons u vs ih =>
    intro M a i v hlen h
    simp only [List.length_cons] at hlen
    cases i with
    | zero =>
      obtain rfl : u = v := by simpa using h
      rw [storeAll, show a + BitVec.ofNat 32 (4 * 0) = a by simp]
      refine (word_congr fun k hk => storeAll_of_not_within fun hw => ?_).trans
        (word_writeWord M a u)
      -- the words behind `a` do not reach around to it
      simp only [Within, BitVec.toNat_sub, BitVec.toNat_add, BitVec.toNat_ofNat] at hw
      have := a.isLt
      have h4 : (4 : Word).toNat = 4 := rfl
      omega
    | succ i =>
      have ha : a + BitVec.ofNat 32 (4 * (i + 1)) = a + 4 + BitVec.ofNat 32 (4 * i) := by
        rw [Nat.mul_succ, Nat.add_comm, BitVec.ofNat_add, ← BitVec.add_assoc]
        rfl
      rw [storeAll, ha]
      exact ih (by omega) (by simpa using h)

/-- A store leaves the words that it does not overlap. -/
theorem word_storeAll_of_apart {vs : List Word} (h1 : 4 * vs.length ≤ (b - a).toNat)
    (h2 : (b - a).toNat + 4 ≤ 2 ^ 32) : word (storeAll M a vs) b = word M b := by
  refine word_congr fun k hk => storeAll_of_not_within ?_
  have hb : b + BitVec.ofNat 32 k - a = (b - a) + BitVec.ofNat 32 k := by
    rw [BitVec.sub_eq_add_neg, BitVec.sub_eq_add_neg, BitVec.add_assoc, BitVec.add_assoc,
      BitVec.add_comm (-a)]
  rw [Within, hb, BitVec.toNat_add, BitVec.toNat_ofNat]
  omega

end

/-! ## Code in memory -/

/-- The halfwords of `code` lie in memory from `base` on. -/
def CodeAt (M : Mem) (base : Word) (code : List Half) : Prop :=
  ∀ k h, code[k]? = some h → half M (base + BitVec.ofNat 32 (2 * k)) = h

/-- Memory `M` with the halfwords of `code` from `base` on. -/
def placeCode (M : Mem) (base : Word) (code : List Half) : Mem := fun a =>
  match code[(a - base).toNat / 2]? with
  | some h => h.extractLsb' (8 * ((a - base).toNat % 2)) 8
  | none => M a

theorem codeAt_placeCode {M : Mem} {base : Word} {code : List Half}
    (hlen : 2 * code.length ≤ 2 ^ 32) : CodeAt (placeCode M base code) base code := by
  intro k h hk
  obtain ⟨hlt, -⟩ := List.getElem?_eq_some_iff.1 hk
  have hbyte : ∀ j < 2, placeCode M base code (base + BitVec.ofNat 32 (2 * k) + BitVec.ofNat 32 j) =
      h.extractLsb' (8 * j) 8 := by
    intro j hj
    have ha : (base + BitVec.ofNat 32 (2 * k) + BitVec.ofNat 32 j - base).toNat = 2 * k + j := by
      rw [BitVec.add_assoc, ← BitVec.ofNat_add]
      exact toNat_add_sub base (by omega)
    have h1 : (2 * k + j) / 2 = k := by omega
    have h2 : (2 * k + j) % 2 = j := by omega
    simp only [placeCode, ha, h1, h2, hk]
  have := h.isLt
  apply BitVec.eq_of_toNat_eq
  simp only [half, Bytes.read, hbyte 0 (by decide), hbyte 1 (by decide), toNat_extract_byte,
    BitVec.toNat_ofNat]
  omega

theorem placeCode_of_not_within {M : Mem} {base a : Word} {code : List Half}
    (h : ¬ Within a base (2 * code.length)) : placeCode M base code a = M a := by
  have hn : code[(a - base).toNat / 2]? = none := by
    rw [List.getElem?_eq_none_iff]
    simp only [Within] at h
    omega
  simp only [placeCode, hn]

/-- The instruction at an offset, and its length. Both halfwords that `decode` sees are part of the
code, so that an instruction of one halfword is not the last one. -/
def instrAt (code : List Half) (off : Nat) : Option (Instr × Nat) :=
  match off % 2, code[off / 2]?, code[off / 2 + 1]? with
  | 0, some h1, some h2 => decode h1 h2
  | _, _, _ => none

/-- The offset behind the instructions `is`, if they are the ones at `off`. -/
def scan (code : List Half) : Nat → List Instr → Option Nat
  | off, [] => some off
  | off, i :: is => match instrAt code off with
    | some (j, len) => if j = i then scan code (off + len) is else none
    | none => none

section
variable {code : List Half} {off off' : Nat} {M M' : Mem} {base : Word} {i : Instr} {len : Nat}

theorem CodeAt.congr (h : CodeAt M base code)
    (hM : ∀ a, Within a base (2 * code.length) → M' a = M a) : CodeAt M' base code := by
  intro k x hx
  obtain ⟨hk, -⟩ := List.getElem?_eq_some_iff.1 hx
  rw [← h k x hx]
  refine half_congr fun j hj => hM _ ?_
  rw [BitVec.add_assoc, ← BitVec.ofNat_add]
  exact within_add (by omega)

theorem CodeAt.decode (h : CodeAt M base code) (hi : instrAt code off = some (i, len)) :
    Thumb.decode (half M (base + BitVec.ofNat 32 off)) (half M (base + BitVec.ofNat 32 off + 2)) =
      some (i, len) := by
  simp only [instrAt] at hi
  split at hi
  · rename_i h1 h2 h0 e1 e2
    have ho : off = 2 * (off / 2) := by omega
    have ha : base + BitVec.ofNat 32 off + 2 = base + BitVec.ofNat 32 (2 * (off / 2 + 1)) := by
      rw [Nat.mul_succ, ← ho, BitVec.ofNat_add, BitVec.add_assoc]
      rfl
    rw [ha, h _ h2 e2, ho, h _ h1 e1]
    exact hi
  · cases hi

theorem scan_cons {is : List Instr} (h : scan code off (i :: is) = some off') :
    ∃ len, instrAt code off = some (i, len) ∧ scan code (off + len) is = some off' := by
  simp only [scan] at h
  split at h
  · rename_i j len hi
    split at h
    · rename_i hji
      exact ⟨len, hji ▸ hi, h⟩
    · cases h
  · cases h

theorem scan_append {is js : List Instr} (h : scan code off (is ++ js) = some off') :
    ∃ mid, scan code off is = some mid ∧ scan code mid js = some off' := by
  induction is generalizing off with
  | nil => exact ⟨off, rfl, h⟩
  | cons i is ih =>
    obtain ⟨len, hi, hs⟩ := scan_cons h
    obtain ⟨mid, h1, h2⟩ := ih hs
    exact ⟨mid, by simp only [scan, hi, if_true, h1], h2⟩

theorem step_of_instrAt {unpriv : Word → Bool} {s t : State} (hc : CodeAt s.mem base code)
    (hi : instrAt code off = some (i, len)) (hpc : s.pc = base + BitVec.ofNat 32 off)
    (he : exec unpriv s len i = some t) : step unpriv s = .next t := by
  rw [step, hpc, hc.decode hi]
  simp only [he]

end

/-! ## Instructions on registers and flags -/

/-- Neither a store nor a branch. -/
def Instr.quiet : Instr → Bool
  | .strd .. | .push .. | .pop .. | .b .. => false
  | _ => true

/-- The registers that a quiet instruction writes. -/
def Instr.dests : Instr → List Reg
  | .movImm _ rd _ | .movTop rd _ | .movReg rd _ | .alu _ _ rd _ _ | .asr _ rd _ _
  | .subImm rd _ _ => [rd]
  | .ldr rt _ _ | .ldrt rt _ _ => [rt]
  | .ldrd rt rt2 _ _ => [rt, rt2]
  | _ => []

/-- Run quiet instructions; the program counter stays. -/
def compute (unpriv : Word → Bool) : List Instr → State → Option State
  | [], s => some s
  | i :: is, s => (exec unpriv s 0 i).bind (compute unpriv is)

section
variable {unpriv : Word → Bool} {i : Instr} {is js : List Instr} {s t u : State}

/-- A quiet instruction does not look at the program counter, and moves it by its length. -/
theorem exec_quiet (hq : i.quiet = true) (p : Word) (len : Nat) :
    exec unpriv { s with pc := p } len i =
      (exec unpriv s 0 i).map fun t => { t with pc := p + BitVec.ofNat 32 len } := by
  cases i with
  | strd | push | pop | b => cases hq
  | ldrt | ldrd =>
    simp only [exec]
    split <;> rfl
  | _ => rfl

theorem set_reg_of_ne {r r' : Reg} (v : Word) (h : r' ≠ r) : (s.set r v).reg r' = s.reg r' :=
  if_neg h

theorem exec_frame (hq : i.quiet = true) (h : exec unpriv s 0 i = some t) :
    t.mem = s.mem ∧ ∀ r, r ∉ i.dests → t.reg r = s.reg r := by
  cases i with
  | strd | push | pop | b => cases hq
  | cmp => cases h; exact ⟨rfl, fun _ _ => rfl⟩
  | ldrt =>
    simp only [exec, Option.ite_none_right_eq_some, Option.some.injEq] at h
    obtain ⟨-, rfl⟩ := h
    exact ⟨rfl, fun r hr => set_reg_of_ne _ fun e => hr (by simp [e, Instr.dests])⟩
  | ldrd =>
    simp only [exec, Option.ite_none_right_eq_some, Option.some.injEq] at h
    obtain ⟨-, rfl⟩ := h
    refine ⟨rfl, fun r hr => (set_reg_of_ne _ fun e => hr ?_).trans
      (set_reg_of_ne _ fun e => hr ?_)⟩
      <;> simp [e, Instr.dests]
  | _ =>
    cases h
    exact ⟨rfl, fun r hr => set_reg_of_ne _ fun e => hr (by simp [e, Instr.dests])⟩

theorem compute_append :
    compute unpriv (is ++ js) s = (compute unpriv is s).bind (compute unpriv js) := by
  induction is generalizing s with
  | nil => rfl
  | cons i is ih =>
    simp only [List.cons_append, compute, Option.bind_assoc, ih]

theorem compute_cons (h : compute unpriv (i :: is) s = some t) :
    ∃ u, exec unpriv s 0 i = some u ∧ compute unpriv is u = some t := Option.bind_eq_some_iff.1 h

theorem compute_quiet (hq : ∀ i ∈ is, i.quiet = true) (p : Word) :
    compute unpriv is { s with pc := p } =
      (compute unpriv is s).map fun t => { t with pc := p } := by
  induction is generalizing s with
  | nil => rfl
  | cons i is ih =>
    have hi : exec unpriv { s with pc := p } 0 i =
        (exec unpriv s 0 i).map fun t => { t with pc := p } := by
      rw [exec_quiet (hq i List.mem_cons_self)]
      simp only [BitVec.add_zero]
    simp only [compute, hi]
    cases exec unpriv s 0 i with
    | none => rfl
    | some u => exact ih fun j hj => hq j (List.mem_cons_of_mem _ hj)

/-- **What a run of quiet instructions leaves alone.** -/
theorem compute_frame (hq : ∀ i ∈ is, i.quiet = true) (h : compute unpriv is s = some t) :
    t.mem = s.mem ∧ ∀ r, r ∉ is.flatMap Instr.dests → t.reg r = s.reg r := by
  induction is generalizing s with
  | nil =>
    cases h
    exact ⟨rfl, fun _ _ => rfl⟩
  | cons i is ih =>
    obtain ⟨u, h1, h2⟩ := compute_cons h
    obtain ⟨hm, hr⟩ := ih (fun j hj => hq j (List.mem_cons_of_mem _ hj)) h2
    obtain ⟨hm', hr'⟩ := exec_frame (hq i List.mem_cons_self) h1
    refine ⟨hm.trans hm', fun r hn => ?_⟩
    rw [List.flatMap_cons, List.mem_append, not_or] at hn
    exact (hr r hn.2).trans (hr' r hn.1)

/-- **Running a sequence of quiet instructions**: memory is the same all the way. -/
theorem path_compute {code : List Half} {base : Word} {off off' : Nat}
    (hs : scan code off is = some off') (hq : ∀ i ∈ is, i.quiet = true)
    (hc : CodeAt s.mem base code) (hpc : s.pc = base + BitVec.ofNat 32 off)
    (h : compute unpriv is s = some t) :
    Path (step unpriv) (fun u => u.mem = s.mem) s { t with pc := base + BitVec.ofNat 32 off' } := by
  induction is generalizing s off t with
  | nil =>
    cases h
    cases hs
    rw [← hpc]
    exact .refl s
  | cons i is ih =>
    obtain ⟨len, hi, hs⟩ := scan_cons hs
    obtain ⟨u, h1, h2⟩ := compute_cons h
    have hqi := hq i List.mem_cons_self
    have hq' : ∀ j ∈ is, j.quiet = true := fun j hj => hq j (List.mem_cons_of_mem _ hj)
    have he : exec unpriv s len i = some { u with pc := s.pc + BitVec.ofNat 32 len } := by
      have h : exec unpriv { s with pc := s.pc } len i = _ := exec_quiet hqi s.pc len
      rw [h1] at h
      exact h
    have hm : u.mem = s.mem := (exec_frame hqi h1).1
    have hp : s.pc + BitVec.ofNat 32 len = base + BitVec.ofNat 32 (off + len) := by
      rw [hpc, BitVec.add_assoc, BitVec.ofNat_add]
    refine .head (step_of_instrAt hc hi hpc he) hm ?_
    have h3 : compute unpriv is { u with pc := s.pc + BitVec.ofNat 32 len } = _ :=
      compute_quiet hq' _
    rw [h2] at h3
    rw [← hm]
    exact ih (t := { t with pc := s.pc + BitVec.ofNat 32 len }) hs hq' (hm ▸ hc) hp h3

end

/-! ## Lists of registers -/

theorem loadAll_reg {M : Mem} {rs : List Reg} {r : Reg} (hr : r ∉ rs) :
    ∀ {a : Word} {s : State}, (loadAll M a rs s).reg r = s.reg r := by
  induction rs with
  | nil => exact rfl
  | cons q rs ih =>
    intro a s
    rw [List.mem_cons, not_or] at hr
    rw [loadAll, ih hr.2]
    split
    · rfl
    · exact set_reg_of_ne _ hr.1

theorem loadAll_mem {M : Mem} {rs : List Reg} :
    ∀ {a : Word} {s : State}, (loadAll M a rs s).mem = s.mem := by
  induction rs with
  | nil => exact rfl
  | cons q rs ih =>
    intro a s
    rw [loadAll, ih]
    split <;> rfl

/-- The registers of a list get the words from `a` on. -/
theorem loadAll_get {M : Mem} {rs : List Reg} {r : Reg} {i : Nat} (hnd : rs.Nodup)
    (hi : rs[i]? = some r) (h15 : r ≠ 15) (hsp : r ≠ sp) :
    ∀ {a : Word} {s : State}, (loadAll M a rs s).reg r = word M (a + BitVec.ofNat 32 (4 * i)) := by
  induction rs generalizing i with
  | nil => cases hi
  | cons q rs ih =>
    intro a s
    rw [List.nodup_cons] at hnd
    cases i with
    | zero =>
      cases hi
      rw [loadAll, loadAll_reg hnd.1, if_neg h15]
      simp [State.set, hsp]
    | succ i =>
      have e : a + 4 + BitVec.ofNat 32 (4 * i) = a + BitVec.ofNat 32 (4 * (i + 1)) := by
        rw [BitVec.add_assoc, show (4 : Word) = BitVec.ofNat 32 4 from rfl, ← BitVec.ofNat_add,
          Nat.add_comm, Nat.mul_succ]
      rw [loadAll, ih hnd.2 hi, e]

/-- A word whose two low bits are clear is kept by a write to the stack pointer. -/
theorem set_sp_of_aligned {s : State} {v : Word} (h : v.toNat % 4 = 0) :
    (s.set sp v).reg sp = v := by
  simp only [State.set, if_true]
  apply BitVec.eq_of_getLsbD_eq
  intro i hi
  have hmask : ∀ j < 32, 2 ≤ j → (0xfffffffc : Word).getLsbD j = true := by decide
  rw [BitVec.getLsbD_and]
  by_cases h2 : 2 ≤ i
  · rw [hmask i hi h2, Bool.and_true]
  · have hv : v.getLsbD i = false := by
      rw [BitVec.getLsbD, Nat.testBit_eq_decide_div_mod_eq, decide_eq_false_iff_not]
      obtain rfl | rfl : i = 0 ∨ i = 1 := by omega
      all_goals omega
    rw [hv, Bool.false_and]

section
variable {unpriv : Word → Bool} {s : State} {len : Nat} {regs : BitVec 16}

theorem exec_push {a : Word} (ha : s.reg sp - BitVec.ofNat 32 (4 * (regList regs).length) = a)
    (h4 : a.toNat % 4 = 0) :
    ∃ t, exec unpriv s len (.push regs) = some t ∧ t.pc = s.pc + BitVec.ofNat 32 len ∧
      t.reg sp = a ∧ (∀ r, r ≠ sp → t.reg r = s.reg r) ∧
      t.mem = storeAll s.mem a ((regList regs).map s.reg) := by
  subst ha
  have hal : aligned (s.reg sp - BitVec.ofNat 32 (4 * (regList regs).length)) = true := by
    rw [aligned, h4]
    rfl
  exact ⟨_, if_pos hal, rfl, set_sp_of_aligned (s := s) h4, fun r hr => set_reg_of_ne _ hr, rfl⟩

/-- A list with the program counter in it ends in a return; the other registers of the list get
their words, and the stack pointer moves over them. -/
theorem exec_pop {target : Word} (h15 : regs.getLsbD 15 = true) (h4 : (s.reg sp).toNat % 4 = 0)
    (ht : word s.mem (s.reg sp + BitVec.ofNat 32 (4 * ((regList regs).length - 1))) = target)
    (hb : target.getLsbD 0 = true) (hnd : (regList regs).Nodup) :
    ∃ t, exec unpriv s len (.pop regs) = some t ∧ t.pc = target &&& 0xfffffffe ∧ t.mem = s.mem ∧
      t.reg sp = s.reg sp + BitVec.ofNat 32 (4 * (regList regs).length) ∧
      (∀ r, r ∉ regList regs → r ≠ sp → t.reg r = s.reg r) ∧
      ∀ i r, (regList regs)[i]? = some r → r ≠ 15 → r ≠ sp →
        t.reg r = word s.mem (s.reg sp + BitVec.ofNat 32 (4 * i)) := by
  have hal : aligned (s.reg sp) = true := by
    rw [aligned, h4]
    rfl
  refine ⟨{ (loadAll s.mem (s.reg sp) (regList regs) s).set sp
    (s.reg sp + BitVec.ofNat 32 (4 * (regList regs).length)) with pc := target &&& 0xfffffffe },
    ?_, rfl, loadAll_mem, ?_, fun r hr hsp => (set_reg_of_ne _ hsp).trans (loadAll_reg hr),
    fun i r hi hr15 hsp => (set_reg_of_ne _ hsp).trans (loadAll_get hnd hi hr15 hsp)⟩
  · simp only [exec, hal, if_true, h15, ht, hb]
  · refine set_sp_of_aligned (s := loadAll s.mem (s.reg sp) (regList regs) s) ?_
    rw [BitVec.toNat_add, BitVec.toNat_ofNat]
    omega

end

end Thumb
