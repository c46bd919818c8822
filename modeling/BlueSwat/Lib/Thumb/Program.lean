import BlueSwat.Lib.Thumb.Line

/-!
# Thumb code as a program

The instructions of `Thumb.Line` under a program counter. The code is a list of halfwords at a base
address, apart from the data memory: no store writes it.

* `Program.reach_line`: a piece of code that `runLine` runs to its end is run by the machine, and
  the program counter is at the end of the piece.
* `Program.step_branch`: a piece that is one branch goes where the branch says, or on.
* `Program.step_first`: the first instruction of a piece, whatever it is.
-/

set_option autoImplicit false

namespace Thumb

open Machine

/-! ## The machine -/

/-- The first instruction of a piece of code, and its length in halfwords; an `IT` counts with what
stands under it. -/
def decodeFirst : List Half → Option (Inst × Nat)
  | [] => none
  | h1 :: hs =>
    if isWide h1 then match hs with
      | h2 :: _ => (decodeWide h1 h2).map (·, 2)
      | [] => none
    else match itCond h1, hs with
      | some c, h2 :: h3 :: _ => if isWide h2 then (decodeWide h2 h3).map (.held c ·, 3) else none
      | some _, _ => none
      | none, _ => (decodeNarrow h1).map (·, 1)

/-- An instruction of `len` bytes at the program counter. -/
def Inst.execAt (sys : Sys) (s : State) (len : Nat) : Inst → Option State
  | .base i => Thumb.exec sys.unpriv s len i
  | i => (i.exec sys s).map (·.skip len)

structure Program where
  code : List Half
  base : Word

namespace Program

def fetch (P : Program) (pc : Word) : Option (Inst × Nat) :=
  let d := (pc - P.base).toNat
  if d % 2 = 0 then decodeFirst (P.code.drop (d / 2)) else none

def step (P : Program) (sys : Sys) (s : State) : Outcome State Unit :=
  match P.fetch s.pc with
  | none => .done ()
  | some (i, n) => match i.execAt sys s (2 * n) with
    | none => .done ()
    | some s' => .next s'

/-- The address of byte `a` of the code. -/
def addr (P : Program) (a : Nat) : Word := P.base + BitVec.ofNat 32 a

/-- The piece `c` is at byte `a` of the code. -/
structure Has (P : Program) (a : Nat) (c : List Half) : Prop where
  split : ∃ pre post, P.code = pre ++ (c ++ post) ∧ 2 * pre.length = a
  short : 2 * P.code.length < 2 ^ 32

end Program

/-! ## Straight-line instructions do not look at the program counter -/

section
variable {sys : Sys} {i : Inst} {is : List Inst} {s t : State} {b : Bool}

theorem exec_straight (unpriv : Word → Bool) {i : Instr} (h : i.straight = true) (s : State)
    (p : Word) (len : Nat) :
    exec unpriv { s with pc := p } len i =
      (exec unpriv s 0 i).map fun t => { t with pc := p + BitVec.ofNat 32 len } := by
  cases i with
  | push | pop | b => cases h
  | ldrt | ldrd | strd =>
    simp only [exec]
    split <;> rfl
  | _ => rfl

theorem Inst.exec_pc (p : Word) :
    i.exec sys { s with pc := p } = (i.exec sys s).map fun t => { t with pc := p } := by
  induction i with
  | base i =>
    simp only [Inst.exec]
    split
    · rename_i h
      rw [exec_straight _ h s p 0]
      simp only [BitVec.add_zero]
    · rfl
  | held cond i ih =>
    simp only [Inst.exec]
    split
    · exact ih
    · rfl
  | udiv =>
    simp only [Inst.exec]
    split <;> rfl
  | load w unpriv rt rn ix =>
    simp only [Inst.exec, State.writeBack]
    split
    · split <;> rfl
    · rfl
  | store w unpriv rt rn ix =>
    simp only [Inst.exec, State.writeBack]
    split
    · split <;> rfl
    · rfl
  | _ => rfl

theorem runLine_pc (p : Word) :
    runLine sys is { s with pc := p } = (runLine sys is s).map fun r => ({ r.1 with pc := p },
      r.2) := by
  induction is generalizing s with
  | nil => rfl
  | cons i is ih =>
    by_cases hb : ∃ cond off, i = .base (.b cond off)
    · obtain ⟨cond, off, rfl⟩ := hb
      rw [runLine, runLine]
      split
      · rfl
      · exact ih
    · have hb' : ∀ cond off, i ≠ .base (.b cond off) := fun c o e => hb ⟨c, o, e⟩
      rw [runLine_cons hb', runLine_cons hb', Inst.exec_pc]
      cases i.exec sys s with
      | none => rfl
      | some u => exact ih

/-- Code without a branch runs to its end. -/
theorem runLine_quiet (hq : ∀ i ∈ is, i.quiet = true) (h : runLine sys is s = some (t, b)) :
    b = false := by
  induction is generalizing s with
  | nil =>
    cases h
    rfl
  | cons i is ih =>
    have hi := hq i List.mem_cons_self
    rw [runLine_cons fun _ _ e => by subst e; cases hi] at h
    obtain ⟨u, -, h2⟩ := Option.bind_eq_some_iff.1 h
    exact ih (fun j hj => hq j (List.mem_cons_of_mem _ hj)) h2

end

/-! ## Instructions at their places -/

/-- **The first instruction of a piece**, and the rest, whatever comes behind. -/
theorem disassemble_inv {h1 : Half} {hs : List Half} {is : List Inst}
    (h : disassemble (h1 :: hs) = some is) :
    ∃ i js c1 c2, is = i :: js ∧ h1 :: hs = c1 ++ c2 ∧ disassemble c2 = some js ∧
      ∀ post, decodeFirst (c1 ++ post) = some (i, c1.length) := by
  have split : ∀ {o : Option Inst} {hs : List Half} {f : Inst → Inst},
      (o.bind fun i => (disassemble hs).map (f i :: ·)) = some is →
      ∃ j js, is = f j :: js ∧ o = some j ∧ disassemble hs = some js := by
    intro o hs f h
    obtain ⟨j, rfl, h⟩ := Option.bind_eq_some_iff.1 h
    obtain ⟨js, hjs, rfl⟩ := Option.map_eq_some_iff.1 h
    exact ⟨j, js, rfl, rfl, hjs⟩
  rw [disassemble.eq_def] at h
  by_cases hw : isWide h1 = true
  · cases hs with
    | nil =>
      simp only [if_pos hw] at h
      cases h
    | cons h2 hs =>
      simp only [if_pos hw] at h
      obtain ⟨j, js, rfl, hj, hrest⟩ := split (f := id) h
      refine ⟨j, js, [h1, h2], hs, rfl, rfl, hrest, fun post => ?_⟩
      simp only [List.cons_append, decodeFirst, if_pos hw, hj]
      rfl
  · cases hit : itCond h1 with
    | none =>
      simp only [if_neg hw, hit] at h
      obtain ⟨j, js, rfl, hj, hrest⟩ := split (f := id) h
      refine ⟨j, js, [h1], hs, rfl, rfl, hrest, fun post => ?_⟩
      simp only [List.cons_append, decodeFirst, if_neg hw, hit, hj]
      rfl
    | some cond =>
      simp only [if_neg hw, hit] at h
      rcases hs with _ | ⟨h2, _ | ⟨h3, hs⟩⟩
      · cases h
      · cases h
      · obtain ⟨hw2, h⟩ := Option.ite_none_right_eq_some.1 h
        obtain ⟨j, js, rfl, hj, hrest⟩ := split h
        refine ⟨.held cond j, js, [h1, h2, h3], hs, rfl, rfl, hrest, fun post => ?_⟩
        simp only [List.cons_append, decodeFirst, if_neg hw, hit, if_pos hw2, hj]
        rfl

theorem eq_nil_of_disassemble {c : List Half} (h : disassemble c = some []) : c = [] := by
  cases c with
  | nil => rfl
  | cons h1 hs =>
    obtain ⟨i, js, -, -, he, -⟩ := disassemble_inv h
    cases he

namespace Program

variable {P : Program} {sys : Sys} {a : Nat} {c c' : List Half} {i : Inst} {is : List Inst}
  {s t : State}

theorem Has.left (h : P.Has a (c ++ c')) : P.Has a c := by
  obtain ⟨pre, post, he, ha⟩ := h.split
  exact ⟨⟨pre, c' ++ post, by rw [he, List.append_assoc], ha⟩, h.short⟩

theorem Has.right (h : P.Has a (c ++ c')) : P.Has (a + 2 * c.length) c' := by
  obtain ⟨pre, post, he, ha⟩ := h.split
  refine ⟨⟨pre ++ c, post, by rw [he, List.append_assoc, List.append_assoc], ?_⟩, h.short⟩
  rw [List.length_append]
  omega

theorem Has.le (h : P.Has a c) : a + 2 * c.length < 2 ^ 32 := by
  obtain ⟨pre, post, he, ha⟩ := h.split
  have := h.short
  rw [he, List.length_append, List.length_append] at this
  omega

theorem addr_add (P : Program) (a n : Nat) : P.addr a + BitVec.ofNat 32 n = P.addr (a + n) := by
  rw [addr, addr, BitVec.add_assoc, BitVec.ofNat_add]

theorem fetch_of_has (h : P.Has a c) (hd : ∀ post, decodeFirst (c ++ post) = some (i, c.length)) :
    P.fetch (P.addr a) = some (i, c.length) := by
  have hlt : a < 2 ^ 32 := by
    have := h.le
    omega
  obtain ⟨pre, post, he, rfl⟩ := h.split
  have hoff : (P.addr (2 * pre.length) - P.base).toNat = 2 * pre.length := by
    rw [addr, BitVec.add_comm, BitVec.add_sub_cancel, BitVec.toNat_ofNat, Nat.mod_eq_of_lt hlt]
  rw [fetch, hoff, if_pos (Nat.mul_mod_right 2 _), Nat.mul_div_cancel_left _ (by decide), he,
    List.drop_left]
  exact hd post

theorem step_of_has (h : P.Has a c) (hd : ∀ post, decodeFirst (c ++ post) = some (i, c.length))
    (hpc : s.pc = P.addr a) (he : i.execAt sys s (2 * c.length) = some t) :
    P.step sys s = .next t := by
  rw [step, hpc, fetch_of_has h hd]
  simp only [he]

theorem execAt_of_exec (h : i.exec sys s = some t) (len : Nat) :
    i.execAt sys s len = some { t with pc := s.pc + BitVec.ofNat 32 len } := by
  have hpc : i.exec sys { s with pc := s.pc } = _ := Inst.exec_pc s.pc
  have htpc : t.pc = s.pc := by
    rw [h] at hpc
    calc t.pc = ({ t with pc := s.pc } : State).pc := congrArg State.pc (Option.some.inj hpc)
      _ = s.pc := rfl
  cases i with
  | base i =>
    rw [Inst.exec] at h
    obtain ⟨hs, h⟩ := Option.ite_none_right_eq_some.1 h
    have := exec_straight sys.unpriv hs s s.pc len
    rw [h] at this
    exact this
  | _ => simp only [Inst.execAt, h, Option.map_some, State.skip, htpc]

/-- The first instruction of a piece is executed, and the rest is behind it. -/
theorem step_first (sys : Sys) (h : P.Has a c) (hd : disassemble c = some (i :: is))
    (hpc : s.pc = P.addr a) :
    ∃ c1 c2, c = c1 ++ c2 ∧ disassemble c2 = some is ∧ P.Has (a + 2 * c1.length) c2 ∧
      ∀ {t : State}, i.execAt sys s (2 * c1.length) = some t → P.step sys s = .next t := by
  cases c with
  | nil => cases hd
  | cons h1 hs =>
    obtain ⟨j, js, c1, c2, he, hc, hd2, hfirst⟩ := disassemble_inv hd
    cases he
    rw [hc] at h
    exact ⟨c1, c2, hc, hd2, h.right, fun ht => step_of_has h.left hfirst hpc ht⟩

/-- **A piece of code that runs to its end.** -/
theorem reach_line (h : P.Has a c) (hd : disassemble c = some is)
    (hr : runLine sys is s = some (t, false)) (hpc : s.pc = P.addr a) :
    Reach (P.step sys) s { t with pc := P.addr (a + 2 * c.length) } := by
  induction is generalizing a c s t with
  | nil =>
    obtain rfl := eq_nil_of_disassemble hd
    obtain rfl : s = t := (Prod.mk.inj (Option.some.inj hr)).1
    rw [List.length_nil, Nat.mul_zero, Nat.add_zero, ← hpc]
    exact .refl s
  | cons i is ih =>
    obtain ⟨c1, c2, rfl, hd2, hright, hstep⟩ := step_first sys h hd hpc
    have hnext : P.addr a + BitVec.ofNat 32 (2 * c1.length) = P.addr (a + 2 * c1.length) :=
      addr_add P a _
    -- after the first instruction in state `u`, the rest runs behind it
    have hgo : ∀ u, P.step sys s = .next { u with pc := P.addr (a + 2 * c1.length) } →
        runLine sys is u = some (t, false) →
        Reach (P.step sys) s { t with pc := P.addr (a + 2 * (c1 ++ c2).length) } := by
      intro u hu hline
      have hrun : runLine sys is { u with pc := P.addr (a + 2 * c1.length) } =
          some ({ t with pc := P.addr (a + 2 * c1.length) }, false) := by
        rw [runLine_pc, hline]
        rfl
      have hrest := ih (s := { u with pc := P.addr (a + 2 * c1.length) }) hright hd2 hrun rfl
      rw [List.length_append, Nat.mul_add, ← Nat.add_assoc]
      exact .head hu hrest
    by_cases hb : ∃ cond off, i = .base (.b cond off)
    · obtain ⟨cond, off, rfl⟩ := hb
      rw [runLine] at hr
      split at hr
      · cases hr
      · rename_i hnot
        refine hgo s (hstep ?_) hr
        simp only [Inst.execAt, exec, if_neg hnot, State.skip, hpc, hnext]
    · rw [runLine_cons fun cond off e => hb ⟨cond, off, e⟩] at hr
      obtain ⟨u, h1, h2⟩ := Option.bind_eq_some_iff.1 hr
      refine hgo u (hstep ?_) h2
      rw [execAt_of_exec h1, hpc, hnext]

/-- **A branch** goes where it says, or on. -/
theorem step_branch {cond : BitVec 4} {off : Word} (h : P.Has a c)
    (hd : disassemble c = some [.base (.b cond off)]) (hpc : s.pc = P.addr a) :
    P.step sys s = .next { s with
      pc := if s.flags.passes cond then P.addr a + 4 + off else P.addr (a + 2 * c.length) } := by
  obtain ⟨c1, c2, rfl, hd2, -, hstep⟩ := step_first sys h hd hpc
  obtain rfl := eq_nil_of_disassemble hd2
  refine hstep ?_
  simp only [Inst.execAt, exec, State.skip, hpc, addr_add, List.append_nil]
  split <;> rfl

end Program

end Thumb
