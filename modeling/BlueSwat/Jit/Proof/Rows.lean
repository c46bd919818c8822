import BlueSwat.Jit.Template
import BlueSwat.Lib.Thumb.Pair

/-!
# Rows of the machine

`rowVal s r` is the 64-bit value that the machine state `s` keeps for the eBPF register `r`. Between
prologue and epilogue the machine is in a `Frame`: `fp` stands on the saved registers, and memory
has changed in the stack frame only. `block_run` runs a template that writes one row, `branch_run` a
comparison and its branch; both keep the frame and the other rows, and what the caller wants back
(`Moves`).
-/

set_option autoImplicit false

namespace BlueSwat.Jit

open Thumb Machine Bytes

/-! ## Values of rows -/

/-- The value of a row. -/
def rowVal (s : State) (r : BitVec 4) : BitVec 64 :=
  if onStack r then
    pair (word s.mem (s.reg fp + slotAt r + 4)) (word s.mem (s.reg fp + slotAt r))
  else pair (s.reg (heldHi r)) (s.reg (heldLo r))

/-- What the registers of a row hold during an operation. -/
def heldVal (s : State) (r : BitVec 4) : BitVec 64 := pair (s.reg (heldHi r)) (s.reg (heldLo r))

/-- The registers of a row are two, and neither holds an immediate or has a special use. -/
theorem held_ne : ∀ r : BitVec 4, r.toNat < 11 →
    heldLo r ≠ heldHi r ∧ ∀ q ∈ [heldLo r, heldHi r], q ∉ [tmp2Lo, tmp2Hi, fp, sp] := by decide

theorem held_not_scratch : ∀ r : BitVec 4, r.toNat < 11 → onStack r = false →
    heldLo r ∉ scratch ∧ heldHi r ∉ scratch := by decide

theorem held_inj : ∀ r r' : BitVec 4, r.toNat < 11 → r'.toNat < 11 → r' ≠ r →
    onStack r = false → onStack r' = false →
    ∀ q ∈ [heldLo r', heldHi r'], q ≠ heldLo r ∧ q ≠ heldHi r := by decide

/-- A row on the stack is one of the eight below `fp`. -/
theorem slotAt_range : ∀ r : BitVec 4, r.toNat < 11 → onStack r = true →
    (slotAt r).toNat % 4 = 0 ∧ 2 ^ 32 - 64 ≤ (slotAt r).toNat ∧ (slotAt r).toNat ≤ 2 ^ 32 - 8 := by
  decide

theorem slotAt_apart : ∀ r r' : BitVec 4, r.toNat < 11 → r'.toNat < 11 → r' ≠ r →
    onStack r = true → onStack r' = true →
    8 ≤ (slotAt r' - slotAt r).toNat ∧ (slotAt r' - slotAt r).toNat ≤ 2 ^ 32 - 8 := by decide

theorem add_sub_add (t x y : Word) : (t + x) - (t + y) = x - y := by
  apply BitVec.eq_of_toNat_eq
  have := t.isLt
  have := x.isLt
  have := y.isLt
  simp only [BitVec.toNat_sub, BitVec.toNat_add]
  omega

/-- A row depends on its registers, or on `fp` and memory. -/
theorem rowVal_congr {s t : State} {r : BitVec 4} (hm : t.mem = s.mem) (hf : t.reg fp = s.reg fp)
    (hr : onStack r = false → t.reg (heldLo r) = s.reg (heldLo r) ∧
      t.reg (heldHi r) = s.reg (heldHi r)) :
    rowVal t r = rowVal s r := by
  cases h : onStack r with
  | true => simp only [rowVal, h, if_true, hm, hf]
  | false => simp only [rowVal, h, Bool.false_eq_true, if_false, (hr h).1, (hr h).2]

/-! ## The stack frame -/

/-- `top` is the address in `fp`: above it are the saved registers with the return address `lr`
last, below it the rows and the rest of the frame. -/
structure Frame (top lr : Word) (M0 : Mem) (s : State) : Prop where
  fp : s.reg fp = top
  saved : word s.mem (top + 28) = lr
  outside : ∀ a, ¬ Within a (top - 256) 288 → s.mem a = M0 a

/-- The callee-saved register that the code does not use. -/
def r10 : Reg := 10

/-- From `s` to `s'` the machine stays in the frame: no state on the way has other bytes outside of
it, and the saved registers and `r10` are as they were. -/
structure Moves (unpriv : Word → Bool) (top : Word) (M0 : Mem) (s s' : State) : Prop where
  path : Path (step unpriv) (fun u => ∀ a, ¬ Within a (top - 256) 288 → u.mem a = M0 a) s s'
  saved : ∀ i < 8, word s'.mem (top + BitVec.ofNat 32 (4 * i)) =
    word s.mem (top + BitVec.ofNat 32 (4 * i))
  r10 : s'.reg r10 = s.reg r10

/-- The code is in memory, and the frame is aligned and does not overlap it. -/
structure Room (code : Code) (base top : Word) (M0 : Mem) : Prop where
  aligned : top.toNat % 4 = 0
  placed : CodeAt M0 base code
  apart : ∀ a, Within a (top - 256) 288 → ¬ Within a base (2 * code.length)

section
variable {code : Code} {base top lr : Word} {M0 : Mem} {s t : State} {r : BitVec 4}
  {unpriv : Word → Bool} {is : List Instr} {off off' : Nat}

theorem Frame.codeAt (hF : Frame top lr M0 s) (hR : Room code base top M0) :
    CodeAt s.mem base code :=
  hR.placed.congr fun a ha => hF.outside a fun hw => hR.apart a hw ha

theorem Frame.of_eq (hF : Frame top lr M0 s) (hm : t.mem = s.mem)
    (hf : t.reg Jit.fp = s.reg Jit.fp) :
    Frame top lr M0 t where
  fp := hf.trans hF.fp
  saved := hm ▸ hF.saved
  outside a ha := hm ▸ hF.outside a ha

/-- Where memory does not change, the machine stays in the frame. -/
theorem Frame.path (hF : Frame top lr M0 s) (h : Path (step unpriv) (fun u => u.mem = s.mem) s t) :
    Path (step unpriv) (fun u => ∀ a, ¬ Within a (top - 256) 288 → u.mem a = M0 a) s t :=
  h.mono fun _ hu a ha => (congrFun hu a).trans (hF.outside a ha)

theorem Moves.trans (h : Moves unpriv top M0 s t) {u : State} (h' : Moves unpriv top M0 t u) :
    Moves unpriv top M0 s u where
  path := h.path.trans h'.path
  saved i hi := (h'.saved i hi).trans (h.saved i hi)
  r10 := h'.r10.trans h.r10

theorem aligned_slotAt (hA : top.toNat % 4 = 0) (hr : r.toNat < 11) (hs : onStack r = true) :
    aligned (top + slotAt r) = true := by
  obtain ⟨h4, -⟩ := slotAt_range r hr hs
  rw [aligned, beq_iff_eq, BitVec.toNat_add]
  omega

/-- The rows are below the saved registers. -/
theorem saved_store (hr : r.toNat < 11) (hs : onStack r = true) (M : Mem) (x y : Word) {i : Nat}
    (hi : i < 8) :
    word (storeAll M (top + slotAt r) [x, y]) (top + BitVec.ofNat 32 (4 * i)) =
      word M (top + BitVec.ofNat 32 (4 * i)) := by
  obtain ⟨-, h1, h2⟩ := slotAt_range r hr hs
  refine word_storeAll_of_apart ?_ ?_ <;>
    rw [add_sub_add, BitVec.toNat_sub] <;> simp <;> omega

/-- Storing a row keeps the frame. -/
theorem Frame.store (hF : Frame top lr M0 s) (hr : r.toNat < 11) (hs : onStack r = true)
    (x y : Word) :
    Frame top lr M0 { s with mem := storeAll s.mem (top + slotAt r) [x, y] } where
  fp := hF.fp
  saved := (saved_store hr hs s.mem x y (i := 7) (by decide)).trans hF.saved
  outside a ha := by
    obtain ⟨-, h1, h2⟩ := slotAt_range r hr hs
    refine (storeAll_of_not_within fun hw => ha ?_).trans (hF.outside a ha)
    have := a.isLt
    have := top.isLt
    have h256 : (256 : Word).toNat = 256 := rfl
    simp only [Within, BitVec.toNat_sub, BitVec.toNat_add, List.length_cons,
      List.length_nil] at hw ⊢
    omega

theorem two_words {x y : Word} : 4 * [x, y].length ≤ 2 ^ 32 := by simp

/-- Storing a row writes it and no other. -/
theorem rowVal_store (hf : s.reg fp = top) (hr : r.toNat < 11) (hs : onStack r = true)
    (x y : Word) :
    rowVal { s with mem := storeAll s.mem (top + slotAt r) [x, y] } r = pair y x ∧
      ∀ r', r'.toNat < 11 → r' ≠ r →
        rowVal { s with mem := storeAll s.mem (top + slotAt r) [x, y] } r' = rowVal s r' := by
  constructor
  · have h0 : word (storeAll s.mem (top + slotAt r) [x, y]) (top + slotAt r) = x := by
      have h : word (storeAll s.mem (top + slotAt r) [x, y])
          (top + slotAt r + BitVec.ofNat 32 (4 * 0)) = x := word_storeAll two_words rfl
      simpa using h
    have h1 : word (storeAll s.mem (top + slotAt r) [x, y]) (top + slotAt r + 4) = y :=
      word_storeAll (i := 1) two_words rfl
    simp only [rowVal, hs, if_true, hf, h0, h1]
  · intro r' hr' hne
    cases hs' : onStack r' with
    | false => simp only [rowVal, hs', Bool.false_eq_true, if_false]
    | true =>
      obtain ⟨h1, h2⟩ := slotAt_apart r r' hr hr' hne hs hs'
      have e0 : word (storeAll s.mem (top + slotAt r) [x, y]) (top + slotAt r') =
          word s.mem (top + slotAt r') := by
        refine word_storeAll_of_apart ?_ ?_ <;> rw [add_sub_add]
        · exact h1
        · omega
      have e4 : word (storeAll s.mem (top + slotAt r) [x, y]) (top + slotAt r' + 4) =
          word s.mem (top + slotAt r' + 4) := by
        have hadd : (slotAt r' + 4 - slotAt r).toNat = (slotAt r' - slotAt r).toNat + 4 := by
          have := (slotAt r).isLt
          have := (slotAt r').isLt
          simp only [BitVec.toNat_sub, BitVec.toNat_add, show (4 : Word).toNat = 4 from rfl] at *
          omega
        refine word_storeAll_of_apart ?_ ?_ <;> rw [BitVec.add_assoc, add_sub_add, hadd]
        · exact Nat.le_add_right_of_le h1
        · omega
      simp only [rowVal, hs', if_true, hf, e0, e4]

/-! ## Templates -/

theorem tame_quiet (h : tame r is = true) : ∀ i ∈ is, i.quiet = true := by
  intro i hi
  have := List.all_eq_true.1 h i hi
  rw [Bool.and_eq_true] at this
  exact this.1

theorem tame_dests {q : Reg} (h : tame r is = true) (hq : q ∈ is.flatMap Instr.dests) :
    q ∈ scratch ∨ onStack r = false ∧ (q = heldLo r ∨ q = heldHi r) := by
  obtain ⟨i, hi, hqi⟩ := List.mem_flatMap.1 hq
  have := List.all_eq_true.1 h i hi
  rw [Bool.and_eq_true] at this
  simpa using List.all_eq_true.1 this.2 q hqi

/-- Neither the frame pointer nor `r10` is a scratch register or holds a row. -/
theorem reserved_ne : ∀ q ∈ [fp, r10], q ∉ scratch ∧
    ∀ r : BitVec 4, r.toNat < 11 → q ≠ heldLo r ∧ q ≠ heldHi r := by decide

/-- What a template leaves alone: memory, `fp`, `r10` and the other rows. -/
theorem tame_frame (h : tame r is = true) (hr : r.toNat < 11) (hc : compute unpriv is s = some t) :
    t.mem = s.mem ∧ t.reg fp = s.reg fp ∧ t.reg r10 = s.reg r10 ∧
      ∀ r', r'.toNat < 11 → r' ≠ r → rowVal t r' = rowVal s r' := by
  obtain ⟨hm, hk⟩ := compute_frame (tame_quiet h) hc
  have hres : ∀ q ∈ [fp, r10], t.reg q = s.reg q := by
    intro q hq
    obtain ⟨h1, h2⟩ := reserved_ne q hq
    refine hk q fun hd => ?_
    obtain hd | ⟨-, hd⟩ := tame_dests h hd
    · exact h1 hd
    · exact hd.elim (h2 r hr).1 (h2 r hr).2
  have hfp : t.reg fp = s.reg fp := hres fp (by simp)
  refine ⟨hm, hfp, hres r10 (by simp), fun r' hr' hne => rowVal_congr hm hfp fun hs' => ?_⟩
  have key : ∀ q ∈ [heldLo r', heldHi r'], t.reg q = s.reg q := by
    intro q hq
    refine hk q fun hd => ?_
    obtain ⟨h1, h2⟩ := held_not_scratch r' hr' hs'
    obtain hd | ⟨hs, hd⟩ := tame_dests h hd
    · simp only [List.mem_cons, List.not_mem_nil, or_false] at hq
      obtain rfl | rfl := hq
      · exact h1 hd
      · exact h2 hd
    · obtain ⟨h3, h4⟩ := held_inj r r' hr hr' hne hs hs' q hq
      exact hd.elim h3 h4
  exact ⟨key _ (by simp), key _ (by simp)⟩

/-- The state after row `r` is stored from two registers. -/
def stored (s : State) (r : BitVec 4) (lo hi : Reg) (pc : Word) : State :=
  { s with mem := storeAll s.mem (s.reg fp + slotAt r) [s.reg lo, s.reg hi], pc }

theorem Frame.stored (hF : Frame top lr M0 s) (hr : r.toNat < 11) (hs : onStack r = true)
    (lo hi : Reg) (pc : Word) : Frame top lr M0 (stored s r lo hi pc) :=
  (hF.store hr hs (s.reg lo) (s.reg hi)).of_eq (by rw [Jit.stored, hF.fp]) rfl

theorem step_stored {lo hi : Reg} {len : Nat} (hR : Room code base top M0) (hF : Frame top lr M0 s)
    (hr : r.toNat < 11) (hs : onStack r = true)
    (hat : instrAt code off = some (.strd lo hi fp (slotAt r), len))
    (hpc : s.pc = base + BitVec.ofNat 32 off) :
    step unpriv s = .next (stored s r lo hi (base + BitVec.ofNat 32 (off + len))) := by
  have ha : aligned (s.reg fp + slotAt r) = true := hF.fp ▸ aligned_slotAt hR.aligned hr hs
  refine step_of_instrAt (hF.codeAt hR) hat hpc ((if_pos ha).trans ?_)
  rw [BitVec.ofNat_add, ← BitVec.add_assoc, ← hpc]
  rfl

theorem moves_stored {len : Nat} (hR : Room code base top M0) (hF : Frame top lr M0 s)
    (hr : r.toNat < 11) (hs : onStack r = true)
    (hat : instrAt code off = some (.strd tmpLo tmpHi fp (slotAt r), len))
    (hpc : s.pc = base + BitVec.ofNat 32 off) :
    Moves unpriv top M0 s (stored s r tmpLo tmpHi (base + BitVec.ofNat 32 (off + len))) where
  path := .tail (.refl s) (step_stored hR hF hr hs hat hpc) (hF.stored hr hs tmpLo tmpHi _).outside
  saved i hi := by
    rw [stored, hF.fp]
    exact saved_store hr hs s.mem _ _ hi
  r10 := rfl

/-- **Running a template that writes a row.** -/
theorem block_run (hR : Room code base top M0) (hF : Frame top lr M0 s) (hr : r.toNat < 11)
    (htame : tame r is = true) (hscan : scan code off (is ++ putRow r) = some off')
    (hpc : s.pc = base + BitVec.ofNat 32 off) (hc : compute unpriv is s = some t) :
    ∃ s', Moves unpriv top M0 s s' ∧ s'.pc = base + BitVec.ofNat 32 off' ∧ Frame top lr M0 s' ∧
      rowVal s' r = heldVal t r ∧
      ∀ r', r'.toNat < 11 → r' ≠ r → rowVal s' r' = rowVal s r' := by
  obtain ⟨mid, h1, h2⟩ := scan_append hscan
  obtain ⟨hm, hfp, hr10, hrows⟩ := tame_frame htame hr hc
  have hpath := path_compute h1 (tame_quiet htame) (hF.codeAt hR) hpc hc
  generalize hu : ({ t with pc := base + BitVec.ofNat 32 mid } : State) = u at hpath
  obtain ⟨hur, hum, hup⟩ : u.reg = t.reg ∧ u.mem = t.mem ∧ u.pc = base + BitVec.ofNat 32 mid := by
    subst hu
    exact ⟨rfl, rfl, rfl⟩
  have hF1 : Frame top lr M0 u := hF.of_eq (hum.trans hm) (hur ▸ hfp)
  have hrows' : ∀ r', r'.toNat < 11 → r' ≠ r → rowVal u r' = rowVal s r' := fun r' h hne =>
    (rowVal_congr hum (by rw [hur]) fun _ => by simp only [hur, and_self]).trans (hrows r' h hne)
  have hM1 : Moves unpriv top M0 s u :=
    ⟨hF.path hpath, fun i _ => by rw [hum, hm], by rw [hur, hr10]⟩
  cases hs : onStack r with
  | false =>
    simp only [putRow, hs, Bool.false_eq_true, if_false, scan, Option.some.injEq] at h2
    subst h2
    refine ⟨u, hM1, hup, hF1, ?_, hrows'⟩
    simp only [rowVal, heldVal, hs, Bool.false_eq_true, if_false, hur]
  | true =>
    simp only [putRow, hs, if_true] at h2
    obtain ⟨len, hi, h3⟩ := scan_cons h2
    cases h3
    obtain ⟨e1, e2⟩ := rowVal_store rfl hr hs (s := u) (u.reg tmpLo) (u.reg tmpHi)
    refine ⟨_, hM1.trans (moves_stored hR hF1 hr hs hi hup), rfl, ?_, ?_, ?_⟩
    · exact hF1.stored hr hs tmpLo tmpHi _
    · have hlo : heldLo r = tmpLo := if_pos hs
      have hhi : heldHi r = tmpHi := if_pos hs
      rw [heldVal, hlo, hhi, ← hur, ← e1]
      rfl
    · intro r' hr' hne
      exact (e2 r' hr' hne).trans (hrows' r' hr' hne)

theorem tame_of_idle (h : idle is = true) (r : BitVec 4) : tame r is = true := by
  refine List.all_eq_true.2 fun i hi => ?_
  have := List.all_eq_true.1 h i hi
  rw [Bool.and_eq_true] at this ⊢
  refine ⟨this.1, List.all_eq_true.2 fun q hq => ?_⟩
  rw [List.all_eq_true.1 this.2 q hq, Bool.true_or]

theorem idle_frame (h : idle is = true) (hc : compute unpriv is s = some t) :
    t.mem = s.mem ∧ t.reg fp = s.reg fp ∧ t.reg r10 = s.reg r10 ∧
      ∀ r, r.toNat < 11 → rowVal t r = rowVal s r := by
  obtain ⟨hm, hfp, hr10, h0⟩ := tame_frame (tame_of_idle h 0) (by decide) hc
  obtain ⟨-, -, -, h1⟩ := tame_frame (tame_of_idle h 1) (by decide) hc
  refine ⟨hm, hfp, hr10, fun r hr => ?_⟩
  by_cases hr0 : r = 0
  · exact h1 r hr (by rw [hr0]; decide)
  · exact h0 r hr hr0

/-- **Running a comparison and its branch.** -/
theorem branch_run {k len : Nat} {cond : BitVec 4} {o : Word} (hR : Room code base top M0)
    (hF : Frame top lr M0 s) (hidle : idle is = true) (hscan : scan code off is = some k)
    (hi : instrAt code k = some (.b cond o, len)) (hpc : s.pc = base + BitVec.ofNat 32 off)
    (hc : compute unpriv is s = some t) :
    ∃ s', Moves unpriv top M0 s s' ∧
      s'.pc = base + (if t.flags.passes cond then BitVec.ofNat 32 k + 4 + o
        else BitVec.ofNat 32 (k + len)) ∧
      Frame top lr M0 s' ∧ ∀ r, r.toNat < 11 → rowVal s' r = rowVal s r := by
  obtain ⟨hm, hfp, hr10, hrows⟩ := idle_frame hidle hc
  have hpath := path_compute hscan (tame_quiet (tame_of_idle hidle 0)) (hF.codeAt hR) hpc hc
  have hF1 : Frame top lr M0 { t with pc := base + BitVec.ofNat 32 k } := hF.of_eq hm hfp
  have hstep : ∀ pc', exec unpriv { t with pc := base + BitVec.ofNat 32 k } len (.b cond o) =
      some { t with pc := pc' } → Moves unpriv top M0 s { t with pc := pc' } := fun pc' he =>
    ⟨(hF.path hpath).tail (step_of_instrAt (hF1.codeAt hR) hi rfl he) hF1.outside,
      fun i _ => by rw [hm], hr10⟩
  cases hp : t.flags.passes cond with
  | true =>
    refine ⟨_, hstep (base + (BitVec.ofNat 32 k + 4 + o)) ?_, rfl, hF.of_eq hm hfp, hrows⟩
    simp only [exec, hp, if_true, BitVec.add_assoc]
  | false =>
    refine ⟨_, hstep (base + BitVec.ofNat 32 (k + len)) ?_, rfl, hF.of_eq hm hfp, hrows⟩
    simp only [exec, hp, Bool.false_eq_true, if_false, State.skip, BitVec.ofNat_add,
      BitVec.add_assoc]

/-! ## The epilogue -/

theorem regList_pop : regList 0x8bf0 = [4, 5, 6, 7, 8, 9, fp, 15] := by decide

/-- **The epilogue** restores the stack pointer, loads the saved registers and returns. -/
theorem epilogue_run (hR : Room code base top M0) (hF : Frame top lr M0 s)
    (hthumb : lr.getLsbD 0 = true)
    (hscan : scan code off [epilogueMov, epiloguePop] = some off')
    (hpc : s.pc = base + BitVec.ofNat 32 off) :
    ∃ u, Path (step unpriv) (fun u => u.mem = s.mem) s u ∧ u.pc = lr &&& 0xfffffffe ∧
      u.reg sp = top + 32 ∧ (∀ r, r ∉ regList 0x8bf0 → r ≠ sp → u.reg r = s.reg r) ∧
      ∀ i r, (regList 0x8bf0)[i]? = some r → r ≠ 15 → r ≠ sp →
        u.reg r = word s.mem (top + BitVec.ofNat 32 (4 * i)) := by
  obtain ⟨len, h1, h2⟩ := scan_cons hscan
  obtain ⟨len', h3, -⟩ := scan_cons h2
  obtain ⟨t, he, htsp, htr, htm, htpc⟩ : ∃ t, exec unpriv s len epilogueMov = some t ∧
      t.reg sp = top ∧ (∀ r, r ≠ sp → t.reg r = s.reg r) ∧ t.mem = s.mem ∧
      t.pc = s.pc + BitVec.ofNat 32 len :=
    ⟨_, rfl, by rw [← hF.fp]; exact set_sp_of_aligned (s := s) (hF.fp ▸ hR.aligned),
      fun r hr => set_reg_of_ne _ hr, rfl, rfl⟩
  obtain ⟨u, hpop, hupc, hum, husp, hur, hul⟩ : ∃ u, exec unpriv t len' (.pop 0x8bf0) = some u ∧
      u.pc = lr &&& 0xfffffffe ∧ u.mem = t.mem ∧
      u.reg sp = t.reg sp + BitVec.ofNat 32 (4 * (regList 0x8bf0).length) ∧
      (∀ r, r ∉ regList 0x8bf0 → r ≠ sp → u.reg r = t.reg r) ∧
      ∀ i r, (regList 0x8bf0)[i]? = some r → r ≠ 15 → r ≠ sp →
        u.reg r = word t.mem (t.reg sp + BitVec.ofNat 32 (4 * i)) :=
    exec_pop (by decide) (by rw [htsp]; exact hR.aligned) (by rw [htsp, htm]; exact hF.saved) hthumb
      (by decide)
  have hF' : Frame top lr M0 t := hF.of_eq htm (htr _ (by decide))
  refine ⟨u, .head (step_of_instrAt (hF.codeAt hR) h1 hpc he) htm
    (.head (step_of_instrAt (hF'.codeAt hR) h3 ?_ hpop) (hum.trans htm) (.refl u)), hupc, ?_,
    fun r hr hsp => (hur r hr hsp).trans (htr r hsp), fun i r hi h15 hsp => ?_⟩
  · rw [htpc, hpc, BitVec.add_assoc, BitVec.ofNat_add]
  · rw [husp, htsp]
    rfl
  · rw [hul i r hi h15 hsp, htm, htsp]

end

end BlueSwat.Jit
