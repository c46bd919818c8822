import BlueSwat.Fsm.Proof.PolicyCache
import BlueSwat.Jit.Proof.Alike
import BlueSwat.Jit.Proof.Simulation
import BlueSwat.Mynewt.Core
import BlueSwat.Zephyr.Core

/-!
# The generated code agrees with the interpreter

`Called` is the state in which the core calls the code of a policy: the struct in `r0`, the return
address in `lr`, and everything else arbitrary. `jitAgrees_of_validated` says that a program that
passes the check returns in `r1:r0` what the interpreter returns, and `shipped_jitAgrees` that the
registered policies of both ports do.
-/

set_option autoImplicit false

namespace BlueSwat.Jit

open Thumb Machine Bytes Record
open Ebpf (Placement instAt codeBytes disasm ebpfVmExec defaultVm ifwRuntimeMaxInsts)

/-! ## The prologue -/

section
variable {code : Code} {s : State} {top : Word} {off : Nat}

theorem regList_push : regList 0x4bf0 = [4, 5, 6, 7, 8, 9, fp, 14] := by decide

/-- The registers of the caller are in the frame. -/
def Saved (top : Word) (s t : State) : Prop :=
  ∀ i r, (regList 0x4bf0)[i]? = some r → word t.mem (top + BitVec.ofNat 32 (4 * i)) = s.reg r

/-- The registers are saved, and the stack pointer is at the frame. -/
theorem prologue_push (unpriv : Word → Bool) (hR : Room code s.pc top s.mem)
    (htop : s.reg sp - 32 = top) {len : Nat} (hi : instrAt code 0 = some (prologueHead, len)) :
    ∃ t, step unpriv s = .next t ∧ t.pc = s.pc + BitVec.ofNat 32 len ∧ t.reg sp = top ∧
      (∀ r, r ≠ sp → t.reg r = s.reg r) ∧ Saved top s t ∧
      ∀ a, ¬ Within a (top - 256) 288 → t.mem a = s.mem a := by
  obtain ⟨t, he, hpc, hsp, hr, hm⟩ : ∃ t, exec unpriv s len (.push 0x4bf0) = some t ∧
      t.pc = s.pc + BitVec.ofNat 32 len ∧ t.reg sp = top ∧ (∀ r, r ≠ sp → t.reg r = s.reg r) ∧
      t.mem = storeAll s.mem top ((regList 0x4bf0).map s.reg) := exec_push htop hR.aligned
  have hp : s.pc = s.pc + BitVec.ofNat 32 0 := (BitVec.add_zero _).symm
  have hlen : (regList 0x4bf0).length = 8 := by rw [regList_push]; rfl
  refine ⟨t, step_of_instrAt hR.placed hi hp he, hpc, hsp, hr, fun i r hir => ?_, fun a ha => ?_⟩
  · rw [hm]
    exact word_storeAll (by rw [List.length_map, hlen]; decide)
      (by rw [List.getElem?_map, hir]; rfl)
  · rw [hm]
    refine storeAll_of_not_within fun hw => ha ?_
    have := a.isLt
    have := top.isLt
    have h256 : (256 : Word).toNat = 256 := rfl
    simp only [Within, BitVec.toNat_sub, List.length_map, hlen] at hw ⊢
    omega

/-- Saving the registers and setting the frame pointer. -/
theorem prologue_frame (unpriv : Word → Bool) (hR : Room code s.pc top s.mem)
    (htop : s.reg sp - 32 = top) {len mid : Nat} (hi : instrAt code 0 = some (prologueHead, len))
    (hscan : scan code (0 + len) prologueMid = some mid) :
    ∃ u, Path (step unpriv) (fun u => ∀ a, ¬ Within a (top - 256) 288 → u.mem a = s.mem a) s u ∧
      u.pc = s.pc + BitVec.ofNat 32 mid ∧ Frame top (s.reg 14) s.mem u ∧ Saved top s u ∧
      u.reg 0 = s.reg 0 ∧ u.reg r10 = s.reg r10 := by
  obtain ⟨t, hpush, hpc, hsp, hr, hsaved, hout⟩ := prologue_push unpriv hR htop hi
  have hcode : CodeAt t.mem s.pc code :=
    hR.placed.congr fun a ha => hout a fun hw => hR.apart a hw ha
  obtain ⟨u, hu, hufp, hu0, hu10, hum⟩ : ∃ u, compute unpriv prologueMid t = some u ∧
      u.reg fp = t.reg sp ∧ u.reg 0 = t.reg 0 ∧ u.reg r10 = t.reg r10 ∧ u.mem = t.mem :=
    ⟨_, rfl, rfl, rfl, rfl, rfl⟩
  have hmid := path_compute hscan (by decide) hcode (hpc.trans (by rw [Nat.zero_add])) hu
  have hpath := hmid.mono fun v hv a ha => (congrFun hv a).trans (hout a ha)
  refine ⟨_, .head hpush hout hpath, rfl, ⟨hufp.trans hsp, ?_, ?_⟩, ?_, ?_, ?_⟩
  · rw [← hsaved 7 14 (by decide), ← hum]
    rfl
  · exact fun a ha => (congrFun hum a).trans (hout a ha)
  · exact fun i r hir => (congrArg (word · _) hum).trans (hsaved i r hir)
  · exact hu0.trans (hr 0 (by decide))
  · exact hu10.trans (hr r10 (by decide))

/-- The row of `r10` is apart from the saved registers. -/
theorem Saved.stored {t : State} (h : Saved top s t) {lr : Word} {M : Mem}
    (hF : Frame top lr M t) (pc : Word) : Saved top s (stored t 10 2 3 pc) := by
  intro i r hir
  have hi8 : i < 8 := by
    rw [regList_push] at hir
    exact (List.getElem?_eq_some_iff.1 hir).1
  rw [← h i r hir, Jit.stored, hF.fp]
  exact saved_store (by decide) (by decide) t.mem _ _ hi8

/-- **The prologue sets up the frame and the row of `r1`**, and leaves the saved registers in it. -/
theorem prologue_run (unpriv : Word → Bool) (hR : Room code s.pc top s.mem)
    (htop : s.reg sp - 32 = top) (hscan : prologueAt code off = true) :
    ∃ t, Path (step unpriv) (fun u => ∀ a, ¬ Within a (top - 256) 288 → u.mem a = s.mem a) s t ∧
      t.pc = s.pc + BitVec.ofNat 32 off ∧ Frame top (s.reg 14) s.mem t ∧
      low (rowVal t 1) = s.reg 0 ∧ t.reg r10 = s.reg r10 ∧ Saved top s t := by
  obtain ⟨len, h1, h2⟩ := scan_cons (beq_iff_eq.1 hscan)
  obtain ⟨mid, h3, h4⟩ := scan_append h2
  obtain ⟨len', h5, h6⟩ := scan_cons h4
  obtain ⟨u, hpath, hpc, hF, hsaved, hu0, hu10⟩ := prologue_frame unpriv hR htop h1 h3
  -- the row of `r10` is written, and the struct goes from `r0` to the row of `r1`
  have hslot : step unpriv u = .next (stored u 10 2 3 (s.pc + BitVec.ofNat 32 (mid + len'))) :=
    step_stored hR hF (by decide) (by decide) h5 hpc
  have hF' : Frame top (s.reg 14) s.mem (stored u 10 2 3 (s.pc + BitVec.ofNat 32 (mid + len'))) :=
    hF.stored (by decide) (by decide) 2 3 _
  have hsaved' := hsaved.stored hF (s.pc + BitVec.ofNat 32 (mid + len'))
  generalize hw : stored u 10 2 3 (s.pc + BitVec.ofNat 32 (mid + len')) = w at hslot hF' hsaved'
  obtain ⟨x, hx, hx2, hxfp, hx10, hxm⟩ : ∃ x, compute unpriv prologueTail w = some x ∧
      x.reg 2 = w.reg 0 ∧ x.reg fp = w.reg fp ∧ x.reg r10 = w.reg r10 ∧ x.mem = w.mem :=
    ⟨_, rfl, rfl, rfl, rfl, rfl⟩
  have htail := path_compute h6 (by decide) (hF'.codeAt hR) (by rw [← hw]; rfl) hx
  have hw0 : w.reg 0 = s.reg 0 := by rw [← hu0, ← hw]; rfl
  have hw10 : w.reg r10 = s.reg r10 := by rw [← hu10, ← hw]; rfl
  refine ⟨_, hpath.trans (.head hslot hF'.outside (hF'.path htail)), rfl, hF'.of_eq hxm hxfp, ?_,
    hx10.trans hw10, fun i r hir => ?_⟩
  · rw [← hw0, ← hx2]
    exact low_pair _ _
  · rw [← hsaved' i r hir, ← hxm]

end

/-! ## Calls -/

section
variable {ι : Type} [DecidableEq ι]

/-- The state of the machine when it enters the code: the struct in `r0`, the return address in
`lr`, a stack with room for the frame, and the code in memory. The other registers are arbitrary. -/
structure Called (L : Layout ι) (code : Code) (unpriv : Word → Bool) (fsm : ι → BitVec 32)
    (s : State) : Prop where
  placed : CodeAt s.mem s.pc code
  struct : L.Holds s.mem (s.reg 0) fsm
  readable : ∀ a, Within a (s.reg 0) L.size → unpriv a = true
  aligned : (s.reg sp).toNat % 4 = 0
  free : ∀ a, Within a (s.reg sp - 288) 288 →
    ¬ Within a s.pc (2 * code.length) ∧ ¬ Within a (s.reg 0) L.size
  thumb : (s.reg 14).getLsbD 0 = true

/-- The code that `gen_jit_code` makes of a program. -/
def jitCodeOf (code : Nat → BitVec 8) (n : Nat) (helper : BitVec 32 → BitVec 32) (beyond : Row)
    (stray : Int → BitVec 8) : Code :=
  (jitCompile (genJitState (instAt code) n helper beyond stray)).jitCode

/-- The generated code of a policy returns in `r1:r0` what the interpreter returns, for every value
of the struct. -/
def JitAgrees (L : Layout ι) (bytes : List (BitVec 8)) : Prop :=
  ∀ (rest : Nat → BitVec 8) (helper : BitVec 32 → BitVec 32) (beyond : Row)
    (stray : Int → BitVec 8) (P : Placement L.size) (M : Mem) (memLen : BitVec 32)
    (fsm : ι → BitVec 32) (unpriv : Word → Bool) (s : State), L.Holds M P.mem fsm →
    Called L (jitCodeOf (codeBytes bytes rest) (bytes.length / 8) helper beyond stray)
      unpriv fsm s →
    ∃ st v t,
      ebpfVmExec P.host (defaultVm (codeBytes bytes rest)) ifwRuntimeMaxInsts M P.mem memLen =
        some (st, .exit v) ∧
      Reach (step unpriv) s t ∧ t.pc = s.reg 14 &&& 0xfffffffe ∧ pair (t.reg 1) (t.reg 0) = v

variable {L : Layout ι} {code : Code} {unpriv : Word → Bool} {fsm : ι → BitVec 32} {s : State}
  {bytes : List (BitVec 8)}

theorem Called.room (h : Called L code unpriv fsm s) : Room code s.pc (s.reg sp - 32) s.mem where
  aligned := by
    have := h.aligned
    have := (s.reg sp).isLt
    rw [BitVec.toNat_sub, show (32 : Word).toNat = 32 from rfl]
    omega
  placed := h.placed
  apart a ha := (h.free a (by rwa [BitVec.sub_sub] at ha)).1

theorem exists_slot {k : Nat} (hk : k ∈ L.slots.map L.offset) : ∃ i, L.offset i = k := by
  obtain ⟨i, -, hi⟩ := List.mem_map.1 hk
  exact ⟨i, hi⟩

/-- The bytes of a slot are bytes of the struct. -/
theorem within_slot (base : Word) (i : ι) {j : Nat} (hj : j < 4) :
    Within (base + BitVec.ofNat 32 (L.offset i) + BitVec.ofNat 32 j) base L.size := by
  rw [add_offset_add]
  exact within_add (L.offset_add_lt i hj)

/-- The call on both sides. -/
def Called.call (h : Called L code unpriv fsm s) (hsz : L.size ≤ 2 ^ 15) (rest : Nat → BitVec 8)
    (P : Placement L.size) {M : Mem} (hM : L.Holds M P.mem fsm) (memLen : BitVec 32) :
    Call (disasm bytes) code (L.slots.map L.offset) where
  prog := codeBytes bytes rest
  host := P.host
  memLen
  M := (Ebpf.initState P.host M P.mem).mem
  mem := P.mem
  base := s.pc
  unpriv
  M0 := s.mem
  ctx := s.reg 0
  top := s.reg sp - 32
  lr := s.reg 14
  words k := word s.mem (s.reg 0 + BitVec.ofNat 32 k)
  decodes := Ebpf.decodes_of rfl
  room := h.room
  thumb := h.thumb
  short k hk := by
    obtain ⟨i, rfl⟩ := exists_slot hk
    have := L.offset_add_lt i (k := 0) (by decide)
    omega
  read k hk := by
    obtain ⟨i, rfl⟩ := exists_slot hk
    rw [(Fsm.initState_mem_holds P hM).read i, word_of_read (h.struct.read i)]
  held k hk := by
    obtain ⟨i, rfl⟩ := exists_slot hk
    rw [h.struct.read i, word_of_read (h.struct.read i)]
  apart k hk j hj hw := by
    obtain ⟨i, rfl⟩ := exists_slot hk
    rw [BitVec.sub_sub] at hw
    exact (h.free _ hw).2 (within_slot _ i hj)
  readable k hk j hj := by
    obtain ⟨i, rfl⟩ := exists_slot hk
    exact h.readable _ (within_slot _ i hj)

theorem length_disasm (bytes : List (BitVec 8)) : (disasm bytes).length = bytes.length / 8 := by
  rw [disasm, List.length_map, List.length_range]

theorem instAt_rest (rest : Nat → BitVec 8) {i : Nat} (hi : i < bytes.length / 8) :
    instAt (codeBytes bytes rest) i = instAt (codeBytes bytes fun _ => 0) i := by
  have hlt : i < (disasm bytes).length := by rwa [length_disasm]
  have h := List.getElem?_eq_getElem hlt
  rw [Ebpf.decodes_of rfl i _ h, Ebpf.decodes_of rfl i _ h]

/-- What is behind the program and beyond the tables has no part in its code. -/
theorem validated_jitCode {fields : List Nat} (hv : validated bytes fields = true)
    (rest : Nat → BitVec 8) (helper : BitVec 32 → BitVec 32) (beyond : Row)
    (stray : Int → BitVec 8) :
    jitCodeOf (codeBytes bytes rest) (bytes.length / 8) helper beyond stray =
      jitCodeOf (codeBytes bytes fun _ => 0) (bytes.length / 8) (fun _ => 0) bpfR0 fun _ => 0 := by
  simp only [validated, Bool.and_eq_true, decide_eq_true_eq, List.all_eq_true, List.mem_range] at hv
  exact (jitCode_eq (fun i hi => (instAt_rest rest hi).symm) hv.1.1.2 _ _ _ _ _ _).symm

/-- What the check has established, with anything behind the program and beyond the tables. -/
theorem validated_spec {fields : List Nat} (hv : validated bytes fields = true)
    (rest : Nat → BitVec 8) (helper : BitVec 32 → BitVec 32) (beyond : Row)
    (stray : Int → BitVec 8) :
    ∃ code place,
      jitCodeOf (codeBytes bytes rest) (bytes.length / 8) helper beyond stray = code ∧
      (disasm bytes).length < 2 ^ 16 ∧ prologueAt code (place 0) = true ∧
      check (disasm bytes) code place fields 64 0 (fun r => if r = 1 then .base else .nothing) =
        true := by
  have hcode := validated_jitCode hv rest helper beyond stray
  simp only [validated, Bool.and_eq_true, decide_eq_true_eq] at hv
  obtain ⟨⟨⟨hlen, -⟩, hpro⟩, hcheck⟩ := hv
  exact ⟨_, _, hcode, by rwa [length_disasm], hpro, hcheck⟩

/-- Behind the prologue the struct is in the row of `r1`, and nothing is known of the others. -/
theorem Called.related (h : Called L code unpriv fsm s) (hsz : L.size ≤ 2 ^ 15)
    (rest : Nat → BitVec 8) (P : Placement L.size) {M : Mem} (hM : L.Holds M P.mem fsm)
    (memLen : BitVec 32) {t : State} (hF : Frame (s.reg sp - 32) (s.reg 14) s.mem t)
    (hr1 : low (rowVal t 1) = s.reg 0) :
    (h.call hsz rest P hM memLen : Call (disasm bytes) _ _).Related
      (fun r => if r = 1 then .base else .nothing) (Ebpf.initState P.host M P.mem).reg t := by
  refine ⟨hF, fun r hr => ?_⟩
  by_cases h1 : r = 1
  · subst h1
    exact ⟨rfl, hr1⟩
  · simp only [if_neg h1]
    trivial

/-- **A program that passes the check returns the same value from its code and from the
interpreter.** -/
theorem jitAgrees_of_validated (hsz : L.size ≤ 2 ^ 15)
    (hv : validated bytes (L.slots.map L.offset) = true) : JitAgrees L bytes := by
  intro rest helper beyond stray P M memLen fsm unpriv s hM h
  obtain ⟨code, place, hcode, hlen, hpro, hcheck⟩ := validated_spec hv rest helper beyond stray
  rw [hcode] at h
  obtain ⟨t, hpath, hpc, hF, hr1, -⟩ := prologue_run unpriv h.room rfl hpro
  obtain ⟨v, ⟨st, hrun, -⟩, u, hreach, hpc', h0, h1⟩ :=
    (h.call hsz rest P hM memLen).check_sound hlen hcheck _ t
      (h.related hsz rest P hM memLen hF hr1) hpc
  refine ⟨st, v, u, hrun, hpath.reach.trans hreach, hpc', ?_⟩
  rw [h0, h1, pair_high_low]

end

/-! ## The registered policies -/

/-- The registered policies pass the check. -/
theorem shipped_validated :
    (∀ q ∈ Zephyr.shipped, validated q.1.bytecode
        (Zephyr.layout.slots.map Zephyr.layout.offset) = true) ∧
      ∀ q ∈ Mynewt.shipped, validated q.1.bytecode
        (Mynewt.layout.slots.map Mynewt.layout.offset) = true := by decide +kernel

/-- **The policies that `load_all_policies` registers, on both ports, return the same value from
their generated code and from the interpreter.** -/
theorem shipped_jitAgrees :
    (∀ q ∈ Zephyr.shipped, JitAgrees Zephyr.layout q.1.bytecode) ∧
      ∀ q ∈ Mynewt.shipped, JitAgrees Mynewt.layout q.1.bytecode :=
  ⟨fun q hq => jitAgrees_of_validated (by decide) (shipped_validated.1 q hq),
    fun q hq => jitAgrees_of_validated (by decide) (shipped_validated.2 q hq)⟩

/-- A call with code in flash, and a zeroed struct and the stack in RAM. -/
def callState (code : Code) : State where
  reg r := if r = 0 then 0x20000000 else if r = sp then 0x20002000 else 0x08010001
  pc := 0x08000000
  flags := ⟨true, true, true, true⟩
  mem := placeCode (fun _ => 0) 0x08000000 code

theorem called_callState {ι : Type} [DecidableEq ι] {L : Layout ι} {code : Code}
    (hlen : code.length ≤ 0x1000) (hsz : L.size ≤ 0x1000) :
    Called L code (fun _ => true) (fun _ => 0) (callState code) where
  placed := codeAt_placeCode (by omega)
  struct i k hk := by
    have hlt := L.offset_add_lt i hk
    change placeCode (fun _ => 0) 0x08000000 code
      (0x20000000 + BitVec.ofNat 32 (L.offset i) + BitVec.ofNat 32 k) = (0#32).extractLsb' (8 * k) 8
    rw [BitVec.extractLsb'_zero]
    refine placeCode_of_not_within fun hw => ?_
    have h1 : (0x20000000 : Word).toNat = 0x20000000 := rfl
    have h2 : (0x08000000 : Word).toNat = 0x08000000 := rfl
    rw [add_offset_add] at hw
    simp only [Within, BitVec.toNat_sub, BitVec.toNat_add, BitVec.toNat_ofNat, h1, h2] at hw
    omega
  readable _ _ := rfl
  aligned := by
    change (0x20002000 : Word).toNat % 4 = 0
    decide
  free a ha := by
    change Within a (0x20002000 - 288) 288 at ha
    change ¬ Within a 0x08000000 _ ∧ ¬ Within a 0x20000000 _
    have h1 : (0x20000000 : Word).toNat = 0x20000000 := rfl
    have h2 : (0x08000000 : Word).toNat = 0x08000000 := rfl
    have h3 : (0x20002000 - 288 : Word).toNat = 0x20001ee0 := rfl
    have := a.isLt
    simp only [Within, BitVec.toNat_sub a, h1, h2, h3] at ha ⊢
    omega
  thumb := by
    change (0x08010001 : Word).getLsbD 0 = true
    decide

/-- The 5 instructions of `lll_interval`, with nothing behind them. -/
def lllIntervalCode : Nat → BitVec 8 := codeBytes Zephyr.lllIntervalBytes fun _ => 0

def lllIntervalJit : Code := jitCodeOf lllIntervalCode 5 (fun _ => 0) bpfR0 fun _ => 0

theorem shipped_jitAgrees_lllInterval :
    Called Zephyr.layout lllIntervalJit (fun _ => true) (fun _ => 0) (callState lllIntervalJit) ∧
      ∃ st v t,
        ebpfVmExec Ebpf.ramHost (defaultVm lllIntervalCode) ifwRuntimeMaxInsts (fun _ => 0)
          0x20000000 116 = some (st, .exit v) ∧
        Reach (step fun _ => true) (callState lllIntervalJit) t ∧ t.pc = 0x08010000 ∧
        pair (t.reg 1) (t.reg 0) = v := by
  have hc : Called Zephyr.layout lllIntervalJit (fun _ => true) (fun _ => 0)
      (callState lllIntervalJit) := called_callState (by decide) (by decide)
  exact ⟨hc, shipped_jitAgrees.1 (.lllInterval, .conn .lllInterval) (by decide) _ _ _ _
    (Ebpf.ramPlacement Zephyr.layout.size (by decide)) _ _ _ _ _ (fun i k hk => by simp) hc⟩

end BlueSwat.Jit
