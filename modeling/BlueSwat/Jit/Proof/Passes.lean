import BlueSwat.Jit.Layout
import BlueSwat.Jit.Proof.EmitSize

/-!
# The passes

`buildFrom_spec`: a pass of the translation places the instructions as the table says, for the sizes
that belong to the pass (`passSize`). `prePass_spec` and `genPass_spec` are the two passes of
`jit_compile`, and `size_jitCompile` is the length of the code.
-/

set_option autoImplicit false

namespace BlueSwat.Jit

open Ebpf Assembly

/-! ## One round -/

/-- Two states of one pass. -/
structure SamePass (s t : JitState) : Prop where
  insts : t.insts = s.insts
  instNum : t.instNum = s.instNum
  needGen : t.needGen = s.needGen
  epilogueOffset : t.epilogueOffset = s.epilogueOffset

theorem SamePass.refl (s : JitState) : SamePass s s := ⟨rfl, rfl, rfl, rfl⟩

theorem SamePass.trans {s t u : JitState} (h : SamePass s t) (h' : SamePass t u) : SamePass s u :=
  ⟨h'.insts.trans h.insts, h'.instNum.trans h.instNum, h'.needGen.trans h.needGen,
    h'.epilogueOffset.trans h.epilogueOffset⟩

/-- What holds all through a pass: places are even, and `idx` counts the code written. -/
structure Running (s : JitState) : Prop where
  even : s.idx % 2 = 0
  offsets : EvenOffsets s
  code : s.needGen = true → size s.jitCode = s.idx

/-- The size of instruction `i` at `idx` in the pass of `s`. -/
def passSize (s : JitState) (i idx : Nat) : Nat :=
  instSize s.insts s.instNum
    (exitSize (if s.needGen = false then 0 else s.epilogueOffset - idx - 4)) i

theorem SamePass.passSize_eq {s t : JitState} (h : SamePass s t) : passSize t = passSize s := by
  unfold passSize
  rw [h.insts, h.instNum, h.needGen, h.epilogueOffset]

theorem SamePass.listing_eq {s t : JitState} (h : SamePass s t) :
    listing t.insts t.instNum = listing s.insts s.instNum := by
  rw [h.insts, h.instNum]

section
variable {s : JitState}

theorem samePass_emit (c : Code) : SamePass s (emit s c) := ⟨rfl, rfl, rfl, rfl⟩

theorem samePass_recordOffset (i : Nat) : SamePass s (recordOffset s i) := by
  unfold recordOffset
  split
  · exact .refl s
  · exact ⟨rfl, rfl, rfl, rfl⟩

theorem idx_recordOffset (i : Nat) : (recordOffset s i).idx = s.idx := by
  unfold recordOffset
  split <;> rfl

theorem Running.emit (h : Running s) (c : Code) : Running (emit s c) where
  even := by
    have := h.even
    simp only [Jit.emit]
    omega
  offsets := h.offsets
  code hg := by
    have := h.code hg
    simp only [Jit.emit, show s.needGen = true from hg, if_true, size_append, this]
    rfl

theorem Running.recordOffset (h : Running s) (i : Nat) : Running (recordOffset s i) := by
  unfold Jit.recordOffset
  split
  · exact h
  rename_i hg
  refine ⟨h.even, fun j hj => ?_, fun hg' => absurd hg' hg⟩
  have heven := h.even
  by_cases hji : (j : Int) = i
  · simp only [if_pos hji, BitVec.toNat_ofNat]
    omega
  · simpa only [if_neg hji] using h.offsets j hj

/-- A pass keeps its offsets, and the first one adds the end of an instruction. -/
def offsetsAfter (s : JitState) (i stop : Nat) (j : Int) : BitVec 8 :=
  if s.needGen = false ∧ j = (i : Int) then BitVec.ofNat 8 stop else s.offsets j

theorem offsets_recordOffset (i : Nat) :
    (recordOffset s i).offsets = offsetsAfter s i s.idx := by
  funext j
  unfold recordOffset offsetsAfter
  cases s.needGen <;> simp

theorem not_refusedOp_lddw (imm : BitVec 32) : refusedOp imm (some .lddw) = false := rfl

/-- **One round**: the instruction takes its size, its end is recorded in the slot before the next
one, and a refused instruction ends the loop. -/
theorem buildRound_spec {i : Nat} (hR : Running s) (ht : Tabled (s.insts i)) (hi : i < s.instNum) :
    SamePass s (buildRound s i).1 ∧ Running (buildRound s i).1 ∧
      (buildRound s i).1.idx = s.idx + passSize s i s.idx ∧
      (buildRound s i).1.offsets =
        offsetsAfter s (nextInst s.insts i - 1) (s.idx + passSize s i s.idx) ∧
      (buildRound s i).2 = if refused (s.insts i) then none else some (nextInst s.insts i) := by
  obtain ⟨hsize, hret⟩ := buildInst_spec ht hR.offsets hi
  have hidx : (emit s (buildInst s i).1).idx = s.idx + passSize s i s.idx := by
    have : 2 * (buildInst s i).1.length = _ := hsize
    simp only [emit, this, passSize, epilogueOffset]
  have hoff (j : Nat) : (recordOffset (emit s (buildInst s i).1) j).offsets =
      offsetsAfter s j (s.idx + passSize s i s.idx) := by
    rw [offsets_recordOffset, hidx]
    rfl
  have hkeep (j : Nat) := (samePass_emit (buildInst s i).1).trans
    (samePass_recordOffset (s := emit s (buildInst s i).1) j)
  have hrun (j : Nat) := (hR.emit (buildInst s i).1).recordOffset j
  unfold buildRound
  simp only [hret]
  unfold opcodeRet refused nextInst
  by_cases hl : Op.ofCode (s.insts i).opcode = some .lddw
  · simp only [hl, not_refusedOp_lddw, Bool.false_eq_true, if_false, if_true]
    exact ⟨hkeep _, hrun _, (idx_recordOffset _).trans hidx, hoff _, rfl⟩
  · cases hr : refusedOp (s.insts i).imm (Op.ofCode (s.insts i).opcode) <;>
      simp only [hl, Bool.false_eq_true, if_false, if_true, Nat.add_sub_cancel] <;>
      exact ⟨hkeep _, hrun _, (idx_recordOffset _).trans hidx, hoff _, rfl⟩

end

/-! ## A pass -/

/-- A program whose instructions are all in the table. -/
def AllTabled (s : JitState) : Prop := ∀ i < s.instNum, Tabled (s.insts i)

/-- The layout of the pass that `s` is in, from instruction `i` on. -/
def placesFrom (fuel i : Nat) (s : JitState) : List (Nat × Nat) × Nat :=
  (listing s.insts s.instNum).place (passSize s) fuel i s.idx

/-- What a pass from instruction `i` on does. -/
structure PassSpec (fuel i : Nat) (s : JitState) : Prop where
  same : SamePass s (buildFrom fuel i s)
  running : Running (buildFrom fuel i s)
  idx : (buildFrom fuel i s).idx = (placesFrom fuel i s).2
  places : (visits fuel i s).map (fun v => (v.1, v.2.idx)) = (placesFrom fuel i s).1
  state : ∀ v ∈ visits fuel i s, SamePass s v.2 ∧ Running v.2 ∧
    (s.needGen = true → v.2.offsets = s.offsets)
  before : ∀ j : Int, j < i → (buildFrom fuel i s).offsets j = s.offsets j
  recorded : s.needGen = false → ∀ p b, (p, b) ∈ (placesFrom fuel i s).1 →
    (buildFrom fuel i s).offsets (nextInst s.insts p - 1 : Nat) =
      BitVec.ofNat 8 (b + passSize s p b)

theorem lt_nextInst (insts : Nat → EbpfInst) (i : Nat) : i < nextInst insts i :=
  (listing insts 0).lt_next i

theorem offsetsAfter_of_lt {s : JitState} {i : Nat} {j : Int} (h : j < i) (stop : Nat) :
    offsetsAfter s i stop j = s.offsets j := by
  rw [offsetsAfter, if_neg (by omega)]

theorem offsetsAfter_self {s : JitState} (hg : s.needGen = false) (i stop : Nat) :
    offsetsAfter s i stop i = BitVec.ofNat 8 stop := by
  rw [offsetsAfter, if_pos ⟨hg, rfl⟩]

theorem offsetsAfter_gen {s : JitState} (hg : s.needGen = true) (i stop : Nat) :
    offsetsAfter s i stop = s.offsets := by
  funext j
  rw [offsetsAfter, if_neg (by simp [hg])]

section
variable {fuel i i' : Nat} {s : JitState}

theorem buildFrom_stop (hi : i < s.instNum) (h : (buildRound s i).2 = none) :
    buildFrom (fuel + 1) i s = (buildRound s i).1 ∧ visits (fuel + 1) i s = [(i, s)] := by
  rw [buildFrom, visits, if_pos hi, if_pos hi]
  generalize buildRound s i = r at *
  obtain ⟨s', o⟩ := r
  cases h
  exact ⟨rfl, rfl⟩

theorem buildFrom_cons (hi : i < s.instNum) (h : (buildRound s i).2 = some i') :
    buildFrom (fuel + 1) i s = buildFrom fuel i' (buildRound s i).1 ∧
      visits (fuel + 1) i s = (i, s) :: visits fuel i' (buildRound s i).1 := by
  rw [buildFrom, visits, if_pos hi, if_pos hi]
  generalize buildRound s i = r at *
  obtain ⟨s', o⟩ := r
  cases h
  exact ⟨rfl, rfl⟩

theorem SamePass.placesFrom_eq {t : JitState} (h : SamePass s t) (fuel i : Nat) :
    placesFrom fuel i t = (listing s.insts s.instNum).place (passSize s) fuel i t.idx := by
  rw [placesFrom, h.listing_eq, h.passSize_eq]

theorem passSpec_done (hR : Running s) (hi : ¬ i < s.instNum) : PassSpec (fuel + 1) i s := by
  have hp : placesFrom (fuel + 1) i s = ([], s.idx) := Listing.place_of_le (Nat.le_of_not_lt hi)
  have hb : buildFrom (fuel + 1) i s = s := by rw [buildFrom, if_neg hi]
  have hv : visits (fuel + 1) i s = [] := by rw [visits, if_neg hi]
  exact ⟨by rw [hb]; exact .refl s, by rwa [hb], by rw [hb, hp], by rw [hv, hp]; rfl, by simp [hv],
    fun _ _ => by rw [hb], by simp [hp]⟩

theorem passSpec_stop (hR : Running s) (hT : AllTabled s) (hi : i < s.instNum)
    (hr : refused (s.insts i) = true) : PassSpec (fuel + 1) i s := by
  obtain ⟨h1, h2, h3, h4, h5⟩ := buildRound_spec hR (hT i hi) hi
  have hlt := lt_nextInst s.insts i
  rw [hr, if_pos rfl] at h5
  obtain ⟨hb, hv⟩ := @buildFrom_stop fuel i s hi h5
  have hp : placesFrom (fuel + 1) i s = _ := Listing.place_stop hi hr
  refine ⟨by rwa [hb], by rwa [hb], by rw [hb, hp, h3], by rw [hv, hp]; rfl, ?_, ?_, ?_⟩
  · rw [hv]
    rintro v hv
    rw [List.mem_singleton.1 hv]
    exact ⟨.refl s, hR, fun _ => rfl⟩
  · intro j hj
    rw [hb, h4, offsetsAfter_of_lt (by omega)]
  · intro hg p b hm
    rw [hp, List.mem_singleton] at hm
    cases hm
    rw [hb, h4, offsetsAfter_self hg]

theorem passSpec_cons (hR : Running s) (hT : AllTabled s) (hi : i < s.instNum)
    (hr : refused (s.insts i) = false)
    (ih : PassSpec fuel (nextInst s.insts i) (buildRound s i).1) : PassSpec (fuel + 1) i s := by
  obtain ⟨h1, h2, h3, h4, h5⟩ := buildRound_spec hR (hT i hi) hi
  have hlt := lt_nextInst s.insts i
  rw [hr, if_neg Bool.false_ne_true] at h5
  obtain ⟨hb, hv⟩ := @buildFrom_cons fuel i _ s hi h5
  have hp : placesFrom (fuel + 1) i s = _ := Listing.place_cons hi hr
  have hp' := h1.placesFrom_eq fuel (nextInst s.insts i)
  rw [h3] at hp'
  change placesFrom (fuel + 1) i s = ((i, s.idx) ::
    ((listing s.insts s.instNum).place (passSize s) fuel (nextInst s.insts i) _).1, _) at hp
  rw [← hp'] at hp
  refine ⟨?_, ?_, ?_, ?_, ?_, ?_, ?_⟩
  · rw [hb]
    exact h1.trans ih.same
  · rw [hb]
    exact ih.running
  · rw [hb, ih.idx, hp, hp']
    rfl
  · rw [hv, hp, List.map_cons, ih.places]
  · rw [hv]
    intro v hv
    rcases List.mem_cons.1 hv with rfl | hv
    · exact ⟨.refl s, hR, fun _ => rfl⟩
    obtain ⟨k1, k2, k3⟩ := ih.state v hv
    refine ⟨h1.trans k1, k2, fun hg => ?_⟩
    rw [k3 (h1.needGen.trans hg), h4, offsetsAfter_gen hg]
  · intro j hj
    rw [hb, ih.before j (by omega), h4, offsetsAfter_of_lt (by omega)]
  · intro hg p b hm
    rw [hp] at hm
    rcases List.mem_cons.1 hm with hm | hm
    · cases hm
      rw [hb, ih.before _ (by omega), h4, offsetsAfter_self hg]
    · have := ih.recorded (h1.needGen.trans hg) p b hm
      rwa [h1.insts, h1.passSize_eq, ← hb] at this

end

/-- **A pass follows the table**: by induction over the rounds. -/
theorem buildFrom_spec (fuel : Nat) : ∀ {i : Nat} {s : JitState}, Running s → AllTabled s →
    PassSpec fuel i s := by
  induction fuel with
  | zero =>
    intro i s hR _
    exact ⟨.refl s, hR, rfl, rfl, by simp [visits], fun _ _ => rfl,
      by simp [placesFrom, Listing.place]⟩
  | succ fuel ih =>
    intro i s hR hT
    by_cases hi : i < s.instNum
    · obtain ⟨h1, h2, -⟩ := buildRound_spec hR (hT i hi) hi
      have hT' : AllTabled (buildRound s i).1 := by
        unfold AllTabled
        rw [h1.insts, h1.instNum]
        exact hT
      cases hr : refused (s.insts i) with
      | true => exact passSpec_stop hR hT hi hr
      | false => exact passSpec_cons hR hT hi hr (ih h2 hT')
    · exact passSpec_done hR hi

/-! ## The two passes of `jit_compile` -/

section
variable (insts : Nat → EbpfInst) (instNum : Nat) (helper : BitVec 32 → BitVec 32) (beyond : Row)
  (stray : Int → BitVec 8)

theorem size_buildPrologue : 2 * buildPrologue.length = prologueSize := by decide

theorem size_buildEpilogue : size buildEpilogue = epilogueSize := by decide

theorem running_preStart : Running (preStart (genJitState insts instNum helper beyond stray)) where
  even := by
    have := size_buildPrologue
    simp only [preStart, emit, this]
    decide
  offsets i hi := by
    have hi : i < instNum := hi
    have : (0 : Int) ≤ i ∧ (i : Int) < 4 * instNum + 16 := by omega
    simp only [preStart, emit, genJitState, if_pos this]
    rfl
  code h := Bool.noConfusion h

theorem passSize_preStart :
    passSize (preStart (genJitState insts instNum helper beyond stray)) =
      preSize insts instNum := rfl

variable {insts instNum}

theorem prePass_spec (hT : ∀ i < instNum, Tabled (insts i)) :
    PassSpec instNum 0 (preStart (genJitState insts instNum helper beyond stray)) :=
  buildFrom_spec instNum (running_preStart insts instNum helper beyond stray) hT

theorem placesFrom_preStart :
    placesFrom instNum 0 (preStart (genJitState insts instNum helper beyond stray)) =
      layout insts instNum (preSize insts instNum) := by
  unfold placesFrom layout
  rw [passSize_preStart]
  congr 1

theorem idx_prePass (hT : ∀ i < instNum, Tabled (insts i)) :
    (prePass (genJitState insts instNum helper beyond stray)).idx = epilogueAt insts instNum := by
  have h := (prePass_spec helper beyond stray hT).idx
  rwa [placesFrom_preStart] at h

/-- The state in which the second pass enters the body. -/
def genState (insts : Nat → EbpfInst) (instNum : Nat) (helper : BitVec 32 → BitVec 32)
    (beyond : Row) (stray : Int → BitVec 8) : JitState :=
  genStart (prePass (genJitState insts instNum helper beyond stray))

theorem running_genState (hT : ∀ i < instNum, Tabled (insts i)) :
    Running (genState insts instNum helper beyond stray) where
  even := by
    simp only [genState, genStart, emit, size_buildPrologue]
    decide
  offsets := (prePass_spec helper beyond stray hT).running.offsets
  code _ := by
    simp only [genState, genStart, emit, if_true, List.nil_append, Nat.zero_add]
    rfl

theorem genState_fields (hT : ∀ i < instNum, Tabled (insts i)) :
    (genState insts instNum helper beyond stray).insts = insts ∧
      (genState insts instNum helper beyond stray).instNum = instNum ∧
      passSize (genState insts instNum helper beyond stray) = genSize insts instNum := by
  have h := (prePass_spec helper beyond stray hT).same
  have hi : (prePass (genJitState insts instNum helper beyond stray)).insts = insts := h.insts
  have hn : (prePass (genJitState insts instNum helper beyond stray)).instNum = instNum := h.instNum
  refine ⟨hi, hn, ?_⟩
  funext i idx
  simp only [passSize, genSize, genState, genStart, emit, hi, hn,
    idx_prePass helper beyond stray hT, Bool.true_eq_false, if_false]

theorem genPass_spec (hT : ∀ i < instNum, Tabled (insts i)) :
    PassSpec instNum 0 (genState insts instNum helper beyond stray) := by
  obtain ⟨h1, h2, -⟩ := genState_fields helper beyond stray hT
  refine buildFrom_spec instNum (running_genState helper beyond stray hT) ?_
  unfold AllTabled
  rw [h1, h2]
  exact hT

theorem placesFrom_genState (hT : ∀ i < instNum, Tabled (insts i)) :
    placesFrom instNum 0 (genState insts instNum helper beyond stray) =
      layout insts instNum (genSize insts instNum) := by
  obtain ⟨h1, h2, h3⟩ := genState_fields helper beyond stray hT
  unfold placesFrom layout
  rw [h1, h2, h3]
  congr 1

theorem size_jitCompile (hT : ∀ i < instNum, Tabled (insts i)) :
    size (jitCompile (genJitState insts instNum helper beyond stray)).jitCode =
      codeBytesOf insts instNum := by
  have h := genPass_spec helper beyond stray hT
  have hn := (genState_fields helper beyond stray hT).2.1
  have hb : buildBody (genState insts instNum helper beyond stray) =
      buildFrom instNum 0 (genState insts instNum helper beyond stray) := by rw [buildBody, hn]
  have hg : (buildFrom instNum 0 (genState insts instNum helper beyond stray)).needGen = true :=
    h.same.needGen
  have hc := h.running.code hg
  rw [h.idx, placesFrom_genState helper beyond stray hT] at hc
  change size (emit (buildBody (genState insts instNum helper beyond stray))
    buildEpilogue).jitCode =
    _
  rw [hb]
  simp only [emit, hg, if_true, size_append, hc, size_buildEpilogue, codeBytesOf]

end

end BlueSwat.Jit
