import BlueSwat.Jit.Proof.Branch
import BlueSwat.Jit.Proof.Passes

/-!
# Consistent layouts

`consistent_iff`: a translation is consistent, whatever lies around the array of offsets, iff the
program is `Aligned`.
-/

set_option autoImplicit false

namespace BlueSwat.Jit

open Ebpf Assembly

/-! ## Sizes in the two passes -/

section
variable {insts : Nat → EbpfInst} {instNum : Nat}

/-- Only an `EXIT` that is not the last instruction has two sizes. -/
theorem instSize_congr {i : Nat} (h : (insts i).opcode = Op.exit.code → i + 1 = instNum)
    (e e' : Nat) : instSize insts instNum e i = instSize insts instNum e' i := by
  unfold instSize
  generalize ho : Op.ofCode (insts i).opcode = o
  rcases o with _ | op
  · rfl
  cases op <;> try rfl
  have := h (Op.ofCode_eq_some.1 ho)
  simp only [opcodeSize, if_pos this]

theorem instSize_exit {i : Nat} (h : (insts i).opcode = Op.exit.code) (hi : i + 1 ≠ instNum)
    (e : Nat) : instSize insts instNum e i = e := by
  rw [instSize, Op.ofCode_eq_some.2 h]
  simp only [opcodeSize, if_neg hi]

theorem exitSize_eq_two {off : Int} (h : -2048 < off) : exitSize off = 2 ↔ off < 2046 := by
  unfold exitSize
  split_ifs <;> simp <;> omega

theorem num_listing : (listing insts instNum).num = instNum := rfl

/-- An `EXIT` is as long in the second pass as in the first iff the epilogue is near. -/
theorem genSize_exit_iff {i a : Nat}
    (ha : (i, a) ∈ (layout insts instNum (preSize insts instNum)).1)
    (h : (insts i).opcode = Op.exit.code) (hi : i + 1 ≠ instNum) :
    genSize insts instNum i a = preSize insts instNum i a ↔
      epilogueAt insts instNum < a + 2050 := by
  have hend : a + preSize insts instNum i a ≤ epilogueAt insts instNum :=
    Listing.end_of_mem_place ha
  rw [preSize, instSize_exit h hi] at hend
  rw [genSize, preSize, instSize_exit h hi, instSize_exit h hi, exitSize_eq_two (by omega)]
  omega

end

/-! ## Every instruction is placed -/

section
variable {code : Nat → BitVec 8} {instNum : Nat} {size : Nat → Nat → Nat}

theorem isLddw_iff {i : Nat} :
    isLddw code i = true ↔ Op.ofCode (instAt code i).opcode = some .lddw := by
  rw [Op.ofCode_eq_some, isLddw, beq_iff_eq]

theorem nextInst_eq (i : Nat) : nextInst (instAt code) i = nextSlot code i := by
  unfold nextInst nextSlot
  simp only [← isLddw_iff]

/-- A placed slot is no second slot. -/
theorem visited_of_mem {i a : Nat} (h : (i, a) ∈ (layout (instAt code) instNum size).1) :
    visited code i = true := by
  induction i using Nat.strongRecOn generalizing a with
  | _ i ih =>
    rcases Listing.place_pred h with ⟨rfl, -⟩ | ⟨p, c, hp, -, hn, -⟩
    · rfl
    have hv := ih p (hn ▸ (listing _ _).lt_next p) hp
    have hn : nextInst (instAt code) p = i := hn
    rw [nextInst_eq, nextSlot] at hn
    by_cases hl : isLddw code p = true
    · rw [if_pos hl] at hn
      subst hn
      simp [visited, hv, hl]
    · rw [if_neg hl] at hn
      subst hn
      simp [visited, hl]

theorem lt_of_mem_places {i a : Nat} (h : (i, a) ∈ places code instNum) : i < instNum :=
  (Listing.le_of_mem_place h).2

/-- Where nothing is refused, every first slot is placed. -/
theorem exists_place (hr : ∀ i, i + 1 < instNum → visited code i = true →
    refused (instAt code i) = false) {i : Nat} (hi : i < instNum) (hv : visited code i = true) :
    ∃ a, (i, a) ∈ (layout (instAt code) instNum size).1 := by
  induction i using Nat.strongRecOn with
  | _ i ih =>
    -- the slot before `i`, or the one before that, is a first slot that `i` comes after
    have step : ∀ p, p < i → visited code p = true → nextSlot code p = i →
        ∃ a, (i, a) ∈ (layout (instAt code) instNum size).1 := by
      intro p hp hvp hnp
      obtain ⟨a, ha⟩ := ih p hp (by omega) hvp
      have hs : (listing (instAt code) instNum).stops p = false := hr p (by omega) hvp
      have hn : (listing (instAt code) instNum).next p = i := (nextInst_eq p).trans hnp
      have := Listing.place_next (by simp [num_listing]) ha hs (by rw [hn]; exact hi)
      rw [hn] at this
      exact ⟨_, this⟩
    match i, hi, hv, step with
    | 0, hi, _, _ =>
      obtain ⟨n, rfl⟩ : ∃ n, instNum = n + 1 := ⟨instNum - 1, by omega⟩
      refine ⟨prologueSize, ?_⟩
      unfold layout
      cases h : (listing (instAt code) (n + 1)).stops 0 with
      | true => simp [Listing.place_stop (show 0 < (listing (instAt code) (n + 1)).num from hi) h]
      | false => simp [Listing.place_cons (show 0 < (listing (instAt code) (n + 1)).num from hi) h]
    | i + 1, hi, hv, step =>
      cases hvi : visited code i with
      | true =>
        have hl : isLddw code i = false := by simpa [visited, hvi] using hv
        exact step i (by omega) hvi (by simp [nextSlot, hl])
      | false =>
        match i, hvi, step with
        | 0, hvi, _ => cases hvi
        | j + 1, hvi, step =>
          simp only [visited, Bool.not_eq_false', Bool.and_eq_true] at hvi
          exact step j (by omega) hvi.1 (by simp [nextSlot, hvi.2])

end

/-! ## The branch of an instruction -/

section
variable {s : JitState} {i : Nat}

/-- The distance that a jump asks for. -/
def jumpDistance (s : JitState) (i : Nat) (bsize : Nat) : Int :=
  bpf2a32Offset s i (i + (s.insts i).offset.toInt) bsize

theorem offset_toInt_ne {x : BitVec 16} (h : x ≠ 0) : x.toInt ≠ 0 := fun e =>
  h (BitVec.eq_of_toInt_eq (by simpa using e))

theorem ne_nil_of_size {c : Code} (h : Jit.size c ≠ 0) : c ≠ [] := fun e => h (e ▸ rfl)

/-- A jump with a branch: the branch is the last 2 or 4 bytes of its instruction, and goes the
distance that is asked for. -/
theorem branchOf_jump (ht : Tabled (s.insts i)) (he : EvenOffsets s) (hi : i < s.instNum)
    (hb : emitsBranch (s.insts i) = true) :
    ∃ bsize : Nat, bsize % 2 = 0 ∧ (branchOf s i).2 ≠ [] ∧
      (∀ e, 2 * (branchOf s i).1.length + bsize = instSize s.insts s.instNum e i) ∧
      (jumpDistance s i bsize % 2 = 0 → ∀ a,
        branchTarget a (branchOf s i).2 = some (a + 4 + jumpDistance s i bsize)) := by
  have hd := regular_bpf2a32 (s.insts i).dst
  have hs := regular_bpf2a32 (s.insts i).src
  have ed := @bpf2a32_of_lt s.beyond _ ht.dst
  have es := @bpf2a32_of_lt s.beyond _ ht.src
  unfold emitsBranch at hb
  unfold branchOf instSize
  generalize Op.ofCode (s.insts i).opcode = o at hb
  rcases o with _ | op
  · cases hb
  cases op with
  | ja =>
    have h0 := offset_toInt_ne (by simpa using hb)
    have hr := he.range hi (i + (s.insts i).offset.toInt) 2 (.inl rfl)
    simp only [buildJump, if_neg h0, opcodeSize]
    refine ⟨2, rfl, ne_nil_of_size ?_, fun _ => rfl, fun hev a => ?_⟩
    · rw [he.size_ja hi]
      decide
    · have hj : jumpDistance s i 2 = bpf2a32Offset s i (i + (s.insts i).offset.toInt) 2 := rfl
      rw [hj] at hev ⊢
      exact branchTarget_emitB (by omega) hev a
  | jcond c form =>
    obtain ⟨hc, hf⟩ : (jumpCond c).isSome = true ∧
        ¬ (form = .imm ∧ (s.insts i).offset.toInt = 0) := by
      simp only [Bool.and_eq_true, Bool.not_eq_true', Bool.and_eq_false_iff,
        beq_eq_false_iff_ne] at hb
      exact ⟨hb.1, fun h => hb.2.elim (fun h' => h' h.1) fun h' => offset_toInt_ne h' h.2⟩
    obtain ⟨cond, hcond⟩ := Option.isSome_iff_exists.1 hc
    have hbr : branchSize s.instNum c = if useB4 s.instNum then 4 else 2 := by
      simp [branchSize, hcond]
    have hr := he.range hi (i + (s.insts i).offset.toInt) (if useB4 s.instNum then 4 else 2)
      (by split <;> simp)
    have hsz := he.size_branch hi (i + (s.insts i).offset.toInt) c
    have hcmp : 2 * (buildCompare _ _ (s.insts i).imm c form).length = _ :=
      size_buildCompare (d := bpf2a32 bpfR0 (s.insts i).dst) hs (s.insts i).imm c form
    simp only [buildJump, if_neg hf, ed, es, opcodeSize, jcondSize]
    refine ⟨if useB4 s.instNum then 4 else 2, by split <;> rfl, ne_nil_of_size ?_, fun _ => ?_,
      fun hev a => ?_⟩
    · rw [hsz, hbr]
      split <;> decide
    · cases form <;> simp only [hcmp, hbr]
    · unfold jumpDistance at hev ⊢
      push_cast at hev ⊢
      have h4 : (if useB4 s.instNum then (4 : Int) else 2) ≤ 4 := by split <;> decide
      exact branchTarget_emitJump hcond ⟨hr.1, by omega⟩ hev a
  | _ => cases hb

theorem branchOf_exit (h : (s.insts i).opcode = Op.exit.code) :
    branchOf s i = ([], if i + 1 = s.instNum then [] else emitB (epilogueOffset s)) := by
  rw [branchOf, Op.ofCode_eq_some.2 h]
  rfl

theorem branchOf_other (h : (s.insts i).opcode ≠ Op.exit.code)
    (hb : emitsBranch (s.insts i) = false) : (branchOf s i).2 = [] := by
  unfold emitsBranch at hb
  unfold branchOf
  generalize ho : Op.ofCode (s.insts i).opcode = o at hb
  rcases o with _ | op
  · rfl
  cases op with
  | ja =>
    have h0 : (s.insts i).offset = 0 := by simpa using hb
    simp [buildJump, h0]
  | jcond c form =>
    simp only [buildJump]
    split
    · rfl
    rename_i hf
    simp only [Bool.and_eq_false_iff, Bool.not_eq_false', Bool.and_eq_true, beq_iff_eq,
      Option.isSome_eq_false_iff, Option.isNone_iff_eq_none] at hb
    rcases hb with hb | hb
    · simp [emitJump, hb]
    · exact absurd ⟨hb.1, by simp [hb.2]⟩ hf
  | exit => exact absurd (Op.ofCode_eq_some.1 ho) h
  | _ => rfl

end

/-! ## The two passes -/

section
variable {code : Nat → BitVec 8} {instNum : Nat} (helper : BitVec 32 → BitVec 32) (beyond : Row)
  (stray : Int → BitVec 8) (hT : ∀ i < instNum, Tabled (instAt code i))

include hT

theorem placesOf_preStart :
    placesOf (preStart (genJitState (instAt code) instNum helper beyond stray)) =
      places code instNum := by
  have h := (prePass_spec helper beyond stray hT).places
  rwa [placesFrom_preStart] at h

theorem placesOf_genStart :
    placesOf (genStart (prePass (genJitState (instAt code) instNum helper beyond stray))) =
      (layout (instAt code) instNum (genSize (instAt code) instNum)).1 := by
  have h := (genPass_spec helper beyond stray hT).places
  rw [placesFrom_genState helper beyond stray hT] at h
  have hn := (genState_fields helper beyond stray hT).2.1
  rw [placesOf, ← h]
  exact congrArg (fun n => List.map _ (visits n 0 _)) hn

theorem idx_genBody :
    (buildBody (genStart (prePass (genJitState (instAt code) instNum helper beyond stray)))).idx =
      (layout (instAt code) instNum (genSize (instAt code) instNum)).2 := by
  have h := (genPass_spec helper beyond stray hT).idx
  rw [placesFrom_genState helper beyond stray hT] at h
  have hn := (genState_fields helper beyond stray hT).2.1
  rw [buildBody, ← h]
  exact congrArg (fun n => (buildFrom n 0 _).idx) hn

/-- The offsets that the second pass reads. -/
def recorded (code : Nat → BitVec 8) (instNum : Nat) (helper : BitVec 32 → BitVec 32) (beyond : Row)
    (stray : Int → BitVec 8) : Int → BitVec 8 :=
  (prePass (genJitState (instAt code) instNum helper beyond stray)).offsets

theorem recorded_end {i a : Nat} (h : (i, a) ∈ places code instNum)
    (hl : Op.ofCode (instAt code i).opcode ≠ some .lddw) :
    recorded code instNum helper beyond stray i =
      BitVec.ofNat 8 (a + preSize (instAt code) instNum i a) := by
  have hr := (prePass_spec helper beyond stray hT).recorded rfl i a
  rw [placesFrom_preStart] at hr
  have hn : nextInst (instAt code) i - 1 = i := by
    rw [nextInst, if_neg hl]
    rfl
  have := hr h
  rwa [show nextInst (preStart (genJitState (instAt code) instNum helper beyond stray)).insts i - 1
    = i from hn] at this

theorem recorded_start {t b : Nat} (h : (t, b) ∈ places code instNum) (ht : t ≠ 0) :
    recorded code instNum helper beyond stray (t - 1) = BitVec.ofNat 8 b := by
  rcases Listing.place_pred h with ⟨h0, -⟩ | ⟨p, c, hp, -, hn, hb⟩
  · exact absurd h0 ht
  have hr := (prePass_spec helper beyond stray hT).recorded rfl p c
  rw [placesFrom_preStart] at hr
  have := hr hp
  have hn : nextInst (instAt code) p = t := hn
  rw [show nextInst (preStart (genJitState (instAt code) instNum helper beyond stray)).insts p = t
    from hn, show ((t - 1 : Nat) : Int) = (t : Int) - 1 by omega] at this
  rw [hb]
  exact this

theorem recorded_before : recorded code instNum helper beyond stray (-1) = stray (-1) := by
  have h := (prePass_spec helper beyond stray hT).before (-1) (by decide)
  exact h

/-- What holds of every call of `build_inst` in the second pass. -/
theorem visit_spec {v : Nat × JitState}
    (hv : v ∈ visits instNum 0
      (genStart (prePass (genJitState (instAt code) instNum helper beyond stray)))) :
    v.2.insts = instAt code ∧ v.2.instNum = instNum ∧ v.2.needGen = true ∧
      v.2.epilogueOffset = epilogueAt (instAt code) instNum ∧ Running v.2 ∧
      v.2.offsets = recorded code instNum helper beyond stray ∧
      (v.1, v.2.idx) ∈ (layout (instAt code) instNum (genSize (instAt code) instNum)).1 := by
  have h := genPass_spec helper beyond stray hT
  obtain ⟨f1, f2, -⟩ := genState_fields helper beyond stray hT
  obtain ⟨h1, h2, h3⟩ := h.state v hv
  have hp := h.places
  rw [placesFrom_genState helper beyond stray hT] at hp
  refine ⟨h1.insts.trans f1, h1.instNum.trans f2, h1.needGen, ?_, h2, h3 rfl, ?_⟩
  · exact h1.epilogueOffset.trans (idx_prePass helper beyond stray hT)
  · rw [← hp]
    exact List.mem_map_of_mem hv

/-- **Where a jump goes**: to the end of the jump, with the low byte of the end replaced by the byte
that was read for the target. -/
theorem jump_goes {v : Nat × JitState}
    (hv : v ∈ visits instNum 0
      (genStart (prePass (genJitState (instAt code) instNum helper beyond stray))))
    (hp : (v.1, v.2.idx) ∈ places code instNum) (hb : emitsBranch (instAt code v.1) = true)
    {o e : Nat} (ho : (recorded code instNum helper beyond stray
      (jumpTarget (instAt code v.1) v.1 - 1)).toNat = o) (heven : o % 2 = 0)
    (he : v.2.idx + preSize (instAt code) instNum v.1 v.2.idx = e) :
    (branchOf v.2 v.1).2 ≠ [] ∧
      branchTarget (v.2.idx + 2 * (branchOf v.2 v.1).1.length) (branchOf v.2 v.1).2 =
        some ((e : Int) + o - e % 256) := by
  obtain ⟨h1, h2, h3, -, hR, h6, -⟩ := visit_spec helper beyond stray hT hv
  have h5 := hR.offsets
  have hi := lt_of_mem_places hp
  have hl : Op.ofCode (instAt code v.1).opcode ≠ some .lddw := fun h => by
    simp [emitsBranch, h] at hb
  obtain ⟨bsize, k0, k1, k2, k3⟩ := branchOf_jump (s := v.2) (i := v.1)
    (h1 ▸ hT v.1 hi) h5 (h2 ▸ hi)
    (h1 ▸ hb)
  refine ⟨k1, ?_⟩
  have hend := recorded_end helper beyond stray hT hp hl
  rw [he] at hend
  have hd : jumpDistance v.2 v.1 bsize = o - ((e % 256 : Nat) - bsize) - 4 := by
    rw [jumpDistance, bpf2a32Offset, if_neg (by simp [h3]), h6, h1, hend, BitVec.toNat_ofNat]
    congr 3
    rw [← ho]
    congr 2
    simp only [jumpTarget]
    omega
  have hev : e % 256 % 2 = 0 := by
    have := h5 v.1 (h2 ▸ hi)
    rwa [h6, hend, BitVec.toNat_ofNat] at this
  have hsz := k2 2
  rw [h1, h2] at hsz
  rw [k3 (by omega), hd]
  have he' : v.2.idx + instSize (instAt code) instNum 2 v.1 = e := he
  congr 1
  omega

/-! ## Aligned programs are laid out consistently -/

omit hT in
theorem layout_genSize (h : ∀ i a, (i, a) ∈ places code instNum →
    (instAt code i).opcode = Op.exit.code → i + 1 ≠ instNum →
      epilogueAt (instAt code) instNum < a + 2050) :
    layout (instAt code) instNum (genSize (instAt code) instNum) =
      layout (instAt code) instNum (preSize (instAt code) instNum) := by
  refine (Listing.place_congr fun i a ha => ?_).symm
  by_cases hx : (instAt code i).opcode = Op.exit.code ∧ i + 1 ≠ instNum
  · exact ((genSize_exit_iff ha hx.1 hx.2).2 (h i a ha hx.1 hx.2)).symm
  · exact instSize_congr (fun h1 => Classical.not_not.1 fun h2 => hx ⟨h1, h2⟩) _ _

theorem even_epilogueAt : epilogueAt (instAt code) instNum % 2 = 0 := by
  have h := (prePass_spec (fun _ => 0) bpfR0 (fun _ => 0) hT).running.even
  have h' := idx_prePass (fun _ => 0) bpfR0 (fun _ => 0) hT
  exact h' ▸ h

/-- The place of an instruction is even. -/
theorem even_of_mem_places {t b : Nat} (h : (t, b) ∈ places code instNum) : b % 2 = 0 := by
  have hp := (prePass_spec (fun _ => 0) bpfR0 (fun _ => 0) hT).places
  rw [placesFrom_preStart] at hp
  have h' : (t, b) ∈ (layout (instAt code) instNum (preSize (instAt code) instNum)).1 := h
  rw [← hp] at h'
  obtain ⟨v, hv, hvb⟩ := List.mem_map.1 h'
  obtain ⟨-, rfl⟩ := Prod.mk.inj hvb
  exact ((prePass_spec (fun _ => 0) bpfR0 (fun _ => 0) hT).state v hv).2.1.even

/-- An `EXIT` goes to the epilogue. -/
theorem exit_lands {v : Nat × JitState}
    (hv : v ∈ visits instNum 0
      (genStart (prePass (genJitState (instAt code) instNum helper beyond stray))))
    (hp : (v.1, v.2.idx) ∈ places code instNum) (hx : (instAt code v.1).opcode = Op.exit.code)
    (hi : v.1 + 1 ≠ instNum) (hnear : epilogueAt (instAt code) instNum < v.2.idx + 2050) :
    branchTarget (v.2.idx + 2 * (branchOf v.2 v.1).1.length) (branchOf v.2 v.1).2 =
      some (epilogueAt (instAt code) instNum : Int) := by
  obtain ⟨h1, h2, h3, h4, hR, -⟩ := visit_spec helper beyond stray hT hv
  have hend : v.2.idx + preSize (instAt code) instNum v.1 v.2.idx ≤
      epilogueAt (instAt code) instNum :=
    Listing.end_of_mem_place hp
  rw [preSize, instSize_exit hx hi] at hend
  have he1 := hR.even
  have he2 := even_epilogueAt hT
  have hoff : epilogueOffset v.2 = epilogueAt (instAt code) instNum - v.2.idx - 4 := by
    rw [epilogueOffset, if_neg (by simp [h3]), h4]
  rw [branchOf_exit (h1 ▸ hx), if_neg (h2 ▸ hi), hoff]
  simp only [List.length_nil, Nat.mul_zero, Nat.add_zero]
  rw [branchTarget_emitB (by omega) (by omega)]
  congr 1
  omega

theorem consistent_of_aligned (hJ : JumpsInside code instNum) (hA : Aligned code instNum) :
    Consistent code (genJitState (instAt code) instNum helper beyond stray) := by
  have hgen := layout_genSize hA.exits
  have hG := placesOf_genStart helper beyond stray hT
  have hG' : placesOf (genStart (prePass (genJitState (instAt code) instNum helper beyond stray))) =
      places code instNum := by rw [hG, hgen]; rfl
  refine ⟨fun i hi hv => ?_, ?_, fun v hv => ?_⟩
  · rw [hG]
    exact exists_place hA.accepted hi hv
  · rw [hG', placesOf_preStart helper beyond stray hT]
  intro hne
  obtain ⟨h1, h2, -, -, -, -, hp⟩ := visit_spec helper beyond stray hT hv
  rw [hgen] at hp
  have hp : (v.1, v.2.idx) ∈ places code instNum := hp
  have hi := lt_of_mem_places hp
  rw [h1]
  by_cases hx : (instAt code v.1).opcode = Op.exit.code
  · have hlast : v.1 + 1 ≠ instNum := fun h => hne (by
      rw [branchOf_exit (h1 ▸ hx), if_pos (h2 ▸ h)])
    refine ⟨epilogueAt (instAt code) instNum,
      exit_lands helper beyond stray hT hv hp hx hlast (hA.exits _ _ hp hx hlast), ?_⟩
    rw [if_pos hx, idx_genBody helper beyond stray hT, hgen]
    rfl
  · have hb : emitsBranch (instAt code v.1) = true := by
      rw [← h1] at hx ⊢
      cases hb : emitsBranch (v.2.insts v.1) with
      | true => rfl
      | false => exact absurd (branchOf_other hx hb) hne
    obtain ⟨t, ht, hjt, hvt⟩ := hJ v.1 hi (visited_of_mem hp) hb
    obtain ⟨b, htb⟩ : ∃ b, (t, b) ∈ places code instNum := exists_place hA.accepted ht hvt
    obtain ⟨h0, hblk⟩ := hA.jumps v.1 v.2.idx t b hp hb hjt htb
    have hrec := recorded_start helper beyond stray hT htb h0
    have heven := even_of_mem_places hT htb
    have hgo := (jump_goes helper beyond stray hT hv hp hb (o := b % 256)
      (by rw [hjt, hrec, BitVec.toNat_ofNat]) (by omega) rfl).2
    refine ⟨b, hgo.trans ?_, ?_⟩
    · congr 1
      omega
    · rw [if_neg hx, hG']
      exact ⟨t, hjt, htb⟩

/-! ## And only those -/

omit hT in
theorem eq_of_mem_zero {b : Nat} (h : (0, b) ∈ places code instNum) : b = prologueSize := by
  rcases Listing.place_pred h with ⟨-, hb⟩ | ⟨p, c, -, -, hn, -⟩
  · exact hb
  · have := (listing (instAt code) instNum).lt_next p
    omega

omit hT in
/-- A refused instruction is the last one that is placed. -/
theorem accepted_of_placed {size : Nat → Nat → Nat}
    (h : ∀ i < instNum, visited code i = true → ∃ a, (i, a) ∈ (layout (instAt code) instNum size).1)
    {i : Nat} (hi : i + 1 < instNum) (hv : visited code i = true) :
    refused (instAt code i) = false := by
  cases hr : refused (instAt code i) with
  | false => rfl
  | true =>
    exfalso
    have hl : isLddw code i = false := by
      cases hl : isLddw code i with
      | false => rfl
      | true =>
        rw [refused, isLddw_iff.1 hl] at hr
        cases hr
    obtain ⟨a, ha⟩ := h (i + 1) hi (by simp [visited, hl])
    rcases Listing.place_pred ha with ⟨h0, -⟩ | ⟨p, c, hp, hs, hn, -⟩
    · omega
    have hn : nextInst (instAt code) p = i + 1 := hn
    rw [nextInst_eq, nextSlot] at hn
    by_cases hlp : isLddw code p = true
    · -- `i` would be the second slot of `p`
      rw [if_pos hlp] at hn
      obtain rfl : i = p + 1 := by omega
      simp [visited, visited_of_mem hp, hlp] at hv
    · rw [if_neg hlp] at hn
      obtain rfl : p = i := by omega
      exact Bool.noConfusion (hr.symm.trans hs)

section
variable (h : Consistent code (genJitState (instAt code) instNum helper beyond stray))

include h

theorem places_eq_of_consistent : places code instNum =
    (layout (instAt code) instNum (genSize (instAt code) instNum)).1 := by
  rw [← placesOf_preStart helper beyond stray hT, h.same, placesOf_genStart helper beyond stray hT]

theorem exit_near_of_consistent {i a : Nat} (ha : (i, a) ∈ places code instNum)
    (hx : (instAt code i).opcode = Op.exit.code) (hi : i + 1 ≠ instNum) :
    epilogueAt (instAt code) instNum < a + 2050 := by
  have hs : (listing (instAt code) instNum).stops i = false := by
    change refused (instAt code i) = false
    rw [refused, Op.ofCode_eq_some.2 hx]
    rfl
  have hn : (listing (instAt code) instNum).next i < (listing (instAt code) instNum).num := by
    change nextInst (instAt code) i < instNum
    have := lt_of_mem_places ha
    rw [nextInst, Op.ofCode_eq_some.2 hx, if_neg (by decide)]
    omega
  refine (genSize_exit_iff ha hx hi).1 (Eq.symm ?_)
  exact Listing.size_eq_of_place_eq (by simp [num_listing])
    (places_eq_of_consistent helper beyond stray hT h) ha hs hn

/-- In a consistent translation the byte read for the target is the one that leads to its place. -/
theorem jump_eq_of_consistent {i a t b o e : Nat} (ha : (i, a) ∈ places code instNum)
    (hb : emitsBranch (instAt code i) = true) (hjt : jumpTarget (instAt code i) i = (t : Nat))
    (htb : (t, b) ∈ places code instNum)
    (ho : (recorded code instNum helper beyond stray ((t : Int) - 1)).toNat = o) (heven : o % 2 = 0)
    (he : a + preSize (instAt code) instNum i a = e) : (e : Int) + o - e % 256 = b := by
  have hG := placesOf_genStart helper beyond stray hT
  rw [← places_eq_of_consistent helper beyond stray hT h] at hG
  have hn : (genStart (prePass (genJitState (instAt code) instNum helper beyond stray))).instNum =
      instNum := (genState_fields helper beyond stray hT).2.1
  -- the call of `build_inst` for the jump
  have hm := ha
  rw [← hG, placesOf, hn] at hm
  obtain ⟨v, hv, hva⟩ := List.mem_map.1 hm
  obtain ⟨rfl, rfl⟩ := Prod.mk.inj hva
  obtain ⟨hne, hgo⟩ := jump_goes helper beyond stray hT hv ha hb (by rw [hjt, ho]) heven he
  obtain ⟨a', ha', hland⟩ := h.lands v hv hne
  have hx : (instAt code v.1).opcode ≠ Op.exit.code := fun hx => by
    rw [emitsBranch, Op.ofCode_eq_some.2 hx] at hb
    cases hb
  rw [(visit_spec helper beyond stray hT hv).1, if_neg hx, hG] at hland
  obtain ⟨t', ht', htb'⟩ := hland
  obtain rfl : t' = t := by exact_mod_cast ht'.symm.trans hjt
  obtain rfl := Listing.place_unique htb' htb
  exact Option.some.inj (hgo.symm.trans ha')

end

theorem aligned_of_consistent
    (h : Consistent code (genJitState (instAt code) instNum helper beyond fun _ => 0)) :
    Aligned code instNum where
  accepted i hi hv := by
    have hplaced : ∀ j < instNum, visited code j = true →
        ∃ a, (j, a) ∈ (layout (instAt code) instNum (genSize (instAt code) instNum)).1 := by
      rw [← placesOf_genStart helper beyond (fun _ => 0) hT]
      exact h.placed
    exact accepted_of_placed hplaced hi hv
  exits i a ha hx hi := exit_near_of_consistent helper beyond (fun _ => 0) hT h ha hx hi
  jumps i a t b ha hb hjt htb := by
    by_cases h0 : t = 0
    · -- a jump to the first instruction goes to a multiple of 256
      subst h0
      exfalso
      have hz :
          (recorded code instNum helper beyond (fun _ => 0) ((0 : Nat) - 1 : Int)).toNat = 0 := by
        rw [show ((0 : Nat) : Int) - 1 = -1 by rfl, recorded_before helper beyond (fun _ => 0) hT]
        rfl
      have := jump_eq_of_consistent helper beyond (fun _ => 0) hT h ha hb hjt htb hz rfl rfl
      rw [eq_of_mem_zero htb] at this
      have h26 : prologueSize = 26 := rfl
      omega
    · refine ⟨h0, ?_⟩
      have heven := even_of_mem_places hT htb
      have hrec : (recorded code instNum helper beyond (fun _ => 0) ((t : Int) - 1)).toNat =
          b % 256 := by
        rw [recorded_start helper beyond (fun _ => 0) hT htb h0, BitVec.toNat_ofNat]
      have := jump_eq_of_consistent helper beyond (fun _ => 0) hT h ha hb hjt htb hrec
        (by omega) rfl
      omega

end

/-- **A translation is laid out consistently, whatever lies around the array of offsets, iff the
program is aligned**, for programs without calls whose jumps stay inside. -/
theorem consistent_iff (code : Nat → BitVec 8) (instNum : Nat) (helper : BitVec 32 → BitVec 32)
    (beyond : Row) (hT : ∀ i < instNum, Tabled (instAt code i)) (hJ : JumpsInside code instNum) :
    (∀ stray, Consistent code (genJitState (instAt code) instNum helper beyond stray)) ↔
      Aligned code instNum :=
  ⟨fun h => aligned_of_consistent helper beyond hT (h _),
    fun hA stray => consistent_of_aligned helper beyond stray hT hJ hA⟩

/-- `MOV64 r0, 0; JEQ r0, 0, +1; MOV64 r0, 1; EXIT`. -/
def nearJump : Nat → BitVec 8 :=
  codeBytes [0xb7, 0, 0, 0, 0, 0, 0, 0, 0x15, 0, 1, 0, 0, 0, 0, 0, 0xb7, 0, 0, 0, 1, 0, 0, 0,
    0x95, 0, 0, 0, 0, 0, 0, 0] fun _ => 0

theorem consistent_iff_nearJump :
    (∀ i < 4, Tabled (instAt nearJump i)) ∧ JumpsInside nearJump 4 ∧
      ((∀ stray, Consistent nearJump
        (genJitState (instAt nearJump) 4 (fun _ => 0) bpfR0 stray)) ↔ Aligned nearJump 4) := by
  have hT : ∀ i < 4, Tabled (instAt nearJump i) := tabled_of (by decide)
  have hJ : JumpsInside nearJump 4 := by
    unfold JumpsInside
    decide
  exact ⟨hT, hJ, consistent_iff nearJump 4 _ _ hT hJ⟩

/-- `JA +20; MOV64 r2, 0x12345` 20 times; `EXIT`. -/
def farJump : Nat → BitVec 8 :=
  codeBytes ([0x05, 0, 20, 0, 0, 0, 0, 0] ++
    (List.replicate 20 [0xb7, 2, 0, 0, 0x45, 0x23, 0x01, 0]).flatten ++
    [0x95, 0, 0, 0, 0, 0, 0, 0]) fun _ => 0

/-- The jump ends at 28 and its target is at 308, but the byte that is kept of 308 is 52: the branch
goes to 52. -/
theorem farJump_not_consistent :
    ¬ Consistent farJump (genJitState (instAt farJump) 22 (fun _ => 0) bpfR0 fun _ => 0) := by
  intro h
  have hT : ∀ i < 22, Tabled (instAt farJump i) := tabled_of (by decide)
  have hA := aligned_of_consistent (fun _ => 0) bpfR0 hT h
  have hj := hA.jumps 0 26 21 308 (by decide) (by decide) (by decide)
    (by decide)
  exact absurd hj.2 (by decide)

end BlueSwat.Jit
