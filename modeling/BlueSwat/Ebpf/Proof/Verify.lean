import BlueSwat.Ebpf.Proof.Step

/-!
# What the verifier has checked

`accepted_of`: a program that `ifw_verify_policy` accepts has between 1 and 64 slots, and every
slot the loop visits passed the loop body (`Passed`): its instruction is no store and no call, a
jump goes forward to a slot of the program, the upper half of an `LDDW` is inside the program, and
a load is from `r1` or `r10` at an offset inside the input memory or the stack.
-/

set_option autoImplicit false

namespace BlueSwat.Ebpf

/-- What the loop body has checked of an instruction it does not reject. -/
structure Passed (inst : EbpfInst) (pc n memSize : Nat) : Prop where
  call : inst.opcode ≠ Op.call.code
  store : isStore inst.opcode = false
  load : verifyLoad inst memSize = none
  lddw : inst.opcode = Op.lddw.code → pc + 1 < n
  jump : inst.opcode ≠ Op.exit.code → inst.opcode &&& clsMask = clsJmp →
    0 ≤ inst.offset.toInt ∧ (pc : Int) + 1 + inst.offset.toInt < n

theorem verifyLoad_exit {inst : EbpfInst} {memSize : Nat} (h : inst.opcode = Op.exit.code) :
    verifyLoad inst memSize = none := by
  have : loadSz inst.opcode = 0 := by rw [h]; decide
  simp [verifyLoad, this]

section
variable {inst : EbpfInst} {pc n memSize : Nat}

theorem verifyLoad_some {err : Int} (h : verifyLoad inst memSize = some err) : err < 0 := by
  unfold verifyLoad at h
  simp only at h
  repeat' split at h
  all_goals cases h
  all_goals decide

theorem verifyInst_reject {err : Int} (h : verifyInst inst pc n memSize = .reject err) :
    err < 0 := by
  unfold verifyInst at h
  simp only at h
  repeat' split at h
  all_goals try cases h
  all_goals first
    | decide
    | exact verifyLoad_some ‹_›

theorem passed_of_verifyInst (h : ∀ err, verifyInst inst pc n memSize ≠ .reject err) :
    Passed inst pc n memSize := by
  unfold verifyInst at h
  simp only at h
  split at h
  · exact absurd rfl (h _)
  split at h
  · exact absurd rfl (h _)
  rename_i hcall
  split at h
  · rename_i hexit
    refine ⟨hcall, by rw [hexit]; decide, verifyLoad_exit hexit, fun hl => ?_, fun hne => ?_⟩
    · rw [hexit] at hl
      exact absurd hl (by decide)
    · exact absurd hexit hne
  split at h
  · exact absurd rfl (h _)
  rename_i hst
  split at h
  · exact absurd rfl (h _)
  rename_i hload
  refine ⟨hcall, by simpa using hst, hload, fun hl => ?_, fun _ hj => ?_⟩
  · apply Classical.byContradiction
    intro hn
    rw [if_pos hl, if_pos (by omega)] at h
    exact h _ rfl
  · have hl : inst.opcode ≠ Op.lddw.code := by
      intro hl
      rw [hl] at hj
      exact absurd hj (by decide)
    rw [if_neg hl, if_pos hj] at h
    split at h
    · exact absurd rfl (h _)
    split at h
    · exact absurd rfl (h _)
    omega

/-- The loop body takes the `LDDW` branch at an `LDDW` and nowhere else. -/
theorem verifyInst_lddw (h : ∀ err, verifyInst inst pc n memSize ≠ .reject err) :
    verifyInst inst pc n memSize = .lddw ↔ inst.opcode = Op.lddw.code := by
  constructor
  · intro hl
    unfold verifyInst at hl
    simp only at hl
    repeat' split at hl
    all_goals first
      | assumption
      | cases hl
  · intro hl
    have hp := passed_of_verifyInst h
    have h1 : Op.lddw.code ≠ Op.call.code := by decide
    have h2 : Op.lddw.code ≠ Op.exit.code := by decide
    unfold verifyInst at h ⊢
    simp only [hl, hp.load, if_neg h1, if_neg h2] at h ⊢
    split at h
    · exact absurd rfl (h _)
    rename_i hr
    rw [if_neg hr, if_neg (by decide), if_pos trivial, if_neg (by have := hp.lddw hl; omega)]

end

/-! ## The slots the loop visits -/

theorem visited_nextSlot {code : Nat → BitVec 8} {i : Nat} (h : visited code i = true) :
    visited code (nextSlot code i) = true := by
  unfold nextSlot
  split
  · rename_i hl
    simp [visited, h, hl]
  · rename_i hl
    simp [visited, hl]

/-- Between a visited slot and the next one lies no visited slot. -/
theorem nextSlot_le {code : Nat → BitVec 8} {i j : Nat} (h : visited code i = true)
    (hj : visited code j = true) (hij : i < j) : nextSlot code i ≤ j := by
  unfold nextSlot
  split
  · rename_i hl
    have : j ≠ i + 1 := by
      rintro rfl
      simp [visited, h, hl] at hj
    omega
  · omega

/-- **The loop invariant**: a loop that accepts from a visited slot on passed every visited slot
from there. -/
theorem verifyLoop_passed {code : Nat → BitVec 8} {n memSize : Nat} :
    ∀ {fuel pc : Nat} {seen : Bool}, verifyLoop code n memSize fuel pc seen = 0 → n ≤ pc + fuel →
      visited code pc = true → ∀ i, pc ≤ i → i < n → visited code i = true →
      Passed (instAt code i) i n memSize
  | 0, pc, seen, _, hf, _, i, hi, hn, _ => absurd hn (by omega)
  | fuel + 1, pc, seen, h, hf, hv, i, hi, hn, hvi => by
    have hpc : pc < n := by omega
    simp only [verifyLoop, if_pos hpc] at h
    have hok : ∀ err, verifyInst (instAt code pc) pc n memSize ≠ .reject err := by
      intro err he
      rw [he] at h
      have := verifyInst_reject he
      simp only at h
      omega
    -- the loop goes on at the next slot, whichever branch it took
    obtain ⟨seen', h'⟩ : ∃ seen', verifyLoop code n memSize fuel (nextSlot code pc) seen' = 0 := by
      cases hc : verifyInst (instAt code pc) pc n memSize with
      | reject err => exact absurd hc (hok err)
      | lddw =>
        have hl := (verifyInst_lddw hok).1 hc
        rw [hc] at h
        exact ⟨seen, by simpa [nextSlot, isLddw, hl] using h⟩
      | exit =>
        have hl := mt (verifyInst_lddw hok).2 (by rw [hc]; simp)
        rw [hc] at h
        exact ⟨true, by simpa [nextSlot, isLddw, hl] using h⟩
      | ok =>
        have hl := mt (verifyInst_lddw hok).2 (by rw [hc]; simp)
        rw [hc] at h
        exact ⟨seen, by simpa [nextSlot, isLddw, hl] using h⟩
    have hgt : pc + 1 ≤ nextSlot code pc := by unfold nextSlot; split <;> omega
    rcases Nat.lt_or_eq_of_le hi with hlt | rfl
    · exact verifyLoop_passed h' (by omega) (visited_nextSlot hv) i (nextSlot_le hv hvi hlt) hn hvi
    · exact passed_of_verifyInst hok

/-- What acceptance by `ifw_verify_policy` says of a program of `n` slots. -/
structure Accepted (code : Nat → BitVec 8) (n memSize : Nat) : Prop where
  pos : 0 < n
  le : n ≤ ifwRuntimeMaxInsts
  passed : ∀ i < n, visited code i = true → Passed (instAt code i) i n memSize

/-- **Acceptance.** -/
theorem accepted_of {code : Nat → BitVec 8} {len : BitVec 32} {memSize : Nat}
    (h : ifwVerifyPolicy (some code) len memSize = 0) : Accepted code (len.toNat / 8) memSize := by
  unfold ifwVerifyPolicy at h
  simp only at h
  split at h
  · cases h
  rename_i hlen
  split at h
  · cases h
  rename_i hn
  refine ⟨?_, by omega, fun i hi hv => ?_⟩
  · have : len.toNat ≠ 0 := fun h0 => hlen (.inl (BitVec.eq_of_toNat_eq h0))
    omega
  · exact verifyLoop_passed h (by omega) rfl i (Nat.zero_le i) hi hv

/-! ## The bytes it looks at -/

theorem instAt_congr {code code' : Nat → BitVec 8} {i : Nat}
    (h : ∀ k < 8, code (8 * i + k) = code' (8 * i + k)) : instAt code i = instAt code' i := by
  have h0 : code (8 * i) = code' (8 * i) := h 0 (by decide)
  simp only [instAt, h0, h 1 (by decide), h 2 (by decide), h 3 (by decide), h 4 (by decide),
    h 5 (by decide), h 6 (by decide), h 7 (by decide)]

theorem verifyLoop_congr {code code' : Nat → BitVec 8} {n memSize : Nat}
    (h : ∀ i < n, instAt code i = instAt code' i) (fuel pc : Nat) (seenExit : Bool) :
    verifyLoop code n memSize fuel pc seenExit = verifyLoop code' n memSize fuel pc seenExit := by
  induction fuel generalizing pc seenExit with
  | zero => rfl
  | succ fuel ih =>
    by_cases hpc : pc < n
    · simp only [verifyLoop, if_pos hpc, h pc hpc, ih]
    · simp only [verifyLoop, if_neg hpc]

/-- The verdict on a program depends on its `len` bytes. -/
theorem ifwVerifyPolicy_congr {code code' : Nat → BitVec 8} {len : BitVec 32} (memSize : Nat)
    (h : ∀ i < len.toNat, code i = code' i) :
    ifwVerifyPolicy (some code) len memSize = ifwVerifyPolicy (some code') len memSize := by
  have hinst : ∀ i < len.toNat / 8, instAt code i = instAt code' i := fun i hi =>
    instAt_congr fun k hk => h _ (by omega)
  simp only [ifwVerifyPolicy, verifyLoop_congr hinst]

end BlueSwat.Ebpf
