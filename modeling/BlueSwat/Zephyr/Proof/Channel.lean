import BlueSwat.Zephyr.Channel

/-!
# Counting and selecting channels

`toNat_ifwCountOne`: `ifw_count_one` counts the set bits of all 40 positions of a channel map.
`chanSelRemap_selects`: `chan_sel_remap` scans the same 40 positions. Channels are the first 37 of
them, so the two agree with each other and not with the channels when a reserved bit is set.
-/

set_option autoImplicit false

namespace BlueSwat.Zephyr

open Bits

/-! ## `ifw_count_one` -/

theorem countOctet_eq (bite oneCount : BitVec 8) :
    countOctet bite oneCount = oneCount + BitVec.ofNat 8 (ones bite) := by
  fun_induction countOctet bite oneCount with
  | case1 oneCount => rw [show ones 0 = 0 from ones_zero]; exact (BitVec.add_zero _).symm
  | case2 bite oneCount h ih =>
    rw [ih, ← ones_clear_lowest bite h, BitVec.add_assoc, Nat.add_comm (ones _) 1, BitVec.ofNat_add]
    rfl

theorem foldl_countOctet (l : List (BitVec 8)) (n : BitVec 8) :
    l.foldl (fun oneCount bite => countOctet bite oneCount) n =
      n + BitVec.ofNat 8 (l.map ones).sum := by
  induction l generalizing n with
  | nil => simp
  | cons b l ih =>
    rw [List.foldl_cons, ih, countOctet_eq, List.map_cons, List.sum_cons, BitVec.ofNat_add,
      BitVec.add_assoc]

/-- **`ifw_count_one` counts the set bits of all five octets.** -/
theorem toNat_ifwCountOne (chanMap : ChanMap) :
    (ifwCountOne chanMap).toNat = chanMap.enabledBelow 40 := by
  have hsum : (chanMap.toList.map ones).sum = chanMap.enabledBelow 40 := by
    rw [← count_bit, Vector.length_toList]
    rfl
  have hle : chanMap.enabledBelow 40 ≤ 40 := Nat.count_le _
  rw [ifwCountOne, foldl_countOctet, hsum, show (0 : BitVec 8) = 0#8 from rfl, BitVec.zero_add,
    BitVec.toNat_ofNat]
  omega

/-! ## `chan_sel_remap` -/

theorem and_one_ne_zero (b : BitVec 8) : b &&& 0x01 ≠ 0 ↔ b.getLsbD 0 = true := by
  revert b
  decide

theorem getLsbD_ushiftRight_one (b : BitVec 8) :
    (b >>> 1).getLsbD = fun i => b.getLsbD (i + 1) := by
  funext i
  rw [BitVec.getLsbD_ushiftRight, Nat.add_comm]

theorem add_one_add_ofNat (x : BitVec 8) (c : Nat) :
    x + 1 + BitVec.ofNat 8 c = x + BitVec.ofNat 8 (c + 1) := by
  rw [BitVec.add_assoc, Nat.add_comm, BitVec.ofNat_add]
  rfl

/-- The inner loop with `n` rounds to go scans `n` bits: it stops at the bit after `chan_index` set
ones, or passes all of them and takes the set ones off `chan_index`. -/
theorem remapOctet_spec (n : Nat) (hn : n ≤ 8) (bite idx next : BitVec 8) :
    ∃ bc i c, remapOctet n bite idx next = (bc, i, next + BitVec.ofNat 8 c) ∧
      Selects bite.getLsbD n idx.toNat c ∧ ((c < n ∧ bc.toNat < 8) ∨
        (c = n ∧ bc = 255 ∧ i.toNat + Nat.count (bite.getLsbD · = true) n = idx.toNat)) := by
  induction n generalizing bite idx next with
  | zero =>
    exact ⟨255, idx, 0, by simp [remapOctet], .inr ⟨rfl, Nat.zero_le _⟩, .inr ⟨rfl, rfl, rfl⟩⟩
  | succ n ih =>
    -- the rest of the scan, from the next bit on with index `idx'`
    have hnext : ∀ idx' : BitVec 8,
        idx.toNat = idx'.toNat + (if bite.getLsbD 0 = true then 1 else 0) →
        remapOctet (n + 1) bite idx next = remapOctet n (bite >>> 1) idx' (next + 1) →
        ∃ bc i c, remapOctet (n + 1) bite idx next = (bc, i, next + BitVec.ofNat 8 c) ∧
          Selects bite.getLsbD (n + 1) idx.toNat c ∧ ((c < n + 1 ∧ bc.toNat < 8) ∨
            (c = n + 1 ∧ bc = 255 ∧
              i.toNat + Nat.count (bite.getLsbD · = true) (n + 1) = idx.toNat)) := by
      intro idx' hidx hstep
      obtain ⟨bc, i, c, h1, h2, h3⟩ := ih (by omega) (bite >>> 1) idx' (next + 1)
      rw [getLsbD_ushiftRight_one] at h2 h3
      refine ⟨bc, i, c + 1, by rw [hstep, h1, add_one_add_ofNat], hidx ▸ h2.next, ?_⟩
      rcases h3 with ⟨h3, h4⟩ | ⟨h3, h4, h5⟩
      · exact .inl ⟨by omega, h4⟩
      · refine .inr ⟨by omega, h4, ?_⟩
        rw [Nat.count_succ', hidx, ← h5, Nat.add_assoc]
    by_cases hb : bite &&& 0x01 ≠ 0
    · have hb0 := (and_one_ne_zero bite).1 hb
      by_cases hi : idx = 0
      · refine ⟨BitVec.ofNat 8 n, idx, 0, ?_, hi ▸ .here hb0, .inl ⟨by omega, ?_⟩⟩
        · rw [remapOctet, if_pos hb, if_pos hi]
          simp
        · rw [BitVec.toNat_ofNat]
          omega
      · refine hnext (idx - 1) ?_ (by rw [remapOctet, if_pos hb, if_neg hi])
        have : idx.toNat ≠ 0 := fun h0 => hi (BitVec.eq_of_toNat_eq h0)
        have hlt := idx.isLt
        have h1 : (1 : BitVec 8).toNat = 1 := rfl
        rw [if_pos hb0, BitVec.toNat_sub, h1]
        omega
    · have hb0 := mt (and_one_ne_zero bite).2 hb
      exact hnext idx (by rw [if_neg hb0]; rfl) (by rw [remapOctet, if_neg hb])

/-- **The outer loop scans the bits of its octets.** -/
theorem remapOctets_spec (l : List (BitVec 8)) (idx next : BitVec 8) :
    ∃ c, remapOctets l idx next = next + BitVec.ofNat 8 c ∧
      Selects (bit l) (8 * l.length) idx.toNat c := by
  induction l generalizing idx next with
  | nil => exact ⟨0, by simp [remapOctets], .inr ⟨rfl, Nat.zero_le _⟩⟩
  | cons b l ih =>
    obtain ⟨bc, i, c, h1, h2, h3⟩ := remapOctet_spec 8 (Nat.le_refl 8) b idx next
    have h2' : Selects (bit (b :: l)) 8 idx.toNat c := h2.congr fun c hc => bit_cons_lt b l hc
    rw [show 8 * (b :: l).length = 8 + 8 * l.length by rw [List.length_cons]; omega]
    rcases h3 with ⟨hc, hbc⟩ | ⟨rfl, rfl, hi⟩
    · exact ⟨c, by simp [remapOctets, h1, hbc], h2'.extend hc⟩
    · obtain ⟨c', h4, h5⟩ := ih i (next + BitVec.ofNat 8 8)
      have hcount : Nat.count (bit (b :: l) · = true) 8 = Nat.count (b.getLsbD · = true) 8 :=
        count_congr fun c hc => bit_cons_lt b l hc
      refine ⟨8 + c', ?_, .append (by omega) ?_⟩
      · simp only [remapOctets, h1, h4]
        rw [if_neg (by decide), BitVec.add_assoc, BitVec.ofNat_add]
      · rw [hcount, ← hi, Nat.add_sub_cancel]
        exact h5.congr fun c _ => bit_cons_add b l c

/-- **`chan_sel_remap` scans the 40 positions of the map** for the one after `chan_index` set
bits. -/
theorem chanSelRemap_selects (chanMap : ChanMap) (idx : BitVec 8) :
    Selects chanMap.enabled 40 idx.toNat (chanSelRemap chanMap idx).toNat := by
  obtain ⟨c, h1, h2⟩ := remapOctets_spec chanMap.toList idx 0
  rw [Vector.length_toList] at h2
  have hc : c ≤ 40 := by rcases h2 with ⟨h, -⟩ | ⟨h, -⟩ <;> omega
  have : (chanSelRemap chanMap idx).toNat = c := by
    rw [chanSelRemap, h1, show (0 : BitVec 8) = 0#8 from rfl, BitVec.zero_add, BitVec.toNat_ofNat]
    omega
  rw [this]
  exact h2

end BlueSwat.Zephyr
