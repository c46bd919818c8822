import Mathlib.Algebra.Field.ZMod
import Mathlib.Data.Fintype.EquivFin
import Mathlib.Tactic.NormNum.Prime
import Mathlib.Tactic.Ring
import BlueSwat.Zephyr.Proof.ChannelSafety
import BlueSwat.Zephyr.Proof.Handover

/-!
# The channels that a connection uses

Algorithm 1 goes round the 37 data channels in steps of `hop * (1 + latency)`. With a hop that the
firewall passes the round visits all of them, unless 37 divides `1 + latency`: then it does not move
(`passed_hop_covers`).

Algorithm 2 takes its channel from `chan_prn`, which is a permutation of the 16-bit counters
(`chanPrn_bijective`). So every channel comes up at some event, a disabled one also with the last
index, and the selection is safe exactly when no reserved bit has that index (`passed_chanSel2`).
-/

set_option autoImplicit false

namespace BlueSwat.Zephyr

open Fsm Reactive Bits

/-! ## Algorithm 1, event after event -/

/-- A connection event that comes after `latency` skipped ones. -/
def chanEvent (hop : BitVec 8) (chanMap : ChanMap) (chanCount : BitVec 8) (chanUse : BitVec 8)
    (latency : BitVec 16) : Option (BitVec 8 × BitVec 8) :=
  lllChanSel1 chanUse hop latency chanMap chanCount

/-- The channel that event `k` starts from, before it is remapped. -/
def unmapped (chanUse hop : BitVec 8) (latency : BitVec 16) (k : Nat) : Nat :=
  (chanUse.toNat + (k + 1) * (hop.toNat * (1 + latency.toNat))) % 37

section
variable {chanMap : ChanMap} {chanCount hop : BitVec 8} {latency : BitVec 16}

/-- The channel that is used for the unmapped channel `c`. -/
def remapped (chanMap : ChanMap) (chanCount : BitVec 8) (c : Nat) : BitVec 8 :=
  if chanMap.enabled c then BitVec.ofNat 8 c
  else chanSelRemap chanMap (BitVec.ofNat 8 (c % chanCount.toNat))

theorem chanEvent_eq (hcount : chanCount ≠ 0) (chanUse : BitVec 8) :
    chanEvent hop chanMap chanCount chanUse latency =
      some (BitVec.ofNat 8 (unmapped chanUse hop latency 0),
        remapped chanMap chanCount (unmapped chanUse hop latency 0)) := by
  have hc : unmapped chanUse hop latency 0 =
      (chanUse.toNat + hop.toNat * (1 + latency.toNat)) % 37 := by
    rw [unmapped, Nat.zero_add, Nat.one_mul]
  rw [chanEvent, remapped]
  cases hen : chanMap.enabled (unmapped chanUse hop latency 0) with
  | true => exact ChanMap.lllChanSel1_enabled hc hen
  | false => exact ChanMap.lllChanSel1_disabled hc hen hcount

theorem unmapped_succ (chanUse : BitVec 8) (k : Nat) :
    unmapped (BitVec.ofNat 8 (unmapped chanUse hop latency 0)) hop latency k =
      unmapped chanUse hop latency (k + 1) := by
  have hlt : unmapped chanUse hop latency 0 < 37 := Nat.mod_lt _ (by decide)
  have hval : (BitVec.ofNat 8 (unmapped chanUse hop latency 0)).toNat =
      unmapped chanUse hop latency 0 := Nat.mod_eq_of_lt (by omega)
  rw [unmapped, hval, unmapped, unmapped, Nat.mod_add_mod]
  congr 1
  ring

/-- **Event after event**: the channels of `n` events with the same latency. -/
theorem runs_chanEvent (hop : BitVec 8) (latency : BitVec 16) (hcount : chanCount ≠ 0) (n : Nat)
    (chanUse : BitVec 8) :
    ∃ use, runs (chanEvent hop chanMap chanCount) chanUse (List.replicate n latency) =
      some (use, (List.range n).map fun k =>
        remapped chanMap chanCount (unmapped chanUse hop latency k)) := by
  induction n generalizing chanUse with
  | zero => exact ⟨chanUse, rfl⟩
  | succ n ih =>
    obtain ⟨use, hrun⟩ := ih (BitVec.ofNat 8 (unmapped chanUse hop latency 0))
    refine ⟨use, ?_⟩
    rw [List.replicate_succ, runs_cons (chanEvent_eq hcount chanUse), hrun, List.range_succ_eq_map]
    simp only [unmapped_succ, Option.map_some, List.map_cons, List.map_map]
    rfl

end

/-- 37 is a prime: a step that it does not divide goes round all residues. -/
theorem exists_step {d : Nat} (hd : ¬ 37 ∣ d) (u : Nat) {c : Nat} (hc : c < 37) :
    ∃ k < 37, (u + (k + 1) * d) % 37 = c := by
  have : Fact (Nat.Prime 37) := ⟨by norm_num⟩
  have hd0 : (d : ZMod 37) ≠ 0 := fun h => hd ((ZMod.natCast_eq_zero_iff d 37).1 h)
  let k : ZMod 37 := ((c : ZMod 37) - u) / d - 1
  refine ⟨k.val, ZMod.val_lt k, ?_⟩
  have heq : ((u + (k.val + 1) * d : Nat) : ZMod 37) = (c : Nat) := by
    push_cast
    rw [ZMod.natCast_zmod_val, sub_add_cancel, div_mul_cancel₀ _ hd0, add_sub_cancel]
  have := (ZMod.natCast_eq_natCast_iff' _ _ 37).1 heq
  rwa [Nat.mod_eq_of_lt hc] at this

theorem not_dvd_hop {hop : BitVec 5} (h5 : 5 ≤ hop.toNat) (h16 : hop.toNat ≤ 16) {d : Nat}
    (hd : ¬ 37 ∣ d) : ¬ 37 ∣ hop.toNat * d := by
  rw [(show Nat.Prime 37 by norm_num).dvd_mul]
  rintro (h | h)
  · have := Nat.le_of_dvd (by omega) h
    omega
  · exact hd h

theorem ifwCountOne_ne_zero {chanMap : ChanMap} (h : 0 < chanMap.enabledBelow 40) :
    ifwCountOne chanMap ≠ 0 := by
  intro h0
  have hcount := toNat_ifwCountOne chanMap
  rw [h0] at hcount
  exact absurd hcount (Nat.ne_of_lt h)

theorem sane_of_ifwLlPacketParserRx {flash : Policy → Nat → BitVec 8} {h h' : Hook}
    {E : Env layout.size} {n : RxNode} (hr : Reached llStep (.boot flash) h)
    (hpass : ifwLlPacketParserRx E n.view h = some (h', .pass)) : n.Sane := by
  obtain ⟨t, ht⟩ := tracks_of_reached hr
  obtain ⟨h1, hstep, -⟩ := llStep_tracks ht (E, .rx n.view)
  have hv := Option.some.inj (hstep.symm.trans hpass)
  exact sane_of_pass (congrArg Prod.snd hv)

/-- **A connection that the firewall passes uses all its channels**: within 37 events with the same
latency every enabled data channel is used, unless 37 divides `1 + latency`; then the channel never
changes. -/
theorem passed_hop_covers {flash : Policy → Nat → BitVec 8} {h h' : Hook} {E : Env layout.size}
    {lll : LllConn} {ind : ConnectInd} (hr : Reached llStep (.boot flash) h)
    (hrole : lll.role = 1)
    (hpass : ifwLlPacketParserRx E (.connection lll ind) h = some (h', .pass))
    (chanUse : BitVec 8) (latency : BitVec 16) :
    ∃ use channels, runs (chanEvent (ind.hop.setWidth 8) ind.chanMap (ifwCountOne ind.chanMap))
        chanUse (List.replicate 37 latency) = some (use, channels) ∧
      (¬ 37 ∣ 1 + latency.toNat →
        ∀ c < 37, ind.chanMap.enabled c = true → BitVec.ofNat 8 c ∈ channels) ∧
      (37 ∣ 1 + latency.toNat → ∃ c, channels = List.replicate 37 c) := by
  obtain ⟨htwo, h5, h16, -⟩ := sane_of_ifwLlPacketParserRx (n := .connection lll ind) hr hpass hrole
  have hhop : (ind.hop.setWidth 8).toNat = ind.hop.toNat :=
    BitVec.toNat_setWidth_of_le (by decide)
  obtain ⟨use, hrun⟩ := runs_chanEvent (ind.hop.setWidth 8) latency
    (ifwCountOne_ne_zero (Nat.lt_of_lt_of_le (by decide) htwo)) 37 chanUse
  refine ⟨use, _, hrun, fun hd c hc hen => ?_, fun hd => ?_⟩
  · obtain ⟨k, hk, hkc⟩ := exists_step (not_dvd_hop h5 h16 hd) chanUse.toNat hc
    refine List.mem_map.2 ⟨k, List.mem_range.2 hk, ?_⟩
    rw [unmapped, hhop, hkc, remapped, if_pos hen]
  · refine ⟨remapped ind.chanMap (ifwCountOne ind.chanMap) (chanUse.toNat % 37),
      List.eq_replicate_iff.2 ⟨by rw [List.length_map, List.length_range], ?_⟩⟩
    intro b hb
    obtain ⟨k, -, rfl⟩ := List.mem_map.1 hb
    -- every step is a multiple of 37
    rw [unmapped, Nat.add_mod, Nat.mod_eq_zero_of_dvd ((hd.mul_left _).mul_left _), Nat.add_zero,
      Nat.mod_mod]

theorem passed_hop_covers_connect :
    ∃ h', llStep (.boot fun _ _ => 0) connectCall = some (h', .pass) ∧
      ∃ use channels, runs (chanEvent 7 #v[0xff, 0xff, 0xff, 0xff, 0x1f]
          (ifwCountOne #v[0xff, 0xff, 0xff, 0xff, 0x1f])) 0 (List.replicate 37 0) =
          some (use, channels) ∧
        (¬ 37 ∣ 1 + (0 : BitVec 16).toNat → ∀ c < 37,
          ChanMap.enabled #v[0xff, 0xff, 0xff, 0xff, 0x1f] c = true → BitVec.ofNat 8 c ∈ channels) ∧
        (37 ∣ 1 + (0 : BitVec 16).toNat → ∃ c, channels = List.replicate 37 c) := by
  obtain ⟨h', h1⟩ := llStep_boot (fun _ _ => 0) connectCall
  exact ⟨h', h1, passed_hop_covers ⟨[], [], rfl⟩ rfl h1 0 0⟩

/-! ## Algorithm 2: the number of an event -/

theorem chanRev8_injective : Function.Injective chanRev8 := by
  have hrev : ∀ b, chanRev8 (chanRev8 b) = b := by decide
  exact Function.LeftInverse.injective hrev

theorem setWidth_and_ff (i : BitVec 16) : (i &&& 0xff).setWidth 8 = i.setWidth 8 := by
  rw [BitVec.setWidth_and, show (0xff : BitVec 16).setWidth 8 = BitVec.allOnes 8 from rfl,
    BitVec.and_allOnes]

/-- Both octets are reversed in place. -/
theorem chanPerm_octets (i : BitVec 16) :
    (chanPerm i).setWidth 8 = chanRev8 (i.setWidth 8) ∧
      (chanPerm i >>> 8).setWidth 8 = chanRev8 ((i >>> 8).setWidth 8) := by
  rw [chanPerm, setWidth_and_ff, setWidth_and_ff]
  constructor
  · ext j hj
    simp
  · ext j hj
    simp [show 8 + j < 16 by omega, show j < 16 by omega, BitVec.getLsbD_eq_getElem hj]

theorem eq_of_octets {i j : BitVec 16} (hlo : i.setWidth 8 = j.setWidth 8)
    (hhi : (i >>> 8).setWidth 8 = (j >>> 8).setWidth 8) : i = j := by
  bv_omega

theorem chanPerm_injective : Function.Injective chanPerm := by
  intro i j h
  obtain ⟨hi0, hi8⟩ := chanPerm_octets i
  obtain ⟨hj0, hj8⟩ := chanPerm_octets j
  rw [h] at hi0 hi8
  exact eq_of_octets (chanRev8_injective (hi0.symm.trans hj0))
    (chanRev8_injective (hi8.symm.trans hj8))

theorem chanMam_eq (a b : BitVec 16) : chanMam a b = a * 17 + b := by
  apply BitVec.eq_of_toNat_eq
  simp [chanMam]
  exact Nat.and_two_pow_sub_one_of_lt_two_pow (n := 16) (Nat.mod_lt _ (by decide))

theorem chanMam_injective (b : BitVec 16) : Function.Injective (chanMam · b) := by
  intro x y h
  simp only [chanMam_eq] at h
  -- 61681 is the inverse of 17
  have hmul := congrArg (· * 61681) (add_right_cancel h)
  simpa only [mul_assoc, show (17 : BitVec 16) * 61681 = 1 from rfl, mul_one] using hmul

/-- **The number is a permutation of the event counters**, for every connection. -/
theorem chanPrn_bijective (chanId : BitVec 16) : Function.Bijective (chanPrn · chanId) := by
  have hxor : Function.Injective (· ^^^ chanId) := fun _ _ h => (BitVec.xor_left_inj chanId).1 h
  have hround : Function.Injective fun prnE => chanMam (chanPerm prnE) chanId :=
    (chanMam_injective chanId).comp chanPerm_injective
  have : Finite (BitVec 16) := Finite.of_injective BitVec.toFin fun _ _ h => BitVec.eq_of_toFin_eq h
  exact Finite.injective_iff_bijective.1 (hxor.comp ((hround.iterate 3).comp hxor))

theorem exists_counter (chanId : BitVec 16) {p : Nat} (hp : p < 2 ^ 16) :
    ∃ counter, (chanPrn counter chanId).toNat = p := by
  obtain ⟨counter, hc⟩ := (chanPrn_bijective chanId).2 (BitVec.ofNat 16 p)
  refine ⟨counter, ?_⟩
  rw [show chanPrn counter chanId = _ from hc]
  exact Nat.mod_eq_of_lt hp

theorem index_lt {n : Nat} (h0 : 0 < n) (prnE : BitVec 16) : n * prnE.toNat / 2 ^ 16 < n := by
  refine Nat.div_lt_of_lt_mul ?_
  rw [Nat.mul_comm]
  exact Nat.mul_lt_mul_of_pos_right prnE.isLt h0

/-- The last index: each channel comes up with a number near the end of the range. -/
theorem exists_last_index {c n : Nat} (hc : c < 37) (h0 : 0 < n) (hn : n ≤ 40) :
    ∃ p < 2 ^ 16, p % 37 = c ∧ n * p / 2 ^ 16 = n - 1 := by
  have hlt : (65535 - c) % 37 < 37 := Nat.mod_lt _ (by decide)
  refine ⟨65535 - (65535 - c) % 37, by omega, by omega, ?_⟩
  generalize hp : 65535 - (65535 - c) % 37 = p
  have hlo : 65499 ≤ p := by omega
  have hhi : p ≤ 65535 := by omega
  apply Nat.div_eq_of_lt_le
  · calc (n - 1) * 2 ^ 16 ≤ n * 65499 := by omega
      _ ≤ n * p := Nat.mul_le_mul_left n hlo
  · calc n * p ≤ n * 65535 := Nat.mul_le_mul_left n hhi
      _ < (n - 1 + 1) * 2 ^ 16 := by omega

namespace ChanMap

section
variable {chanMap : ChanMap}

theorem lllChanSel2_enabled {counter chanId : BitVec 16} {chanCount : BitVec 8}
    (hen : chanMap.enabled ((chanPrn counter chanId).toNat % 37) = true) :
    lllChanSel2 counter chanId chanMap chanCount =
      BitVec.ofNat 8 ((chanPrn counter chanId).toNat % 37) := by
  have hbit : ((Vector.toList chanMap)[(chanPrn counter chanId).toNat % 37 / 8]?.getD 0).getLsbD
      ((chanPrn counter chanId).toNat % 37 % 8) = true := hen
  simp only [lllChanSel2, hbit]
  rfl

theorem lllChanSel2_disabled {counter chanId : BitVec 16} {chanCount : BitVec 8}
    (hdis : chanMap.enabled ((chanPrn counter chanId).toNat % 37) = false) :
    lllChanSel2 counter chanId chanMap chanCount =
      chanSelRemap chanMap
        (BitVec.ofNat 8 (chanCount.toNat * (chanPrn counter chanId).toNat / 2 ^ 16)) := by
  have hbit : ((Vector.toList chanMap)[(chanPrn counter chanId).toNat % 37 / 8]?.getD 0).getLsbD
      ((chanPrn counter chanId).toNat % 37 % 8) = false := hdis
  simp only [lllChanSel2, hbit]
  rfl

/-- `lll_chan_sel_2` with the count of `ifw_count_one` returns an enabled data channel. -/
def SelectsChannel2 (chanMap : ChanMap) (counter chanId : BitVec 16) : Prop :=
  (lllChanSel2 counter chanId chanMap (ifwCountOne chanMap)).toNat < 37 ∧
    chanMap.enabled (lllChanSel2 counter chanId chanMap (ifwCountOne chanMap)).toNat = true

/-- **The selection** at event `counter`. -/
theorem selectsChannel2_iff (h0 : 0 < chanMap.enabledBelow 40) {counter chanId : BitVec 16}
    {p : Nat} (hp : (chanPrn counter chanId).toNat = p) :
    chanMap.SelectsChannel2 counter chanId ↔ (chanMap.enabled (p % 37) = false →
      chanMap.enabledBelow 40 * p / 2 ^ 16 < chanMap.enabledBelow 37) := by
  have hc37 : p % 37 < 37 := Nat.mod_lt _ (by decide)
  unfold SelectsChannel2
  cases hen : chanMap.enabled (p % 37) with
  | true =>
    rw [lllChanSel2_enabled (hp ▸ hen), hp, BitVec.toNat_ofNat, Nat.mod_eq_of_lt (by omega)]
    exact iff_of_true ⟨hc37, hen⟩ fun h => by cases h
  | false =>
    have hlt : chanMap.enabledBelow 40 * p / 2 ^ 16 < chanMap.enabledBelow 40 :=
      hp ▸ index_lt h0 (chanPrn counter chanId)
    obtain ⟨hset, hiff⟩ := chanSelRemap_mod h0 (chanMap.enabledBelow 40 * p / 2 ^ 16)
    rw [Nat.mod_eq_of_lt hlt] at hset hiff
    rw [lllChanSel2_disabled (hp ▸ hen), hp, toNat_ifwCountOne]
    exact ⟨fun h _ => hiff.1 h.1, fun h => ⟨hiff.2 (h rfl), hset⟩⟩

theorem reserved_clear_iff :
    (∀ c, 37 ≤ c → c < 40 → chanMap.enabled c = false) ↔
      chanMap.enabledBelow 40 = chanMap.enabledBelow 37 := by
  constructor
  · intro hclear
    simp [enabledBelow, Nat.count_succ, hclear 37, hclear 38, hclear 39]
  · intro heq c h37 h40
    cases hen : chanMap.enabled c with
    | false => rfl
    | true =>
      have h1 := enabledBelow_succ hen
      have h2 := enabledBelow_mono chanMap h37
      have h3 := enabledBelow_mono chanMap (Nat.succ_le_of_lt h40)
      rw [Nat.succ_eq_add_one] at h3
      omega

/-- Every channel before remapping comes up, and a disabled one also with the last index. -/
theorem safe2_iff (h0 : 0 < chanMap.enabledBelow 40) (chanId : BitVec 16) :
    (∀ counter, chanMap.SelectsChannel2 counter chanId) ↔
      (∀ c < 37, chanMap.enabled c = true) ∨
        ∀ c, 37 ≤ c → c < 40 → chanMap.enabled c = false := by
  have h3740 := enabledBelow_mono chanMap (show 37 ≤ 40 by decide)
  rw [reserved_clear_iff]
  constructor
  · intro hsel
    by_contra hnot
    push Not at hnot
    obtain ⟨⟨c, hc, hdis⟩, hne⟩ := hnot
    obtain ⟨p, hp, hpc, hidx⟩ := exists_last_index hc h0 (Nat.count_le _)
    obtain ⟨counter, hval⟩ := exists_counter chanId hp
    have := (selectsChannel2_iff h0 hval).1 (hsel counter)
      (by rw [hpc]; exact Bool.eq_false_of_not_eq_true hdis)
    rw [hidx] at this
    omega
  · rintro (hall | heq) counter
    · refine (selectsChannel2_iff h0 rfl).2 fun hdis => ?_
      rw [hall _ (Nat.mod_lt _ (by decide))] at hdis
      cases hdis
    · refine (selectsChannel2_iff h0 rfl).2 fun _ => ?_
      rw [← heq]
      exact index_lt h0 _

end

end ChanMap

/-- **Algorithm 2 on a map that passes the hook**, in any state it reaches: each enabled channel is
used at some event, and every event gets an enabled channel exactly when all 37 are enabled or no
reserved bit is set. -/
theorem passed_chanSel2 {flash : Policy → Nat → BitVec 8} {h h' : Hook}
    (hreach : Reached llStep (.boot flash) h) {call : Env layout.size × LlCall} {chanMap : ChanMap}
    (hmap : call.2.chanMap = some chanMap) (hpass : llStep h call = some (h', .pass))
    (chanId : BitVec 16) :
    (∀ c < 37, chanMap.enabled c = true →
        ∃ counter, lllChanSel2 counter chanId chanMap (ifwCountOne chanMap) = BitVec.ofNat 8 c) ∧
      ((∀ counter, chanMap.SelectsChannel2 counter chanId) ↔
        (∀ c < 37, chanMap.enabled c = true) ∨
          ∀ c, 37 ≤ c → c < 40 → chanMap.enabled c = false) := by
  have htwo := two_le_of_pass (booted_of_reached hreach) hmap hpass
  refine ⟨fun c hc hen => ?_, ChanMap.safe2_iff (by omega) chanId⟩
  obtain ⟨counter, hval⟩ := exists_counter chanId (show c < 2 ^ 16 by omega)
  have hmod : (chanPrn counter chanId).toNat % 37 = c := by rw [hval, Nat.mod_eq_of_lt hc]
  refine ⟨counter, ?_⟩
  rw [ChanMap.lllChanSel2_enabled (hmod ▸ hen), hmod]

theorem passed_chanSel2_connect :
    ∃ h', llStep (.boot fun _ _ => 0) connectCall = some (h', .pass) ∧
      ((∀ c < 37, ChanMap.enabled #v[0xff, 0xff, 0xff, 0xff, 0x1f] c = true →
          ∃ counter, lllChanSel2 counter 0x305f #v[0xff, 0xff, 0xff, 0xff, 0x1f]
            (ifwCountOne #v[0xff, 0xff, 0xff, 0xff, 0x1f]) = BitVec.ofNat 8 c) ∧
        ((∀ counter, ChanMap.SelectsChannel2 #v[0xff, 0xff, 0xff, 0xff, 0x1f] counter 0x305f) ↔
          (∀ c < 37, ChanMap.enabled #v[0xff, 0xff, 0xff, 0xff, 0x1f] c = true) ∨
            ∀ c, 37 ≤ c → c < 40 →
              ChanMap.enabled #v[0xff, 0xff, 0xff, 0xff, 0x1f] c = false)) := by
  obtain ⟨h', h1⟩ := llStep_boot (fun _ _ => 0) connectCall
  exact ⟨h', h1, passed_chanSel2 ⟨[], [], rfl⟩ rfl h1 0x305f⟩

end BlueSwat.Zephyr
