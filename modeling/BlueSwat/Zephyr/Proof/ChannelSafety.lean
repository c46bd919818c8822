import BlueSwat.Zephyr.Proof.Refinement

/-!
# Channel maps that pass, and channel selection

A channel map that passes the hook has two set bits among its 40 (`two_le_of_pass`). Three of these
are reserved, and both `ifw_count_one` and `chan_sel_remap` treat them as channels.
`ChanMap.safe_iff`: the selection is safe exactly when no disabled channel is remapped past the
enabled data channels, as is the case when the reserved bits are clear (`safe_of_reserved_clear`).
-/

set_option autoImplicit false

namespace BlueSwat.Zephyr

open Fsm Reactive

/-! ## The property -/

/-- The channel map that a call brings: of a connection in the peripheral role, or of an
`LL_CHANNEL_MAP_IND`. -/
def LlCall.chanMap : LlCall → Option ChanMap
  | .rx (.connection lll ind) => if lll.role = 1 then some ind.chanMap else none
  | .rx (.dcPdu pdu) =>
    if pdu.llId = 3 ∧ LlctrlType.ofOpcode pdu.opcode = .chanMapInd then some pdu.chm else none
  | _ => none

namespace ChanMap

/-- `lll_chan_sel_1` with the count of `ifw_count_one` returns an enabled data channel. -/
def SelectsChannel (chanMap : ChanMap) (chanUse hop : BitVec 8) (latency : BitVec 16) : Prop :=
  ∃ use c, lllChanSel1 chanUse hop latency chanMap (ifwCountOne chanMap) = some (use, c) ∧
    c.toNat < 37 ∧ chanMap.enabled c.toNat = true

/-- Two data channels are enabled, and the selection always returns an enabled one. -/
structure Safe (chanMap : ChanMap) : Prop where
  two : 2 ≤ chanMap.enabledBelow 37
  selects : ∀ chanUse hop latency, chanMap.SelectsChannel chanUse hop latency

/-- No disabled channel is remapped past the enabled data channels. -/
def RemapsBelow (chanMap : ChanMap) : Prop :=
  ∀ c < 37, chanMap.enabled c = false → c % chanMap.enabledBelow 40 < chanMap.enabledBelow 37

/-! ## Selection -/

section
variable {chanMap : ChanMap}

theorem enabledBelow_mono (chanMap : ChanMap) {m n : Nat} (h : m ≤ n) :
    chanMap.enabledBelow m ≤ chanMap.enabledBelow n :=
  Nat.count_monotone _ h

theorem enabledBelow_succ {c : Nat} (h : chanMap.enabled c = true) :
    chanMap.enabledBelow (c + 1) = chanMap.enabledBelow c + 1 := by
  rw [enabledBelow, Nat.count_succ, if_pos h, enabledBelow]

/-- An enabled position is a data channel when fewer bits than data channels are set below it. -/
theorem lt_37_iff {c : Nat} (h : chanMap.enabled c = true) :
    c < 37 ↔ chanMap.enabledBelow c < chanMap.enabledBelow 37 := by
  constructor
  · intro hc
    have := enabledBelow_mono chanMap (Nat.succ_le_of_lt hc)
    rw [Nat.succ_eq_add_one, enabledBelow_succ h] at this
    omega
  · intro hlt
    by_contra hc
    have := enabledBelow_mono chanMap (Nat.le_of_not_lt hc)
    omega

section
variable {chanUse hop : BitVec 8} {latency : BitVec 16} {chanCount : BitVec 8} {c : Nat}
  (hc : c = (chanUse.toNat + hop.toNat * (1 + latency.toNat)) % 37)
include hc

theorem lllChanSel1_enabled (hen : chanMap.enabled c = true) :
    lllChanSel1 chanUse hop latency chanMap chanCount =
      some (BitVec.ofNat 8 c, BitVec.ofNat 8 c) := by
  have hbit : ((Vector.toList chanMap)[c / 8]?.getD 0).getLsbD (c % 8) = true := hen
  unfold lllChanSel1
  simp only [← hc, hbit]
  rfl

theorem lllChanSel1_disabled (hdis : chanMap.enabled c = false) (hne : chanCount ≠ 0) :
    lllChanSel1 chanUse hop latency chanMap chanCount =
      some (BitVec.ofNat 8 c, chanSelRemap chanMap (BitVec.ofNat 8 (c % chanCount.toNat))) := by
  have hbit : ((Vector.toList chanMap)[c / 8]?.getD 0).getLsbD (c % 8) = false := hdis
  unfold lllChanSel1
  simp only [← hc, hbit, if_neg hne]
  rfl

end

/-- The scan has enough hits, so a remapped channel is an enabled position. -/
theorem chanSelRemap_mod (h0 : 0 < chanMap.enabledBelow 40) (c : Nat) :
    chanMap.enabled
        (chanSelRemap chanMap (BitVec.ofNat 8 (c % chanMap.enabledBelow 40))).toNat = true ∧
      ((chanSelRemap chanMap (BitVec.ofNat 8 (c % chanMap.enabledBelow 40))).toNat < 37 ↔
        c % chanMap.enabledBelow 40 < chanMap.enabledBelow 37) := by
  have hmod : c % chanMap.enabledBelow 40 < chanMap.enabledBelow 40 := Nat.mod_lt _ h0
  have h40 : chanMap.enabledBelow 40 ≤ 40 := Nat.count_le _
  have hsel := chanSelRemap_selects chanMap (BitVec.ofNat 8 (c % chanMap.enabledBelow 40))
  rw [BitVec.toNat_ofNat, Nat.mod_eq_of_lt (by omega)] at hsel
  obtain ⟨-, hset, hbelow⟩ := hsel.hit hmod
  refine ⟨hset, ?_⟩
  rw [lt_37_iff hset, show enabledBelow chanMap _ = _ from hbelow]

/-- **The selection** of channel `c` before remapping. -/
theorem selectsChannel_iff (h2 : 2 ≤ chanMap.enabledBelow 40) {chanUse hop : BitVec 8}
    {latency : BitVec 16} {c : Nat}
    (hc : c = (chanUse.toNat + hop.toNat * (1 + latency.toNat)) % 37) :
    chanMap.SelectsChannel chanUse hop latency ↔
      (chanMap.enabled c = false → c % chanMap.enabledBelow 40 < chanMap.enabledBelow 37) := by
  have hc37 : c < 37 := by omega
  unfold SelectsChannel
  cases hen : chanMap.enabled c with
  | true =>
    rw [lllChanSel1_enabled hc hen]
    refine iff_of_true ⟨_, _, rfl, ?_⟩ fun h => by cases h
    rw [BitVec.toNat_ofNat, Nat.mod_eq_of_lt (by omega)]
    exact ⟨hc37, hen⟩
  | false =>
    have hcount := toNat_ifwCountOne chanMap
    have hne : ifwCountOne chanMap ≠ 0 := fun h0 => by
      rw [h0] at hcount
      have : (0 : BitVec 8).toNat = 0 := rfl
      omega
    obtain ⟨hset, hiff⟩ := chanSelRemap_mod (show 0 < chanMap.enabledBelow 40 by omega) c
    rw [lllChanSel1_disabled hc hen hne, hcount]
    constructor
    · rintro ⟨use, r, hr, hr37, -⟩ -
      cases hr
      exact hiff.1 hr37
    · intro h
      exact ⟨_, _, rfl, hiff.2 (h rfl), hset⟩

/-- A map with a single data channel among its set bits remaps channel 1 or channel 5 too far. -/
theorem two_le_of_remapsBelow (h2 : 2 ≤ chanMap.enabledBelow 40) (h : chanMap.RemapsBelow) :
    2 ≤ chanMap.enabledBelow 37 := by
  have h40 : chanMap.enabledBelow 40 ≤ chanMap.enabledBelow 37 + 3 := by
    rw [enabledBelow, show 40 = 37 + 3 from rfl, Nat.count_add]
    exact Nat.add_le_add_left (Nat.count_le _) _
  have hpos : chanMap.enabledBelow 37 ≠ 0 := by
    intro h0
    cases hen : chanMap.enabled 0 with
    | false =>
      have := h 0 (by decide) hen
      omega
    | true =>
      have := (lt_37_iff hen).1 (by decide)
      omega
  by_contra hlt
  have hn : ∀ c < 37, c % chanMap.enabledBelow 40 ≠ 0 → chanMap.enabled c = true := by
    intro c hc hmod
    cases hen : chanMap.enabled c with
    | false =>
      have := h c hc hen
      omega
    | true => rfl
  have h4 : chanMap.enabledBelow 40 = 2 ∨ chanMap.enabledBelow 40 = 3 ∨
      chanMap.enabledBelow 40 = 4 := by omega
  have h1 : chanMap.enabled 1 = true :=
    hn 1 (by decide) (by rcases h4 with h | h | h <;> rw [h] <;> decide)
  have h5 : chanMap.enabled 5 = true :=
    hn 5 (by decide) (by rcases h4 with h | h | h <;> rw [h] <;> decide)
  have hb1 := enabledBelow_succ h1
  have hb5 := (lt_37_iff h5).1 (by decide)
  have := enabledBelow_mono chanMap (show 1 + 1 ≤ 5 by decide)
  omega

theorem safe_iff (h2 : 2 ≤ chanMap.enabledBelow 40) : chanMap.Safe ↔ chanMap.RemapsBelow := by
  constructor
  · intro hs c hc
    -- channel `c` comes up with `*chan_use == c` and no hop
    refine (selectsChannel_iff h2 ?_).1 (hs.selects (BitVec.ofNat 8 c) 0 0)
    rw [BitVec.toNat_ofNat, show (0 : BitVec 8).toNat = 0 from rfl]
    omega
  · intro h
    exact ⟨two_le_of_remapsBelow h2 h, fun chanUse hop latency =>
      (selectsChannel_iff h2 rfl).2 (h _ (Nat.mod_lt _ (by decide)))⟩

/-- Without reserved bits the counts agree. -/
theorem safe_of_reserved_clear (h2 : 2 ≤ chanMap.enabledBelow 37)
    (hclear : ∀ c, 37 ≤ c → c < 40 → chanMap.enabled c = false) : chanMap.Safe := by
  have h40 : chanMap.enabledBelow 40 = chanMap.enabledBelow 37 := by
    simp [enabledBelow, Nat.count_succ, hclear 37, hclear 38, hclear 39]
  refine (safe_iff (h40 ▸ h2)).2 fun c _ _ => ?_
  rw [h40]
  exact Nat.mod_lt _ (by omega)

end

end ChanMap

/-! ## What passes -/

section
variable {flash : Policy → Nat → BitVec 8} {h h' : Hook} {E : Env layout.size}

theorem two_le_of_check (hb : Booted flash h) {state : BitVec 16} {k : Hook → Option Hook}
    {chanMap : ChanMap}
    (hv : ∀ s : FsmState, shippedVerdict (.conn .channelMap) (s.set (.conn .channelMap) state) =
      .rejectIf (Monitor.oneBits chanMap < 2))
    (hr : (h.checkUpdate state (.conn .channelMap)).unlessRejected E (.conn .channelMap) k =
      some h')
    (hp : h'.result = .pass) : 2 ≤ chanMap.enabledBelow 40 := by
  rcases unlessRejected_eq_some (hb.checkUpdate _ _) hr with ⟨-, rfl⟩ | ⟨h1, -⟩
  · cases hp
  · rw [checkUpdate_booted hb, hv] at h1
    by_contra hlt
    rw [Verdict.rejectIf_pos (p := Monitor.oneBits chanMap < 2) (Nat.lt_of_not_le hlt)] at h1
    cases h1

/-- The role slot has no policy, so the verdict on the connection stands. -/
theorem result_bleRole (hb : Booted flash h) {state : BitVec 16}
    (hr : (h.checkUpdate state (.core .bleRole)).unlessRejected E (.core .bleRole) some = some h') :
    h'.result = h.result := by
  rcases unlessRejected_eq_some (hb.checkUpdate _ _) hr with ⟨h1, -⟩ | ⟨-, h1⟩
  · cases h1
  · cases h1
    rfl

theorem two_le_of_connection (hb : Booted flash h) {lll : LllConn} {ind : ConnectInd}
    (hrole : lll.role = 1) (hr : ifwConnSetup E lll ind h = some h') (hp : h'.result = .pass) :
    2 ≤ ind.chanMap.enabledBelow 40 := by
  unfold ifwConnSetup at hr
  rw [if_neg (by rw [hrole]; decide)] at hr
  obtain ⟨h1, hper, hrole'⟩ := Option.bind_eq_some_iff.1 hr
  rw [result_bleRole (hb.ifwPeripheralSetup hper) hrole'] at hp
  unfold ifwPeripheralSetup at hper
  exact two_le_of_check (hb.newConnection lll ind)
    (fun s => shippedVerdict_dataChanCount s ind.chanMap) hper hp

theorem two_le_of_chanMapInd (hb : Booted flash h) {pdu : PduData} (hid : pdu.llId = 3)
    (hop : LlctrlType.ofOpcode pdu.opcode = .chanMapInd) (hr : ifwConnRx E pdu h = some h')
    (hp : h'.result = .pass) : 2 ≤ pdu.chm.enabledBelow 40 := by
  have hb1 := (hb.checkUpdate (pdu.nesn.setWidth 16) (.dc .nesn)).checkUpdate
    (pdu.sn.setWidth 16) (.dc .sn)
  unfold ifwConnRx at hr
  rcases unlessRejected_eq_some hb1 hr with ⟨-, rfl⟩ | ⟨-, hctrl⟩
  · cases hp
  · simp only [if_pos hid, ifwCtrlRx, hop] at hctrl
    exact two_le_of_check (hb1.checkUpdate 0 (.dc .dcAnchorState))
      (fun s => shippedVerdict_newCount s pdu.chm) hctrl hp

/-- **A map that passes has two set bits.** -/
theorem two_le_of_pass (hb : Booted flash h) {call : Env layout.size × LlCall} {chanMap : ChanMap}
    (hmap : call.2.chanMap = some chanMap) (hr : llStep h call = some (h', .pass)) :
    2 ≤ chanMap.enabledBelow 40 := by
  obtain ⟨E, call⟩ := call
  cases call with
  | tx pdu => cases hmap
  | rx node =>
    have hb0 : Booted flash { h with result := .pass } := ⟨hb.reg, hb.fsmNewInit⟩
    cases node with
    | eventDone | other => cases hmap
    | connection lll ind =>
      simp only [LlCall.chanMap, Option.ite_none_right_eq_some, Option.some.injEq] at hmap
      obtain ⟨hrole, rfl⟩ := hmap
      obtain ⟨h1, hset, hres⟩ := Option.map_eq_some_iff.1 hr
      exact two_le_of_connection hb0 hrole hset (congrArg Prod.snd hres)
    | dcPdu pdu =>
      simp only [LlCall.chanMap, Option.ite_none_right_eq_some, Option.some.injEq] at hmap
      obtain ⟨⟨hid, hop⟩, rfl⟩ := hmap
      obtain ⟨h1, hrx, hres⟩ := Option.map_eq_some_iff.1 hr
      exact two_le_of_chanMapInd hb0 hid hop hrx (congrArg Prod.snd hres)

end

/-- **Maps that pass the hook**, in any state it reaches, are safe for the channel selection exactly
when no disabled channel is remapped past the enabled data channels. -/
theorem passed_chanMap_safe_iff {flash : Policy → Nat → BitVec 8} {h h' : Hook}
    (hreach : Reached llStep (.boot flash) h) {call : Env layout.size × LlCall} {chanMap : ChanMap}
    (hmap : call.2.chanMap = some chanMap) (hpass : llStep h call = some (h', .pass)) :
    chanMap.Safe ↔ chanMap.RemapsBelow :=
  ChanMap.safe_iff (two_le_of_pass (booted_of_reached hreach) hmap hpass)

theorem llStep_boot (flash : Policy → Nat → BitVec 8) (call : Env layout.size × LlCall) :
    ∃ h', llStep (.boot flash) call = some (h', (Monitor.init.step call.2).2) := by
  have hsmall : (Monitor.init.step call.2).1.Small := by
    have hp : ∀ p, (Monitor.init.step call.2).1.pending p < 2 ^ 31 := fun p => by
      have h0 : Monitor.init.pending p = 0 := by cases p <;> rfl
      rcases Monitor.pending_step .init call.2 p with ⟨-, h⟩ | ⟨-, h⟩ | ⟨-, h⟩ | ⟨-, h⟩ <;> omega
    exact ⟨hp .length, hp .connParam⟩
  obtain ⟨h', h1, -⟩ := llStep_sim (sim_boot flash) call ⟨by decide, by decide⟩ hsmall
  exact ⟨h', h1⟩

/-- A peripheral connection with two enabled channels, so that the others are remapped. -/
def twoChannelsCall : Env layout.size × LlCall :=
  (ramEnv, .rx (.connection ⟨1, Vector.replicate 5 0, 0, 0, 0⟩ ⟨#v[0x02, 0, 0, 0, 0x10], 7, 24⟩))

theorem passed_chanMap_safe_iff_twoChannels :
    ∃ h', llStep (.boot fun _ _ => 0) twoChannelsCall = some (h', .pass) ∧
      (ChanMap.Safe #v[0x02, 0, 0, 0, 0x10] ↔ ChanMap.RemapsBelow #v[0x02, 0, 0, 0, 0x10]) := by
  obtain ⟨h', h1⟩ := llStep_boot (fun _ _ => 0) twoChannelsCall
  exact ⟨h', h1, passed_chanMap_safe_iff ⟨[], [], rfl⟩ rfl h1⟩

/-- A peripheral connection whose map has the three reserved bits and no channel. -/
def reservedCall : Env layout.size × LlCall :=
  (ramEnv, .rx (.connection ⟨1, Vector.replicate 5 0, 0, 0, 0⟩ ⟨#v[0, 0, 0, 0, 0xe0], 7, 24⟩))

/-- A map without any data channel passes, and the selection returns channel 39. -/
theorem reservedCall_not_safe :
    ∃ h', llStep (.boot fun _ _ => 0) reservedCall = some (h', .pass) ∧
      ChanMap.enabledBelow #v[0, 0, 0, 0, 0xe0] 37 = 0 ∧
      lllChanSel1 0 5 0 #v[0, 0, 0, 0, 0xe0] (ifwCountOne #v[0, 0, 0, 0, 0xe0]) = some (5, 39) ∧
      ¬ ChanMap.Safe #v[0, 0, 0, 0, 0xe0] := by
  have h0 : ChanMap.enabledBelow #v[0, 0, 0, 0, 0xe0] 37 = 0 := by decide
  have hcount : ifwCountOne #v[0, 0, 0, 0, 0xe0] = 3 :=
    BitVec.eq_of_toNat_eq (by rw [toNat_ifwCountOne]; decide)
  obtain ⟨h', h1⟩ := llStep_boot (fun _ _ => 0) reservedCall
  refine ⟨h', h1, h0, by rw [hcount]; decide, fun hs => ?_⟩
  have := hs.two
  omega

end BlueSwat.Zephyr
