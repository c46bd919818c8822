import BlueSwat.Zephyr.Statics
import BlueSwat.Zephyr.Proof.Channel
import BlueSwat.Zephyr.Proof.Verifier

/-!
# What a call does to the statics

`Tracks`: the hooks have booted, `dc_param[DC_ANCHOR_STATE]` of the staged state is `anchor`, and
the two static counters are `len` and `cpr`. `llStep_tracks`: a call of a hook returns, with the
verdict of `Statics.step`, and keeps the relation. By `Reactive.runs_sim` whole runs give the
verdicts of `Statics.run` (`runs_statics`), from any state that the hooks reach
(`tracks_of_reached`).
-/

set_option autoImplicit false

namespace BlueSwat.Zephyr

open Ebpf Fsm Reactive

/-! ## Verdicts on a slot just updated -/

theorem toInt_setWidth_32 (v : BitVec 16) : (v.setWidth 32).toInt = v.toNat := by
  have := v.isLt
  have h := BitVec.toInt_eq_toNat_cond (v.setWidth 32)
  rw [BitVec.toNat_setWidth] at h
  split at h <;> omega

section
variable (s : FsmState) (v : BitVec 16)

theorem toInt_set_same (slot : Slot) : (s.set slot v slot).toInt = v.toNat := by
  rw [FsmState.set_same, toInt_setWidth_32]

theorem shippedVerdict_channelMap :
    shippedVerdict (.conn .channelMap) (s.set (.conn .channelMap) v) = .rejectIf (v.toNat < 2) :=
  Verdict.rejectIf_congr (by rw [toInt_set_same]; omega)

/-- The count of `ifw_peripheral_setup`, kept in a field of 6 bits. -/
theorem shippedVerdict_dataChanCount (chanMap : ChanMap) :
    shippedVerdict (.conn .channelMap)
        (s.set (.conn .channelMap) (((ifwCountOne chanMap).setWidth 6).setWidth 16)) =
      .rejectIf (Monitor.oneBits chanMap < 2) := by
  have : chanMap.enabledBelow 40 ≤ 40 := Nat.count_le _
  rw [shippedVerdict_channelMap, BitVec.toNat_setWidth, BitVec.toNat_setWidth, toNat_ifwCountOne]
  exact Verdict.rejectIf_congr (by rw [Monitor.oneBits]; omega)

/-- The count of `ifw_ctrl_rx`. -/
theorem shippedVerdict_newCount (chanMap : ChanMap) :
    shippedVerdict (.conn .channelMap)
        (s.set (.conn .channelMap) ((ifwCountOne chanMap).setWidth 16)) =
      .rejectIf (Monitor.oneBits chanMap < 2) := by
  have : chanMap.enabledBelow 40 ≤ 40 := Nat.count_le _
  rw [shippedVerdict_channelMap, BitVec.toNat_setWidth, toNat_ifwCountOne]
  exact Verdict.rejectIf_congr (by rw [Monitor.oneBits]; omega)

theorem shippedVerdict_channelHop :
    shippedVerdict (.conn .channelHop) (s.set (.conn .channelHop) v) =
      .rejectIf (v.toNat < 5 ∨ 16 < v.toNat) :=
  Verdict.rejectIf_congr (by rw [toInt_set_same]; omega)

theorem shippedVerdict_lllInterval :
    shippedVerdict (.conn .lllInterval) (s.set (.conn .lllInterval) v) = .rejectIf (v = 0) := by
  refine Verdict.rejectIf_congr ⟨fun h => BitVec.eq_of_toNat_eq ?_, fun h => by rw [h]; rfl⟩
  have h0 := toInt_set_same s v (.conn .lllInterval)
  rw [h] at h0
  exact (Int.natCast_inj.1 h0).symm

/-- The policies that bound a slot from above. -/
theorem rejectAbove_set (slot : Slot) (k : Nat) :
    rejectAbove slot k (s.set slot v) = .rejectIf (k < v.toNat) :=
  Verdict.rejectIf_congr (by rw [toInt_set_same]; omega)

/-- A counter reaches its policy as 16 bits. -/
theorem rejectAbove_pending (slot : Slot) (x : BitVec 32) :
    rejectAbove slot 1 (s.set slot (x.setWidth 16)) = .rejectIf (Statics.tooMany x) :=
  rejectAbove_set s _ slot 1

theorem shippedVerdict_nesn (nesn sn : BitVec 1) :
    shippedVerdict (.dc .nesn)
        ((s.set (.dc .nesn) (nesn.setWidth 16)).set (.dc .sn) (sn.setWidth 16)) =
      .rejectIf (s (.dc .dcAnchorState) = 1 ∧ nesn = 1 ∧ sn = 1) := by
  have h1 : ∀ b : BitVec 1, (b.setWidth 16).setWidth 32 = (1 : BitVec 32) ↔ b = 1 := by decide
  refine Verdict.rejectIf_congr ?_
  rw [FsmState.set_ne _ _ (by decide), FsmState.set_ne _ _ (by decide),
    FsmState.set_ne _ _ (by decide), FsmState.set_same, FsmState.set_same, h1, h1]

end

/-! ## The relation -/

/-- The hooks `h` remember `t`. -/
structure Tracks (flash : Policy → Nat → BitVec 8) (h : Hook) (t : Statics) : Prop where
  booted : Booted flash h
  anchor : h.core.newFSMState (.dc .dcAnchorState) = if t.anchor then 1 else 0
  len : h.llcpLenReqPending = t.len
  cpr : h.llcpCprPending = t.cpr

theorem tracks_boot (flash : Policy → Nat → BitVec 8) : Tracks flash (.boot flash) .init :=
  ⟨booted_boot flash, rfl, rfl, rfl⟩

section
variable {flash : Policy → Nat → BitVec 8} {h : Hook} {t : Statics}

/-- The relation does not see `result` and `lll`. -/
theorem Tracks.withResult (hs : Tracks flash h t) (v : Verdict) :
    Tracks flash { h with result := v } t :=
  ⟨⟨hs.booted.reg, hs.booted.fsmNewInit⟩, hs.anchor, hs.len, hs.cpr⟩

theorem Tracks.withLll (hs : Tracks flash h t) (lll : LllConn) :
    Tracks flash { h with lll := lll } t :=
  ⟨⟨hs.booted.reg, hs.booted.fsmNewInit⟩, hs.anchor, hs.len, hs.cpr⟩

theorem Tracks.setLen (hs : Tracks flash h t) (x : BitVec 32) :
    Tracks flash { h with llcpLenReqPending := x } { t with len := x } :=
  ⟨⟨hs.booted.reg, hs.booted.fsmNewInit⟩, hs.anchor, rfl, hs.cpr⟩

theorem Tracks.setCpr (hs : Tracks flash h t) (x : BitVec 32) :
    Tracks flash { h with llcpCprPending := x } { t with cpr := x } :=
  ⟨⟨hs.booted.reg, hs.booted.fsmNewInit⟩, hs.anchor, hs.len, rfl⟩

/-- An update of another slot than the anchor keeps the relation. -/
theorem Tracks.checkUpdate (hs : Tracks flash h t) (v : BitVec 16) (slot : Slot)
    (hslot : .dc .dcAnchorState ≠ slot) : Tracks flash (h.checkUpdate v slot) t := by
  refine ⟨hs.booted.checkUpdate v slot, ?_, ?_, ?_⟩ <;> rw [checkUpdate_booted hs.booted]
  · exact (FsmState.set_ne _ _ hslot).trans hs.anchor
  · exact hs.len
  · exact hs.cpr

theorem Tracks.checkUpdate_anchor (hs : Tracks flash h t) (b : Bool) :
    Tracks flash (h.checkUpdate (if b then 1 else 0) (.dc .dcAnchorState))
      { t with anchor := b } := by
  refine ⟨hs.booted.checkUpdate _ _, ?_, ?_, ?_⟩ <;> rw [checkUpdate_booted hs.booted]
  · cases b <;> rfl
  · exact hs.len
  · exact hs.cpr

/-- A check that rejects ends the hook; otherwise the rest decides. -/
theorem Tracks.check (hs : Tracks flash h t) (hp : h.result = .pass) (E : Env layout.size)
    (v : BitVec 16) (slot : Slot) (hslot : .dc .dcAnchorState ≠ slot) {k : Hook → Option Hook}
    {p q : Prop} [Decidable p] [Decidable q]
    (hv : ∀ s : FsmState, shippedVerdict slot (s.set slot v) = .rejectIf p)
    (hk : ∀ h, h.result = .pass → Tracks flash h t →
      ∃ h', k h = some h' ∧ h'.result = .rejectIf q ∧ Tracks flash h' t) :
    ∃ h', (h.checkUpdate v slot).unlessRejected E slot k = some h' ∧
      h'.result = .rejectIf (p ∨ q) ∧ Tracks flash h' t := by
  have hs' := hs.checkUpdate v slot hslot
  rw [unlessRejected_booted hs'.booted, checkUpdate_booted hs.booted, hv]
  rw [checkUpdate_booted hs.booted] at hs'
  by_cases hpp : p
  · rw [Verdict.rejectIf_pos hpp, Verdict.rejectIf_pos (.inl hpp)]
    exact ⟨_, rfl, rfl, hs'.withResult .reject⟩
  · rw [Verdict.rejectIf_neg hpp, Verdict.rejectIf_congr (or_iff_right hpp)]
    exact hk _ hp hs'

/-- The last check of a hook: its verdict is the result. -/
theorem Tracks.verify (hs : Tracks flash h t) (hp : h.result = .pass) (E : Env layout.size)
    (v : BitVec 16) (slot : Slot) (hslot : .dc .dcAnchorState ≠ slot) :
    ∃ h', (h.checkUpdate v slot).unlessRejected E slot some = some h' ∧
      h'.result = shippedVerdict slot (h.core.newFSMState.set slot v) ∧ Tracks flash h' t := by
  have hs' := hs.checkUpdate v slot hslot
  rw [unlessRejected_booted hs'.booted, checkUpdate_booted hs.booted]
  rw [checkUpdate_booted hs.booted] at hs'
  cases shippedVerdict slot (h.core.newFSMState.set slot v) with
  | pass => exact ⟨_, rfl, hp, hs'⟩
  | reject => exact ⟨_, rfl, rfl, hs'.withResult .reject⟩

/-! ## The hooks step by step -/

theorem ifwCtrlRx_tracks (hs : Tracks flash h t) (hp : h.result = .pass) (E : Env layout.size)
    (pdu : PduData) :
    ∃ h', ifwCtrlRx E pdu h = some h' ∧ h'.result = (t.ctrl pdu).2 ∧
      Tracks flash h' (t.ctrl pdu).1 := by
  unfold ifwCtrlRx Statics.ctrl
  cases LlctrlType.ofOpcode pdu.opcode with
  | connUpdateInd =>
    obtain ⟨h', h1, h2, h3⟩ := hs.verify hp E pdu.interval (.conn .lllInterval) (by simp)
    exact ⟨h', h1, h2.trans (shippedVerdict_lllInterval _ _), h3⟩
  | chanMapInd =>
    obtain ⟨h', h1, h2, h3⟩ := hs.verify hp E ((ifwCountOne pdu.chm).setWidth 16)
      (.conn .channelMap) (by simp)
    exact ⟨h', h1, h2.trans (shippedVerdict_newCount _ _), h3⟩
  | lengthReq =>
    obtain ⟨h', h1, h2, h3⟩ := (hs.setLen (h.llcpLenReqPending + 1)).verify hp E
      ((h.llcpLenReqPending + 1).setWidth 16) (.dc .llcpLenReq) (by simp)
    have hv := h2.trans (rejectAbove_pending _ _ _)
    rw [hs.len] at hv h3
    exact ⟨h', h1, hv, h3⟩
  | lengthRsp =>
    have heq : (if 0 < h.llcpLenReqPending.toInt then
        { h with llcpLenReqPending := h.llcpLenReqPending - 1 } else h) =
        { h with llcpLenReqPending := Statics.countDown h.llcpLenReqPending } := by
      unfold Statics.countDown
      split <;> rfl
    exact ⟨_, congrArg some heq, hp, hs.len ▸ hs.setLen _⟩
  | connParamReq =>
    obtain ⟨h', h1, h2, h3⟩ := (hs.setCpr (h.llcpCprPending + 1)).verify hp E
      ((h.llcpCprPending + 1).setWidth 16) (.dc .llcpConnParamReq) (by simp)
    have hv := h2.trans (rejectAbove_pending _ _ _)
    rw [hs.cpr] at hv h3
    exact ⟨h', h1, hv, h3⟩
  | connParamRsp =>
    have heq : (if 0 < h.llcpCprPending.toInt then
        { h with llcpCprPending := h.llcpCprPending - 1 } else h) =
        { h with llcpCprPending := Statics.countDown h.llcpCprPending } := by
      unfold Statics.countDown
      split <;> rfl
    exact ⟨_, congrArg some heq, hp, hs.cpr ▸ hs.setCpr _⟩
  | other => exact ⟨h, rfl, hp, hs⟩

theorem ifwConnRx_tracks (hs : Tracks flash h t) (hp : h.result = .pass) (E : Env layout.size)
    (pdu : PduData) :
    ∃ h', ifwConnRx E pdu h = some h' ∧ h'.result = (t.dcPdu pdu).2 ∧
      Tracks flash h' (t.dcPdu pdu).1 := by
  have hs1 := hs.checkUpdate (pdu.nesn.setWidth 16) (.dc .nesn) (by simp)
  have hs2 := hs1.checkUpdate (pdu.sn.setWidth 16) (.dc .sn) (by simp)
  have hv : shippedVerdict (.dc .nesn)
      ((h.checkUpdate (pdu.nesn.setWidth 16) (.dc .nesn)).checkUpdate (pdu.sn.setWidth 16)
        (.dc .sn)).core.newFSMState =
      .rejectIf (t.anchor = true ∧ pdu.nesn = 1 ∧ pdu.sn = 1) := by
    rw [checkUpdate_booted hs1.booted, checkUpdate_booted hs.booted, shippedVerdict_nesn, hs.anchor]
    exact Verdict.rejectIf_congr (by cases t.anchor <;> simp)
  unfold ifwConnRx Statics.dcPdu
  simp only
  rw [unlessRejected_booted hs2.booted, hv]
  by_cases ha : t.anchor = true ∧ pdu.nesn = 1 ∧ pdu.sn = 1
  · rw [Verdict.rejectIf_pos ha, if_pos ha]
    exact ⟨_, rfl, rfl, hs2.withResult .reject⟩
  · rw [Verdict.rejectIf_neg ha, if_neg ha]
    have hs3 := hs2.checkUpdate_anchor false
    by_cases hid : pdu.llId = 3
    · simp only [if_pos hid]
      exact ifwCtrlRx_tracks hs3 hp E pdu
    · simp only [if_neg hid]
      exact ⟨_, rfl, hp, hs3⟩

/-- The counters are reset and the anchor is armed, whatever the checks will say. -/
theorem newConnection_tracks (hs : Tracks flash h t) (lll : LllConn) (ind : ConnectInd) :
    Tracks flash (newConnection lll ind h) ⟨true, 0, 0⟩ := by
  have hs0 : Tracks flash { h with
      lll := { lll with dataChanMap := ind.chanMap }
      llcpLenReqPending := 0
      llcpCprPending := 0 } ⟨t.anchor, 0, 0⟩ :=
    ⟨⟨hs.booted.reg, hs.booted.fsmNewInit⟩, hs.anchor, rfl, rfl⟩
  exact (hs0.checkUpdate_anchor true).withLll _

theorem ifwPeripheralSetup_tracks (hs : Tracks flash h t) (hp : h.result = .pass)
    (E : Env layout.size) (lll : LllConn) (ind : ConnectInd) :
    ∃ h', ifwPeripheralSetup E lll ind h = some h' ∧
      h'.result = .rejectIf (Monitor.oneBits ind.chanMap < 2 ∨
        (ind.hop.toNat < 5 ∨ 16 < ind.hop.toNat) ∨ ind.interval = 0) ∧
      Tracks flash h' ⟨true, 0, 0⟩ := by
  have hhop : ∀ s : FsmState, shippedVerdict (.conn .channelHop) (s.set (.conn .channelHop)
      ((ind.hop.setWidth 8).setWidth 16)) =
      .rejectIf (ind.hop.toNat < 5 ∨ 16 < ind.hop.toNat) := by
    intro s
    have := ind.hop.isLt
    rw [shippedVerdict_channelHop, BitVec.toNat_setWidth, BitVec.toNat_setWidth]
    exact Verdict.rejectIf_congr (by omega)
  unfold ifwPeripheralSetup
  refine (newConnection_tracks hs lll ind).check hp E _ _ (by decide)
    (q := (ind.hop.toNat < 5 ∨ 16 < ind.hop.toNat) ∨ ind.interval = 0)
    (fun s => shippedVerdict_dataChanCount s ind.chanMap) fun h2 hp2 hs2 => ?_
  have hs3 := hs2.withLll { h2.lll with dataChanHop := ind.hop.setWidth 8 }
  refine hs3.check hp2 E _ _ (by decide) (q := ind.interval = 0) hhop fun h4 hp4 hs4 => ?_
  obtain ⟨h', h5, h6, h7⟩ := (hs4.withLll { h4.lll with interval := ind.interval }).verify hp4 E
    ind.interval (.conn .lllInterval) (by simp)
  exact ⟨h', h5, h6.trans (shippedVerdict_lllInterval _ _), h7⟩

theorem bleRole_tracks (hs : Tracks flash h t) (E : Env layout.size) (v : BitVec 16) :
    ∃ h', (h.checkUpdate v (.core .bleRole)).unlessRejected E (.core .bleRole) some = some h' ∧
      h'.result = h.result ∧ Tracks flash h' t := by
  have hs' := hs.checkUpdate v (.core .bleRole) (by simp)
  rw [unlessRejected_booted hs'.booted]
  exact ⟨_, rfl, rfl, hs'⟩

theorem role_cases (role : BitVec 1) : role = 0 ∨ role = 1 := by
  revert role
  decide

theorem ifwConnSetup_tracks (hs : Tracks flash h t) (hp : h.result = .pass) (E : Env layout.size)
    (lll : LllConn) (ind : ConnectInd) :
    ∃ h', ifwConnSetup E lll ind h = some h' ∧ h'.result = (t.connection lll ind).2 ∧
      Tracks flash h' (t.connection lll ind).1 := by
  unfold ifwConnSetup Statics.connection
  rcases role_cases lll.role with hr | hr
  · rw [if_pos hr, if_neg (by rw [hr]; decide)]
    obtain ⟨h', h1, h2, h3⟩ := bleRole_tracks (hs.withLll lll) E 2
    exact ⟨h', h1, h2.trans hp, h3⟩
  · rw [if_neg (by rw [hr]; decide), if_pos hr]
    obtain ⟨h1, hset, hres, hs1⟩ := ifwPeripheralSetup_tracks hs hp E lll ind
    obtain ⟨h', h2, h3, h4⟩ := bleRole_tracks hs1 E 3
    refine ⟨h', by rw [hset]; exact h2, h3.trans (hres.trans (Verdict.rejectIf_congr ?_)), h4⟩
    rw [or_assoc]

/-- **One call of a hook** gives the verdict of `Statics.step` and keeps the relation. -/
theorem llStep_tracks (hs : Tracks flash h t) (call : Env layout.size × LlCall) :
    ∃ h', llStep h call = some (h', (t.step call.2).2) ∧ Tracks flash h' (t.step call.2).1 := by
  obtain ⟨E, call⟩ := call
  cases call with
  | rx node =>
    have hs0 := hs.withResult .pass
    cases node with
    | eventDone => exact ⟨_, rfl, hs0⟩
    | other => exact ⟨_, rfl, hs0⟩
    | connection lll ind =>
      obtain ⟨h', h1, h2, h3⟩ := ifwConnSetup_tracks hs0 rfl E lll ind
      refine ⟨h', ?_, h3⟩
      simp only [llStep, ifwLlPacketParserRx, h1, Option.map_some, h2]
      rfl
    | dcPdu pdu =>
      obtain ⟨h', h1, h2, h3⟩ := ifwConnRx_tracks hs0 rfl E pdu
      refine ⟨h', ?_, h3⟩
      simp only [llStep, ifwLlPacketParserRx, h1, Option.map_some, h2]
      rfl
  | tx pdu =>
    cases pdu with
    | none => exact ⟨_, rfl, hs⟩
    | some pdu =>
      have hs' := hs.checkUpdate (pdu.len.setWidth 16) (.conn .scanRspLen) (by simp)
      by_cases ht : pdu.type = 4
      · have hlen := pdu.len.isLt
        have hv : shippedVerdict (.conn .scanRspLen)
            (h.checkUpdate (pdu.len.setWidth 16) (.conn .scanRspLen)).core.newFSMState =
            .rejectIf (pdu.type = 4 ∧ 80 < pdu.len.toNat) := by
          rw [checkUpdate_booted hs.booted]
          refine (rejectAbove_set _ _ _ 80).trans (Verdict.rejectIf_congr ?_)
          rw [BitVec.toNat_setWidth]
          simp only [ht, true_and]
          omega
        refine ⟨_, ?_, hs'⟩
        simp only [llStep, ifwLlPacketParserTx, if_pos ht]
        rw [runVerifier_booted hs'.booted, hv]
        rfl
      · refine ⟨h, ?_, hs⟩
        simp only [llStep, ifwLlPacketParserTx, if_neg ht, Statics.step]
        rw [Verdict.rejectIf_neg fun hc => ht hc.1]

/-! ## Whole runs -/

/-- **Runs of the hooks** return, with the verdicts of `Statics.run`. -/
theorem runs_statics (hs : Tracks flash h t) (calls : List (Env layout.size × LlCall)) :
    ∃ h', runs llStep h calls = some (h', (totalRuns Statics.run t calls).2) ∧
      Tracks flash h' (after Statics.run t calls) :=
  runs_sim (fun _ h t => Tracks flash h t) (fun call _ _ _ hs => llStep_tracks hs call) hs

/-- Every reached state of the hooks is tracked. -/
theorem tracks_of_reached (hr : Reached llStep (.boot flash) h) : ∃ t, Tracks flash h t := by
  have hstep : ∀ a call b v, (∃ t, Tracks flash a t) → llStep a call = some (b, v) →
      ∃ t, Tracks flash b t := by
    rintro a call b v ⟨t, hs⟩ h1
    obtain ⟨h', h2, h3⟩ := llStep_tracks hs call
    rw [h1] at h2
    cases h2
    exact ⟨_, h3⟩
  exact hr.inv ⟨.init, tracks_boot flash⟩ hstep

end

end BlueSwat.Zephyr
