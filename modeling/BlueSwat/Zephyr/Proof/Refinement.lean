import BlueSwat.Zephyr.Proof.Statics

/-!
# The hooks refine the monitor

`Sim`: the hooks have booted, `dc_param[DC_ANCHOR_STATE]` of the staged state is the monitor's
`anchor`, and the two static counters are its counts. `llStep_sim`: a call of a hook keeps `Sim`
and gives the monitor's verdict, as long as the counts fit an `int`: the hooks follow
`Statics.step` (`llStep_tracks`), which then counts as the monitor does (`Statics.Counts.step`). By
`Reactive.runs_sim` the verdicts of whole runs are those of the monitor (`runs_monitor`).
-/

set_option autoImplicit false

namespace BlueSwat.Zephyr

open Ebpf Fsm Reactive

/-! ## The simulation relation -/

/-- The hooks `h` are in the state `m` of the monitor. -/
structure Sim (flash : Policy → Nat → BitVec 8) (h : Hook) (m : Monitor) : Prop where
  booted : Booted flash h
  anchor : h.core.newFSMState (.dc .dcAnchorState) = if m.anchor then 1 else 0
  len : h.llcpLenReqPending.toNat = m.len
  cpr : h.llcpCprPending.toNat = m.cpr

theorem sim_boot (flash : Policy → Nat → BitVec 8) : Sim flash (.boot flash) .init :=
  ⟨booted_boot flash, rfl, rfl, rfl⟩

/-- The statics `t` are the state `m` of the monitor. -/
structure Statics.Counts (t : Statics) (m : Monitor) : Prop where
  anchor : t.anchor = m.anchor
  len : t.len.toNat = m.len
  cpr : t.cpr.toNat = m.cpr

section
variable {flash : Policy → Nat → BitVec 8} {h : Hook} {t : Statics} {m : Monitor}

theorem Tracks.sim (hs : Tracks flash h t) (hc : t.Counts m) : Sim flash h m :=
  ⟨hs.booted, hc.anchor ▸ hs.anchor, hs.len ▸ hc.len, hs.cpr ▸ hc.cpr⟩

theorem Sim.tracks (hs : Sim flash h m) :
    Tracks flash h ⟨m.anchor, h.llcpLenReqPending, h.llcpCprPending⟩ :=
  ⟨hs.booted, hs.anchor, rfl, rfl⟩

/-! ## Counting below the range of `int` -/

theorem toNat_add_one_32 {x : BitVec 32} (h : x.toNat + 1 < 2 ^ 31) :
    (x + 1).toNat = x.toNat + 1 := by
  rw [BitVec.toNat_add, show (1 : BitVec 32).toNat = 1 from rfl]
  omega

theorem toNat_countDown {x : BitVec 32} (h : x.toNat < 2 ^ 31) :
    (Statics.countDown x).toNat = x.toNat - 1 := by
  have hi := BitVec.toInt_eq_toNat_cond x
  rw [if_pos (by omega)] at hi
  unfold Statics.countDown
  split
  · rw [BitVec.toNat_sub, show (1 : BitVec 32).toNat = 1 from rfl]
    omega
  · omega

theorem rejectIf_tooMany {x : BitVec 32} {n : Nat} (h : x.toNat = n) :
    Verdict.rejectIf (Statics.tooMany x) = .rejectIf (1 < n % 2 ^ 16) := by
  rw [Statics.tooMany, BitVec.toNat_setWidth, h]

theorem Statics.Counts.ctrl (hc : t.Counts m) (pdu : PduData) (hm : m.Small)
    (hm' : (m.ctrl pdu).1.Small) :
    (t.ctrl pdu).2 = (m.ctrl pdu).2 ∧ (t.ctrl pdu).1.Counts (m.ctrl pdu).1 := by
  unfold Statics.ctrl
  unfold Monitor.ctrl at hm' ⊢
  generalize LlctrlType.ofOpcode pdu.opcode = type at hm' ⊢
  cases type with
  | connUpdateInd | chanMapInd | other => exact ⟨rfl, hc⟩
  | lengthReq =>
    have hlen := toNat_add_one_32 (x := t.len) (by rw [hc.len]; exact hm'.len)
    rw [hc.len] at hlen
    exact ⟨rejectIf_tooMany hlen, hc.anchor, hlen, hc.cpr⟩
  | lengthRsp =>
    have hlen := toNat_countDown (x := t.len) (by rw [hc.len]; exact hm.len)
    exact ⟨rfl, hc.anchor, hc.len ▸ hlen, hc.cpr⟩
  | connParamReq =>
    have hcpr := toNat_add_one_32 (x := t.cpr) (by rw [hc.cpr]; exact hm'.cpr)
    rw [hc.cpr] at hcpr
    exact ⟨rejectIf_tooMany hcpr, hc.anchor, hc.len, hcpr⟩
  | connParamRsp =>
    have hcpr := toNat_countDown (x := t.cpr) (by rw [hc.cpr]; exact hm.cpr)
    exact ⟨rfl, hc.anchor, hc.len, hc.cpr ▸ hcpr⟩

theorem Statics.Counts.dcPdu (hc : t.Counts m) (pdu : PduData) (hm : m.Small)
    (hm' : (m.dcPdu pdu).1.Small) :
    (t.dcPdu pdu).2 = (m.dcPdu pdu).2 ∧ (t.dcPdu pdu).1.Counts (m.dcPdu pdu).1 := by
  unfold Statics.dcPdu
  unfold Monitor.dcPdu at hm' ⊢
  rw [hc.anchor]
  by_cases ha : m.anchor = true ∧ pdu.nesn = 1 ∧ pdu.sn = 1
  · simp only [if_pos ha, true_and]
    exact hc
  · simp only [if_neg ha] at hm' ⊢
    have hc' : Statics.Counts { t with anchor := false } { m with anchor := false } :=
      ⟨rfl, hc.len, hc.cpr⟩
    by_cases hid : pdu.llId = 3
    · simp only [if_pos hid] at hm' ⊢
      exact hc'.ctrl pdu ⟨hm.len, hm.cpr⟩ hm'
    · rw [if_neg hid, if_neg hid]
      exact ⟨rfl, hc'⟩

/-- The monitor's step is the statics' step, as long as the counts fit an `int`. -/
theorem Statics.Counts.step (hc : t.Counts m) (call : LlCall) (hm : m.Small)
    (hm' : (m.step call).1.Small) :
    (t.step call).2 = (m.step call).2 ∧ (t.step call).1.Counts (m.step call).1 := by
  cases call with
  | tx pdu => cases pdu <;> exact ⟨rfl, hc⟩
  | rx node =>
    cases node with
    | eventDone | other => exact ⟨rfl, hc⟩
    | dcPdu pdu => exact hc.dcPdu pdu hm hm'
    | connection lll ind =>
      simp only [Statics.step, Monitor.step, Statics.connection, Monitor.connection]
      split
      · exact ⟨rfl, rfl, rfl, rfl⟩
      · exact ⟨rfl, hc⟩

/-- **One call of a hook** gives the monitor's verdict and keeps the relation. -/
theorem llStep_sim (hs : Sim flash h m) (call : Env layout.size × LlCall) (hm : m.Small)
    (hm' : (m.step call.2).1.Small) :
    ∃ h', llStep h call = some (h', (m.step call.2).2) ∧ Sim flash h' (m.step call.2).1 := by
  obtain ⟨h', h1, h2⟩ := llStep_tracks hs.tracks call
  have hc : Statics.Counts ⟨m.anchor, h.llcpLenReqPending, h.llcpCprPending⟩ m :=
    ⟨rfl, hs.len, hs.cpr⟩
  obtain ⟨h3, h4⟩ := hc.step call.2 hm hm'
  exact ⟨h', h3 ▸ h1, h2.sim h4⟩

end

/-! ## Whole runs -/

/-- **Runs of the hooks** return, with the verdicts of the monitor, as long as the open requests
fit an `int`. -/
theorem runs_monitor (flash : Policy → Nat → BitVec 8) (calls : List (Env layout.size × LlCall))
    (hsmall : ∀ n, (after Monitor.run .init (calls.take n)).Small) :
    ∃ h, runs llStep (.boot flash) calls = some (h, (totalRuns Monitor.run .init calls).2) := by
  -- the relation carries the bound for the calls still to come
  let R (calls : List (Env layout.size × LlCall)) (h : Hook) (m : Monitor) : Prop :=
    Sim flash h m ∧ ∀ n, (after Monitor.run m (calls.take n)).Small
  have hstep : ∀ call calls h m, R (call :: calls) h m →
      ∃ h', llStep h call = some (h', (m.run call).2) ∧ R calls h' (m.run call).1 := by
    intro call calls h m hR
    obtain ⟨h', h1, h2⟩ := llStep_sim hR.1 call (hR.2 0) (hR.2 1)
    exact ⟨h', h1, h2, fun n => hR.2 (n + 1)⟩
  obtain ⟨h, hr, -⟩ := runs_sim R hstep ⟨sim_boot flash, hsmall⟩
  exact ⟨h, hr⟩

/-! ## The counts of the monitor -/

namespace Monitor

theorem pending_ctrl (m : Monitor) (pdu : PduData) (p : Procedure) :
    (m.ctrl pdu).1.pending p =
      if LlctrlType.ofOpcode pdu.opcode = p.req then m.pending p + 1
      else if LlctrlType.ofOpcode pdu.opcode = p.rsp then m.pending p - 1
      else m.pending p := by
  unfold ctrl
  cases LlctrlType.ofOpcode pdu.opcode <;> cases p <;> rfl

/-- A call leaves the count alone, unless it is a new connection, a request or a response. -/
theorem pending_step (m : Monitor) (call : LlCall) (p : Procedure) :
    (call.isPeripheral = false ∧ (m.step call).1.pending p = m.pending p) ∨
      (call.isPeripheral = true ∧ (m.step call).1.pending p = 0) ∨
      (call.isCtrl p.req = true ∧ (m.step call).1.pending p = m.pending p + 1) ∨
      (call.isCtrl p.rsp = true ∧ (m.step call).1.pending p = m.pending p - 1) := by
  cases call with
  | tx pdu => cases pdu <;> exact .inl ⟨rfl, rfl⟩
  | rx node =>
    cases node with
    | eventDone => exact .inl ⟨rfl, rfl⟩
    | other => exact .inl ⟨rfl, rfl⟩
    | connection lll ind =>
      by_cases hr : lll.role = 1
      · refine .inr (.inl ⟨by simp [LlCall.isPeripheral, hr], ?_⟩)
        simp only [step, connection, if_pos hr]
        cases p <;> rfl
      · refine .inl ⟨decide_eq_false hr, ?_⟩
        simp only [step, connection, if_neg hr]
    | dcPdu pdu =>
      have hm : { m with anchor := false }.pending p = m.pending p := by cases p <;> rfl
      simp only [step, dcPdu]
      split
      · exact .inl ⟨rfl, rfl⟩
      · split
        · rename_i hid
          rw [pending_ctrl, hm]
          split
          · exact .inr (.inr (.inl ⟨by simp_all [LlCall.isCtrl], rfl⟩))
          · split
            · exact .inr (.inr (.inr ⟨by simp_all [LlCall.isCtrl], rfl⟩))
            · exact .inl ⟨rfl, rfl⟩
        · exact .inl ⟨rfl, hm⟩

theorem pending_after_le (p : Procedure) (m : Monitor) (calls : List (Env layout.size × LlCall)) :
    (after run m calls).pending p ≤ m.pending p + calls.countP fun c => c.2.isRequest := by
  induction calls generalizing m with
  | nil => exact Nat.le_refl _
  | cons call calls ih =>
    have h1 := ih (run m call).1
    have h2 : (run m call).1.pending p ≤ m.pending p + if call.2.isRequest then 1 else 0 := by
      rcases m.pending_step call.2 p with ⟨-, h⟩ | ⟨-, h⟩ | ⟨hr, h⟩ | ⟨-, h⟩ <;> rw [run, h]
      · omega
      · omega
      · rw [if_pos (by cases p <;> simp [LlCall.isRequest, hr])]
      · omega
    rw [after_cons, List.countP_cons]
    omega

end Monitor

/-- **The link-layer hooks refine the monitor**: after `ifw_fsm_init` and `ifw_fsm_enable(false)`,
every sequence of calls with fewer than `2 ^ 31` requests returns the verdicts of the monitor. -/
theorem hooks_refine_monitor (flash : Policy → Nat → BitVec 8)
    (calls : List (Env layout.size × LlCall))
    (hreq : calls.countP (fun c => c.2.isRequest) < 2 ^ 31) :
    ∃ h, runs llStep (.boot flash) calls = some (h, (totalRuns Monitor.run .init calls).2) := by
  refine runs_monitor flash calls fun n => ?_
  have hle : (calls.take n).countP (fun c => c.2.isRequest) ≤ _ :=
    (List.take_sublist n calls).countP_le
  have hp : ∀ p, (after Monitor.run .init (calls.take n)).pending p < 2 ^ 31 := fun p => by
    have h0 : Monitor.init.pending p = 0 := by cases p <;> rfl
    have := Monitor.pending_after_le p .init (calls.take n)
    omega
  exact ⟨hp .length, hp .connParam⟩

/-- The FSM state at the start of the RAM. -/
def ramEnv : Env layout.size := .plain (ramPlacement 120 (by decide))

/-- A peripheral connection with 37 channels, hop 7 and interval 24. -/
def connectCall : Env layout.size × LlCall :=
  (ramEnv, .rx (.connection ⟨1, Vector.replicate 5 0, 0, 0, 0⟩
    ⟨#v[0xff, 0xff, 0xff, 0xff, 0x1f], 7, 24⟩))

def lengthReqCall : Env layout.size × LlCall :=
  (ramEnv, .rx (.dcPdu ⟨3, 0, 0, 0x14, 0, Vector.replicate 5 0⟩))

/-- A second length request is rejected. -/
theorem hooks_refine_monitor_length :
    [connectCall, lengthReqCall, lengthReqCall].countP (fun c => c.2.isRequest) < 2 ^ 31 ∧
      ∃ h, runs llStep (.boot fun _ _ => 0) [connectCall, lengthReqCall, lengthReqCall] =
        some (h, [.pass, .pass, .reject]) :=
  ⟨by decide, hooks_refine_monitor (fun _ _ => 0) [connectCall, lengthReqCall, lengthReqCall]
    (by decide)⟩

end BlueSwat.Zephyr
