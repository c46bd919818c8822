import BlueSwat.Zephyr.Proof.Refinement

/-!
# Dropped packets

A packet that the hook rejects is dropped. It leaves no trace when every later sequence of calls
gets the verdicts it would have got without the packet.

The statics are exactly what later verdicts depend on (`same_iff`): two values of them that differ
are told apart by some calls. A rejected request is counted all the same, a rejected control PDU
still clears the anchor gate, and a rejected `CONNECT_IND` has reset the counters and armed the
gate. `rejected_noTrace_iff`: a rejected packet leaves no trace exactly when it is stopped at the
gate, or none of these changes anything (`NoTrace`).
-/

set_option autoImplicit false

namespace BlueSwat.Zephyr

open Fsm Reactive

/-! ## Requests and responses -/

/-- A request of a procedure, with `NESN` and `SN` clear. -/
def Procedure.reqCall (p : Procedure) : Env layout.size × LlCall :=
  (ramEnv, .rx (.dcPdu ⟨3, 0, 0, match p with | .length => 0x14 | .connParam => 0x0f, 0,
    Vector.replicate 5 0⟩))

def Procedure.rspCall (p : Procedure) : Env layout.size × LlCall :=
  (ramEnv, .rx (.dcPdu ⟨3, 0, 0, match p with | .length => 0x15 | .connParam => 0x10, 0,
    Vector.replicate 5 0⟩))

/-- A data PDU with `NESN` and `SN` set. -/
def anchorCall : Env layout.size × LlCall :=
  (ramEnv, .rx (.dcPdu ⟨1, 1, 1, 0, 0, Vector.replicate 5 0⟩))

namespace Statics

variable (t : Statics) (p : Procedure)

@[simp] theorem pending_req : (t.run p.reqCall).1.pending p = t.pending p + 1 := by
  cases p <;> simp [run, step, dcPdu, ctrl, Procedure.reqCall, LlctrlType.ofOpcode, pending]

theorem verdict_req : (t.run p.reqCall).2 = .rejectIf (tooMany (t.pending p + 1)) := by
  cases p <;> simp [run, step, dcPdu, ctrl, Procedure.reqCall, LlctrlType.ofOpcode, pending]

@[simp] theorem pending_rsp : (t.run p.rspCall).1.pending p = countDown (t.pending p) := by
  cases p <;> simp [run, step, dcPdu, ctrl, Procedure.rspCall, LlctrlType.ofOpcode, pending]

theorem verdict_anchor : (t.run anchorCall).2 = .rejectIf t.anchor := by
  cases h : t.anchor <;> simp [run, step, dcPdu, anchorCall, h, Verdict.rejectIf]

theorem pending_after_reqs (n : Nat) :
    (after run t (List.replicate n p.reqCall)).pending p = t.pending p + BitVec.ofNat 32 n := by
  induction n generalizing t with
  | zero => simp
  | succ n ih =>
    rw [List.replicate_succ, after_cons, ih, pending_req, BitVec.add_assoc, Nat.add_comm n,
      BitVec.ofNat_add]
    rfl

/-! ## The statics are what later verdicts depend on -/

variable {t p} {u : Statics}

theorem tooMany_eq_true_iff {x : BitVec 32} : tooMany x = true ↔ 1 < x.toNat % 2 ^ 16 := by
  simp [tooMany]

theorem toNat_add_one (x : BitVec 32) : (x + 1).toNat = (x.toNat + 1) % 2 ^ 32 :=
    BitVec.toNat_add ..

/-- Two requests show whether the low half of a counter is 0. -/
theorem low_eq_zero_of_same (h : Same run t u) (ht : t.pending p = 0) :
    (u.pending p).toNat % 2 ^ 16 = 0 := by
  have h1 := h.output p.reqCall
  have h2 := (h.next p.reqCall).output p.reqCall
  rw [verdict_req, verdict_req, Verdict.rejectIf_bool_inj] at h1 h2
  rw [pending_req, pending_req] at h2
  rw [ht] at h1 h2
  have h3 : ¬ 1 < (u.pending p + 1).toNat % 2 ^ 16 := by
    rw [← tooMany_eq_true_iff, ← h1]
    decide
  have h4 : 1 < (u.pending p + 1 + 1).toNat % 2 ^ 16 := by
    rw [← tooMany_eq_true_iff, ← h2]
    decide
  rw [toNat_add_one] at h3 h4
  rw [toNat_add_one] at h4
  omega

theorem countDown_of_pos {x : BitVec 32} (h : 0 < x.toInt) :
    (countDown x).toNat = x.toNat - 1 := by
  have hi := BitVec.toInt_eq_toNat_cond x
  have := x.isLt
  rw [countDown, if_pos h, BitVec.toNat_sub, show (1 : BitVec 32).toNat = 1 from rfl]
  split at hi <;> omega

/-- A response counts a positive counter down, and no other. -/
theorem pending_eq_zero_of_same (h : Same run t u) (ht : t.pending p = 0) : u.pending p = 0 := by
  have hlow := low_eq_zero_of_same h ht
  have hi := BitVec.toInt_eq_toNat_cond (u.pending p)
  have hlt := (u.pending p).isLt
  by_cases hpos : 0 < (u.pending p).toInt
  · have h1 := low_eq_zero_of_same (h.next p.rspCall) (p := p) (by rw [pending_rsp, ht]; decide)
    rw [pending_rsp, countDown_of_pos hpos] at h1
    split at hi <;> omega
  · refine BitVec.eq_of_toNat_eq (Decidable.byContradiction fun hne => ?_)
    have h0 : (0 : BitVec 32).toNat = 0 := rfl
    have h1 := low_eq_zero_of_same ((h.next p.reqCall).next p.rspCall) (p := p)
      (by rw [pending_rsp, pending_req, ht]; decide)
    have hi1 := BitVec.toInt_eq_toNat_cond (u.pending p + 1)
    have hneg : ¬ 0 < (u.pending p + 1).toInt := by
      rw [toNat_add_one] at hi1
      split at hi <;> split at hi1 <;> omega
    rw [pending_rsp, pending_req, countDown, if_neg hneg, toNat_add_one] at h1
    omega

theorem pending_eq_of_same (h : Same run t u) (p : Procedure) : t.pending p = u.pending p := by
  have ht : (after run t (List.replicate (-t.pending p).toNat p.reqCall)).pending p = 0 := by
    rw [pending_after_reqs, BitVec.ofNat_toNat, BitVec.setWidth_eq, add_neg_cancel]
  have hu := pending_eq_zero_of_same (h.after _) ht
  rw [pending_after_reqs, BitVec.ofNat_toNat, BitVec.setWidth_eq] at hu
  exact (add_neg_eq_zero.1 hu).symm

/-- **Different statics are told apart** by some calls. -/
theorem same_iff : Same run t u ↔ t = u := by
  refine ⟨fun h => ?_, fun h => h ▸ fun _ => rfl⟩
  have ha := h.output anchorCall
  rw [verdict_anchor, verdict_anchor, Verdict.rejectIf_bool_inj] at ha
  have hl := pending_eq_of_same h .length
  have hc := pending_eq_of_same h .connParam
  cases t
  cases u
  simp_all [pending]

end Statics

/-! ## Rejected packets -/

/-- The verdicts on a sequence of calls. -/
def Hook.verdicts (h : Hook) (calls : List (Env layout.size × LlCall)) : Option (List Verdict) :=
  (runs llStep h calls).map Prod.snd

/-- The statics before a rejected packet for which it leaves no trace: the packet stops at the
anchor gate; it is an `LL_CONN_UPDATE_IND` or `LL_CHANNEL_MAP_IND` and the gate is not pending; or
it is a `CONNECT_IND` that finds the gate pending and no open request. -/
def NoTrace (t : Statics) : NodeRx → Prop
  | .connection _ _ => t = ⟨true, 0, 0⟩
  | .dcPdu pdu =>
    (t.anchor = true ∧ pdu.nesn = 1 ∧ pdu.sn = 1) ∨
      (t.anchor = false ∧ (LlctrlType.ofOpcode pdu.opcode = .connUpdateInd ∨
        LlctrlType.ofOpcode pdu.opcode = .chanMapInd))
  | _ => True

theorem Tracks.statics_eq {flash : Policy → Nat → BitVec 8} {h : Hook} {t : Statics}
    (hs : Tracks flash h t) : h.statics = t := by
  obtain ⟨anchor, len, cpr⟩ := t
  have ha := hs.anchor
  rw [Hook.statics, hs.len, hs.cpr, ha]
  cases anchor <;> rfl

theorem verdicts_eq {flash : Policy → Nat → BitVec 8} {h : Hook} {t : Statics}
    (hs : Tracks flash h t) (calls : List (Env layout.size × LlCall)) :
    h.verdicts calls = some (totalRuns Statics.run t calls).2 := by
  obtain ⟨h', hr, -⟩ := runs_statics hs calls
  rw [Hook.verdicts, hr]
  rfl

/-- Two states of the hooks agree on all later verdicts iff they have the same statics. -/
theorem verdicts_congr_iff {flash : Policy → Nat → BitVec 8} {h h' : Hook} {t t' : Statics}
    (hs : Tracks flash h t) (hs' : Tracks flash h' t') :
    (∀ calls, h'.verdicts calls = h.verdicts calls) ↔ t' = t := by
  rw [← Statics.same_iff]
  refine forall_congr' fun calls => ?_
  rw [verdicts_eq hs, verdicts_eq hs', Option.some.injEq]

/-- A rejected packet leaves the statics alone exactly in the state `NoTrace`. -/
theorem statics_unchanged_iff {t : Statics} {node : NodeRx}
    (hrej : (t.step (.rx node)).2 = .reject) : (t.step (.rx node)).1 = t ↔ NoTrace t node := by
  cases node with
  | eventDone | other => cases hrej
  | connection lll ind =>
    simp only [Statics.step, Statics.connection] at hrej ⊢
    split at hrej
    · rename_i hrole
      rw [if_pos hrole]
      exact eq_comm
    · cases hrej
  | dcPdu pdu =>
    obtain ⟨anchor, len, cpr⟩ := t
    simp only [Statics.step, Statics.dcPdu, NoTrace] at hrej ⊢
    by_cases hgate : anchor = true ∧ pdu.nesn = 1 ∧ pdu.sn = 1
    · simp [hgate]
    · rw [if_neg hgate] at hrej ⊢
      split at hrej
      · rename_i hid
        rw [if_pos hid]
        unfold Statics.ctrl at hrej ⊢
        cases hop : LlctrlType.ofOpcode pdu.opcode <;> rw [hop] at hrej <;>
          cases anchor <;> simp_all
      · cases hrej

/-- **Which rejected packets leave no trace**: in every state the hooks reach after boot, the later
verdicts are those without the rejected packet exactly when `NoTrace` holds of the statics before
it. -/
theorem rejected_noTrace_iff {flash : Policy → Nat → BitVec 8} {h h' : Hook}
    {E : Env layout.size} {node : NodeRx} (hr : Reached llStep (.boot flash) h)
    (hrej : ifwLlPacketParserRx E node h = some (h', .reject)) :
    (∀ calls, h'.verdicts calls = h.verdicts calls) ↔ NoTrace h.statics node := by
  obtain ⟨t, hs⟩ := tracks_of_reached hr
  obtain ⟨h1, hstep, hs1⟩ := llStep_tracks hs (E, .rx node)
  have heq := hrej.symm.trans hstep
  simp only [Option.some.injEq, Prod.mk.injEq] at heq
  obtain ⟨rfl, hv⟩ := heq
  rw [verdicts_congr_iff hs hs1, hs.statics_eq]
  exact statics_unchanged_iff hv.symm

/-- An `LL_CHANNEL_MAP_IND` with an empty map. -/
def killMap : NodeRx := .dcPdu ⟨3, 0, 0, 0x01, 0, Vector.replicate 5 0⟩

/-- After a connection and a length request, an empty channel map is dropped without a trace. -/
theorem rejected_noTrace_iff_killMap :
    ∃ h h', Reached llStep (.boot fun _ _ => 0) h ∧
      ifwLlPacketParserRx ramEnv killMap h = some (h', .reject) ∧
      ∀ calls, h'.verdicts calls = h.verdicts calls := by
  obtain ⟨h, hr, hs⟩ := runs_statics (tracks_boot fun _ _ => 0) [connectCall, lengthReqCall]
  obtain ⟨h', hrej, -⟩ := llStep_tracks hs (ramEnv, .rx killMap)
  have hreach : Reached llStep (.boot fun _ _ => 0) h := ⟨_, _, hr⟩
  have hrej' : ifwLlPacketParserRx ramEnv killMap h = some (h', .reject) := hrej
  refine ⟨h, h', hreach, hrej', (rejected_noTrace_iff hreach hrej').2 ?_⟩
  rw [hs.statics_eq]
  exact .inr ⟨rfl, .inr rfl⟩

/-- A second length request is dropped but counted: after a response, the next request is rejected,
and would have passed without the dropped one. -/
theorem lengthReq_leaves_trace :
    ∃ h h', Reached llStep (.boot fun _ _ => 0) h ∧
      runs llStep (.boot fun _ _ => 0) [connectCall, lengthReqCall] = some (h, [.pass, .pass]) ∧
      llStep h lengthReqCall = some (h', .reject) ∧
      h'.verdicts [Procedure.length.rspCall, lengthReqCall] = some [.pass, .reject] ∧
      h.verdicts [Procedure.length.rspCall, lengthReqCall] = some [.pass, .pass] ∧
      ¬ ∀ calls, h'.verdicts calls = h.verdicts calls := by
  obtain ⟨h, hr, hs⟩ := runs_statics (tracks_boot fun _ _ => 0) [connectCall, lengthReqCall]
  obtain ⟨h', hrej, hs'⟩ := llStep_tracks hs lengthReqCall
  have h1 : h'.verdicts [Procedure.length.rspCall, lengthReqCall] = some [.pass, .reject] :=
    verdicts_eq hs' _
  have h2 : h.verdicts [Procedure.length.rspCall, lengthReqCall] = some [.pass, .pass] :=
    verdicts_eq hs _
  refine ⟨h, h', ⟨_, _, hr⟩, hr, hrej, h1, h2, fun hall => ?_⟩
  exact absurd (h1.symm.trans ((hall _).trans h2)) (by decide)

end BlueSwat.Zephyr
