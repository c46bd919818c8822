import BlueSwat.Zephyr.Proof.Refinement

/-!
# Requests that are answered

A peer may start a procedure again once the device has answered its last request. The answer is
transmitted on a data channel, where no hook sees it: the counter of open requests goes down only
when a response is received. `requests_pass_iff`: on one connection, whatever the device transmits,
no request of a procedure is rejected exactly when each is preceded by a received response to the
one before it, and none is stopped at the anchor gate.
-/

set_option autoImplicit false

namespace BlueSwat.Zephyr

open Fsm Reactive

/-! ## Events of one connection -/

namespace LinkEvent

/-- A control PDU of a given type is received. -/
def isCtrl (type : LlctrlType) : LinkEvent → Bool
  | .rx node => (LlCall.rx node).isCtrl type
  | _ => false

def isConnection : LinkEvent → Bool
  | .rx node => (LlCall.rx node).isConnection
  | _ => false

/-- A control PDU of a given type is transmitted. -/
def isAnswer (type : LlctrlType) : LinkEvent → Bool
  | .txCtrl type' => type' = type
  | _ => false

/-- Not a data-channel PDU that gets past a pending anchor gate. -/
def keepsGate : LinkEvent → Bool
  | .rx (.dcPdu pdu) => pdu.nesn = 1 ∧ pdu.sn = 1
  | _ => true

end LinkEvent

/-- The device answers each request before the next one of the procedure arrives. -/
def Answered (p : Procedure) (events : List LinkEvent) : Prop :=
  ∀ (i j : Nat) (ei ej : LinkEvent), i < j → events[i]? = some ei → ei.isCtrl p.req = true →
    events[j]? = some ej → ej.isCtrl p.req = true →
    ∃ (l : Nat) (el : LinkEvent), i < l ∧ l < j ∧ events[l]? = some el ∧
      el.isAnswer p.rsp = true

/-- The last request or response of the procedure that was received is a request. -/
def requestOpen (p : Procedure) (events : List LinkEvent) : Bool :=
  events.foldl (fun b e =>
    if e.isCtrl p.req then true else if e.isCtrl p.rsp then false else b) false

/-- The anchor gate of the connection `lll` is pending: no data-channel PDU got past it. -/
def gatePending (lll : LllConn) (events : List LinkEvent) : Bool :=
  lll.role = 1 ∧ events.all LinkEvent.keepsGate = true

/-- No request of the procedure is rejected, with the outputs `vs`. -/
def RequestsPass (p : Procedure) (events : List LinkEvent) (vs : List (Option Verdict)) : Prop :=
  ∀ (n : Nat) (e : LinkEvent), events[n]? = some e → e.isCtrl p.req = true →
    vs[n]? = some (some .pass)

/-! ## The statics on one connection -/

namespace Statics

def linkRun (t : Statics) (event : Env layout.size × LinkEvent) : Statics × Option Verdict :=
  match event.2 with
  | .rx node => ((t.step (.rx node)).1, some (t.step (.rx node)).2)
  | .txCtrl _ => (t, none)
  | .txAdv pdu => ((t.step (.tx (some pdu))).1, some (t.step (.tx (some pdu))).2)

theorem pending_ctrl (t : Statics) (pdu : PduData) (p : Procedure) :
    (t.ctrl pdu).1.pending p =
      if LlctrlType.ofOpcode pdu.opcode = p.req then t.pending p + 1
      else if LlctrlType.ofOpcode pdu.opcode = p.rsp then countDown (t.pending p)
      else t.pending p := by
  unfold ctrl
  cases LlctrlType.ofOpcode pdu.opcode <;> cases p <;> rfl

theorem anchor_ctrl (t : Statics) (pdu : PduData) : (t.ctrl pdu).1.anchor = t.anchor := by
  unfold ctrl
  cases LlctrlType.ofOpcode pdu.opcode <;> rfl

theorem verdict_ctrl {t : Statics} {pdu : PduData} {p : Procedure}
    (h : LlctrlType.ofOpcode pdu.opcode = p.req) :
    (t.ctrl pdu).2 = .rejectIf (tooMany (t.pending p + 1)) := by
  unfold ctrl
  rw [h]
  cases p <;> rfl

end Statics

/-- What an event does to the gate and the counter of a procedure: a PDU stopped at the gate changes
nothing; a PDU past it clears the gate, and counts if it is a request or a response; no other event
matters. -/
theorem linkRun_cases (t : Statics) (p : Procedure) {e : Env layout.size × LinkEvent}
    (hconn : e.2.isConnection = false) :
    (e.2.keepsGate = true ∧ (t.linkRun e).1 = t ∧
      (e.2.isCtrl p.req = true → t.anchor = true ∧ (t.linkRun e).2 = some .reject) ∧
      (e.2.isCtrl p.rsp = true → t.anchor = true)) ∨
    ((t.anchor = true → e.2.keepsGate = false) ∧ (t.linkRun e).1.anchor = false ∧
      (t.linkRun e).1.pending p =
        (if e.2.isCtrl p.req then t.pending p + 1
        else if e.2.isCtrl p.rsp then Statics.countDown (t.pending p) else t.pending p) ∧
      (e.2.isCtrl p.req = true →
        (t.linkRun e).2 = some (.rejectIf (Statics.tooMany (t.pending p + 1))))) := by
  obtain ⟨E, e⟩ := e
  cases e with
  | txCtrl type | txAdv pdu =>
    refine .inl ⟨rfl, rfl, ?_, ?_⟩ <;> exact fun h => absurd h Bool.false_ne_true
  | rx node =>
    cases node with
    | eventDone | other =>
      refine .inl ⟨rfl, rfl, ?_, ?_⟩ <;> exact fun h => absurd h Bool.false_ne_true
    | connection lll ind => cases hconn
    | dcPdu pdu =>
      simp only [Statics.linkRun, Statics.step, Statics.dcPdu, LinkEvent.keepsGate,
        LinkEvent.isCtrl, LlCall.isCtrl, decide_eq_true_eq]
      by_cases hgate : t.anchor = true ∧ pdu.nesn = 1 ∧ pdu.sn = 1
      · rw [if_pos hgate]
        exact .inl ⟨hgate.2, rfl, fun _ => ⟨hgate.1, rfl⟩, fun _ => hgate.1⟩
      · rw [if_neg hgate]
        refine .inr ⟨fun ha => decide_eq_false fun hk => hgate ⟨ha, hk⟩, ?_⟩
        have hp : { t with anchor := false }.pending p = t.pending p := by cases p <;> rfl
        by_cases hid : pdu.llId = 3
        · simp only [hid, true_and, if_true]
          refine ⟨Statics.anchor_ctrl _ _, (Statics.pending_ctrl _ _ _).trans ?_, fun hreq => ?_⟩
          · rw [hp]
          · rw [Statics.verdict_ctrl hreq, hp]
        · simp only [hid, false_and, if_false, true_and]
          exact ⟨hp, False.elim⟩

/-! ## Runs -/

/-- The counter of `p` is 1 or 0 as a request is open or not, and the gate is clear once a request
was open. -/
structure Counted (p : Procedure) (t : Statics) (isOpen : Bool) : Prop where
  pending : t.pending p = if isOpen then 1 else 0
  gate : isOpen = true → t.anchor = false

section
variable {t : Statics} {p : Procedure} {isOpen : Bool} {e : Env layout.size × LinkEvent}

/-- A request passes iff none is open and it does not stop at the gate. -/
theorem Counted.verdict_iff (hc : Counted p t isOpen) (hconn : e.2.isConnection = false)
    (hreq : e.2.isCtrl p.req = true) :
    (t.linkRun e).2 = some .pass ↔
      isOpen = false ∧ ¬ (t.anchor = true ∧ e.2.keepsGate = true) := by
  rcases linkRun_cases t p hconn with ⟨hk, -, hv, -⟩ | ⟨hk, -, -, hv⟩
  · simp [hv hreq, hk]
  · have hov : Statics.tooMany (t.pending p + 1) = isOpen := by
      rw [hc.pending]
      cases isOpen <;> decide
    rw [hv hreq, hov]
    cases isOpen with
    | false => simpa [Verdict.rejectIf] using hk
    | true => simp [Verdict.rejectIf]

theorem Counted.next (hc : Counted p t isOpen) (hconn : e.2.isConnection = false)
    (hpass : e.2.isCtrl p.req = true → (t.linkRun e).2 = some .pass) :
    Counted p (t.linkRun e).1
      (if e.2.isCtrl p.req then true else if e.2.isCtrl p.rsp then false else isOpen) := by
  rcases linkRun_cases t p hconn with ⟨-, ht, hreq, hrsp⟩ | ⟨-, ha, hpend, -⟩
  · rw [ht]
    split
    · rename_i hr
      have h1 := hpass hr
      rw [(hreq hr).2] at h1
      cases h1
    · split
      · -- a response stopped at the gate: no request can be open
        rename_i hr
        cases isOpen with
        | false => exact hc
        | true => cases (hc.gate rfl).symm.trans (hrsp hr)
      · exact hc
  · refine ⟨hpend.trans ?_, fun _ => ha⟩
    split
    · rename_i hr
      rw [hc.pending, ((hc.verdict_iff hconn hr).1 (hpass hr)).1]
      rfl
    · split
      · rw [hc.pending]
        cases isOpen <;> decide
      · exact hc.pending

end

theorem runs_link {flash : Policy → Nat → BitVec 8} {h : Hook} {t : Statics}
    (hs : Tracks flash h t) (events : List (Env layout.size × LinkEvent)) :
    ∃ h', runs linkStep h events = some (h', (totalRuns Statics.linkRun t events).2) ∧
      Tracks flash h' (after Statics.linkRun t events) := by
  have hstep : ∀ (e : Env layout.size × LinkEvent) (es : List (Env layout.size × LinkEvent))
      (h : Hook) (t : Statics), Tracks flash h t →
      ∃ h', linkStep h e = some (h', (t.linkRun e).2) ∧ Tracks flash h' (t.linkRun e).1 := by
    rintro ⟨E, e⟩ - h t hs
    cases e with
    | txCtrl type => exact ⟨h, rfl, hs⟩
    | rx node =>
      obtain ⟨h', h1, h2⟩ := llStep_tracks hs (E, .rx node)
      exact ⟨h', Option.map_eq_some_iff.2 ⟨_, h1, rfl⟩, h2⟩
    | txAdv pdu =>
      obtain ⟨h', h1, h2⟩ := llStep_tracks hs (E, .tx (some pdu))
      exact ⟨h', Option.map_eq_some_iff.2 ⟨_, h1, rfl⟩, h2⟩
  exact runs_sim (fun _ h t => Tracks flash h t) hstep hs

section
variable {events : List (Env layout.size × LinkEvent)}
  (hone : ∀ e ∈ events, e.2.isConnection = false) (lll : LllConn)
include hone

/-- The statics at the start of the connection `lll`. -/
def Statics.connected (lll : LllConn) : Statics := ⟨lll.role = 1, 0, 0⟩

theorem anchor_after_take (n : Nat) :
    (after Statics.linkRun (.connected lll) (events.take n)).anchor =
      gatePending lll ((events.take n).map Prod.snd) := by
  induction n with
  | zero => simp [Statics.connected, gatePending]
  | succ n ih =>
    cases he : events[n]? with
    | none => rwa [List.take_add_one, he, Option.toList_none, List.append_nil]
    | some e =>
      rw [after_take_succ _ he, List.take_add_one, he]
      have hgate : gatePending lll ((events.take n ++ [e]).map Prod.snd) =
          (gatePending lll ((events.take n).map Prod.snd) && e.2.keepsGate) := by
        simp [gatePending, Bool.and_assoc]
      rw [Option.toList_some, hgate, ← ih]
      rcases linkRun_cases (after Statics.linkRun (.connected lll) (events.take n)) .length
        (hone e (List.mem_of_getElem? he)) with ⟨hk, ht, -⟩ | ⟨hk, ha, -⟩
      · rw [ht, hk, Bool.and_true]
      · rw [ha]
        cases hb : (after Statics.linkRun (.connected lll) (events.take n)).anchor with
        | false => rfl
        | true => rw [hk hb, Bool.and_false]

/-- While the requests of a procedure pass, the counter says whether one is open. -/
theorem counted_after_take (p : Procedure) (n : Nat)
    (hpass : ∀ m < n, ∀ e, events[m]? = some e → e.2.isCtrl p.req = true →
      ((after Statics.linkRun (.connected lll) (events.take m)).linkRun e).2 = some .pass) :
    Counted p (after Statics.linkRun (.connected lll) (events.take n))
      (requestOpen p ((events.take n).map Prod.snd)) := by
  induction n with
  | zero => exact ⟨by cases p <;> rfl, fun h => absurd h Bool.false_ne_true⟩
  | succ n ih =>
    have hc := ih fun m hm => hpass m (by omega)
    cases he : events[n]? with
    | none => rwa [List.take_add_one, he, Option.toList_none, List.append_nil]
    | some e =>
      have hopen : requestOpen p ((events.take n ++ [e]).map Prod.snd) =
          if e.2.isCtrl p.req then true else if e.2.isCtrl p.rsp then false
          else requestOpen p ((events.take n).map Prod.snd) := by
        simp [requestOpen, List.foldl_append]
      rw [after_take_succ _ he, List.take_add_one, he, Option.toList_some, hopen]
      exact hc.next (hone e (List.mem_of_getElem? he)) (hpass n (by omega) e he)

end

theorem requestsPass_iff {p : Procedure} {t : Statics}
    {events : List (Env layout.size × LinkEvent)} :
    RequestsPass p (events.map Prod.snd) (totalRuns Statics.linkRun t events).2 ↔
      ∀ n e, events[n]? = some e → e.2.isCtrl p.req = true →
        ((after Statics.linkRun t (events.take n)).linkRun e).2 = some .pass := by
  constructor
  · intro hp n e he hreq
    have h1 := hp n e.2 (by rw [List.getElem?_map, he]; rfl) hreq
    rw [totalRuns_getElem?, he] at h1
    exact Option.some.inj h1
  · intro hp n e he hreq
    rw [List.getElem?_map, Option.map_eq_some_iff] at he
    obtain ⟨e', he', rfl⟩ := he
    rw [totalRuns_getElem?, he']
    exact congrArg some (hp n e' he' hreq)

/-- **When the requests of a procedure all pass**: on one connection after boot, whatever the device
transmits, no request is rejected iff each arrives when the last one was answered by a received
response, and not at a pending anchor gate with `NESN` and `SN` set. -/
theorem requests_pass_iff (flash : Policy → Nat → BitVec 8) (p : Procedure) (E : Env layout.size)
    (lll : LllConn) (ind : ConnectInd) {events : List (Env layout.size × LinkEvent)}
    (hone : ∀ e ∈ events, e.2.isConnection = false) :
    ∃ h v vs, runs linkStep (.boot flash) ((E, .rx (.connection lll ind)) :: events) =
        some (h, v :: vs) ∧
      (RequestsPass p (events.map Prod.snd) vs ↔
        ∀ n e, (events.map Prod.snd)[n]? = some e → e.isCtrl p.req = true →
          requestOpen p ((events.map Prod.snd).take n) = false ∧
            ¬ (gatePending lll ((events.map Prod.snd).take n) = true ∧ e.keepsGate = true)) := by
  obtain ⟨h, hr, -⟩ := runs_link (tracks_boot flash) ((E, .rx (.connection lll ind)) :: events)
  have h0 : (Statics.init.linkRun (E, .rx (.connection lll ind))).1 = .connected lll := by
    unfold Statics.linkRun Statics.step Statics.connection Statics.connected
    rcases role_cases lll.role with hrole | hrole <;> simp [hrole, Statics.init]
  rw [totalRuns_cons, h0] at hr
  refine ⟨h, _, _, hr, ?_⟩
  rw [requestsPass_iff]
  have hget : ∀ {n : Nat} {e : LinkEvent}, (events.map Prod.snd)[n]? = some e →
      ∃ E, events[n]? = some (E, e) := by
    intro n e he
    rw [List.getElem?_map, Option.map_eq_some_iff] at he
    obtain ⟨⟨E, _⟩, he, rfl⟩ := he
    exact ⟨E, he⟩
  constructor
  · intro hp n e he hreq
    obtain ⟨E, he⟩ := hget he
    have hc := counted_after_take hone lll p n fun m _ => hp m
    have hv := (hc.verdict_iff (hone _ (List.mem_of_getElem? he)) hreq).1 (hp n _ he hreq)
    rwa [anchor_after_take hone lll n, List.map_take] at hv
  · intro hcond n
    -- the counter is right at the `n`-th event, as the requests before it pass
    induction n using Nat.strong_induction_on with
    | _ n ih =>
      intro e he hreq
      have hc := counted_after_take hone lll p n ih
      refine (hc.verdict_iff (hone _ (List.mem_of_getElem? he)) hreq).2 ?_
      rw [anchor_after_take hone lll n, List.map_take]
      exact hcond n e.2 (by rw [List.getElem?_map, he]; rfl) hreq

def connectEvent : Env layout.size × LinkEvent :=
  (ramEnv, .rx (.connection ⟨1, Vector.replicate 5 0, 0, 0, 0⟩
    ⟨Vector.replicate 5 0xff, 7, 24⟩))

def lengthReqEvent : Env layout.size × LinkEvent :=
  (ramEnv, .rx (.dcPdu ⟨3, 0, 0, 0x14, 0, Vector.replicate 5 0⟩))

def lengthRspEvent : Env layout.size × LinkEvent :=
  (ramEnv, .rx (.dcPdu ⟨3, 0, 0, 0x15, 0, Vector.replicate 5 0⟩))

/-- A second length request passes after the response to the first has been received. -/
theorem requests_pass_iff_answered :
    ∃ h v vs, runs linkStep (.boot fun _ _ => 0)
        [connectEvent, lengthReqEvent, lengthRspEvent, lengthReqEvent] = some (h, v :: vs) ∧
      RequestsPass .length [lengthReqEvent.2, lengthRspEvent.2, lengthReqEvent.2] vs := by
  obtain ⟨h, v, vs, hr, hiff⟩ := @requests_pass_iff (fun _ _ => 0) .length ramEnv
    ⟨1, Vector.replicate 5 0, 0, 0, 0⟩ ⟨Vector.replicate 5 0xff, 7, 24⟩
    [lengthReqEvent, lengthRspEvent, lengthReqEvent] (by decide)
  refine ⟨h, v, vs, hr, hiff.2 ?_⟩
  intro n e he hreq
  obtain rfl | rfl | rfl : n = 0 ∨ n = 1 ∨ n = 2 := by
    have := (List.getElem?_eq_some_iff.1 he).1
    simp only [List.map_cons, List.map_nil, List.length_cons, List.length_nil] at this
    omega
  · cases he
    decide
  · cases he
    exact absurd hreq (by decide)
  · cases he
    decide

/-- The device answers a length request before the next, which is rejected all the same: the
response it transmits is not seen. -/
theorem answered_request_rejected :
    ∃ h, runs linkStep (.boot fun _ _ => 0)
        [connectEvent, lengthReqEvent, (ramEnv, .txCtrl .lengthRsp), lengthReqEvent] =
        some (h, [some .pass, some .pass, none, some .reject]) ∧
      Answered .length [lengthReqEvent.2, .txCtrl .lengthRsp, lengthReqEvent.2] ∧
      ¬ RequestsPass .length [lengthReqEvent.2, .txCtrl .lengthRsp, lengthReqEvent.2]
        [some .pass, none, some .reject] := by
  obtain ⟨h, hr, -⟩ := runs_link (tracks_boot fun _ _ => 0)
    [connectEvent, lengthReqEvent, (ramEnv, .txCtrl .lengthRsp), lengthReqEvent]
  refine ⟨h, hr, ?_, fun hp => absurd (hp 2 _ rfl rfl) (by decide)⟩
  intro i j ei ej hij hi hreqi hj hreqj
  have hj2 : j < 3 := (List.getElem?_eq_some_iff.1 hj).1
  refine ⟨1, _, ?_, ?_, rfl, rfl⟩
  · obtain rfl | rfl : i = 0 ∨ i = 1 := by omega
    · omega
    · cases hi
      exact absurd hreqi (by decide)
  · obtain rfl | rfl : j = 1 ∨ j = 2 := by omega
    · cases hj
      exact absurd hreqj (by decide)
    · omega

end BlueSwat.Zephyr
