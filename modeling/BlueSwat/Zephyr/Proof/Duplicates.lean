import BlueSwat.Zephyr.Proof.Refinement

/-!
# Duplicate requests

Once a request has passed, further ones are to be rejected until a response or a new connection.
The count of open requests reaches the policy as 16 bits, and rejected requests are counted too, so
the 65536th open request looks like none. `noDuplicates_iff`: with at most `N` unanswered requests
of each kind at a time no duplicate passes, for any number of calls, exactly when `N ≤ 65535`.
-/

set_option autoImplicit false

namespace BlueSwat.Zephyr

open Fsm Reactive

/-! ## The property -/

/-- A response answers one of `n` requests, and a peripheral connection drops them. -/
def countUnanswered (p : Procedure) (n : Nat) (call : LlCall) : Nat :=
  if call.isPeripheral then 0
  else if call.isCtrl p.req then n + 1
  else if call.isCtrl p.rsp then n - 1
  else n

/-- The requests of a procedure that are unanswered after some calls. -/
def unanswered (p : Procedure) (calls : List LlCall) : Nat := calls.foldl (countUnanswered p) 0

/-- There are never more than `N` unanswered requests of a kind. -/
def AtMost (N : Nat) (calls : List LlCall) : Prop :=
  ∀ n p, unanswered p (calls.take n) ≤ N

/-- In a run with verdicts `vs`, a request after a passed one is rejected, unless a response or a
connection comes in between. -/
def NoDuplicate (p : Procedure) (calls : List LlCall) (vs : List Verdict) : Prop :=
  ∀ (i j : Nat) (ci cj : LlCall), i < j →
    calls[i]? = some ci → ci.isCtrl p.req = true → vs[i]? = some Verdict.pass →
    calls[j]? = some cj → cj.isCtrl p.req = true →
    (∀ (l : Nat) (cl : LlCall), i < l → l < j → calls[l]? = some cl →
      cl.isCtrl p.rsp = false ∧ cl.isConnection = false) →
    vs[j]? = some Verdict.reject

/-! ## Requests in the monitor -/

namespace Monitor

/-- A request is rejected by the anchor check, or counted and judged by the 16-bit count. -/
theorem step_req (m : Monitor) {call : LlCall} {p : Procedure} (h : call.isCtrl p.req = true) :
    (m.step call).2 = .reject ∨ ((m.step call).1.pending p = m.pending p + 1 ∧
      (m.step call).2 = .rejectIf (1 < (m.pending p + 1) % 2 ^ 16)) := by
  cases call with
  | tx pdu => cases h
  | rx node =>
    cases node with
    | dcPdu pdu =>
      obtain ⟨hid, hop⟩ : pdu.llId = 3 ∧ LlctrlType.ofOpcode pdu.opcode = p.req := by
        simpa [LlCall.isCtrl] using h
      simp only [step, dcPdu, if_pos hid]
      split
      · exact .inl rfl
      · right
        rw [pending_ctrl, if_pos hop, ctrl, hop]
        cases p <;> exact ⟨rfl, rfl⟩
    | _ => cases h

theorem pending_le_step (m : Monitor) {call : LlCall} {p : Procedure}
    (h1 : call.isCtrl p.rsp = false) (h2 : call.isConnection = false) :
    m.pending p ≤ (m.step call).1.pending p := by
  have h3 : call.isPeripheral = false := by
    cases call with
    | tx pdu => rfl
    | rx node =>
      cases node with
      | connection lll ind => cases h2
      | _ => rfl
  rcases m.pending_step call p with ⟨-, h⟩ | ⟨h, -⟩ | ⟨-, h⟩ | ⟨h, -⟩
  · exact h.ge
  · rw [h3] at h
    cases h
  · omega
  · rw [h1] at h
    cases h

theorem anchor_ctrl (m : Monitor) (pdu : PduData) : (m.ctrl pdu).1.anchor = m.anchor := by
  unfold ctrl
  cases LlctrlType.ofOpcode pdu.opcode <;> rfl

/-- **One call** counts at most the unanswered requests. The gate drops responses too, but it is up
only before the first PDU of a connection, when nothing is counted. -/
theorem step_unanswered {m : Monitor} {p : Procedure} {n : Nat}
    (hgate : m.anchor = true → m.pending p = 0) (hn : m.pending p ≤ n) (call : LlCall) :
    ((m.step call).1.anchor = true → (m.step call).1.pending p = 0) ∧
      (m.step call).1.pending p ≤ countUnanswered p n call := by
  cases call with
  | tx pdu => cases pdu <;> exact ⟨hgate, hn⟩
  | rx node =>
    cases node with
    | eventDone | other => exact ⟨hgate, hn⟩
    | connection lll ind =>
      by_cases hr : lll.role = 1
      · have hzero : Monitor.pending ⟨true, 0, 0⟩ p = 0 := by cases p <;> rfl
        simp only [step, connection, if_pos hr]
        exact ⟨fun _ => hzero, hzero.le.trans (Nat.zero_le _)⟩
      · have hcount : countUnanswered p n (.rx (.connection lll ind)) = n :=
          if_neg fun h => hr (of_decide_eq_true h)
        simp only [step, connection, if_neg hr]
        exact ⟨hgate, hn.trans_eq hcount.symm⟩
    | dcPdu pdu =>
      have hm : { m with anchor := false }.pending p = m.pending p := by cases p <;> rfl
      simp only [step, dcPdu]
      split
      · rename_i hup
        exact ⟨hgate, (hgate hup.1).le.trans (Nat.zero_le _)⟩
      · split
        · rename_i hid
          rw [anchor_ctrl, pending_ctrl, hm]
          refine ⟨fun ha => absurd ha Bool.false_ne_true, ?_⟩
          have hcount : countUnanswered p n (.rx (.dcPdu pdu)) =
              if LlctrlType.ofOpcode pdu.opcode = p.req then n + 1
              else if LlctrlType.ofOpcode pdu.opcode = p.rsp then n - 1 else n := by
            simp [countUnanswered, LlCall.isPeripheral, LlCall.isCtrl, hid]
          rw [hcount]
          split
          · omega
          · split <;> omega
        · rename_i hid
          have hcount : countUnanswered p n (.rx (.dcPdu pdu)) = n := by
            simp [countUnanswered, LlCall.isPeripheral, LlCall.isCtrl, show pdu.llId ≠ 3#2 from hid]
          exact ⟨fun ha => absurd ha Bool.false_ne_true, (hm.le.trans hn).trans_eq hcount.symm⟩

end Monitor

/-! ## Whole runs -/

section
variable {calls : List (Env layout.size × LlCall)} {p : Procedure}

theorem unanswered_append (p : Procedure) (calls : List (Env layout.size × LlCall))
    (call : Env layout.size × LlCall) :
    unanswered p ((calls ++ [call]).map Prod.snd) =
      countUnanswered p (unanswered p (calls.map Prod.snd)) call.2 := by
  rw [List.map_append, unanswered, List.foldl_append]
  rfl

/-- The monitor counts at most the unanswered requests, and none while the gate is up. -/
theorem pending_le_unanswered (p : Procedure) (calls : List (Env layout.size × LlCall)) :
    ((after Monitor.run .init calls).anchor = true →
        (after Monitor.run .init calls).pending p = 0) ∧
      (after Monitor.run .init calls).pending p ≤ unanswered p (calls.map Prod.snd) := by
  induction calls using List.reverseRecOn with
  | nil => cases p <;> exact ⟨fun _ => rfl, Nat.le_refl _⟩
  | append_singleton calls call ih =>
    have hrun : after Monitor.run .init (calls ++ [call]) =
        ((after Monitor.run .init calls).step call.2).1 := by rw [after_append]; rfl
    rw [hrun, unanswered_append]
    exact Monitor.step_unanswered ih.1 ih.2 call.2

theorem pending_take_le {N : Nat} (hN : AtMost N (calls.map Prod.snd)) (n : Nat) (p : Procedure) :
    (after Monitor.run .init (calls.take n)).pending p ≤ N := by
  have h := (pending_le_unanswered p (calls.take n)).2
  rw [List.map_take] at h
  exact h.trans (hN n p)

/-- After a passed request the count stays positive until a response or a connection. -/
theorem pending_pos {i j : Nat} {ci : Env layout.size × LlCall} (hci : calls[i]? = some ci)
    (hreq : ci.2.isCtrl p.req = true)
    (hpass : ((after Monitor.run .init (calls.take i)).step ci.2).2 = .pass) (hij : i < j)
    (hlen : j ≤ calls.length)
    (hclear : ∀ (l : Nat) (cl : LlCall), i < l → l < j → (calls.map Prod.snd)[l]? = some cl →
      cl.isCtrl p.rsp = false ∧ cl.isConnection = false) :
    0 < (after Monitor.run .init (calls.take j)).pending p := by
  induction j, hij using Nat.le_induction with
  | base =>
    rw [after_take_succ _ hci]
    rcases Monitor.step_req _ hreq with h | ⟨h, -⟩
    · rw [hpass] at h
      cases h
    · exact h ▸ Nat.succ_pos _
  | succ j hij ih =>
    have hj : calls[j]? = some calls[j] := List.getElem?_eq_getElem hlen
    obtain ⟨h1, h2⟩ := hclear j calls[j].2 hij (by omega) (by rw [List.getElem?_map, hj]; rfl)
    rw [after_take_succ _ hj]
    exact lt_of_lt_of_le (ih (by omega) fun l cl h3 h4 => hclear l cl h3 (by omega))
      (Monitor.pending_le_step _ h1 h2)

/-- The verdicts of the monitor let no duplicate pass while the counts fit 16 bits. -/
theorem noDuplicate_monitor {N : Nat} (hN : N ≤ 65535) (hb : AtMost N (calls.map Prod.snd))
    (p : Procedure) :
    NoDuplicate p (calls.map Prod.snd) (totalRuns Monitor.run .init calls).2 := by
  intro i j ci cj hij hci hri hpass hcj hrj hclear
  rw [List.getElem?_map, Option.map_eq_some_iff] at hci hcj
  obtain ⟨ei, hei, rfl⟩ := hci
  obtain ⟨ej, hej, rfl⟩ := hcj
  rw [totalRuns_getElem?, hei] at hpass
  rw [totalRuns_getElem?, hej]
  have hlen : j < calls.length := (List.getElem?_eq_some_iff.1 hej).1
  have hpos := pending_pos hei hri (Option.some.inj hpass) hij (by omega) hclear
  have hle := pending_take_le hb (j + 1) p
  rw [after_take_succ _ hej] at hle
  refine congrArg some ?_
  rcases Monitor.step_req (after Monitor.run .init (calls.take j)) hrj with h | ⟨h1, h2⟩
  · exact h
  · have : (after Monitor.run .init (calls.take j)).pending p + 1 ≤ N := h1 ▸ hle
    exact h2.trans (Verdict.rejectIf_pos (by omega))

theorem small_of_atMost {N : Nat} (hN : N < 2 ^ 31) (hb : AtMost N (calls.map Prod.snd)) (n : Nat) :
    (after Monitor.run .init (calls.take n)).Small :=
  ⟨lt_of_le_of_lt (pending_take_le hb n .length) hN,
    lt_of_le_of_lt (pending_take_le hb n .connParam) hN⟩

end

/-! ## A flood of requests -/

/-- A connection and `n` length requests without a response. -/
def flood (n : Nat) : List (Env layout.size × LlCall) :=
  connectCall :: List.replicate n lengthReqCall

theorem flood_take_succ {n k : Nat} (h : k ≤ n) : (flood n).take (k + 1) = flood k := by
  rw [flood, List.take_succ_cons, List.take_replicate, Nat.min_eq_left h, flood]

theorem flood_getElem?_succ {n k : Nat} (h : k < n) : (flood n)[k + 1]? = some lengthReqCall := by
  rw [flood, List.getElem?_cons_succ, List.getElem?_replicate, if_pos h]

/-- Each request is counted, passed or not. -/
theorem after_flood (n : Nat) : after Monitor.run .init (flood n) = ⟨decide (n = 0), n, 0⟩ := by
  induction n with
  | zero => rfl
  | succ n ih =>
    rw [flood, List.replicate_succ', ← List.cons_append, after_append, ← flood, ih]
    simp [after_cons, Monitor.run, lengthReqCall, Monitor.step, Monitor.dcPdu, Monitor.ctrl,
      LlctrlType.ofOpcode]

theorem flood_verdict {n k : Nat} (h : k < n) :
    (totalRuns Monitor.run .init (flood n)).2[k + 1]? =
      some (.rejectIf (1 < (k + 1) % 2 ^ 16)) := by
  rw [totalRuns_getElem?, flood_getElem?_succ h, flood_take_succ (by omega), after_flood]
  simp [Monitor.run, lengthReqCall, Monitor.step, Monitor.dcPdu, Monitor.ctrl, LlctrlType.ofOpcode]

theorem unanswered_flood (p : Procedure) (n : Nat) :
    unanswered p ((flood n).map Prod.snd) ≤ n := by
  induction n with
  | zero => cases p <;> decide
  | succ n ih =>
    rw [flood, List.replicate_succ', ← List.cons_append, ← flood, unanswered_append,
      countUnanswered]
    split
    · omega
    · split
      · omega
      · split <;> omega

theorem atMost_flood (n : Nat) : AtMost n ((flood n).map Prod.snd) := by
  intro k p
  rw [← List.map_take]
  cases k with
  | zero => exact Nat.zero_le _
  | succ k =>
    rcases Nat.le_total k n with h | h
    · rw [flood_take_succ h]
      exact (unanswered_flood p k).trans h
    · rw [List.take_of_length_le (by simp [flood]; omega)]
      exact unanswered_flood p n

/-- The first request and the 65536th both pass. -/
theorem flood_passes :
    (totalRuns Monitor.run .init (flood 65536)).2[1]? = some .pass ∧
      (totalRuns Monitor.run .init (flood 65536)).2[65536]? = some .pass :=
  ⟨flood_verdict (k := 0) (by decide), flood_verdict (k := 65535) (by decide)⟩

theorem not_noDuplicate_flood :
    ¬ NoDuplicate .length ((flood 65536).map Prod.snd)
      (totalRuns Monitor.run .init (flood 65536)).2 := by
  intro h
  have hreq : ∀ k, k < 65536 → ((flood 65536).map Prod.snd)[k + 1]? = some lengthReqCall.2 :=
    fun k hk => by rw [List.getElem?_map, flood_getElem?_succ hk]; rfl
  have hrej := h 1 65536 _ _ (by decide) (hreq 0 (by decide)) rfl flood_passes.1
    (hreq 65535 (by decide)) rfl fun l cl h1 h2 hl => by
      obtain ⟨k, rfl⟩ : ∃ k, l = k + 1 := ⟨l - 1, by omega⟩
      rw [hreq k (by omega)] at hl
      cases hl
      exact ⟨rfl, rfl⟩
  rw [flood_passes.2] at hrej
  cases hrej

/-- **The bound is 65535**: no duplicate request passes in the runs with at most `N` unanswered
requests of each kind at a time, of any length, exactly when `N ≤ 65535`. -/
theorem noDuplicates_iff (flash : Policy → Nat → BitVec 8) (N : Nat) :
    (∀ calls : List (Env layout.size × LlCall), AtMost N (calls.map Prod.snd) →
      ∃ h vs, runs llStep (.boot flash) calls = some (h, vs) ∧
        ∀ p, NoDuplicate p (calls.map Prod.snd) vs) ↔ N ≤ 65535 := by
  constructor
  · intro hall
    by_contra hN
    obtain ⟨h, vs, hruns, hdup⟩ := hall (flood 65536) fun n p =>
      (atMost_flood 65536 n p).trans (by omega)
    obtain ⟨h', hm⟩ := runs_monitor flash (flood 65536)
      (small_of_atMost (by decide) (atMost_flood 65536))
    rw [hm] at hruns
    cases hruns
    exact not_noDuplicate_flood (hdup .length)
  · intro hN calls hb
    obtain ⟨h, hm⟩ := runs_monitor flash calls (small_of_atMost (by omega) hb)
    exact ⟨h, _, hm, noDuplicate_monitor hN hb⟩

/-- After a connection and 65536 length requests without a response the last request passes, as the
first did. -/
theorem flood_not_noDuplicate :
    ∃ h vs, runs llStep (.boot fun _ _ => 0) (flood 65536) = some (h, vs) ∧
      vs[1]? = some .pass ∧ vs[65536]? = some .pass ∧
      ¬ NoDuplicate .length ((flood 65536).map Prod.snd) vs := by
  obtain ⟨h, hm⟩ := runs_monitor (fun _ _ => 0) (flood 65536)
    (small_of_atMost (by decide) (atMost_flood 65536))
  exact ⟨h, _, hm, flood_passes.1, flood_passes.2, not_noDuplicate_flood⟩

end BlueSwat.Zephyr
