import BlueSwat.Zephyr.Proof.Refinement
import Mathlib.Data.List.Chain

/-!
# Connections that share the hook

The hook is handed the packets of all connections in the order they arrive, and does not ask which
connection a packet belongs to: the counters and the anchor gate are one set of statics for all of
them. A `CONNECT_IND` in the peripheral role sets them anew: connections that begin with one and do
not overlap get the verdicts they would get alone (`isolated_of_sessions`), and of two that overlap
the requests of one use up those of the other (`twoRequests_not_isolated`).
-/

set_option autoImplicit false

namespace BlueSwat.Zephyr

open Fsm Reactive

/-! ## Packets of several connections -/

/-- A packet of the connection `conn`, in the surroundings of its call. -/
structure Packet (κ : Type) where
  conn : κ
  env : Env layout.size
  node : NodeRx

section
variable {κ : Type} [DecidableEq κ]

def packetStep (h : Hook) (p : Packet κ) : Option (Hook × Verdict) :=
  ifwLlPacketParserRx p.env p.node h

/-- The packets `w` of several connections run through the hook, and the packets of `c` get the
verdicts that they get when only they run through it. -/
def Isolated (flash : Policy → Nat → BitVec 8) (c : κ) (w : List (Packet κ)) : Prop :=
  ∃ h vs h' vs', runs packetStep (.boot flash) w = some (h, vs) ∧
    runs packetStep (.boot flash) (w.filter (·.conn = c)) = some (h', vs') ∧
    kept (·.conn = c) w vs = vs'

end

/-! ## Runs -/

def Statics.packetRun {κ : Type} (t : Statics) (p : Packet κ) : Statics × Verdict :=
  t.step (.rx p.node)

section
variable {κ : Type}

theorem runs_packets (flash : Policy → Nat → BitVec 8) (w : List (Packet κ)) :
    ∃ h, runs packetStep (.boot flash) w = some (h, (totalRuns Statics.packetRun .init w).2) ∧
      Tracks flash h (after Statics.packetRun .init w) := by
  have hstep : ∀ (p : Packet κ) (w : List (Packet κ)) (h : Hook) (t : Statics), Tracks flash h t →
      ∃ h', packetStep h p = some (h', (t.packetRun p).2) ∧ Tracks flash h' (t.packetRun p).1 :=
    fun p _ _ _ hs => llStep_tracks hs (p.env, .rx p.node)
  exact runs_sim (fun _ h t => Tracks flash h t) hstep (tracks_boot flash)

/-- The statics after some packets. -/
def staticsAfter (w : List (Packet κ)) : Statics := after Statics.packetRun .init w

variable [DecidableEq κ]

theorem isolated_iff_kept (flash : Policy → Nat → BitVec 8) (c : κ) (w : List (Packet κ)) :
    Isolated flash c w ↔ kept (·.conn = c) w (totalRuns Statics.packetRun .init w).2 =
      (totalRuns Statics.packetRun .init (w.filter (·.conn = c))).2 := by
  obtain ⟨h, hr, -⟩ := runs_packets flash w
  obtain ⟨h', hr', -⟩ := runs_packets flash (w.filter (·.conn = c))
  constructor
  · rintro ⟨_, _, _, _, h1, h2, h3⟩
    rw [hr] at h1
    rw [hr'] at h2
    cases h1
    cases h2
    exact h3
  · intro h3
    exact ⟨_, _, _, _, hr, hr', h3⟩

/-- Two connections of the same kind, then a length request on each: the request of the second
connection is rejected, and passes when the first connection is not there. -/
def twoRequests : List (Packet Bool) :=
  [⟨false, ramEnv, .connection ⟨1, Vector.replicate 5 0, 0, 0, 0⟩
      ⟨Vector.replicate 5 0xff, 7, 24⟩⟩,
    ⟨true, ramEnv, .connection ⟨1, Vector.replicate 5 0, 0, 0, 0⟩
      ⟨Vector.replicate 5 0xff, 7, 24⟩⟩,
    ⟨false, ramEnv, .dcPdu ⟨3, 0, 0, 0x14, 0, Vector.replicate 5 0⟩⟩,
    ⟨true, ramEnv, .dcPdu ⟨3, 0, 0, 0x14, 0, Vector.replicate 5 0⟩⟩]

theorem twoRequests_not_isolated :
    (∃ h, runs packetStep (.boot fun _ _ => 0) twoRequests =
      some (h, [.pass, .pass, .pass, .reject])) ∧
    (∃ h, runs packetStep (.boot fun _ _ => 0) (twoRequests.filter (·.conn = true)) =
      some (h, [.pass, .pass])) ∧
    ¬ Isolated (fun _ _ => 0) true twoRequests := by
  obtain ⟨h, hr, -⟩ := runs_packets (fun _ _ => 0) twoRequests
  obtain ⟨h', hr', -⟩ := runs_packets (fun _ _ => 0) (twoRequests.filter (·.conn = true))
  refine ⟨⟨h, hr⟩, ⟨h', hr'⟩, ?_⟩
  rw [isolated_iff_kept]
  decide

end

/-! ## Connections that do not overlap -/

section
variable {κ : Type}

def Packet.isPeripheral (p : Packet κ) : Bool := (LlCall.rx p.node).isPeripheral

/-- A packet of another connection than the last is a `CONNECT_IND` in the peripheral role. -/
def Sessions (w : List (Packet κ)) : Prop :=
  w.IsChain fun a b => a.conn = b.conn ∨ b.isPeripheral = true

theorem staticsAfter_append (u : List (Packet κ)) (p : Packet κ) :
    staticsAfter (u ++ [p]) = ((staticsAfter u).packetRun p).1 := by
  rw [staticsAfter, after_append]
  rfl

theorem Packet.isPeripheral_eq_true {p : Packet κ} (h : p.isPeripheral = true) :
    ∃ lll ind, p.node = .connection lll ind ∧ lll.role = 1 := by
  unfold Packet.isPeripheral LlCall.isPeripheral at h
  cases hn : p.node with
  | connection lll ind => exact ⟨lll, ind, rfl, by simpa [hn] using h⟩
  | _ => simp [hn] at h

theorem packetRun_peripheral {p : Packet κ} (h : p.isPeripheral = true) (t : Statics) :
    (t.packetRun p).1 = ⟨true, 0, 0⟩ := by
  obtain ⟨lll, ind, hn, hrole⟩ := p.isPeripheral_eq_true h
  simp only [Statics.packetRun, hn, Statics.step, Statics.connection, if_pos hrole]

/-- A connection is let in for what its `CONNECT_IND` says, whatever the statics are. -/
theorem packetRun_peripheral_verdict {p : Packet κ} (h : p.isPeripheral = true) (s t : Statics) :
    (s.packetRun p).2 = (t.packetRun p).2 := by
  obtain ⟨lll, ind, hn, hrole⟩ := p.isPeripheral_eq_true h
  simp only [Statics.packetRun, hn, Statics.step, Statics.connection, if_pos hrole]

variable [DecidableEq κ]

/-- In sessions, the statics are those of the connection of the last packet. -/
theorem staticsAfter_sessions {u : List (Packet κ)} {p : Packet κ} (h : Sessions (u ++ [p])) :
    staticsAfter (u ++ [p]) = staticsAfter ((u ++ [p]).filter (·.conn = p.conn)) := by
  induction u using List.reverseRecOn generalizing p with
  | nil => simp
  | append_singleton u q ih =>
    rw [Sessions, List.append_assoc] at h
    obtain ⟨hq, hqp, -⟩ := List.isChain_append_cons_cons.1 h
    rw [List.filter_append, List.filter_singleton, decide_eq_true rfl, cond_true,
      staticsAfter_append (u ++ [q]) p, staticsAfter_append (List.filter _ _) p]
    rcases hqp with hconn | hper
    · rw [ih hq, hconn]
    · rw [packetRun_peripheral hper, packetRun_peripheral hper]

/-- **Connections that take the hook over one after the other are isolated**: if a packet of another
connection than the last is always its `CONNECT_IND`, every connection gets the verdicts that it
gets alone. -/
theorem isolated_of_sessions (flash : Policy → Nat → BitVec 8) (c : κ) {w : List (Packet κ)}
    (h : Sessions w) : Isolated flash c w := by
  rw [isolated_iff_kept, kept_eq_iff]
  rintro u p v rfl hc
  obtain rfl := of_decide_eq_true hc
  rcases List.eq_nil_or_concat u with rfl | ⟨u, q, rfl⟩
  · rfl
  · rw [Sessions, List.concat_eq_append, List.append_assoc] at h
    obtain ⟨hq, hqp, -⟩ := List.isChain_append_cons_cons.1 h
    rw [List.concat_eq_append]
    rcases hqp with hconn | hper
    · -- the statics are those that the connection has alone
      have hu := staticsAfter_sessions hq
      rw [hconn] at hu
      exact congrArg (fun t : Statics => (t.packetRun p).2) hu
    · exact packetRun_peripheral_verdict hper _ _

/-- A connection with a length request, and after it another with two of them. -/
def twoSessions : List (Packet Bool) :=
  let connect : NodeRx :=
    .connection ⟨1, Vector.replicate 5 0, 0, 0, 0⟩ ⟨Vector.replicate 5 0xff, 7, 24⟩
  let request : NodeRx := .dcPdu ⟨3, 0, 0, 0x14, 0, Vector.replicate 5 0⟩
  [⟨false, ramEnv, connect⟩, ⟨false, ramEnv, request⟩, ⟨true, ramEnv, connect⟩,
    ⟨true, ramEnv, request⟩, ⟨true, ramEnv, request⟩]

theorem isolated_of_sessions_two :
    Sessions twoSessions ∧ Isolated (fun _ _ => 0) true twoSessions := by
  have h : Sessions twoSessions := by simp [Sessions, twoSessions, Packet.isPeripheral,
    LlCall.isPeripheral]
  exact ⟨h, isolated_of_sessions _ _ h⟩

end

end BlueSwat.Zephyr
