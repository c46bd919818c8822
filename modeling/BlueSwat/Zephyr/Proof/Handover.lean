import BlueSwat.Zephyr.Proof.Demux
import BlueSwat.Zephyr.Proof.Refinement

/-!
# The receive path hands each node on once

The nodes leave the receive path in the order of their arrival. Each is presented to the hook as
what it is once, and is handed to the upper link layer once if the hook passes it and never if it
does not: `Takes` says so of a part of a schedule, `run_takes` of a whole one. A control PDU that
`ctrl_rx` refuses has been marked for release by then, so that it is presented again only to be
released; it is not handed on again, and it holds up the nodes behind it for one round.
-/

set_option autoImplicit false

namespace BlueSwat.Zephyr

open Fsm LinkQueue Reactive

/-! ## The same nodes -/

/-- A node goes on as it is, or marked for release. -/
def Delivered (x y : Nat × RxNode) : Prop := y = x ∨ y = (x.1, .release)

/-- The nodes `ys` are the nodes `xs` in some order, each as it was or marked for release. -/
def SameNodes (xs ys : List (Nat × RxNode)) : Prop :=
  ∃ zs, xs.Perm zs ∧ List.Forall₂ Delivered zs ys

section
variable {x y z : Nat × RxNode} {xs ys zs : List (Nat × RxNode)}

theorem Delivered.trans (h : Delivered x y) (h' : Delivered y z) : Delivered x z := by
  rcases h with rfl | rfl
  · exact h'
  · exact .inr (h'.elim id id)

theorem sameNodes_of_perm (h : xs.Perm ys) : SameNodes xs ys :=
  ⟨ys, h, List.forall₂_same.2 fun _ _ => .inl rfl⟩

theorem sameNodes_cons (h : Delivered x y) (xs : List (Nat × RxNode)) :
    SameNodes (x :: xs) (y :: xs) :=
  ⟨x :: xs, .refl _, .cons h (List.forall₂_same.2 fun _ _ => .inl rfl)⟩

theorem forall₂_delivered_trans (h : List.Forall₂ Delivered xs ys)
    (h' : List.Forall₂ Delivered ys zs) : List.Forall₂ Delivered xs zs := by
  induction h generalizing zs with
  | nil => exact h'
  | cons hxy _ ih =>
    cases h' with
    | cons hyz h' => exact .cons (hxy.trans hyz) (ih h')

theorem SameNodes.trans (h : SameNodes xs ys) (h' : SameNodes ys zs) : SameNodes xs zs := by
  obtain ⟨us, hp, hf⟩ := h
  obtain ⟨vs, hp', hf'⟩ := h'
  -- the nodes are put in order before they are marked
  have hswap : Relation.Comp List.Perm (List.Forall₂ Delivered) us vs := by
    rw [← List.forall₂_comp_perm_eq_perm_comp_forall₂]
    exact ⟨ys, hf, hp'⟩
  obtain ⟨ws, hp'', hf''⟩ := hswap
  exact ⟨ws, hp.trans hp'', forall₂_delivered_trans hf'' hf'⟩

theorem SameNodes.append_left (h : SameNodes xs ys) (zs : List (Nat × RxNode)) :
    SameNodes (zs ++ xs) (zs ++ ys) := by
  obtain ⟨us, hp, hf⟩ := h
  exact ⟨zs ++ us, hp.append_left zs,
    List.rel_append (List.forall₂_same.2 fun _ _ => .inl rfl) hf⟩

theorem SameNodes.length_eq (h : SameNodes xs ys) : xs.length = ys.length := by
  obtain ⟨us, hp, hf⟩ := h
  rw [hp.length_eq, hf.length_eq]

end

/-! ## What is handed on -/

/-- The statics after the hook has met the nodes `ns`. -/
def Statics.meets (t : Statics) (ns : List RxNode) : Statics :=
  ns.foldl (fun t n => (t.step (.rx n.view)).1) t

/-- The node with which an effect leaves the receive path. -/
def RxEffect.left : RxEffect → Option (Nat × RxNode)
  | .eventDone rx => some (rx, .eventDone)
  | .connSetup rx lll ind => some (rx, .connection lll ind)
  | .thread rx n => some (rx, n)
  | _ => none

/-- The nodes that have been presented and have not left. -/
def RxPath.between (a : RxPath) : List (Nat × RxNode) :=
  a.refused.toList.map (fun rx => (rx, .release)) ++ a.thread

/-- From `a` to `b`, while `new` arrives, the nodes `taken` are presented to the hook. -/
structure Takes (a : RxPath) (new taken : List (Nat × RxNode)) (b : RxPath)
    (effects : List RxEffect) : Prop where
  order : a.waiting ++ new = taken ++ b.waiting
  statics : b.statics = a.statics.meets (taken.map Prod.snd)
  handed : handed effects = passed a.statics (taken.map Prod.snd)
  left : SameNodes (taken ++ a.between) (effects.filterMap RxEffect.left ++ b.between)

section
variable {a b c : RxPath} {new new' taken taken' : List (Nat × RxNode)}
  {effects effects' : List RxEffect} {E : DemuxEnv}

theorem passed_append (t : Statics) (ns ms : List RxNode) :
    passed t (ns ++ ms) = passed t ns ++ passed (t.meets ns) ms := by
  induction ns generalizing t with
  | nil => rfl
  | cons n ns ih =>
    simp only [List.cons_append, passed, ih, List.append_assoc]
    rfl

theorem Takes.trans (h : Takes a new taken b effects) (h' : Takes b new' taken' c effects') :
    Takes a (new ++ new') (taken ++ taken') c (effects ++ effects') where
  order := by rw [← List.append_assoc, h.order, List.append_assoc, h'.order, List.append_assoc]
  statics := by
    rw [h'.statics, h.statics, List.map_append, Statics.meets, Statics.meets, ← List.foldl_append]
    rfl
  handed := by
    rw [List.map_append, passed_append, ← h.statics, ← h.handed, ← h'.handed]
    exact List.filterMap_append
  left := by
    -- first the nodes of the first part are accounted for, then those of the second
    have h1 : SameNodes (taken ++ taken' ++ a.between) (taken' ++ (taken ++ a.between)) :=
      sameNodes_of_perm (by
        rw [List.append_assoc]
        exact List.perm_append_comm_assoc ..)
    have h2 := h.left.append_left taken'
    have h3 : SameNodes (taken' ++ (effects.filterMap RxEffect.left ++ b.between))
        (effects.filterMap RxEffect.left ++ (taken' ++ b.between)) :=
      sameNodes_of_perm (List.perm_append_comm_assoc ..)
    have h4 := h'.left.append_left (effects.filterMap RxEffect.left)
    rw [List.filterMap_append, List.append_assoc (effects.filterMap RxEffect.left)]
    exact ((h1.trans h2).trans h3).trans h4

/-- Nothing is presented. -/
theorem Takes.none (horder : a.waiting ++ new = b.waiting) (hs : b.statics = a.statics)
    (hh : Zephyr.handed effects = [])
    (hl : a.between.Perm (effects.filterMap RxEffect.left ++ b.between)) :
    Takes a new [] b effects :=
  ⟨horder, hs, hh, sameNodes_of_perm hl⟩

/-- What `ull_conn_rx` does with a PDU: nothing is handed on again and nothing leaves, and the node
is kept as it is or marked for release. -/
theorem ullConnRx_left {pdu : PduData} {r : UllConnRx} (h : ullConnRx E pdu = some r) (rx : Nat) :
    handed r.effects = [] ∧ r.effects.filterMap RxEffect.left = [] ∧
      Delivered (rx, .dcPdu pdu) (rx, r.rx) := by
  unfold ullConnRx at h
  split at h
  · cases h
    exact ⟨rfl, rfl, .inr rfl⟩
  · split at h
    · split at h <;> cases h <;> exact ⟨rfl, rfl, .inr rfl⟩
    · split at h
      · cases h
        exact ⟨rfl, rfl, .inr rfl⟩
      · cases h
        refine ⟨rfl, rfl, ?_⟩
        cases E.pauseRx with
        | true => exact .inr rfl
        | false => exact .inl rfl

/-- One node is presented. -/
theorem Takes.one {rx : Nat} {n : RxNode} (hw : b.waiting = a.waiting)
    (hs : b.statics = (a.statics.step (.rx n.view)).1)
    (hh : Zephyr.handed effects =
      if (a.statics.step (.rx n.view)).2 = .pass ∧ n.forUll then [n] else [])
    (hl : SameNodes ((rx, n) :: a.between) (effects.filterMap RxEffect.left ++ b.between)) :
    Takes { a with waiting := (rx, n) :: a.waiting } [] [(rx, n)] b effects where
  order := by simp [hw]
  statics := hs
  handed := by simp [passed, hh]
  left := hl

/-- A node that goes to the end of the nodes for the thread. -/
theorem sameNodes_toThread {x y : Nat × RxNode} (h : Delivered x y) (ns : List (Nat × RxNode)) :
    SameNodes (x :: ns) (ns ++ [y]) :=
  (sameNodes_cons h ns).trans (sameNodes_of_perm (List.perm_append_singleton y ns).symm)

theorem present_spec {rx : Nat} {n : RxNode} (hr : a.refused = none)
    (hb : a.present E rx n = some (b, effects)) :
    b.waiting = a.waiting ∧ b.statics = (a.statics.step (.rx n.view)).1 ∧
      handed effects = (if (a.statics.step (.rx n.view)).2 = .pass ∧ n.forUll then [n] else []) ∧
      SameNodes ((rx, n) :: a.between) (effects.filterMap RxEffect.left ++ b.between) := by
  obtain ⟨t, refused, waiting, thread⟩ := a
  cases hr
  simp only [RxPath.present] at hb
  cases hv : (t.step (.rx n.view)).2 with
  | reject =>
    rw [hv] at hb
    cases hb
    exact ⟨rfl, rfl, by simp [handed], sameNodes_toThread (.inr rfl) thread⟩
  | pass =>
    rw [hv] at hb
    cases n with
    | eventDone | connection lll ind =>
      cases hb
      exact ⟨rfl, rfl, by simp [handed, RxNode.forUll], sameNodes_of_perm (.refl _)⟩
    | release | forThread =>
      cases hb
      exact ⟨rfl, rfl, by simp [handed, RxNode.forUll], sameNodes_toThread (.inl rfl) thread⟩
    | dcPdu pdu =>
      obtain ⟨r, hr, he⟩ := Option.map_eq_some_iff.1 hb
      obtain ⟨hh, hl, hd⟩ := ullConnRx_left hr rx
      cases he
      have hh' : handed (.connRx pdu :: r.effects) = [.dcPdu pdu] := by
        rw [handed] at hh ⊢
        rw [List.filterMap_cons, hh]
      have hl' : (RxEffect.connRx pdu :: r.effects).filterMap RxEffect.left = [] := hl
      rw [hh', hl', List.nil_append]
      cases hk : r.nack with
      | true => exact ⟨rfl, rfl, rfl, sameNodes_cons (.inr rfl) thread⟩
      | false => exact ⟨rfl, rfl, rfl, sameNodes_toThread hd thread⟩

theorem demux_takes (hb : a.demux E = some (b, effects)) :
    ∃ taken, Takes a [] taken b effects := by
  obtain ⟨t, refused, waiting, thread⟩ := a
  unfold RxPath.demux at hb
  split at hb
  · cases hb
    exact ⟨[], .none (List.append_nil _) rfl rfl (.refl _)⟩
  · cases refused with
    | some rx =>
      cases hb
      exact ⟨[], .none (List.append_nil _) rfl rfl (List.perm_append_singleton _ _).symm⟩
    | none =>
      cases waiting with
      | nil =>
        cases hb
        exact ⟨[], .none rfl rfl rfl (.refl _)⟩
      | cons n rest =>
        obtain ⟨hw, hs, hh, hl⟩ := present_spec (a := ⟨t, none, rest, thread⟩) rfl hb
        exact ⟨[n], .one hw hs hh hl⟩

theorem step_takes {e : UllEvent} (hb : a.step e = some (b, effects)) :
    ∃ taken, Takes a (arrived [e]) taken b effects := by
  cases e with
  | rxPut link rx n =>
    cases hb
    exact ⟨[], .none rfl rfl rfl (.refl _)⟩
  | demux E => exact demux_takes hb
  | rxDequeue =>
    obtain ⟨t, refused, waiting, thread⟩ := a
    cases thread with
    | nil =>
      cases hb
      exact ⟨[], .none (List.append_nil _) rfl rfl (.refl _)⟩
    | cons n rest =>
      cases hb
      exact ⟨[], .none (List.append_nil _) rfl rfl List.perm_middle⟩

theorem arrived_append (es fs : List UllEvent) : arrived (es ++ fs) = arrived es ++ arrived fs :=
  List.filterMap_append

theorem run_takes {es : List UllEvent} {outs : List (List RxEffect)}
    (hb : runs RxPath.step a es = some (b, outs)) :
    ∃ taken, Takes a (arrived es) taken b outs.flatten := by
  induction es generalizing a outs with
  | nil =>
    cases hb
    exact ⟨[], .none (List.append_nil _) rfl rfl (.refl _)⟩
  | cons e es ih =>
    obtain ⟨a1, o, outs', ha, hrest, rfl⟩ := runs_cons_eq_some hb
    obtain ⟨taken, h⟩ := step_takes ha
    obtain ⟨taken', h'⟩ := ih hrest
    refine ⟨taken ++ taken', ?_⟩
    rw [← List.singleton_append, arrived_append]
    exact h.trans h'

/-! ## Rounds without interruption -/

/-- The rounds that are needed at most to present what waits. -/
def RxPath.rounds (a : RxPath) : Nat := 2 * a.waiting.length + a.refused.toList.length

theorem demux_rounds (hE : E.txAck = false) (hb : a.demux E = some (b, effects)) :
    b.rounds ≤ a.rounds - 1 := by
  obtain ⟨t, refused, waiting, thread⟩ := a
  rw [RxPath.demux, if_neg (by simp [hE])] at hb
  cases refused with
  | some rx =>
    cases hb
    simp [RxPath.rounds]
  | none =>
    cases waiting with
    | nil =>
      cases hb
      simp [RxPath.rounds]
    | cons n rest =>
      obtain ⟨hw, -⟩ := present_spec (a := ⟨t, none, rest, thread⟩) rfl hb
      have hle : b.refused.toList.length ≤ 1 := Option.length_toList_le
      simp only [RxPath.rounds, hw, List.length_cons, Option.toList_none, List.length_nil]
      omega

theorem rounds_drain {Es : List DemuxEnv} {outs : List (List RxEffect)}
    (hE : ∀ E ∈ Es, E.txAck = false) (hb : runs RxPath.step a (Es.map .demux) = some (b, outs)) :
    b.rounds ≤ a.rounds - Es.length := by
  induction Es generalizing a outs with
  | nil =>
    cases hb
    exact Nat.le_refl _
  | cons E Es ih =>
    obtain ⟨a1, o, outs', ha, hrest, -⟩ := runs_cons_eq_some hb
    have h1 := demux_rounds (hE E List.mem_cons_self) ha
    have h2 := ih (fun E hm => hE E (List.mem_cons_of_mem _ hm)) hrest
    rw [List.length_cons]
    omega

/-- Two rounds for each node are enough: a refused PDU is one of those that have been taken. -/
theorem Takes.rounds_le (h : Takes .init new taken b effects) : b.rounds ≤ 2 * new.length := by
  have horder : new = taken ++ b.waiting := h.order
  have hleft := h.left.length_eq
  rw [RxPath.between, RxPath.between] at hleft
  simp only [RxPath.init, Option.toList_none, List.map_nil, List.append_nil, List.length_append,
    List.length_map] at hleft
  rw [horder, List.length_append, RxPath.rounds]
  omega

end

/-! ## Whole schedules -/

section
variable {flash : Policy → Nat → BitVec 8} {ullLink llLink : Nat} {es : List UllEvent}

/-- A connection, an update of its parameters, and an update with the interval 0. -/
def threeNodes : List (Nat × Nat × RxNode) :=
  [(2, 100, .connection ⟨1, Vector.replicate 5 0, 0, 0, 0⟩ ⟨Vector.replicate 5 0xff, 7, 24⟩),
    (3, 101, .dcPdu ⟨3, 0, 0, 0x00, 24, Vector.replicate 5 0⟩),
    (4, 102, .dcPdu ⟨3, 0, 0, 0x00, 0, Vector.replicate 5 0⟩)]

/-- A round in which `ctrl_rx`, if it is called, ends with `c`. -/
def roundWith (c : CtrlRx) : DemuxEnv := ⟨ramEnv, false, true, false, c⟩

/-- `ctrl_rx` refuses the first update. -/
def sixRounds : List DemuxEnv :=
  [.done, .nack, .done, .done, .done, .done].map roundWith

def threeNodesRun : List UllEvent := puts threeNodes ++ sixRounds.map .demux

theorem disciplined_threeNodes (flash : Policy → Nat → BitVec 8) :
    Disciplined (.boot flash 0 1) (puts threeNodes) := by
  refine disciplined_puts (holds_boot flash (by decide)) ?_ (by decide)
  show [2, 3, 4, 0, 1].Nodup
  decide

theorem leavesNodes_threeNodes : LeavesNodes threeNodesRun := by
  intro E hE
  simp only [threeNodesRun, puts, threeNodes, sixRounds, roundWith, List.map_cons, List.map_nil,
    List.cons_append, List.nil_append, List.mem_cons, List.not_mem_nil, reduceCtorEq, false_or,
    or_false, UllEvent.demux.injEq] at hE
  rcases hE with rfl | rfl | rfl | rfl | rfl | rfl <;> simp

/-- The connection and the first update are handed on. -/
theorem threeNodes_handed {u : Ull} {outs : List (List RxEffect)}
    (h : runs ullStep (.boot flash 0 1) threeNodesRun = some (u, outs)) :
    handed outs.flatten = (threeNodes.map fun p => p.2.2).take 2 := by
  obtain ⟨v, b, outs', hv, hb, -⟩ := ull_refines (represents_boot flash (by decide : 0 ≠ 1))
    ((disciplined_threeNodes flash).rounds sixRounds) leavesNodes_threeNodes
  have heq : runs ullStep (.boot flash 0 1) threeNodesRun = some (v, outs') := hv
  rw [h] at heq
  cases heq
  have heval : (runs RxPath.step .init threeNodesRun).map (fun p => handed p.2.flatten) =
      some ((threeNodes.map fun p => p.2.2).take 2) := rfl
  rw [show runs RxPath.step .init threeNodesRun = _ from hb] at heval
  exact Option.some.inj heval

/-- The parameters of a connection and of the control PDUs that the policies check: two channels at
least, counted over all 40 bits of the map, a hop of 5 to 16, and an interval. -/
def RxNode.Sane : RxNode → Prop
  | .connection lll ind => lll.role = 1 →
    2 ≤ Monitor.oneBits ind.chanMap ∧ 5 ≤ ind.hop.toNat ∧ ind.hop.toNat ≤ 16 ∧ ind.interval ≠ 0
  | .dcPdu pdu => pdu.llId = 3 →
    (LlctrlType.ofOpcode pdu.opcode = .connUpdateInd → pdu.interval ≠ 0) ∧
      (LlctrlType.ofOpcode pdu.opcode = .chanMapInd → 2 ≤ Monitor.oneBits pdu.chm)
  | _ => True

theorem not_of_rejectIf_pass {p : Prop} [Decidable p] (h : Verdict.rejectIf p = .pass) : ¬ p := by
  intro hp
  rw [Verdict.rejectIf_pos hp] at h
  cases h

theorem sane_of_pass {t : Statics} {n : RxNode} (h : (t.step (.rx n.view)).2 = .pass) : n.Sane := by
  cases n with
  | eventDone => trivial
  | release => trivial
  | forThread => trivial
  | connection lll ind =>
    intro hr
    simp only [RxNode.view, Statics.step, Statics.connection, if_pos hr] at h
    have := not_of_rejectIf_pass h
    simp only [not_or, Nat.not_lt] at this
    exact this
  | dcPdu pdu =>
    intro hl
    simp only [RxNode.view, Statics.step, Statics.dcPdu, if_pos hl] at h
    split at h
    · cases h
    · refine ⟨fun ht => ?_, fun ht => ?_⟩
      · rw [Statics.ctrl, ht] at h
        exact not_of_rejectIf_pass h
      · rw [Statics.ctrl, ht] at h
        exact Nat.not_lt.1 (not_of_rejectIf_pass h)

theorem mem_passed {t : Statics} {ns : List RxNode} {n : RxNode} (h : n ∈ passed t ns) :
    ∃ t' : Statics, (t'.step (.rx n.view)).2 = .pass := by
  induction ns generalizing t with
  | nil => cases h
  | cons m ns ih =>
    rw [passed, List.mem_append] at h
    rcases h with h | h
    · split at h
      · rename_i hp
        cases List.mem_singleton.1 h
        exact ⟨t, hp.1⟩
      · cases h
    · exact ih h

end

end BlueSwat.Zephyr
