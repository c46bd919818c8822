import BlueSwat.Fsm.Proof.Install
import BlueSwat.Mynewt.Proof.PolicyList
import BlueSwat.Preempt.Cells
import BlueSwat.Zephyr.State

/-!
# What an interrupting check sees

`Shows`: the lists in memory are those of a registry, with the same policies behind their numbers,
so that the dispatcher on nodes answers as on the registry (`runFsmCheckPolicy_shows`). An
installation goes through states between the old registry and the new one. `Partly` is what they
have in common: the lists of the old registry, and its policies but for the runtime slot that is
being filled, whose number is in no list yet. A store that is not the one that links the new node is
`Hidden`: it keeps `Partly`.
-/

set_option autoImplicit false

namespace BlueSwat.Preempt

open Fsm LinkedList Record
open Mynewt (Addr PolicyLists)
open Ebpf (Mem)

/-! ## The dispatcher -/

/-- The lists in memory are those of `reg`, and so are the policies that their numbers stand for. -/
def Shows (port : Port) (c : Cells) (reg : Registry) : Prop :=
  ∀ e, ∃ l, Chain c.heap (c.policy e) l ∧ l.map Prod.snd = reg.policyManager e ∧
    ∀ pid ∈ reg.policyManager e, c.arrays.getPolicySlot port pid = reg.getPolicySlot port pid

section
variable {size : Nat} {port : Port} {c : Cells} {reg : Registry}

theorem runFsmEbpfPolicy_congr {reg' : Registry} {pid : Int}
    (h : reg.getPolicySlot port pid = reg'.getPolicySlot port pid) (E : Env size) (M : Mem) :
    runFsmEbpfPolicy port reg E pid M = runFsmEbpfPolicy port reg' E pid M := by
  rw [runFsmEbpfPolicy, runFsmEbpfPolicy, h]

/-- The loop along the nodes of a list is the loop over its policy numbers. -/
theorem runPolicyNodes_eq (E : Env size) {l : List (Addr × Int)} {p : Option Addr} {fuel : Nat}
    (hl : Chain c.heap p l) (hf : l.length ≤ fuel)
    (hs : ∀ pid ∈ l.map Prod.snd,
      c.arrays.getPolicySlot port pid = reg.getPolicySlot port pid) (M : Mem) :
    runPolicyNodes port c E fuel p M = runPolicyList port reg E (l.map Prod.snd) M := by
  induction l generalizing p fuel M with
  | nil =>
    cases hl
    cases fuel <;> rfl
  | cons x l ih =>
    obtain ⟨rfl, n, hn, hc⟩ := hl
    obtain ⟨f, rfl⟩ : ∃ f, fuel = f + 1 := ⟨fuel - 1, by simp at hf; omega⟩
    rw [runPolicyNodes, hn, Option.bind_some, List.map_cons, runPolicyList,
      runFsmEbpfPolicy_congr (hs x.2 List.mem_cons_self)]
    congr 1
    funext r
    split
    · rfl
    · exact ih hc (by simpa using hf) (fun pid hp => hs pid (List.mem_cons_of_mem _ hp)) _

/-- **The dispatcher on nodes** answers as on the registry that the memory shows. -/
theorem runFsmCheckPolicy_shows {ι : Type} [DecidableEq ι] {L : Layout ι} {fuel : Nat}
    (hs : Shows port c reg) (hf : ∀ e, (reg.policyManager e).length ≤ fuel) (E : Env L.size)
    (type : Nat) (cls : StateClass) (s : ι → BitVec 32) :
    c.runFsmCheckPolicy L port fuel E type cls s =
      Fsm.runFsmCheckPolicy L port reg E type cls s := by
  obtain ⟨l, hl, hpids, hslot⟩ := hs (port.entry cls type)
  have hlen : l.length ≤ fuel := by
    rw [← List.length_map (f := Prod.snd), hpids]
    exact hf _
  rw [Cells.runFsmCheckPolicy, Fsm.runFsmCheckPolicy, ← hpids,
    runPolicyNodes_eq E hl hlen (by rw [hpids]; exact hslot)]

end

/-! ## States of an installation -/

/-- The lists and the policies of `store`, but for the runtime slot that comes next. -/
structure Partly (store : PolicyStore) (nodes : Nat → List (Addr × Int)) (c : Cells) : Prop where
  init : c.policyMgrInit = true
  lists : Lists c.heap c.policy nodes
  pids : ∀ e, (nodes e).map Prod.snd = store.policyManager e
  arr : c.policyArr = store.policyArr
  slots : ∀ i, i ≠ store.runtimePolicyCount → c.runtimePolicyArr i = store.runtimePolicyArr i

/-- The memory between two installations. -/
structure Rests (store : PolicyStore) (nodes : Nat → List (Addr × Int)) (c : Cells) : Prop
    extends Partly store nodes c where
  allSlots : c.runtimePolicyArr = store.runtimePolicyArr
  count : c.runtimePolicyCount = store.runtimePolicyCount

/-- A store that no dispatcher sees: to the next runtime slot, the count or a node in no list. -/
def Store.Hidden (rtIdx : Nat) (nodes : Nat → List (Addr × Int)) : Store → Prop
  | .slotSize i _ | .slotCode i _ | .slotJit i _ => i = rtIdx
  | .count _ => True
  | .block a _ | .index a _ | .next a _ => ∀ e, a ∉ addrs (nodes e)
  | .clearHeads | .setInit | .head _ _ => False

section
variable {port : Port} {store : PolicyStore} {nodes : Nat → List (Addr × Int)} {c : Cells}

theorem Partly.shows (h : Partly store nodes c) (hok : store.Ok port) :
    Shows port c store.toRegistry := by
  intro e
  refine ⟨nodes e, h.lists.chain e, h.pids e, fun pid hpid => ?_⟩
  obtain ⟨h0, hlt⟩ := hok.pids e pid hpid
  have hcount := hok.count
  rw [Registry.getPolicySlot_eq h0 (by omega), Registry.getPolicySlot_eq h0 (by omega)]
  by_cases hp : pid < port.pidNum
  · rw [if_pos hp, if_pos hp, show c.arrays.policyArr = _ from h.arr]
  · rw [if_neg hp, if_neg hp]
    exact congrArg some (h.slots _ (by omega))

theorem Partly.setSlot (h : Partly store nodes c) (f : PolicyCache → PolicyCache) :
    Partly store nodes (c.setSlot store.runtimePolicyCount f) :=
  ⟨h.init, h.lists, h.pids, h.arr, fun i hi =>
    (Function.update_of_ne hi _ _).trans (h.slots i hi)⟩

theorem Partly.setNode (h : Partly store nodes c) {a : Addr} (ha : ∀ e, a ∉ addrs (nodes e))
    (n : Option PolicyNode) :
    Partly store nodes { c with heap := Function.update c.heap a n } :=
  ⟨h.init, h.lists.update ha n, h.pids, h.arr, h.slots⟩

/-- A block that is not allocated is in no list. -/
theorem Partly.free (h : Partly store nodes c) {a : Addr} (ha : c.heap a = none) (e : Nat) :
    a ∉ addrs (nodes e) := by
  intro hm
  have := (h.lists.chain e).allocated hm
  rw [ha] at this
  cases this

/-- **A hidden store** changes nothing that a dispatcher reads. -/
theorem Partly.hidden (h : Partly store nodes c) {s : Store}
    (hs : s.Hidden store.runtimePolicyCount nodes) : Partly store nodes (c.store s) := by
  cases s with
  | clearHeads | setInit | head => cases hs
  | slotSize i size =>
    cases hs
    exact h.setSlot ({ · with size := size })
  | slotCode i code =>
    cases hs
    exact h.setSlot ({ · with code := code })
  | slotJit i jit =>
    cases hs
    exact h.setSlot ({ · with jit := jit })
  | count n => exact ⟨h.init, h.lists, h.pids, h.arr, h.slots⟩
  | block a node => exact h.setNode hs _
  | index a pid => exact h.setNode hs _
  | next a p => exact h.setNode hs _

theorem Partly.run (h : Partly store nodes c) {stores : List Store}
    (hs : ∀ s ∈ stores, s.Hidden store.runtimePolicyCount nodes) :
    Partly store nodes (c.run stores) := by
  induction stores generalizing c with
  | nil => exact h
  | cons s stores ih =>
    exact ih (h.hidden (hs s List.mem_cons_self)) fun s hm => hs s (List.mem_cons_of_mem _ hm)

end

/-! ## Installations -/

/-- The stores of a change from `store` to `store'`: a dispatcher sees `store` until the last one is
done. -/
structure Atomic (store store' : PolicyStore) (nodes : Nat → List (Addr × Int)) (c : Cells)
    (stores : List Store) : Prop where
  before : ∀ k < stores.length, Partly store nodes (c.run (stores.take k))
  after : ∃ nodes', Rests store' nodes' (c.run stores)

section
variable {port : Port} {store store' : PolicyStore} {nodes : Nat → List (Addr × Int)} {c : Cells}

theorem Cells.run_append (c : Cells) (l l' : List Store) : c.run (l ++ l') = (c.run l).run l' :=
  List.foldl_append

/-- Hidden stores and one that links. -/
theorem Atomic.of_hidden {hidden : List Store} {s : Store} (h : Rests store nodes c)
    (hh : ∀ s ∈ hidden, s.Hidden store.runtimePolicyCount nodes)
    (hafter : ∃ nodes', Rests store' nodes' ((c.run hidden).store s)) :
    Atomic store store' nodes c (hidden ++ [s]) := by
  refine ⟨fun k hk => ?_, ?_⟩
  · rw [List.length_append, List.length_singleton, Nat.lt_succ_iff] at hk
    rw [List.take_append_of_le_length hk]
    exact h.toPartly.run fun s hs => hh s (List.mem_of_mem_take hs)
  · rw [Cells.run_append]
    exact hafter

theorem Cells.run_fillStores (c : Cells) (slot : PolicyCache) (i : Nat) :
    c.run (fillStores slot i) =
      { c with
        runtimePolicyArr := Function.update c.runtimePolicyArr i slot
        runtimePolicyCount := i + 1 } := by
  simp [Cells.run, fillStores, Cells.store, Cells.setSlot]

/-- The stores that fill in a new node. -/
def nodeStores (a : Addr) (node : PolicyNode) (pid : Int) : List Store :=
  [.block a node, .index a pid, .next a none]

theorem Cells.run_nodeStores (c : Cells) (a : Addr) (node : PolicyNode) (pid : Int) :
    c.run (nodeStores a node pid) =
      { c with heap := Function.update c.heap a (some ⟨none, pid⟩) } := by
  simp [Cells.run, nodeStores, Cells.store, Cells.setNode]

theorem hidden_fillStores (slot : PolicyCache) (rtIdx : Nat) :
    ∀ s ∈ fillStores slot rtIdx, s.Hidden rtIdx nodes := by
  simp [fillStores, Store.Hidden]

theorem hidden_nodeStores {a : Addr} (ha : ∀ e, a ∉ addrs (nodes e)) (node : PolicyNode)
    (pid : Int) (rtIdx : Nat) : ∀ s ∈ nodeStores a node pid, s.Hidden rtIdx nodes := by
  simpa [nodeStores, Store.Hidden] using ha

theorem installStores_acceptable (hcount : c.runtimePolicyCount = store.runtimePolicyCount)
    {stateSize : Nat} {register : StateClass → Nat → Int → Cells → Option (List Store)}
    {call : InstallCall} {cls : StateClass} {code block : Nat → BitVec 8}
    (h : Acceptable port stateSize store call cls code) :
    installStores port stateSize register (some block) call c =
      (register cls call.type.toNat (port.pidNum + store.runtimePolicyCount)
        (c.run (fillStores (call.slot block) store.runtimePolicyCount))).map fun stores =>
          (fillStores (call.slot block) store.runtimePolicyCount ++ stores, 0) := by
  simp only [installStores, h.hasCode, if_neg h.len, h.cls, if_neg h.type, hcount,
    if_neg (Nat.not_le.2 h.room), if_neg (not_not_intro h.verified), InstallCall.slot,
    Option.getD_some]

/-- An installation is refused before its first store, or it goes on to `register_policy`. -/
theorem installStores_cases (hcount : c.runtimePolicyCount = store.runtimePolicyCount)
    (stateSize : Nat) (register : StateClass → Nat → Int → Cells → Option (List Store))
    (register' : StateClass → Nat → Int → Registry → Registry) (copy : Option (Nat → BitVec 8))
    (call : InstallCall) :
    (∃ cls code block, Acceptable port stateSize store call cls code ∧ copy = some block) ∨
    ∃ rc, installStores port stateSize register copy call c = some ([], rc) ∧
      ifwInstallPolicy port stateSize register' copy call store = (store, rc) := by
  unfold installStores ifwInstallPolicy
  rw [hcount]
  cases hcode : call.code with
  | none => exact .inr ⟨_, rfl, rfl⟩
  | some code =>
    by_cases hlen : call.len = 0 ∨ call.len.toNat % 8 ≠ 0
    · simp only [if_pos hlen]
      exact .inr ⟨_, rfl, rfl⟩
    simp only [if_neg hlen]
    cases hcls : StateClass.ofInt call.cls with
    | none => exact .inr ⟨_, rfl, rfl⟩
    | some cls =>
      by_cases htype : call.type < 0 ∨ call.type ≥ port.dcParamNum
      · simp only [if_pos htype]
        exact .inr ⟨_, rfl, rfl⟩
      by_cases hroom : store.runtimePolicyCount ≥ ifwMaxRuntimePolicies
      · simp only [if_neg htype, if_pos hroom]
        exact .inr ⟨_, rfl, rfl⟩
      simp only [if_neg htype, if_neg hroom]
      by_cases hver : Ebpf.ifwVerifyPolicy (some code) call.len stateSize = 0
      · simp only [if_neg (not_not_intro hver)]
        cases copy with
        | none => exact .inr ⟨_, rfl, rfl⟩
        | some block =>
          exact .inl ⟨cls, code, block,
            ⟨hcode, hlen, hcls, htype, Nat.not_le.1 hroom, hver⟩, rfl⟩
      · simp only [if_pos hver]
        exact .inr ⟨_, rfl, rfl⟩

/-- The head of a list is `NULL` and the list empty, or the loop to its last node gets there. -/
theorem head_cases {fuel : Nat} {p : Option Addr} {l : List (Addr × Int)}
    (hl : Chain c.heap p l) (hf : l.length ≤ fuel) :
    (p = none ∧ l = []) ∨ ∃ q l' last v, p = some q ∧ l = l' ++ [(last, v)] ∧
      PolicyLists.lastNode c.heap fuel q = some last := by
  cases p with
  | none => exact .inl ⟨rfl, hl.unique (show Chain c.heap none [] from rfl)⟩
  | some q =>
    obtain rfl | ⟨l', ⟨last, v⟩, rfl⟩ := List.eq_nil_or_concat l
    · cases hl
    · rw [List.concat_eq_append] at hl hf ⊢
      exact .inr ⟨q, l', last, v, rfl, rfl,
        Mynewt.lastNode_eq hl (Nat.lt_of_succ_le (by simpa using hf))⟩

/-- **Both ways to link a node** that is filled in: it becomes the last of the list. -/
theorem Partly.link {e : Nat} {a : Addr} {pid : Int} {s : Store}
    (h : Partly store nodes c) (ha : c.heap a = some ⟨none, pid⟩)
    (hfree : ∀ e, a ∉ addrs (nodes e))
    (hs : (nodes e = [] ∧ s = .head e (some a)) ∨
      ∃ l last v, nodes e = l ++ [(last, v)] ∧ s = .next last (some a)) :
    Lists (c.store s).heap (c.store s).policy
        (Function.update nodes e (nodes e ++ [(a, pid)])) := by
  rcases hs with ⟨hnil, rfl⟩ | ⟨l, last, v, hl, rfl⟩
  · exact h.lists.first hnil ha hfree
  · have hlast : c.heap last = some ⟨none, v⟩ := by
      have hc := h.lists.chain e
      rw [hl] at hc
      exact hc.last
    have hlists := h.lists.link hl ha hfree
    simpa only [Cells.store, Cells.setNode, hlast, Option.map_some] using hlists

end

/-! ## Mynewt: the last store installs -/

section
variable {port : Port} {store : PolicyStore} {nodes : Nat → List (Addr × Int)} {c : Cells}
  {fuel : Nat} {cls : StateClass} {type : Nat} {pid : Int}

/-- What `register_policy` of the Mynewt port stores, once `policy_mgr_init` is set. -/
theorem mynewtRegisterPolicy_eq (hi : c.policyMgrInit = true)
    (hl : Chain c.heap (c.policy (port.entry cls type)) (nodes (port.entry cls type)))
    (hf : (nodes (port.entry cls type)).length ≤ fuel) (block : Option (Addr × PolicyNode)) :
    (block = none ∧ mynewtRegisterPolicy port fuel cls type pid block c = some []) ∨
      ∃ a node s, block = some (a, node) ∧
        mynewtRegisterPolicy port fuel cls type pid block c =
          some (nodeStores a node pid ++ [s]) ∧
        ((nodes (port.entry cls type) = [] ∧ s = .head (port.entry cls type) (some a)) ∨
          ∃ l last v, nodes (port.entry cls type) = l ++ [(last, v)] ∧
            s = .next last (some a)) := by
  have hinit : initStores c = [] := if_pos hi
  unfold mynewtRegisterPolicy
  rw [hinit]
  simp only [Cells.run, List.foldl_nil, List.nil_append]
  obtain ⟨hp, hnil⟩ | ⟨q, l, last, v, hp, hcons, hlast⟩ := head_cases hl hf
  · rw [hp]
    cases block with
    | none => exact .inl ⟨rfl, rfl⟩
    | some b => exact .inr ⟨b.1, b.2, _, rfl, rfl, .inl ⟨hnil, rfl⟩⟩
  · simp only [hp, hlast, Option.map_some]
    cases block with
    | none => exact .inl ⟨rfl, rfl⟩
    | some b => exact .inr ⟨b.1, b.2, _, rfl, rfl, .inr ⟨l, last, v, hcons, rfl⟩⟩

/-- The stores to the runtime slot alone. -/
theorem Rests.filled (h : Rests store nodes c) (hi : store.policyMgrInit = true)
    (slot : PolicyCache) :
    Atomic store (installSlot port (Registry.registerPolicyIf false port) cls type slot store) nodes
      c (fillStores slot store.runtimePolicyCount) := by
  refine ⟨fun k _ => ?_, nodes, ⟨?_, ?_, fun e => ?_, ?_, fun i _ => ?_⟩, ?_, ?_⟩
  · exact h.toPartly.run fun s hs => hidden_fillStores _ _ s (List.mem_of_mem_take hs)
  all_goals
    simp only [Cells.run_fillStores, installSlot, Registry.registerPolicyIf, hi, if_true,
      Bool.false_eq_true, if_false, h.init, h.lists, h.pids, h.arr, h.allSlots,
      Function.update_apply]
  funext i
  exact Function.update_apply _ _ _ _

/-- The stores to the runtime slot and to a new node, and the one that links it. -/
theorem Rests.linked (h : Rests store nodes c) (hi : store.policyMgrInit = true)
    (slot : PolicyCache) {a : Addr} (node : PolicyNode) (ha : c.heap a = none) {s : Store}
    (hs : (nodes (port.entry cls type) = [] ∧ s = .head (port.entry cls type) (some a)) ∨
      ∃ l last v, nodes (port.entry cls type) = l ++ [(last, v)] ∧ s = .next last (some a)) :
    Atomic store (installSlot port (Registry.registerPolicyIf true port) cls type slot store) nodes
      c ((fillStores slot store.runtimePolicyCount ++
        nodeStores a node (port.pidNum + store.runtimePolicyCount)) ++ [s]) := by
  have hfree := h.toPartly.free ha
  have hh : ∀ s ∈ fillStores slot store.runtimePolicyCount ++
      nodeStores a node (port.pidNum + store.runtimePolicyCount),
      s.Hidden store.runtimePolicyCount nodes := by
    intro s hm
    rcases List.mem_append.1 hm with hm | hm
    · exact hidden_fillStores _ _ s hm
    · exact hidden_nodeStores hfree _ _ _ s hm
  refine .of_hidden h hh ⟨Function.update nodes (port.entry cls type)
    (nodes (port.entry cls type) ++
    [(a, (port.pidNum + store.runtimePolicyCount : Int))]), ?_⟩
  have hp := h.toPartly.run hh
  have hrun : c.run (fillStores slot store.runtimePolicyCount ++
      nodeStores a node (port.pidNum + store.runtimePolicyCount)) =
      { c with
        heap := Function.update c.heap a (some ⟨none, port.pidNum + store.runtimePolicyCount⟩)
        runtimePolicyArr := Function.update c.runtimePolicyArr store.runtimePolicyCount slot
        runtimePolicyCount := store.runtimePolicyCount + 1 } := by
    rw [Cells.run_append, Cells.run_fillStores, Cells.run_nodeStores]
  have hlists := hp.link (by rw [hrun]; exact Function.update_self _ _ _) hfree hs
  -- the last store changes the lists and nothing else
  have hother : ∀ c : Cells, (c.store s).policyMgrInit = c.policyMgrInit ∧
      (c.store s).policyArr = c.policyArr ∧ (c.store s).runtimePolicyArr = c.runtimePolicyArr ∧
      (c.store s).runtimePolicyCount = c.runtimePolicyCount := by
    intro c
    rcases hs with ⟨-, rfl⟩ | ⟨l, last, v, -, rfl⟩ <;> exact ⟨rfl, rfl, rfl, rfl⟩
  obtain ⟨h1, h2, h3, h4⟩ := hother (c.run (fillStores slot store.runtimePolicyCount ++
    nodeStores a node (port.pidNum + store.runtimePolicyCount)))
  have hslots : Function.update c.runtimePolicyArr store.runtimePolicyCount slot =
      (installSlot port (Registry.registerPolicyIf true port) cls type slot
        store).runtimePolicyArr := by
    simp only [installSlot, Registry.registerPolicyIf, Registry.registerPolicy, hi, if_true,
      h.allSlots]
    funext i
    exact Function.update_apply _ _ _ _
  have hall : ((c.run (fillStores slot store.runtimePolicyCount ++
      nodeStores a node (port.pidNum + store.runtimePolicyCount))).store s).runtimePolicyArr =
      (installSlot port (Registry.registerPolicyIf true port) cls type slot
        store).runtimePolicyArr := by
    rw [h3, hrun, ← hslots]
  refine ⟨⟨h1.trans hp.init, hlists, fun e => ?_, ?_, fun i _ => congrFun hall i⟩, hall, ?_⟩
  · simp only [installSlot, Registry.registerPolicyIf, Registry.registerPolicy, hi, if_true]
    by_cases he : e = port.entry cls type
    · subst he
      rw [Function.update_self, if_pos rfl, List.map_append, h.pids]
      rfl
    · rw [Function.update_of_ne he, if_neg he, h.pids]
  · rw [h2, hp.arr]
    simp only [installSlot, Registry.registerPolicyIf, Registry.registerPolicy, hi, if_true]
  · rw [h4, hrun]
    rfl

/-- **An installation of the Mynewt port is atomic**: a dispatcher that interrupts it sees the
registry before it until its last store is done. -/
theorem mynewt_atomic {stateSize : Nat} {copy : Option (Nat → BitVec 8)} {call : InstallCall}
    {block : Option (Addr × PolicyNode)} (h : Rests store nodes c)
    (hi : store.policyMgrInit = true) (hf : ∀ e, (store.policyManager e).length ≤ fuel)
    (hfresh : ∀ a node, block = some (a, node) → c.heap a = none) :
    ∃ stores rc, installStores port stateSize
        (fun cls type pid => mynewtRegisterPolicy port fuel cls type pid block) copy call c =
          some (stores, rc) ∧
      let r := ifwInstallPolicy port stateSize (Registry.registerPolicyIf block.isSome port) copy
        call store
      rc = r.2 ∧ Atomic store r.1 nodes c stores := by
  obtain ⟨cls, code, copied, hacc, rfl⟩ | ⟨rc, hst, hins⟩ :=
    @installStores_cases port store c h.count stateSize
      (fun cls type pid => mynewtRegisterPolicy port fuel cls type pid block)
      (Registry.registerPolicyIf block.isSome port) copy call
  · rw [ifwInstallPolicy_acceptable hacc, installStores_acceptable h.count hacc]
    have hlen : (nodes (port.entry cls call.type.toNat)).length ≤ fuel := by
      rw [← List.length_map (f := Prod.snd), h.pids]
      exact hf _
    have hchain := h.lists.chain (port.entry cls call.type.toNat)
    obtain ⟨rfl, hreg⟩ | ⟨a, node, s, rfl, hreg, hs⟩ := @mynewtRegisterPolicy_eq port nodes
      (c.run (fillStores (call.slot copied) store.runtimePolicyCount)) fuel cls call.type.toNat
      (port.pidNum + store.runtimePolicyCount) (by rw [Cells.run_fillStores]; exact h.init)
      (by rw [Cells.run_fillStores]; exact hchain) hlen block
    · refine ⟨_, _, by rw [hreg]; rfl, rfl, ?_⟩
      rw [List.append_nil]
      exact h.filled hi _
    · refine ⟨_, _, by rw [hreg]; rfl, rfl, ?_⟩
      rw [← List.append_assoc]
      exact h.linked hi _ node (hfresh a node rfl) hs
  · refine ⟨[], rc, hst, ?_⟩
    rw [hins]
    exact ⟨rfl, fun k hk => absurd hk (Nat.not_lt_zero k), nodes, h⟩

end

/-! ## Zephyr: a window behind a list that is not empty -/

section
variable {port : Port} {store : PolicyStore} {nodes : Nat → List (Addr × Int)} {c : Cells}
  {fuel : Nat} {cls : StateClass} {type : Nat} {pid : Int} {a : Addr}

/-- What `register_policy` of the Zephyr port stores, once `policy_mgr_init` is set. -/
theorem zephyrRegisterPolicy_eq (hi : c.policyMgrInit = true)
    (hl : Chain c.heap (c.policy (port.entry cls type)) (nodes (port.entry cls type)))
    (hf : (nodes (port.entry cls type)).length ≤ fuel) (node : PolicyNode) :
    (nodes (port.entry cls type) = [] ∧
      zephyrRegisterPolicy port fuel cls type pid a node c =
        some (nodeStores a node pid ++ [.head (port.entry cls type) (some a)])) ∨
    ∃ l last v, nodes (port.entry cls type) = l ++ [(last, v)] ∧
      zephyrRegisterPolicy port fuel cls type pid a node c =
        some [.block a node, .next last (some a), .index a pid, .next a none] := by
  have hinit : initStores c = [] := if_pos hi
  unfold zephyrRegisterPolicy
  rw [hinit]
  simp only [Cells.run, List.foldl_nil, List.nil_append]
  obtain ⟨hp, hnil⟩ | ⟨q, l, last, v, hp, hcons, hlast⟩ := head_cases hl hf
  · rw [hp]
    exact .inl ⟨hnil, rfl⟩
  · exact .inr ⟨l, last, v, hcons, by simp only [hp, hlast, Option.map_some]⟩

theorem installSlot_registerPolicyIf (hi : store.policyMgrInit = true) (slot : PolicyCache) :
    installSlot port (Registry.registerPolicyIf true port) cls type slot store =
      installSlot port (Registry.registerPolicy port) cls type slot store := by
  simp [installSlot, Registry.registerPolicyIf, hi]

theorem Atomic.shows {store' : PolicyStore} {stores : List Store}
    (h : Atomic store store' nodes c stores) (hok : store.Ok port) (hok' : store'.Ok port)
    (k : Nat) :
    Shows port (c.run (stores.take k)) store.toRegistry ∨
      Shows port (c.run (stores.take k)) store'.toRegistry := by
  by_cases hk : k < stores.length
  · exact .inl ((h.before k hk).shows hok)
  · rw [List.take_of_length_le (Nat.not_lt.1 hk)]
    obtain ⟨nodes', h'⟩ := h.after
    exact .inr (h'.toPartly.shows hok')

/-- In the window, the list goes on with the number that the new block happens to hold. -/
theorem window_pids (h : Rests store nodes c) (slot : PolicyCache) (ha : c.heap a = none)
    {e : Nat} {l : List (Addr × Int)} {last : Addr} {v : Int} (hl : nodes e = l ++ [(last, v)])
    {reg : Registry}
    (hs : Shows port (c.run (fillStores slot store.runtimePolicyCount ++
      [.block a ⟨none, pid⟩, .next last (some a)])) reg) :
    reg.policyManager e = store.policyManager e ++ [pid] := by
  have hfree := h.toPartly.free ha
  have hp : Partly store nodes (c.run (fillStores slot store.runtimePolicyCount ++
      [.block a ⟨none, pid⟩])) := by
    refine h.toPartly.run fun s hm => ?_
    rcases List.mem_append.1 hm with hm | hm
    · exact hidden_fillStores _ _ s hm
    · rw [List.mem_singleton.1 hm]
      exact hfree
  have hblock : (c.run (fillStores slot store.runtimePolicyCount ++
      [.block a ⟨none, pid⟩])).heap a = some ⟨none, pid⟩ := by
    rw [Cells.run_append]
    exact Function.update_self _ _ _
  have hlists := hp.link hblock hfree (.inr ⟨l, last, v, hl, rfl⟩)
  obtain ⟨l', hl', hpids, -⟩ := hs e
  rw [show [Store.block a ⟨none, pid⟩, .next last (some a)] =
    [.block a ⟨none, pid⟩] ++ [.next last (some a)] from rfl, ← List.append_assoc,
    Cells.run_append] at hl'
  have hc := hlists.chain e
  rw [Function.update_self] at hc
  rw [← hpids, hl'.unique hc, List.map_append, h.pids]
  rfl

/-- **An installation of the Zephyr port is atomic**, whatever the new list node holds, **exactly on
a slot that has no policy yet.** -/
theorem zephyr_atomic_iff {stateSize : Nat} {copied code : Nat → BitVec 8} {call : InstallCall}
    (h : Rests store nodes c) (hok : store.Ok port)
    (hf : ∀ e, (store.policyManager e).length ≤ fuel) (ha : c.heap a = none)
    (hacc : Acceptable port stateSize store call cls code) :
    (∀ node : PolicyNode, ∃ stores, installStores port stateSize
        (fun cls type pid => zephyrRegisterPolicy port fuel cls type pid a node) (some copied) call
          c = some (stores, 0) ∧
      ∀ k, Shows port (c.run (stores.take k)) store.toRegistry ∨
        Shows port (c.run (stores.take k)) (ifwInstallPolicy port stateSize
          (Registry.registerPolicy port) (some copied) call store).1.toRegistry) ↔
      store.policyManager (port.entry cls call.type.toNat) = [] := by
  have hlen : (nodes (port.entry cls call.type.toNat)).length ≤ fuel := by
    rw [← List.length_map (f := Prod.snd), h.pids]
    exact hf _
  have hreg := @zephyrRegisterPolicy_eq port nodes
    (c.run (fillStores (call.slot copied) store.runtimePolicyCount)) fuel cls call.type.toNat
    (port.pidNum + store.runtimePolicyCount) a (by rw [Cells.run_fillStores]; exact h.init)
    (by rw [Cells.run_fillStores]; exact h.lists.chain _) hlen
  rw [ifwInstallPolicy_acceptable hacc]
  constructor
  · intro hall
    -- a block whose number is not the one that is registered
    obtain ⟨hnil, -⟩ | ⟨l, last, v, hl, heq⟩ :=
      hreg ⟨none, port.pidNum + store.runtimePolicyCount + 1⟩
    · rw [← h.pids, hnil]
      rfl
    · obtain ⟨stores, hst, hshow⟩ := hall ⟨none, port.pidNum + store.runtimePolicyCount + 1⟩
      rw [installStores_acceptable h.count hacc, heq] at hst
      cases hst
      rcases hshow 6 with hs | hs
      · have hp := window_pids h (call.slot copied) ha hl hs
        simp at hp
      · have hp := window_pids h (call.slot copied) ha hl hs
        rw [policyManager_installSlot hok, if_pos rfl] at hp
        simp at hp
  · intro hnil node
    obtain ⟨hn, heq⟩ | ⟨l, last, v, hl, -⟩ := hreg node
    · refine ⟨_, by rw [installStores_acceptable h.count hacc, heq]; rfl, fun k => ?_⟩
      rw [← List.append_assoc]
      have hatomic := h.linked hok.init (call.slot copied) node ha (.inl ⟨hn, rfl⟩)
      rw [installSlot_registerPolicyIf hok.init] at hatomic
      exact hatomic.shows hok (hok.installSlot hacc.room) k
    · rw [← h.pids, hl, List.map_append] at hnil
      simp at hnil

end

/-! ### A slot with one policy -/

/-- The registry with policy 3 for the sequence number. -/
def nesnStore : PolicyStore :=
  ⟨⟨true, fun e => if e = Zephyr.port.entry .dc 0 then [3] else [], fun _ => .empty,
    fun _ => .empty⟩, 0⟩

def nesnNodes (e : Nat) : List (Addr × Int) :=
  if e = Zephyr.port.entry .dc 0 then [(0x100, 3)] else []

def nesnCells : Cells where
  policyMgrInit := true
  policy := fun e => if e = Zephyr.port.entry .dc 0 then some 0x100 else none
  heap := fun a => if a = 0x100 then some ⟨none, 3⟩ else none
  policyArr := fun _ => .empty
  runtimePolicyArr := fun _ => .empty
  runtimePolicyCount := 0

theorem rests_nesn : Rests nesnStore nesnNodes nesnCells where
  init := rfl
  lists := by
    refine ⟨fun e => ?_, fun e e' hne a ha ha' => ?_⟩
    · by_cases he : e = Zephyr.port.entry .dc 0
      · simp only [nesnNodes, nesnCells, if_pos he]
        exact ⟨rfl, none, rfl, rfl⟩
      · simp only [nesnNodes, nesnCells, if_neg he]
        rfl
    · unfold nesnNodes at ha ha'
      split at ha
      · split at ha'
        · rename_i he he'
          exact hne (he.trans he'.symm)
        · cases ha'
      · cases ha
  pids := by
    intro e
    simp only [nesnNodes, nesnStore]
    split <;> rfl
  arr := rfl
  slots := fun _ _ => rfl
  allSlots := rfl
  count := rfl

theorem nesn_ok : nesnStore.Ok Zephyr.port where
  init := rfl
  count := Nat.zero_le _
  pids := by
    intro e pid hpid
    simp only [nesnStore] at hpid ⊢
    split at hpid
    · rw [List.mem_singleton.1 hpid]
      decide
    · cases hpid

/-- A policy of two instructions for the sequence number. -/
def nesnCall : InstallCall :=
  ⟨3, 0, some (Ebpf.codeBytes [0xb7, 0, 0, 0, 1, 0, 0, 0, 0x95, 0, 0, 0, 0, 0, 0, 0] fun _ => 0),
    16⟩

theorem nesnCall_acceptable :
    Acceptable Zephyr.port Zephyr.layout.size nesnStore nesnCall .dc
      (Ebpf.codeBytes [0xb7, 0, 0, 0, 1, 0, 0, 0, 0x95, 0, 0, 0, 0, 0, 0, 0] fun _ => 0) :=
  ⟨rfl, by decide, rfl, by decide, by decide, by decide⟩

theorem zephyr_atomic_iff_nesn :
    (∀ node : PolicyNode, ∃ stores, installStores Zephyr.port Zephyr.layout.size
        (fun cls type pid => zephyrRegisterPolicy Zephyr.port 1 cls type pid 0x200 node)
          (some fun _ => 0) nesnCall nesnCells = some (stores, 0) ∧
      ∀ k, Shows Zephyr.port (nesnCells.run (stores.take k)) nesnStore.toRegistry ∨
        Shows Zephyr.port (nesnCells.run (stores.take k)) (ifwInstallPolicy Zephyr.port
          Zephyr.layout.size (Registry.registerPolicy Zephyr.port) (some fun _ => 0) nesnCall
          nesnStore).1.toRegistry) ↔
      nesnStore.policyManager (Zephyr.port.entry .dc 0) = [] := by
  refine zephyr_atomic_iff rests_nesn nesn_ok (fun e => ?_) rfl nesnCall_acceptable
  simp only [nesnStore]
  split <;> decide

end BlueSwat.Preempt
