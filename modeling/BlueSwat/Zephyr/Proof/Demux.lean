import BlueSwat.Zephyr.Demux
import BlueSwat.Zephyr.Proof.Statics

/-!
# The receive path refines two lists

The two queues of the receive path are segments of one memory of links (`Holds`), and a state of the
path represents its abstract state (`Represents`). Every event keeps this, with the effects of the
abstract path (`ullStep_represents`), so that what the path does over a whole schedule can be read
off the lists of `RxPath` (`ull_refines`).
-/

set_option autoImplicit false

namespace BlueSwat.Zephyr

open Fsm LinkQueue Reactive

/-! ## The queues -/

/-- The queues hold the links and nodes of `l` and `k`, with no link and no node twice. -/
structure Ull.Holds (u : Ull) (l k : List (Nat × Nat)) : Prop where
  ull : Seg u.links u.memqUllRx.tail u.memqUllRx.head l
  ll : Seg u.links u.memqLlRx.tail u.memqLlRx.head k
  links : (addrs l ++ u.memqUllRx.tail :: (addrs k ++ [u.memqLlRx.tail])).Nodup
  nodes : (payloads l ++ payloads k).Nodup

section
variable {links : MemqLinks} {q : Memq} {p rx : Nat} {l : List (Nat × Nat)}

theorem linked_of_seg (hl : Seg links q.tail p l) (hp : q.Linked links p)
    (ht : q.tail ∉ addrs l) : (∀ a ∈ addrs l, q.Linked links a) ∧ q.Linked links q.tail := by
  induction l generalizing p with
  | nil =>
    cases hl
    exact ⟨by simp, hp⟩
  | cons x l ih =>
    obtain ⟨rfl, -, hs⟩ := hl
    rw [addrs_cons, List.mem_cons, not_or] at ht
    obtain ⟨h1, h2⟩ := ih hs (.next hp (Ne.symm ht.1)) ht.2
    refine ⟨fun a ha => ?_, h2⟩
    rcases List.mem_cons.1 ha with rfl | ha
    · exact hp
    · exact h1 a ha

theorem queued_of_seg (hl : Seg links q.tail p l) (hp : q.Linked links p)
    (ht : q.tail ∉ addrs l) (hrx : rx ∈ payloads l) : q.Queued links rx := by
  induction l generalizing p with
  | nil => cases hrx
  | cons x l ih =>
    obtain ⟨rfl, hv, hs⟩ := hl
    rw [addrs_cons, List.mem_cons, not_or] at ht
    rcases List.mem_cons.1 hrx with rfl | hrx
    · exact ⟨x.1, hp, Ne.symm ht.1, hv⟩
    · exact ih hs (.next hp (Ne.symm ht.1)) ht.2 hrx

/-- From every link of a queue on, its memory is the rest of the segment. -/
theorem Memq.Linked.suffix {a : Nat} (hl : Seg links q.tail q.head l) (h : q.Linked links a) :
    ∃ l1 l2, l = l1 ++ l2 ∧ Seg links q.tail a l2 := by
  induction h with
  | head => exact ⟨[], l, rfl, hl⟩
  | next _ hne ih =>
    obtain ⟨l1, l2, rfl, hs⟩ := ih
    cases l2 with
    | nil => exact absurd hs hne
    | cons x l2 => exact ⟨l1 ++ [x], l2, by simp, hs.next⟩

theorem Memq.Linked.mem_of_seg {a : Nat} (hl : Seg links q.tail q.head l) (h : q.Linked links a) :
    a ∈ addrs l ∨ a = q.tail := by
  obtain ⟨l1, l2, rfl, hs⟩ := h.suffix hl
  cases l2 with
  | nil => exact .inr hs
  | cons x l2 =>
    rw [← hs.head]
    simp

theorem Memq.Queued.mem_of_seg (hl : Seg links q.tail q.head l) (h : q.Queued links rx) :
    rx ∈ payloads l := by
  obtain ⟨a, ha, hne, rfl⟩ := h
  obtain ⟨l1, l2, rfl, hs⟩ := ha.suffix hl
  cases l2 with
  | nil => exact absurd hs hne
  | cons x l2 =>
    rw [← hs.head]
    simp

theorem memqPeek_of_seg (hl : Seg links q.tail q.head l) (ht : q.tail ∉ addrs l) :
    memqPeek q links = l.head? := by
  have he := hl.nil_iff ht
  cases l with
  | nil => exact if_pos (he.2 rfl)
  | cons x l =>
    rw [memqPeek, if_neg fun e => List.cons_ne_nil _ _ (he.1 e), hl.head]
    rfl

theorem memqDequeue_of_seg {x : Nat × Nat} (hl : Seg links q.tail q.head (x :: l))
    (ht : q.tail ∉ addrs (x :: l)) :
    memqDequeue q links = (some x, { q with head := (links q.head).next }) := by
  rw [memqDequeue, memqPeek_of_seg hl ht, ← hl.head]
  rfl

end

namespace Ull.Holds

variable {u : Ull} {x : Nat × Nat} {l k : List (Nat × Nat)} {link rx : Nat}

theorem ullTail (h : u.Holds l k) : u.memqUllRx.tail ∉ addrs l := by
  have := h.links
  simp only [List.nodup_append, List.mem_cons] at this
  exact fun ha => this.2.2 _ ha _ (.inl rfl) rfl

theorem llTail (h : u.Holds l k) : u.memqLlRx.tail ∉ addrs k := by
  have := (List.nodup_cons.1 (List.nodup_append.1 h.links).2.1).2
  exact fun ha => (List.nodup_append.1 this).2.2 _ ha _ (by simp) rfl

theorem peek (h : u.Holds l k) : memqPeek u.memqUllRx u.links = l.head? :=
  memqPeek_of_seg h.ull h.ullTail

theorem dequeue_head (h : u.Holds (x :: l) k) :
    u.dequeue = { u with memqUllRx := ⟨(u.links u.memqUllRx.head).next, u.memqUllRx.tail⟩ } := by
  rw [Ull.dequeue, memqDequeue_of_seg h.ull h.ullTail]

theorem dequeue (h : u.Holds (x :: l) k) : u.dequeue.Holds l k := by
  rw [h.dequeue_head]
  exact ⟨h.ull.next, h.ll, (List.nodup_cons.1 h.links).2, (List.nodup_cons.1 h.nodes).2⟩

/-- The node at the head goes on to the thread, with its link. -/
theorem toThread (h : u.Holds (x :: l) k) :
    (u.dequeue.llRxPut x.1 x.2).Holds l (k ++ [(u.memqLlRx.tail, x.2)]) := by
  have hd := h.dequeue
  rw [h.dequeue_head] at hd ⊢
  have hnd := h.links
  refine ⟨?_, hd.ll.snoc hd.llTail, ?_, ?_⟩
  · refine hd.ull.congr fun a ha => Function.update_of_ne ?_ _ _
    rintro rfl
    exact (List.nodup_append.1 hd.links).2.2 _ ha _ (by simp) rfl
  · -- the links are the same ones, that of the node now last
    refine (List.Perm.nodup_iff ?_).1 hnd
    simp only [Ull.llRxPut, memqEnqueue, addrs_cons, addrs_append, addrs_nil]
    refine (List.perm_append_singleton x.1 _).symm.trans ?_
    simp [List.append_assoc]
  · refine (List.Perm.nodup_iff ?_).1 h.nodes
    simp only [payloads_cons, payloads_append, payloads_nil]
    refine (List.perm_append_singleton x.2 _).symm.trans ?_
    simp [List.append_assoc]

theorem ullRxPut (h : u.Holds l k) (hf : u.Free link rx) (n : RxNode) :
    (u.ullRxPut link rx n).Holds (l ++ [(u.memqUllRx.tail, rx)]) k := by
  obtain ⟨hl1, hl2⟩ := linked_of_seg h.ull .head h.ullTail
  obtain ⟨hk1, hk2⟩ := linked_of_seg h.ll .head h.llTail
  have hrl : rx ∉ payloads l := fun hm => hf.node.1 (queued_of_seg h.ull .head h.ullTail hm)
  have hrk : rx ∉ payloads k := fun hm => hf.node.2 (queued_of_seg h.ll .head h.llTail hm)
  refine ⟨h.ull.snoc h.ullTail, ?_, ?_, ?_⟩
  · refine h.ll.congr fun a ha => Function.update_of_ne ?_ _ _
    rintro rfl
    exact (List.nodup_cons.1 (List.nodup_append.1 h.links).2.1).1 (by simp [ha])
  · have hlink : link ∉ addrs l ++ u.memqUllRx.tail :: (addrs k ++ [u.memqLlRx.tail]) := by
      simp only [List.mem_append, List.mem_cons, List.not_mem_nil, or_false, not_or]
      refine ⟨fun hm => hf.link.1 (hl1 _ hm), ?_, fun hm => hf.link.2 (hk1 _ hm), ?_⟩
      · rintro rfl
        exact hf.link.1 hl2
      · rintro rfl
        exact hf.link.2 hk2
    refine (List.Perm.nodup_iff ?_).1 (List.nodup_cons.2 ⟨hlink, h.links⟩)
    simp only [Ull.ullRxPut, memqEnqueue, addrs_append, addrs_cons, addrs_nil, List.append_assoc,
      List.singleton_append]
    exact (List.perm_middle.symm).trans ((List.Perm.swap _ _ _).append_left _)
  · have hnd : rx ∉ payloads l ++ payloads k := by simp [hrl, hrk]
    refine (List.Perm.nodup_iff ?_).1 (List.nodup_cons.2 ⟨hnd, h.nodes⟩)
    simp only [payloads_append, payloads_cons, payloads_nil, List.append_assoc,
      List.singleton_append]
    exact List.perm_middle.symm

theorem free (h : u.Holds l k)
    (hlink : link ∉ addrs l ++ u.memqUllRx.tail :: (addrs k ++ [u.memqLlRx.tail]))
    (hrx : rx ∉ payloads l ++ payloads k) : u.Free link rx := by
  simp only [List.mem_append, List.mem_cons, List.not_mem_nil, or_false, not_or] at hlink hrx
  obtain ⟨hl, hlt, hk, hkt⟩ := hlink
  exact ⟨⟨fun hm => (hm.mem_of_seg h.ull).elim hl hlt, fun hm => (hm.mem_of_seg h.ll).elim hk hkt⟩,
    ⟨fun hm => hrx.1 (hm.mem_of_seg h.ull), fun hm => hrx.2 (hm.mem_of_seg h.ll)⟩⟩

theorem llDequeue (h : u.Holds l (x :: k)) :
    { u with memqLlRx := ⟨(u.links u.memqLlRx.head).next, u.memqLlRx.tail⟩ }.Holds l k where
  ull := h.ull
  ll := h.ll.next
  links := h.links.sublist
    ((((List.sublist_cons_self x.1 (addrs k)).append_right _).cons_cons _).append_left _)
  nodes := h.nodes.sublist ((List.sublist_cons_self x.2 (payloads k)).append_left _)

end Ull.Holds

/-! ## One event -/

/-- The nodes of a queue, with their addresses. -/
def Ull.nodes (u : Ull) (l : List (Nat × Nat)) : List (Nat × RxNode) :=
  (payloads l).map fun rx => (rx, u.node rx)

structure Ull.Represents (flash : Policy → Nat → BitVec 8) (u : Ull) (a : RxPath) : Prop where
  tracks : Tracks flash u.hook a.statics
  queues : ∃ l k, u.Holds l k ∧
    u.nodes l = a.refused.toList.map (fun rx => (rx, .release)) ++ a.waiting ∧
    u.nodes k = a.thread

section
variable {flash : Policy → Nat → BitVec 8} {u : Ull} {a b : RxPath} {x : Nat × Nat}
  {l k : List (Nat × Nat)} {h : Hook} {t : Statics} {f : Nat → RxNode} {effects : List RxEffect}

@[simp] theorem nodes_cons (u : Ull) (x : Nat × Nat) (l : List (Nat × Nat)) :
    u.nodes (x :: l) = (x.2, u.node x.2) :: u.nodes l := rfl

theorem nodes_append (u : Ull) (l k : List (Nat × Nat)) :
    u.nodes (l ++ k) = u.nodes l ++ u.nodes k := by
  rw [Ull.nodes, payloads_append, List.map_append]
  rfl

/-- Nodes that are not written keep what they hold. -/
theorem nodes_eq {rx : Nat} (hrx : rx ∉ payloads l) (hf : ∀ r, r ≠ rx → f r = u.node r) :
    (payloads l).map (fun rx => (rx, f rx)) = u.nodes l :=
  List.map_congr_left fun r hr => congrArg (r, ·) (hf r fun e => hrx (e ▸ hr))

theorem Ull.Holds.head_notMem (hq : u.Holds (x :: l) k) : x.2 ∉ payloads l ∧ x.2 ∉ payloads k := by
  have hnd := hq.nodes
  rw [payloads_cons, List.cons_append] at hnd
  simpa using (List.nodup_cons.1 hnd).1

/-- The node at the head, which holds `n` by now, goes on to the thread. -/
theorem represents_toThread {n : RxNode} (hq : u.Holds (x :: l) k) (ht : Tracks flash h t)
    (hx : f x.2 = n) (hf : ∀ r, r ≠ x.2 → f r = u.node r) :
    ({ u with hook := h, node := f }.dequeue.llRxPut x.1 x.2).Represents flash
      ⟨t, none, u.nodes l, u.nodes k ++ [(x.2, n)]⟩ := by
  have hq' : { u with hook := h, node := f }.Holds (x :: l) k := ⟨hq.ull, hq.ll, hq.links, hq.nodes⟩
  obtain ⟨hl, hk⟩ := hq.head_notMem
  refine ⟨ht, l, _, hq'.toThread, nodes_eq hl hf, ?_⟩
  rw [nodes_append]
  exact congrArg₂ (fun ks m => ks ++ [(x.2, m)]) (nodes_eq hk hf) hx

/-- The node at the head leaves the queues. -/
theorem represents_dequeue (hq : u.Holds (x :: l) k) (ht : Tracks flash h t) :
    { u with hook := h }.dequeue.Represents flash ⟨t, none, u.nodes l, u.nodes k⟩ := by
  have hq' : { u with hook := h }.Holds (x :: l) k := ⟨hq.ull, hq.ll, hq.links, hq.nodes⟩
  exact ⟨ht, l, k, hq'.dequeue, rfl, rfl⟩

/-- The node at the head stays, marked for release. -/
theorem represents_refused (hq : u.Holds (x :: l) k) (ht : Tracks flash h t)
    (hx : f x.2 = .release) (hf : ∀ r, r ≠ x.2 → f r = u.node r) :
    { u with hook := h, node := f }.Represents flash
      ⟨t, some x.2, u.nodes l, u.nodes k⟩ := by
  obtain ⟨hl, hk⟩ := hq.head_notMem
  refine ⟨ht, x :: l, k, ⟨hq.ull, hq.ll, hq.links, hq.nodes⟩, ?_, nodes_eq hk hf⟩
  exact congrArg₂ (fun m ks => (x.2, m) :: ks) hx (nodes_eq hl hf)

theorem hook_tracks (ht : Tracks flash u.hook t) (E : Env layout.size) (n : RxNode) :
    ∃ h, ifwLlPacketParserRx E n.view u.hook = some (h, (t.step (.rx n.view)).2) ∧
      Tracks flash h (t.step (.rx n.view)).1 :=
  llStep_tracks ht (E, .rx n.view)

/-- A PDU that is to be presented again has been marked for release. -/
theorem ullConnRx_nack {E : DemuxEnv} {pdu : PduData} {r : UllConnRx} (h : ullConnRx E pdu = some r)
    (hn : r.nack = true) : r.rx = .release := by
  unfold ullConnRx at h
  split at h
  · cases h
    rfl
  · split at h
    · split at h <;> cases h <;> rfl
    · split at h <;> cases h <;> cases hn

/-- A node at its first presentation. -/
theorem rxDemuxRx_present {n : RxNode} (hq : u.Holds (x :: l) k) (ht : Tracks flash u.hook t)
    (hn : u.node x.2 = n) {E : DemuxEnv} (ha : a = ⟨t, none, u.nodes l, u.nodes k⟩)
    (hb : a.present E x.2 n = some (b, effects)) :
    ∃ v, rxDemuxRx E x.1 x.2 u = some (v, effects) ∧ v.Represents flash b := by
  subst ha
  obtain ⟨h, hh, ht'⟩ := hook_tracks ht E.policies n
  have hset : ∀ n r, r ≠ x.2 → Function.update u.node x.2 n r = u.node r :=
    fun n r hr => Function.update_of_ne hr _ _
  rw [rxDemuxRx, hn, hh]
  simp only [RxPath.present, Option.bind_some] at hb ⊢
  cases hv : (t.step (.rx n.view)).2 with
  | reject =>
    rw [hv] at hb
    cases hb
    refine ⟨_, ?_, represents_toThread hq ht' (Function.update_self ..) (hset .release)⟩
    simp [Ull.setNode]
  | pass =>
    rw [hv] at hb
    simp only [hn]
    cases n with
    | eventDone | connection lll ind =>
      cases hb
      exact ⟨_, rfl, represents_dequeue hq ht'⟩
    | release | forThread =>
      cases hb
      exact ⟨_, rfl, represents_toThread hq ht' hn fun _ _ => rfl⟩
    | dcPdu pdu =>
      obtain ⟨r, hr, he⟩ := Option.map_eq_some_iff.1 hb
      cases he
      simp only [hr, Option.map_some]
      cases hk : r.nack with
      | true =>
        rw [ullConnRx_nack hr hk]
        have hp := represents_refused hq ht' (Function.update_self ..) (hset .release)
        exact ⟨_, rfl, hp⟩
      | false =>
        have hp := represents_toThread hq ht' (Function.update_self ..) (hset r.rx)
        exact ⟨_, rfl, hp⟩

/-- A PDU that was refused goes to the thread, whatever it was. -/
theorem rxDemuxRx_refused (hq : u.Holds (x :: l) k) (ht : Tracks flash u.hook t)
    (hn : u.node x.2 = .release) (E : DemuxEnv) :
    ∃ v, rxDemuxRx E x.1 x.2 u = some (v, []) ∧
      v.Represents flash ⟨t, none, u.nodes l, u.nodes k ++ [(x.2, .release)]⟩ :=
  rxDemuxRx_present hq ht hn rfl rfl

theorem rxDemux_represents (hu : u.Represents flash a) {E : DemuxEnv}
    (hb : a.demux E = some (b, effects)) :
    ∃ v, rxDemux E u = some (v, effects) ∧ v.Represents flash b := by
  obtain ⟨ht, l, k, hq, hl, hk⟩ := hu
  obtain ⟨t, refused, waiting, thread⟩ := a
  simp only at hl hk ht
  rw [RxPath.demux] at hb
  rw [rxDemux, hq.peek]
  by_cases hack : E.txAck = true
  · rw [if_pos hack] at hb
    cases hb
    refine ⟨u, ?_, ht, l, k, hq, hl, hk⟩
    cases l.head? <;> simp [hack]
  · rw [if_neg hack] at hb
    cases l with
    | nil =>
      cases refused with
      | some rx => cases hl
      | none =>
        cases waiting with
        | nil =>
          cases hb
          exact ⟨u, rfl, ht, [], k, hq, hl, hk⟩
        | cons n rest => cases hl
    | cons x l =>
      simp only [List.head?_cons, if_neg hack]
      rw [nodes_cons] at hl
      cases refused with
      | some rx =>
        cases hb
        obtain ⟨hx, hl⟩ := List.cons.inj hl
        obtain ⟨hrx, hx⟩ := Prod.mk.inj hx
        obtain ⟨v, hv, hr⟩ := rxDemuxRx_refused hq ht hx E
        rw [hl, hk, hrx] at hr
        exact ⟨v, hv, hr⟩
      | none =>
        cases waiting with
        | nil => cases hl
        | cons n rest =>
          obtain ⟨rfl, hrest⟩ := List.cons.inj hl
          exact rxDemuxRx_present hq ht rfl (by rw [hrest, hk]) hb

theorem ullRxPut_represents {link rx : Nat} (hu : u.Represents flash a) (hf : u.Free link rx)
    (n : RxNode) :
    (u.ullRxPut link rx n).Represents flash { a with waiting := a.waiting ++ [(rx, n)] } := by
  obtain ⟨ht, l, k, hq, hl, hk⟩ := hu
  have hq' := hq.ullRxPut hf n
  have hnd := hq'.nodes
  rw [payloads_append, payloads_cons, payloads_nil, List.append_assoc, List.singleton_append] at hnd
  have hrx := (List.nodup_cons.1 (List.perm_middle.nodup_iff.1 hnd)).1
  rw [List.mem_append, not_or] at hrx
  have hset : ∀ r, r ≠ rx → (u.ullRxPut link rx n).node r = u.node r :=
    fun r hr => Function.update_of_ne hr _ _
  have hn : (u.ullRxPut link rx n).node rx = n := Function.update_self ..
  refine ⟨ht, _, k, hq', ?_, (nodes_eq hrx.2 hset).trans hk⟩
  rw [nodes_append, show (u.ullRxPut link rx n).nodes l = _ from nodes_eq hrx.1 hset, hl,
    List.append_assoc, nodes_cons, hn]
  rfl

theorem llRxDequeue_represents (hu : u.Represents flash a)
    (hb : a.step .rxDequeue = some (b, effects)) :
    (llRxDequeue u).2 = effects ∧ (llRxDequeue u).1.Represents flash b := by
  obtain ⟨ht, l, k, hq, hl, hk⟩ := hu
  obtain ⟨t, refused, waiting, thread⟩ := a
  simp only at hl hk ht
  rw [llRxDequeue]
  cases k with
  | nil =>
    cases hk
    cases hb
    rw [memqDequeue, memqPeek_of_seg hq.ll hq.llTail]
    exact ⟨rfl, ht, l, [], hq, hl, rfl⟩
  | cons x k =>
    rw [nodes_cons] at hk
    subst hk
    cases hb
    rw [memqDequeue_of_seg hq.ll hq.llTail]
    exact ⟨rfl, ht, l, k, hq.llDequeue, hl, rfl⟩

/-- **One event**: what the lists do, the queues do. -/
theorem ullStep_represents (hu : u.Represents flash a) {e : UllEvent}
    (hf : ∀ link rx n, e = .rxPut link rx n → u.Free link rx)
    (hb : a.step e = some (b, effects)) :
    ∃ v, ullStep u e = some (v, effects) ∧ v.Represents flash b := by
  cases e with
  | rxPut link rx n =>
    cases hb
    exact ⟨_, rfl, ullRxPut_represents hu (hf link rx n rfl) n⟩
  | demux E => exact rxDemux_represents hu hb
  | rxDequeue =>
    obtain ⟨h1, h2⟩ := llRxDequeue_represents hu hb
    exact ⟨_, congrArg (fun o => some ((llRxDequeue u).1, o)) h1, h2⟩

theorem holds_boot (flash : Policy → Nat → BitVec 8) {ullLink llLink : Nat}
    (hne : ullLink ≠ llLink) : (Ull.boot flash ullLink llLink).Holds [] [] :=
  ⟨rfl, rfl, by simp [Ull.boot, memqInit, hne], List.nodup_nil⟩

theorem represents_boot (flash : Policy → Nat → BitVec 8) {ullLink llLink : Nat}
    (hne : ullLink ≠ llLink) : (Ull.boot flash ullLink llLink).Represents flash .init where
  tracks := tracks_boot flash
  queues := ⟨[], [], holds_boot flash hne, rfl, rfl⟩

/-! ## Whole schedules -/

/-- A round has a result if `ctrl_rx` keeps no node. -/
theorem present_returns {E : DemuxEnv} (hk : E.ctrlRx ≠ .kept) (rx : Nat) (n : RxNode)
    (a : RxPath) : ∃ p, a.present E rx n = some p := by
  unfold RxPath.present
  dsimp only
  split
  · exact ⟨_, rfl⟩
  · cases n with
    | dcPdu pdu =>
      have hr : ∃ r, ullConnRx E pdu = some r := by
        unfold ullConnRx
        split
        · exact ⟨_, rfl⟩
        · split
          · cases hc : E.ctrlRx with
            | done | nack => exact ⟨_, rfl⟩
            | kept => exact absurd hc hk
          · split <;> exact ⟨_, rfl⟩
      obtain ⟨r, hr⟩ := hr
      simp only [hr, Option.map_some]
      exact ⟨_, rfl⟩
    | _ => exact ⟨_, rfl⟩

theorem step_returns {e : UllEvent} (hk : ∀ E, e = .demux E → E.ctrlRx ≠ .kept) (a : RxPath) :
    ∃ p, a.step e = some p := by
  cases e with
  | rxPut link rx n => exact ⟨_, rfl⟩
  | demux E =>
    simp only [RxPath.step, RxPath.demux]
    split
    · exact ⟨_, rfl⟩
    · split
      · exact ⟨_, rfl⟩
      · split
        · exact ⟨_, rfl⟩
        · exact present_returns (hk E rfl) _ _ _
  | rxDequeue =>
    simp only [RxPath.step]
    split <;> exact ⟨_, rfl⟩

/-- **The receive path refines its lists**, over whole schedules: as long as `ctrl_rx` keeps no
node, both go on, with the same effects. -/
theorem ull_refines {es : List UllEvent} (hu : u.Represents flash a) (hd : Disciplined u es)
    (hk : LeavesNodes es) :
    ∃ v b outs, runs ullStep u es = some (v, outs) ∧ runs RxPath.step a es = some (b, outs) ∧
      v.Represents flash b := by
  induction es generalizing u a with
  | nil => exact ⟨u, a, [], rfl, rfl, hu⟩
  | cons e es ih =>
    obtain ⟨⟨a1, o⟩, ha⟩ := step_returns (e := e) (fun E he => hk E (he ▸ List.mem_cons_self)) a
    obtain ⟨u1, hu1, hr⟩ := ullStep_represents hu hd.1 ha
    obtain ⟨v, b, outs, hv, hb, hvb⟩ :=
      ih hr (hd.2 u1 o hu1) fun E hE => hk E (List.mem_cons_of_mem _ hE)
    refine ⟨v, b, o :: outs, ?_, ?_, hvb⟩
    · rw [runs_cons hu1, hv]
      rfl
    · rw [runs_cons ha, hb]
      rfl

/-- The radio side puts nodes into the queue, one after the other. -/
def puts (ps : List (Nat × Nat × RxNode)) : List UllEvent :=
  ps.map fun p => .rxPut p.1 p.2.1 p.2.2

theorem disciplined_puts {ps : List (Nat × Nat × RxNode)} (hq : u.Holds l k)
    (hlinks : (ps.map (·.1) ++
      (addrs l ++ u.memqUllRx.tail :: (addrs k ++ [u.memqLlRx.tail]))).Nodup)
    (hnodes : (ps.map (·.2.1) ++ (payloads l ++ payloads k)).Nodup) :
    Disciplined u (puts ps) := by
  induction ps generalizing u l with
  | nil => trivial
  | cons p ps ih =>
    obtain ⟨link, rx, n⟩ := p
    have hl := (List.nodup_cons.1 hlinks).1
    have hn := (List.nodup_cons.1 hnodes).1
    have hf : u.Free link rx := hq.free (fun hm => hl (List.mem_append_right _ hm))
      fun hm => hn (List.mem_append_right _ hm)
    refine ⟨fun _ _ _ he => by cases he; exact hf, fun v o hv => ?_⟩
    cases hv
    refine ih (hq.ullRxPut hf n) ?_ ?_
    · refine (List.Perm.nodup_iff ?_).1 hlinks
      simp only [List.map_cons, Ull.ullRxPut, memqEnqueue, addrs_append, addrs_cons, addrs_nil]
      have h1 : ps.map (·.1) ++ (addrs l ++ [u.memqUllRx.tail] ++ link :: (addrs k ++
          [u.memqLlRx.tail])) = (ps.map (·.1) ++ (addrs l ++ [u.memqUllRx.tail])) ++
            link :: (addrs k ++ [u.memqLlRx.tail]) := by simp
      rw [h1]
      refine List.Perm.trans ?_ List.perm_middle.symm
      simp
    · refine (List.Perm.nodup_iff ?_).1 hnodes
      simp only [List.map_cons, payloads_append, payloads_cons, payloads_nil]
      have h1 : ps.map (·.2.1) ++ (payloads l ++ [rx] ++ payloads k) =
          (ps.map (·.2.1) ++ payloads l) ++ rx :: payloads k := by simp
      rw [h1]
      refine List.Perm.trans ?_ List.perm_middle.symm
      simp

theorem disciplined_rounds (u : Ull) (Es : List DemuxEnv) : Disciplined u (Es.map .demux) := by
  induction Es generalizing u with
  | nil => trivial
  | cons E Es ih =>
    refine ⟨fun link rx n he => ?_, fun v _ _ => ih v⟩
    cases he

theorem Disciplined.rounds {es : List UllEvent} (hd : Disciplined u es) (Es : List DemuxEnv) :
    Disciplined u (es ++ Es.map .demux) := by
  induction es generalizing u with
  | nil => exact disciplined_rounds u Es
  | cons e es ih => exact ⟨hd.1, fun v o hv => ih (hd.2 v o hv)⟩

end

end BlueSwat.Zephyr
