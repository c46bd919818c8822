import BlueSwat.Lib.LinkQueue
import BlueSwat.Zephyr.Statics

/-!
# The receive path of the controller (`ull.c`, `ull_conn.c`, `memq.c`)

The nodes that the radio side receives go through the queue `memq_ull_rx` to `rx_demux`, which runs
the link-layer hook on the node at the head, hands the node to the upper link layer, and puts what
is left of it into the queue `memq_ll_rx` of the host's thread. The two queues share the memory of
their links: the link that a node came with is the one it goes on with.

Of `ull_conn_rx` the branches are kept and what they depend on is a parameter of the round
(`DemuxEnv`): whether the connection is there, whether reception is paused, and how `ctrl_rx` ends.
Where `ctrl_rx` keeps the node, `ull_conn_rx` stores through the `NULL` that is left to it: there is
no state of the controller behind that store, and the round has no result. A transmission that is to
be acknowledged first takes the round from the node. Types of nodes that `rx_demux_rx` has no `case`
for end in `LL_ASSERT(0)` and are left out.
-/

set_option autoImplicit false

namespace BlueSwat.Zephyr

open Fsm

/-! ## The memory queue -/

/-- The links in memory; their payload is the address of a node. -/
abbrev MemqLinks := LinkQueue.Links Nat Nat

structure Memq where
  head : Nat
  tail : Nat
deriving DecidableEq, Repr

def memqInit (link : Nat) : Memq := ⟨link, link⟩

/-- `memq_enqueue(link, mem, &q.tail)`: the payload goes into the old tail. -/
def memqEnqueue (link mem : Nat) (q : Memq) (links : MemqLinks) : MemqLinks × Memq :=
  (Function.update links q.tail ⟨link, mem⟩, { q with tail := link })

/-- `memq_peek`: the link at the head and its payload. -/
def memqPeek (q : Memq) (links : MemqLinks) : Option (Nat × Nat) :=
  if q.head = q.tail then none else some (q.head, (links q.head).mem)

def memqDequeue (q : Memq) (links : MemqLinks) : Option (Nat × Nat) × Memq :=
  match memqPeek q links with
  | none => (none, q)
  | some p => (some p, { q with head := (links p.1).next })

/-! ## Nodes -/

/-- A node, by its type: `release` is `NODE_RX_TYPE_DC_PDU_RELEASE`, `forThread` any of the types
that go to the thread as they are. -/
inductive RxNode where
  | eventDone
  | connection (lll : LllConn) (ind : ConnectInd)
  | dcPdu (pdu : PduData)
  | release
  | forThread

/-- What the hook sees of a node. -/
def RxNode.view : RxNode → NodeRx
  | .eventDone => .eventDone
  | .connection lll ind => .connection lll ind
  | .dcPdu pdu => .dcPdu pdu
  | .release => .other
  | .forThread => .other

/-- How `ctrl_rx` ends: the PDU is processed, it is to be presented again, or it is processed and
the node kept for later, with `*rx` set to `NULL`. -/
inductive CtrlRx where
  | done | nack | kept
deriving DecidableEq, Repr

/-- What a round of `rx_demux` depends on besides the queues. -/
structure DemuxEnv where
  policies : Env layout.size
  txAck : Bool
  connected : Bool
  pauseRx : Bool
  ctrlRx : CtrlRx

/-- What leaves the receive path: calls of the upper link layer, and a node that the thread takes.
`rx` is the address of the node. -/
inductive RxEffect where
  | eventDone (rx : Nat)
  | connSetup (rx : Nat) (lll : LllConn) (ind : ConnectInd)
  | connRx (pdu : PduData)
  | ctrlRx (pdu : PduData)
  | thread (rx : Nat) (node : RxNode)

structure UllConnRx where
  nack : Bool
  rx : RxNode
  effects : List RxEffect

/-- `ull_conn_rx`. `PDU_DATA_LLID_CTRL` is 3, `PDU_DATA_LLID_RESV` 0. The node of a control PDU is
marked for release whatever `ctrl_rx` did; if it set `*rx` to `NULL`, that is a store through
`NULL`, and the call does not return. -/
def ullConnRx (E : DemuxEnv) (pdu : PduData) : Option UllConnRx :=
  if E.connected = false then some ⟨false, .release, []⟩
  else if pdu.llId = 3 then
    match E.ctrlRx with
    | .done => some ⟨false, .release, [.ctrlRx pdu]⟩
    | .nack => some ⟨true, .release, [.ctrlRx pdu]⟩
    | .kept => none
  else if pdu.llId = 0 then some ⟨false, .release, []⟩
  else some ⟨false, if E.pauseRx then .release else .dcPdu pdu, []⟩

/-! ## The receive path -/

structure Ull where
  links : MemqLinks
  node : Nat → RxNode
  memqUllRx : Memq
  memqLlRx : Memq
  hook : Hook

namespace Ull

def setNode (u : Ull) (rx : Nat) (n : RxNode) : Ull :=
  { u with node := Function.update u.node rx n }

/-- `memq_dequeue(memq_ull_rx.tail, &memq_ull_rx.head, NULL)`. -/
def dequeue (u : Ull) : Ull := { u with memqUllRx := (memqDequeue u.memqUllRx u.links).2 }

/-- `ll_rx_put`. -/
def llRxPut (link rx : Nat) (u : Ull) : Ull :=
  let p := memqEnqueue link rx u.memqLlRx u.links
  { u with links := p.1, memqLlRx := p.2 }

/-- `ull_rx_put`, of a node that the radio side has filled in. -/
def ullRxPut (link rx : Nat) (n : RxNode) (u : Ull) : Ull :=
  let p := memqEnqueue link rx u.memqUllRx u.links
  { u with links := p.1, memqUllRx := p.2, node := Function.update u.node rx n }

end Ull

/-- `rx_demux_rx`, on the node `rx` at the head of the queue. -/
def rxDemuxRx (E : DemuxEnv) (link rx : Nat) (u : Ull) : Option (Ull × List RxEffect) :=
  (ifwLlPacketParserRx E.policies (u.node rx).view u.hook).bind fun p =>
    let u := { u with hook := p.1 }
    let u := match p.2 with
      | .reject => u.setNode rx .release
      | .pass => u
    match u.node rx with
    | .eventDone => some (u.dequeue, [.eventDone rx])
    | .connection lll ind => some (u.dequeue, [.connSetup rx lll ind])
    | .dcPdu pdu =>
      (ullConnRx E pdu).map fun r =>
        let u := u.setNode rx r.rx
        (if r.nack then u else u.dequeue.llRxPut link rx, .connRx pdu :: r.effects)
    | .release => some (u.dequeue.llRxPut link rx, [])
    | .forThread => some (u.dequeue.llRxPut link rx, [])

/-- One round of the loop of `rx_demux`. -/
def rxDemux (E : DemuxEnv) (u : Ull) : Option (Ull × List RxEffect) :=
  match memqPeek u.memqUllRx u.links with
  | none => some (u, [])
  | some p => if E.txAck then some (u, []) else rxDemuxRx E p.1 p.2 u

/-- The thread takes the node at the head of `memq_ll_rx`. -/
def llRxDequeue (u : Ull) : Ull × List RxEffect :=
  let p := memqDequeue u.memqLlRx u.links
  ({ u with memqLlRx := p.2 }, p.1.toList.map fun q => .thread q.2 (u.node q.2))

/-- What can happen, in any order: the radio side puts a node into the queue, a round of `rx_demux`
runs, the thread takes a node. -/
inductive UllEvent where
  | rxPut (link rx : Nat) (n : RxNode)
  | demux (E : DemuxEnv)
  | rxDequeue

def ullStep (u : Ull) : UllEvent → Option (Ull × List RxEffect)
  | .rxPut link rx n => some (u.ullRxPut link rx n, [])
  | .demux E => rxDemux E u
  | .rxDequeue => some (llRxDequeue u)

/-- The queues after `MEMQ_INIT` with two links. -/
def Ull.boot (flash : Policy → Nat → BitVec 8) (ullLink llLink : Nat) : Ull where
  links := fun _ => ⟨0, 0⟩
  node := fun _ => .release
  memqUllRx := memqInit ullLink
  memqLlRx := memqInit llLink
  hook := .boot flash

/-! ## Use of links and nodes -/

/-- The links of a queue, with the one at its tail. -/
inductive Memq.Linked (links : MemqLinks) (q : Memq) : Nat → Prop
  | head : Memq.Linked links q q.head
  | next {a : Nat} : Memq.Linked links q a → a ≠ q.tail → Memq.Linked links q (links a).next

/-- A node lies in a queue. -/
def Memq.Queued (links : MemqLinks) (q : Memq) (rx : Nat) : Prop :=
  ∃ a, Memq.Linked links q a ∧ a ≠ q.tail ∧ (links a).mem = rx

/-- A link and a node that the radio side may use: they are in no queue. -/
structure Ull.Free (u : Ull) (link rx : Nat) : Prop where
  link : ¬ u.memqUllRx.Linked u.links link ∧ ¬ u.memqLlRx.Linked u.links link
  node : ¬ u.memqUllRx.Queued u.links rx ∧ ¬ u.memqLlRx.Queued u.links rx

/-- The radio side uses free links and nodes only. -/
def Disciplined : Ull → List UllEvent → Prop
  | _, [] => True
  | u, e :: es =>
    (∀ link rx n, e = .rxPut link rx n → u.Free link rx) ∧
      ∀ v effects, ullStep u e = some (v, effects) → Disciplined v es

/-- `ctrl_rx` keeps no node. -/
def LeavesNodes (es : List UllEvent) : Prop := ∀ E, .demux E ∈ es → E.ctrlRx ≠ .kept

/-! ## The path as lists -/

/-- The abstract receive path: nodes waiting, nodes for the thread, each with its address, and the
address of a PDU that `ctrl_rx` refused and that is still in front. -/
structure RxPath where
  statics : Statics
  refused : Option Nat
  waiting : List (Nat × RxNode)
  thread : List (Nat × RxNode)

namespace RxPath

def init : RxPath := ⟨.init, none, [], []⟩

/-- The first presentation of the node `n` at `rx`. -/
def present (E : DemuxEnv) (rx : Nat) (n : RxNode) (a : RxPath) :
    Option (RxPath × List RxEffect) :=
  let v := a.statics.step (.rx n.view)
  let a := { a with statics := v.1 }
  match v.2 with
  | .reject => some ({ a with thread := a.thread ++ [(rx, .release)] }, [])
  | .pass =>
    match n with
    | .eventDone => some (a, [.eventDone rx])
    | .connection lll ind => some (a, [.connSetup rx lll ind])
    | .dcPdu pdu =>
      (ullConnRx E pdu).map fun r =>
        (if r.nack then { a with refused := some rx }
          else { a with thread := a.thread ++ [(rx, r.rx)] }, .connRx pdu :: r.effects)
    | .release => some ({ a with thread := a.thread ++ [(rx, .release)] }, [])
    | .forThread => some ({ a with thread := a.thread ++ [(rx, .forThread)] }, [])

def demux (E : DemuxEnv) (a : RxPath) : Option (RxPath × List RxEffect) :=
  if E.txAck then some (a, [])
  else
    match a.refused with
    | some rx => some ({ a with refused := none, thread := a.thread ++ [(rx, .release)] }, [])
    | none =>
      match a.waiting with
      | [] => some (a, [])
      | n :: rest => { a with waiting := rest }.present E n.1 n.2

def step (a : RxPath) : UllEvent → Option (RxPath × List RxEffect)
  | .rxPut _ rx n => some ({ a with waiting := a.waiting ++ [(rx, n)] }, [])
  | .demux E => a.demux E
  | .rxDequeue =>
    match a.thread with
    | [] => some (a, [])
    | n :: rest => some ({ a with thread := rest }, [.thread n.1 n.2])

end RxPath

/-! ## What is handed on -/

/-- The nodes that arrive in a schedule, with their addresses. -/
def arrived (es : List UllEvent) : List (Nat × RxNode) :=
  es.filterMap fun
    | .rxPut _ rx n => some (rx, n)
    | _ => none

/-- The nodes that arrive in a schedule. -/
def arrivals (es : List UllEvent) : List RxNode := (arrived es).map Prod.snd

/-- The calls with which nodes are handed to the upper link layer. -/
def handed (effects : List RxEffect) : List RxNode :=
  effects.filterMap fun
    | .connSetup _ lll ind => some (.connection lll ind)
    | .connRx pdu => some (.dcPdu pdu)
    | _ => none

/-- A node that the upper link layer takes. -/
def RxNode.forUll : RxNode → Bool
  | .connection _ _ => true
  | .dcPdu _ => true
  | _ => false

/-- The nodes among `ns` that the firewall passes, met in state `t`, and that the upper link layer
takes. -/
def passed (t : Statics) : List RxNode → List RxNode
  | [] => []
  | n :: ns =>
    let v := t.step (.rx n.view)
    (if v.2 = .pass ∧ n.forUll then [n] else []) ++ passed v.1 ns

end BlueSwat.Zephyr
