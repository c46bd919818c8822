import BlueSwat.Zephyr.Core
import BlueSwat.Lib.Reactive

/-!
# The Zephyr link-layer hook (`fsm_ll_pkt_parser.c`)

`ifw_ll_packet_parser_rx` and `ifw_ll_packet_parser_tx` as functions of the static variables, with
the fields of the nodes and PDUs that they read. A call returns `none` when one of the policies it
runs does not return.
-/

set_option autoImplicit false

namespace BlueSwat.Zephyr

open Fsm

/-! ## Packets -/

/-- A channel map: 5 octets, channel `c` in bit `c % 8` of octet `c / 8`. -/
abbrev ChanMap := Vector (BitVec 8) 5

/-- `struct lll_conn`, as far as the hook and the channel selection use it. -/
structure LllConn where
  role : BitVec 1
  dataChanMap : ChanMap
  dataChanCount : BitVec 6
  dataChanHop : BitVec 8
  interval : BitVec 16

/-- `struct pdu_adv_connect_ind`: the fields the hook checks. -/
structure ConnectInd where
  chanMap : ChanMap
  hop : BitVec 5
  interval : BitVec 16

/-- The `PDU_DATA_LLCTRL_TYPE_*` that the hook has a `case` for. -/
inductive LlctrlType where
  | connUpdateInd | chanMapInd | connParamReq | connParamRsp | lengthReq | lengthRsp | other
deriving DecidableEq, Repr

/-- The `case` of an opcode. -/
def LlctrlType.ofOpcode (opcode : BitVec 8) : LlctrlType :=
  if opcode = 0x00 then .connUpdateInd
  else if opcode = 0x01 then .chanMapInd
  else if opcode = 0x0f then .connParamReq
  else if opcode = 0x10 then .connParamRsp
  else if opcode = 0x14 then .lengthReq
  else if opcode = 0x15 then .lengthRsp
  else .other

/-- `struct pdu_data`: the header fields, the control opcode, and the fields of
`conn_update_ind` and `chan_map_ind` that the hook checks. -/
structure PduData where
  llId : BitVec 2
  nesn : BitVec 1
  sn : BitVec 1
  opcode : BitVec 8
  interval : BitVec 16
  chm : ChanMap

structure PduAdv where
  type : BitVec 4
  len : BitVec 8

/-- A node of the receive queue, by its type. -/
inductive NodeRx where
  | eventDone
  | connection (lll : LllConn) (ind : ConnectInd)
  | dcPdu (pdu : PduData)
  | other

inductive LlCall where
  | rx (node : NodeRx)
  | tx (pdu : Option PduAdv)

/-! ## Counting channels -/

/-- The inner loop of `ifw_count_one`. -/
def countOctet (bite oneCount : BitVec 8) : BitVec 8 :=
  if h : bite = 0 then oneCount
  else countOctet (bite &&& (bite - 1)) (oneCount + 1)
termination_by bite.toNat
decreasing_by
  have h0 : bite.toNat ≠ 0 := fun h0 => h (BitVec.eq_of_toNat_eq h0)
  have h1 : (bite - 1).toNat = bite.toNat - 1 := by
    have := bite.isLt
    rw [BitVec.toNat_sub]
    show (2 ^ 8 - 1 + bite.toNat) % 2 ^ 8 = _
    omega
  have h2 : (bite &&& (bite - 1)).toNat ≤ (bite - 1).toNat := by
    rw [BitVec.toNat_and]
    exact Nat.and_le_right
  omega

def ifwCountOne (octets : ChanMap) : BitVec 8 :=
  octets.toList.foldl (fun oneCount bite => countOctet bite oneCount) 0

/-! ## The hooks -/

/-- The static variables behind the hooks; `lll` is the connection object that the last
`CONNECTION` node points to. -/
structure Hook where
  core : Core
  reg : Registry
  llcpLenReqPending : BitVec 32
  llcpCprPending : BitVec 32
  result : Verdict
  lll : LllConn

namespace Hook

/-- `IFW_FSM_CHECK_UPDATE`; its value is not used. -/
def checkUpdate (h : Hook) (state : BitVec 16) (slot : Slot) : Hook :=
  { h with core := ifwFsmCheckUpdate state slot h.core }

def runVerifier (E : Env layout.size) (slot : Slot) (h : Hook) : Option (Verdict × Hook) :=
  (ifwRunVerifier h.reg E slot h.core).map fun p => (p.1, { h with core := p.2 })

/-- `if (IFW_RUN_VERIFIER(slot)) { result = IFW_OPERATION_REJECT; return; }`, then `k`. -/
def unlessRejected (E : Env layout.size) (slot : Slot) (h : Hook) (k : Hook → Option Hook) :
    Option Hook :=
  (h.runVerifier E slot).bind fun p =>
    match p.1 with
    | .reject => some { p.2 with result := .reject }
    | .pass => k p.2

end Hook

section
variable (E : Env layout.size)

def ifwCtrlRx (pdu : PduData) (h : Hook) : Option Hook :=
  match LlctrlType.ofOpcode pdu.opcode with
  | .connUpdateInd =>
    (h.checkUpdate pdu.interval (.conn .lllInterval)).unlessRejected E (.conn .lllInterval) some
  | .chanMapInd =>
    (h.checkUpdate ((ifwCountOne pdu.chm).setWidth 16) (.conn .channelMap)).unlessRejected E
      (.conn .channelMap) some
  | .lengthReq =>
    let h := { h with llcpLenReqPending := h.llcpLenReqPending + 1 }
    (h.checkUpdate (h.llcpLenReqPending.setWidth 16) (.dc .llcpLenReq)).unlessRejected E
      (.dc .llcpLenReq) some
  | .lengthRsp =>
    some (if 0 < h.llcpLenReqPending.toInt then
      { h with llcpLenReqPending := h.llcpLenReqPending - 1 } else h)
  | .connParamReq =>
    let h := { h with llcpCprPending := h.llcpCprPending + 1 }
    (h.checkUpdate (h.llcpCprPending.setWidth 16) (.dc .llcpConnParamReq)).unlessRejected E
      (.dc .llcpConnParamReq) some
  | .connParamRsp =>
    some (if 0 < h.llcpCprPending.toInt then
      { h with llcpCprPending := h.llcpCprPending - 1 } else h)
  | .other => some h

/-- `ifw_conn_rx`; `PDU_DATA_LLID_CTRL` is 3. -/
def ifwConnRx (pdu : PduData) (h : Hook) : Option Hook :=
  let h := h.checkUpdate (pdu.nesn.setWidth 16) (.dc .nesn)
  let h := h.checkUpdate (pdu.sn.setWidth 16) (.dc .sn)
  h.unlessRejected E (.dc .nesn) fun h =>
    let h := h.checkUpdate 0 (.dc .dcAnchorState)
    if pdu.llId = 3 then ifwCtrlRx E pdu h else some h

/-- `ifw_peripheral_setup` up to its first check: a new connection. -/
def newConnection (lll : LllConn) (ind : ConnectInd) (h : Hook) : Hook :=
  let h := { h with
    lll := { lll with dataChanMap := ind.chanMap }
    llcpLenReqPending := 0
    llcpCprPending := 0 }
  let h := h.checkUpdate 1 (.dc .dcAnchorState)
  { h with lll := { h.lll with dataChanCount := (ifwCountOne h.lll.dataChanMap).setWidth 6 } }

def ifwPeripheralSetup (lll : LllConn) (ind : ConnectInd) (h : Hook) : Option Hook :=
  let h := newConnection lll ind h
  let h := h.checkUpdate (h.lll.dataChanCount.setWidth 16) (.conn .channelMap)
  h.unlessRejected E (.conn .channelMap) fun h =>
    let h := { h with lll := { h.lll with dataChanHop := ind.hop.setWidth 8 } }
    let h := h.checkUpdate (h.lll.dataChanHop.setWidth 16) (.conn .channelHop)
    h.unlessRejected E (.conn .channelHop) fun h =>
      let h := { h with lll := { h.lll with interval := ind.interval } }
      let h := h.checkUpdate h.lll.interval (.conn .lllInterval)
      h.unlessRejected E (.conn .lllInterval) some

/-- `ifw_conn_setup`; `ifw_central_setup` is empty. `IFW_BLE_ROLE_CENTRAL` is 2,
`IFW_BLE_ROLE_PERIPHERAL` 3. -/
def ifwConnSetup (lll : LllConn) (ind : ConnectInd) (h : Hook) : Option Hook :=
  if lll.role = 0 then
    ({ h with lll := lll }.checkUpdate 2 (.core .bleRole)).unlessRejected E (.core .bleRole) some
  else
    (ifwPeripheralSetup E lll ind h).bind fun h =>
      (h.checkUpdate 3 (.core .bleRole)).unlessRejected E (.core .bleRole) some

def ifwLlPacketParserRx (node : NodeRx) (h : Hook) : Option (Hook × Verdict) :=
  let h := { h with result := .pass }
  match node with
  | .eventDone => some (h, .pass)
  | .connection lll ind => (ifwConnSetup E lll ind h).map fun h => (h, h.result)
  | .dcPdu pdu => (ifwConnRx E pdu h).map fun h => (h, h.result)
  | .other => some (h, h.result)

/-- `ifw_ll_packet_parser_tx`; `PDU_ADV_TYPE_SCAN_RSP` is 4. -/
def ifwLlPacketParserTx (pdu : Option PduAdv) (h : Hook) : Option (Hook × Verdict) :=
  match pdu with
  | none => some (h, .pass)
  | some pdu =>
    if pdu.type = 4 then
      ((h.checkUpdate (pdu.len.setWidth 16) (.conn .scanRspLen)).runVerifier E
        (.conn .scanRspLen)).map fun p => (p.2, p.1)
    else some (h, .pass)

end

/-- One call of a hook, in its surroundings. -/
def llStep (h : Hook) (call : Env layout.size × LlCall) : Option (Hook × Verdict) :=
  match call.2 with
  | .rx node => ifwLlPacketParserRx call.1 node h
  | .tx pdu => ifwLlPacketParserTx call.1 pdu h

/-! ## The link -/

/-- What happens on the link of the device: a node is received, a control PDU is transmitted on a
data channel, or a PDU is transmitted on an advertising channel. -/
inductive LinkEvent where
  | rx (node : NodeRx)
  | txCtrl (type : LlctrlType)
  | txAdv (pdu : PduAdv)

/-- The calls of the hooks for an event. `ifw_ll_packet_parser_tx` takes a `struct pdu_adv`: the
PDUs of the data channels are not handed to it. -/
def linkStep (h : Hook) (event : Env layout.size × LinkEvent) : Option (Hook × Option Verdict) :=
  match event.2 with
  | .rx node => (ifwLlPacketParserRx event.1 node h).map fun p => (p.1, some p.2)
  | .txCtrl _ => some (h, none)
  | .txAdv pdu => (ifwLlPacketParserTx event.1 (some pdu) h).map fun p => (p.1, some p.2)

/-- The hooks after `ifw_fsm_init` and `ifw_fsm_enable(false)`. -/
def Hook.boot (flash : Policy → Nat → BitVec 8) : Hook where
  core := ifwFsmInit .boot
  reg := ifwFsmEnable flash false .boot
  llcpLenReqPending := 0
  llcpCprPending := 0
  result := .pass
  lll := ⟨0, Vector.replicate 5 0, 0, 0, 0⟩

end BlueSwat.Zephyr
