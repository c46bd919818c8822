import BlueSwat.Zephyr.Channel

/-!
# An abstract monitor of the link layer

What the hooks are for, without FSM slots, policies or bytecode: a state machine that remembers
whether the first data PDU of a connection is still to come, and how many length requests and
connection parameter requests are open.
-/

set_option autoImplicit false

namespace BlueSwat.Zephyr

open Fsm

structure Monitor where
  anchor : Bool
  len : Nat
  cpr : Nat
deriving DecidableEq, Repr

namespace Monitor

def init : Monitor := ⟨false, 0, 0⟩

/-- The bits set in the five octets of a channel map. -/
def oneBits (chanMap : ChanMap) : Nat := chanMap.enabledBelow 40

def ctrl (m : Monitor) (pdu : PduData) : Monitor × Verdict :=
  match LlctrlType.ofOpcode pdu.opcode with
  | .connUpdateInd => (m, .rejectIf (pdu.interval = 0))
  | .chanMapInd => (m, .rejectIf (oneBits pdu.chm < 2))
  | .lengthReq => ({ m with len := m.len + 1 }, .rejectIf (1 < (m.len + 1) % 2 ^ 16))
  | .lengthRsp => ({ m with len := m.len - 1 }, .pass)
  | .connParamReq => ({ m with cpr := m.cpr + 1 }, .rejectIf (1 < (m.cpr + 1) % 2 ^ 16))
  | .connParamRsp => ({ m with cpr := m.cpr - 1 }, .pass)
  | .other => (m, .pass)

def dcPdu (m : Monitor) (pdu : PduData) : Monitor × Verdict :=
  if m.anchor = true ∧ pdu.nesn = 1 ∧ pdu.sn = 1 then (m, .reject)
  else if pdu.llId = 3 then { m with anchor := false }.ctrl pdu
  else ({ m with anchor := false }, .pass)

def connection (m : Monitor) (lll : LllConn) (ind : ConnectInd) : Monitor × Verdict :=
  if lll.role = 1 then
    (⟨true, 0, 0⟩, .rejectIf (oneBits ind.chanMap < 2 ∨ ind.hop.toNat < 5 ∨ 16 < ind.hop.toNat ∨
      ind.interval = 0))
  else (m, .pass)

def step (m : Monitor) : LlCall → Monitor × Verdict
  | .rx (.connection lll ind) => m.connection lll ind
  | .rx (.dcPdu pdu) => m.dcPdu pdu
  | .rx .eventDone => (m, .pass)
  | .rx .other => (m, .pass)
  | .tx (some pdu) => (m, .rejectIf (pdu.type = 4 ∧ 80 < pdu.len.toNat))
  | .tx none => (m, .pass)

/-- One call of a hook, whatever its surroundings. -/
def run (m : Monitor) (call : Env layout.size × LlCall) : Monitor × Verdict := m.step call.2

/-- The open requests stay below the range of `int`. -/
structure Small (m : Monitor) : Prop where
  len : m.len < 2 ^ 31
  cpr : m.cpr < 2 ^ 31

end Monitor

/-! ## The request procedures -/

/-- The two procedures whose duplicate requests the hook is to reject. -/
inductive Procedure where
  | length | connParam
deriving DecidableEq, Repr

def Procedure.req : Procedure → LlctrlType
  | .length => .lengthReq
  | .connParam => .connParamReq

def Procedure.rsp : Procedure → LlctrlType
  | .length => .lengthRsp
  | .connParam => .connParamRsp

def Monitor.pending (m : Monitor) : Procedure → Nat
  | .length => m.len
  | .connParam => m.cpr

/-- A control PDU of a given type is received. -/
def LlCall.isCtrl (type : LlctrlType) : LlCall → Bool
  | .rx (.dcPdu pdu) => pdu.llId = 3 ∧ LlctrlType.ofOpcode pdu.opcode = type
  | _ => false

def LlCall.isConnection : LlCall → Bool
  | .rx (.connection _ _) => true
  | _ => false

/-- A `CONNECTION` node is received in the peripheral role. -/
def LlCall.isPeripheral : LlCall → Bool
  | .rx (.connection lll _) => lll.role = 1
  | _ => false

/-- A request of one of the procedures. -/
def LlCall.isRequest (call : LlCall) : Bool :=
  call.isCtrl Procedure.length.req || call.isCtrl Procedure.connParam.req

end BlueSwat.Zephyr
