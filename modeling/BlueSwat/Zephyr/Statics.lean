import BlueSwat.Zephyr.Monitor

/-!
# The statics behind the hooks

The monitor counts without a bound; the C text has two `int` counters, of which the policies see the
low 16 bits. `Statics.step` is the monitor with these counters, so that it is exact for any number
of calls: what the hooks remember between calls is the anchor gate and the two counters.
-/

set_option autoImplicit false

namespace BlueSwat.Zephyr

open Fsm

structure Statics where
  anchor : Bool
  len : BitVec 32
  cpr : BitVec 32
deriving DecidableEq, Repr

/-- What a hook remembers for the next call. -/
def Hook.statics (h : Hook) : Statics :=
  ⟨h.core.newFSMState (.dc .dcAnchorState) = 1, h.llcpLenReqPending, h.llcpCprPending⟩

namespace Statics

def init : Statics := ⟨false, 0, 0⟩

/-- The counter as the policy sees it is above 1. -/
def tooMany (pending : BitVec 32) : Bool := 1 < (pending.setWidth 16).toNat

/-- `if (pending > 0) pending--;`. -/
def countDown (pending : BitVec 32) : BitVec 32 :=
  if 0 < pending.toInt then pending - 1 else pending

def ctrl (t : Statics) (pdu : PduData) : Statics × Verdict :=
  match LlctrlType.ofOpcode pdu.opcode with
  | .connUpdateInd => (t, .rejectIf (pdu.interval = 0))
  | .chanMapInd => (t, .rejectIf (Monitor.oneBits pdu.chm < 2))
  | .lengthReq => ({ t with len := t.len + 1 }, .rejectIf (tooMany (t.len + 1)))
  | .lengthRsp => ({ t with len := countDown t.len }, .pass)
  | .connParamReq => ({ t with cpr := t.cpr + 1 }, .rejectIf (tooMany (t.cpr + 1)))
  | .connParamRsp => ({ t with cpr := countDown t.cpr }, .pass)
  | .other => (t, .pass)

def dcPdu (t : Statics) (pdu : PduData) : Statics × Verdict :=
  if t.anchor = true ∧ pdu.nesn = 1 ∧ pdu.sn = 1 then (t, .reject)
  else if pdu.llId = 3 then { t with anchor := false }.ctrl pdu
  else ({ t with anchor := false }, .pass)

def connection (t : Statics) (lll : LllConn) (ind : ConnectInd) : Statics × Verdict :=
  if lll.role = 1 then
    (⟨true, 0, 0⟩, .rejectIf (Monitor.oneBits ind.chanMap < 2 ∨ ind.hop.toNat < 5 ∨
      16 < ind.hop.toNat ∨ ind.interval = 0))
  else (t, .pass)

def step (t : Statics) : LlCall → Statics × Verdict
  | .rx (.connection lll ind) => t.connection lll ind
  | .rx (.dcPdu pdu) => t.dcPdu pdu
  | .rx .eventDone => (t, .pass)
  | .rx .other => (t, .pass)
  | .tx (some pdu) => (t, .rejectIf (pdu.type = 4 ∧ 80 < pdu.len.toNat))
  | .tx none => (t, .pass)

/-- One call of a hook, whatever its surroundings. -/
def run (t : Statics) (call : Env layout.size × LlCall) : Statics × Verdict := t.step call.2

def pending (t : Statics) : Procedure → BitVec 32
  | .length => t.len
  | .connParam => t.cpr

end Statics

end BlueSwat.Zephyr
