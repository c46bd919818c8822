import BlueSwat.Zephyr.State

/-!
# The Zephyr policies

The ten shipped policies: the C sources (`policy/ebpf_C_code`) as functions of the FSM state, and
the bytecode arrays (`policy/ebpf_bytecode`), without the final NUL of the string literal.
-/

set_option autoImplicit false

namespace BlueSwat.Zephyr

open Fsm

inductive Policy where
  | connChanMap | connChanHop | lllInterval | dcNesn | llcpLenReq | llcpConnParamReq | scanRspLen
  | smpIdentCheck | spiAclLen | spiEvtLen
deriving DecidableEq, Repr

/-! ## Sources -/

/-- `if (slot > bound) return IFW_OPERATION_REJECT;`. -/
def rejectAbove (slot : Slot) (bound : Int) (fsm : FsmState) : Verdict :=
  .rejectIf (bound < (fsm slot).toInt)

def connChanMap (fsm : FsmState) : Verdict :=
  .rejectIf ((fsm (.conn .channelMap)).toInt < 2)

def connChanHop (fsm : FsmState) : Verdict :=
  .rejectIf ((fsm (.conn .channelHop)).toInt < 5 ∨ (fsm (.conn .channelHop)).toInt > 16)

def lllInterval (fsm : FsmState) : Verdict :=
  .rejectIf (fsm (.conn .lllInterval) = 0)

def dcNesn (fsm : FsmState) : Verdict :=
  .rejectIf (fsm (.dc .dcAnchorState) = 1 ∧ fsm (.dc .nesn) = 1 ∧ fsm (.dc .sn) = 1)

def llcpLenReq : FsmState → Verdict := rejectAbove (.dc .llcpLenReq) 1

def llcpConnParamReq : FsmState → Verdict := rejectAbove (.dc .llcpConnParamReq) 1

/-- `PDU_AC_SIZE_MAX` is 80. -/
def scanRspLen : FsmState → Verdict := rejectAbove (.conn .scanRspLen) 80

/-- `BT_KEYS_LTK_P256 | BT_KEYS_LTK` is 36, `BT_KEYS_AUTHENTICATED` 1, `JUST_WORKS` 0. -/
def smpIdentCheck (fsm : FsmState) : Verdict :=
  if fsm (.dc .smpKeys) &&& 36 = 0 then .pass
  else if (fsm (.dc .smpEncSize)).toInt > (fsm (.dc .smpEncSizePrev)).toInt then .reject
  else if fsm (.dc .smpKeysFlags) &&& 1 ≠ 0 ∧ fsm (.dc .smpMethodPrev) = 0 then .reject
  else .pass

/-- `BT_BUF_RX_SIZE` is 76. -/
def spiAclLen : FsmState → Verdict := rejectAbove (.spi .hciAclLen) 76

def spiEvtLen : FsmState → Verdict := rejectAbove (.spi .hciEvtLen) 76

def Policy.zephyrFilter : Policy → FsmState → Verdict
  | .connChanMap => Zephyr.connChanMap
  | .connChanHop => Zephyr.connChanHop
  | .lllInterval => Zephyr.lllInterval
  | .dcNesn => Zephyr.dcNesn
  | .llcpLenReq => Zephyr.llcpLenReq
  | .llcpConnParamReq => Zephyr.llcpConnParamReq
  | .scanRspLen => Zephyr.scanRspLen
  | .smpIdentCheck => Zephyr.smpIdentCheck
  | .spiAclLen => Zephyr.spiAclLen
  | .spiEvtLen => Zephyr.spiEvtLen

/-! ## Bytecode -/

def connChanMapBytes : List (BitVec 8) :=
  [0x61, 0x11, 0x20, 0, 0, 0, 0, 0, 0x67, 0x01, 0, 0, 0x20, 0, 0, 0,
    0xc7, 0x01, 0, 0, 0x20, 0, 0, 0, 0xb7, 0, 0, 0, 0x01, 0, 0, 0,
    0xb7, 0x02, 0, 0, 0x02, 0, 0, 0, 0x6d, 0x12, 0x01, 0, 0, 0, 0, 0,
    0xb7, 0, 0, 0, 0, 0, 0, 0, 0x95, 0, 0, 0, 0, 0, 0, 0]

def connChanHopBytes : List (BitVec 8) :=
  [0x61, 0x11, 0x24, 0, 0, 0, 0, 0, 0x07, 0x01, 0, 0, 0xfb, 0xff, 0xff, 0xff,
    0x67, 0x01, 0, 0, 0x20, 0, 0, 0, 0x77, 0x01, 0, 0, 0x20, 0, 0, 0,
    0xb7, 0, 0, 0, 0x01, 0, 0, 0, 0x25, 0x01, 0x01, 0, 0x0b, 0, 0, 0,
    0xb7, 0, 0, 0, 0, 0, 0, 0, 0x95, 0, 0, 0, 0, 0, 0, 0]

def lllIntervalBytes : List (BitVec 8) :=
  [0x61, 0x11, 0x2c, 0, 0, 0, 0, 0, 0xb7, 0, 0, 0, 0x01, 0, 0, 0,
    0x15, 0x01, 0x01, 0, 0, 0, 0, 0, 0xb7, 0, 0, 0, 0, 0, 0, 0,
    0x95, 0, 0, 0, 0, 0, 0, 0]

def dcNesnBytes : List (BitVec 8) :=
  [0x61, 0x12, 0x68, 0, 0, 0, 0, 0, 0x55, 0x02, 0x05, 0, 0x01, 0, 0, 0,
    0x61, 0x12, 0x34, 0, 0, 0, 0, 0, 0x55, 0x02, 0x03, 0, 0x01, 0, 0, 0,
    0xb7, 0, 0, 0, 0x01, 0, 0, 0, 0x61, 0x11, 0x30, 0, 0, 0, 0, 0,
    0x15, 0x01, 0x01, 0, 0x01, 0, 0, 0, 0xb7, 0, 0, 0, 0, 0, 0, 0,
    0x95, 0, 0, 0, 0, 0, 0, 0]

def llcpLenReqBytes : List (BitVec 8) :=
  [0x61, 0x11, 0x38, 0, 0, 0, 0, 0, 0x67, 0x01, 0, 0, 0x20, 0, 0, 0,
    0xc7, 0x01, 0, 0, 0x20, 0, 0, 0, 0xb7, 0, 0, 0, 0x01, 0, 0, 0,
    0x65, 0x01, 0x01, 0, 0x01, 0, 0, 0, 0xb7, 0, 0, 0, 0, 0, 0, 0,
    0x95, 0, 0, 0, 0, 0, 0, 0]

def llcpConnParamReqBytes : List (BitVec 8) :=
  [0x61, 0x11, 0x48, 0, 0, 0, 0, 0, 0x67, 0x01, 0, 0, 0x20, 0, 0, 0,
    0xc7, 0x01, 0, 0, 0x20, 0, 0, 0, 0xb7, 0, 0, 0, 0x01, 0, 0, 0,
    0x65, 0x01, 0x01, 0, 0x01, 0, 0, 0, 0xb7, 0, 0, 0, 0, 0, 0, 0,
    0x95, 0, 0, 0, 0, 0, 0, 0]

def scanRspLenBytes : List (BitVec 8) :=
  [0x61, 0x11, 0x28, 0, 0, 0, 0, 0, 0x67, 0x01, 0, 0, 0x20, 0, 0, 0,
    0xc7, 0x01, 0, 0, 0x20, 0, 0, 0, 0xb7, 0, 0, 0, 0x01, 0, 0, 0,
    0x65, 0x01, 0x01, 0, 0x50, 0, 0, 0, 0xb7, 0, 0, 0, 0, 0, 0, 0,
    0x95, 0, 0, 0, 0, 0, 0, 0]

def smpIdentCheckBytes : List (BitVec 8) :=
  [0xb7, 0, 0, 0, 0, 0, 0, 0, 0x61, 0x12, 0x5c, 0, 0, 0, 0, 0,
    0x57, 0x02, 0, 0, 0x24, 0, 0, 0, 0x15, 0x02, 0x0e, 0, 0, 0, 0, 0,
    0xb7, 0, 0, 0, 0x01, 0, 0, 0, 0x61, 0x12, 0x54, 0, 0, 0, 0, 0,
    0x67, 0x02, 0, 0, 0x20, 0, 0, 0, 0xc7, 0x02, 0, 0, 0x20, 0, 0, 0,
    0x61, 0x13, 0x60, 0, 0, 0, 0, 0, 0x67, 0x03, 0, 0, 0x20, 0, 0, 0,
    0xc7, 0x03, 0, 0, 0x20, 0, 0, 0, 0x6d, 0x23, 0x06, 0, 0, 0, 0, 0,
    0x61, 0x12, 0x64, 0, 0, 0, 0, 0, 0x57, 0x02, 0, 0, 0x01, 0, 0, 0,
    0x15, 0x02, 0x02, 0, 0, 0, 0, 0, 0x61, 0x11, 0x58, 0, 0, 0, 0, 0,
    0x15, 0x01, 0x01, 0, 0, 0, 0, 0, 0xb7, 0, 0, 0, 0, 0, 0, 0,
    0x95, 0, 0, 0, 0, 0, 0, 0]

def spiAclLenBytes : List (BitVec 8) :=
  [0x61, 0x11, 0x70, 0, 0, 0, 0, 0, 0x67, 0x01, 0, 0, 0x20, 0, 0, 0,
    0xc7, 0x01, 0, 0, 0x20, 0, 0, 0, 0xb7, 0, 0, 0, 0x01, 0, 0, 0,
    0x65, 0x01, 0x01, 0, 0x4c, 0, 0, 0, 0xb7, 0, 0, 0, 0, 0, 0, 0,
    0x95, 0, 0, 0, 0, 0, 0, 0]

def spiEvtLenBytes : List (BitVec 8) :=
  [0x61, 0x11, 0x6c, 0, 0, 0, 0, 0, 0x67, 0x01, 0, 0, 0x20, 0, 0, 0,
    0xc7, 0x01, 0, 0, 0x20, 0, 0, 0, 0xb7, 0, 0, 0, 0x01, 0, 0, 0,
    0x65, 0x01, 0x01, 0, 0x4c, 0, 0, 0, 0xb7, 0, 0, 0, 0, 0, 0, 0,
    0x95, 0, 0, 0, 0, 0, 0, 0]

def Policy.bytecode : Policy → List (BitVec 8)
  | .connChanMap => connChanMapBytes
  | .connChanHop => connChanHopBytes
  | .lllInterval => lllIntervalBytes
  | .dcNesn => dcNesnBytes
  | .llcpLenReq => llcpLenReqBytes
  | .llcpConnParamReq => llcpConnParamReqBytes
  | .scanRspLen => scanRspLenBytes
  | .smpIdentCheck => smpIdentCheckBytes
  | .spiAclLen => spiAclLenBytes
  | .spiEvtLen => spiEvtLenBytes

end BlueSwat.Zephyr
