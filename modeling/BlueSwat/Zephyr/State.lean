import BlueSwat.Fsm.PolicyCache

/-!
# The Zephyr FSM state (`firewall/include/fsm_core.h`)

The slots of `struct FsmState`, by class, and their order in the struct. `FsmState` gives each slot
its `int`.
-/

set_option autoImplicit false

namespace BlueSwat.Zephyr

open Fsm Record

inductive SharedState where
  | bdAddr | bonding | sc
deriving DecidableEq, Repr

inductive ConnParam where
  | channelMap | channelHop | scanRspLen | lllInterval
deriving DecidableEq, Repr

inductive DcParam where
  | sn | nesn
  | llcpLenReq | llcpLenAck | llcpLenRspTx | llcpLenState
  | llcpConnParamReq | llcpConnParamAck | llcpConnParamState
  | smpEncSizePrev | smpMethodPrev | smpKeys | smpEncSize | smpKeysFlags
  | dcAnchorState
deriving DecidableEq, Repr

/-- A member of one of the arrays of `struct FsmState`. -/
inductive Slot where
  | core (type : CoreState)
  | shared (type : SharedState)
  | conn (type : ConnParam)
  | dc (type : DcParam)
  | spi (type : SpiParam)
  | hci (type : HciParam)
deriving DecidableEq, Repr

def Slot.cls : Slot → StateClass
  | .core _ => .core
  | .shared _ => .shared
  | .conn _ => .conn
  | .dc _ => .dc
  | .spi _ => .spi
  | .hci _ => .hci

/-- The index of a slot in the array of its class. -/
def Slot.type : Slot → Nat
  | .core t => t.ctorIdx
  | .shared t => t.ctorIdx
  | .conn t => t.ctorIdx
  | .dc t => t.ctorIdx
  | .spi t => t.ctorIdx
  | .hci t => t.ctorIdx

def layout : Layout Slot where
  slots :=
    [.core .llState, .core .pairingMode, .core .pairingMethod, .core .bleRole, .core .ioCapacity,
      .shared .bdAddr, .shared .bonding, .shared .sc,
      .conn .channelMap, .conn .channelHop, .conn .scanRspLen, .conn .lllInterval,
      .dc .sn, .dc .nesn,
      .dc .llcpLenReq, .dc .llcpLenAck, .dc .llcpLenRspTx, .dc .llcpLenState,
      .dc .llcpConnParamReq, .dc .llcpConnParamAck, .dc .llcpConnParamState,
      .dc .smpEncSizePrev, .dc .smpMethodPrev, .dc .smpKeys, .dc .smpEncSize, .dc .smpKeysFlags,
      .dc .dcAnchorState,
      .spi .hciEvtLen, .spi .hciAclLen,
      .hci .hciCmdBuf]
  complete := fun i => by cases i <;> rename_i t <;> cases t <;> decide

abbrev FsmState := Slot → BitVec 32

/-- `IFW_DC_PARAM_NUM` and `PID_NUM`. -/
def port : Port where
  pidNum := 8
  dcParamNum := 15

theorem layout_size : layout.size = 120 := rfl

end BlueSwat.Zephyr
