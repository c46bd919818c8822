import BlueSwat.Fsm.PolicyCache

/-!
# The Mynewt FSM state (`firewall/include/fsm_core.h`)

The slots of the Mynewt `struct FsmState`, which differ from the Zephyr ones: the peer address takes
six shared slots, and there are slots for transmitted PDUs and for SMP key sizes.
-/

set_option autoImplicit false

namespace BlueSwat.Mynewt

open Fsm Record

/-- `IFW_SHARED_STATE`; octet `i` of the peer address is at `BD_ADDR + i`. -/
inductive SharedState where
  | bdAddr0 | bdAddr1 | bdAddr2 | bdAddr3 | bdAddr4 | bdAddr5 | bonding | sc
deriving DecidableEq, Repr

inductive ConnParam where
  | channelMap | channelHop | scanRspLen | lllInterval | txOpcode | txIsCtrl
deriving DecidableEq, Repr

inductive DcParam where
  | sn | nesn | smpMaxEncSize | smpMaxEncSizePrev
deriving DecidableEq, Repr

/-- A member of one of the arrays of `struct FsmState`. -/
inductive Slot where
  | core (type : CoreState)
  | shared (type : SharedState)
  | conn (type : ConnParam)
  | dc (type : DcParam)
  | spi (type : SpiParam)
  | hci (type : HciParam)
deriving DecidableEq, Repr

def Slot.cls : Slot → StateClass
  | .core _ => .core
  | .shared _ => .shared
  | .conn _ => .conn
  | .dc _ => .dc
  | .spi _ => .spi
  | .hci _ => .hci

/-- The index of a slot in the array of its class. -/
def Slot.type : Slot → Nat
  | .core t => t.ctorIdx
  | .shared t => t.ctorIdx
  | .conn t => t.ctorIdx
  | .dc t => t.ctorIdx
  | .spi t => t.ctorIdx
  | .hci t => t.ctorIdx

def layout : Layout Slot where
  slots :=
    [.core .llState, .core .pairingMode, .core .pairingMethod, .core .bleRole, .core .ioCapacity,
      .shared .bdAddr0, .shared .bdAddr1, .shared .bdAddr2, .shared .bdAddr3, .shared .bdAddr4,
      .shared .bdAddr5, .shared .bonding, .shared .sc,
      .conn .channelMap, .conn .channelHop, .conn .scanRspLen, .conn .lllInterval,
      .conn .txOpcode, .conn .txIsCtrl,
      .dc .sn, .dc .nesn, .dc .smpMaxEncSize, .dc .smpMaxEncSizePrev,
      .spi .hciEvtLen, .spi .hciAclLen,
      .hci .hciCmdBuf]
  complete := fun i => by cases i <;> rename_i t <;> cases t <;> decide

/-- The slot of a class and a type, as `ifw_fsm_check_update` and `ifw_fsm_state_update` test them:
a type below the length of the array of its class. -/
def slotAt (cls type : BitVec 16) : Option Slot :=
  layout.slots.find? fun slot =>
    slot.cls.ctorIdx == cls.toNat && slot.type == type.toNat

abbrev FsmState := Slot → BitVec 32

/-- `IFW_DC_PARAM_NUM` and `PID_NUM`. -/
def port : Port where
  pidNum := 3
  dcParamNum := 4

theorem layout_size : layout.size = 104 := rfl

end BlueSwat.Mynewt
