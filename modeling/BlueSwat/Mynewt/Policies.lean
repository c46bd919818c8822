import BlueSwat.Mynewt.State

/-!
# The Mynewt policies

The three shipped policies: the C sources (`policy/specification/eBPF_C_code`) as functions of the
FSM state, and the bytecode arrays (`policy/specification/include`), without the final NUL of the
string literal. The arrays of the two key policies are equal.
-/

set_option autoImplicit false

namespace BlueSwat.Mynewt

open Fsm

/-- The shipped policies, in the order of `enum fsm_policy_tag`. -/
inductive Policy where
  | connChanMap | keysizeConfusion | keyEntropyDowngrade
deriving DecidableEq, Repr

def Policy.pid (p : Policy) : Nat := p.ctorIdx

/-! ## Sources -/

def connChanMap (fsm : FsmState) : Verdict :=
  .rejectIf ((fsm (.conn .channelMap)).toInt < 2)

def keysizeConfusion (fsm : FsmState) : Verdict :=
  if fsm (.dc .smpMaxEncSizePrev) = 0 then .pass
  else if (fsm (.dc .smpMaxEncSizePrev)).toInt > (fsm (.dc .smpMaxEncSize)).toInt then .reject
  else .pass

def keyEntropyDowngrade (fsm : FsmState) : Verdict :=
  if fsm (.dc .smpMaxEncSizePrev) = 0 then .pass
  else if fsm (.dc .smpMaxEncSizePrev) ≠ fsm (.dc .smpMaxEncSize) then .reject
  else .pass

def Policy.zephyrFilter : Policy → FsmState → Verdict
  | .connChanMap => Mynewt.connChanMap
  | .keysizeConfusion => Mynewt.keysizeConfusion
  | .keyEntropyDowngrade => Mynewt.keyEntropyDowngrade

/-! ## Bytecode -/

def connChanMapBytes : List (BitVec 8) :=
  [0x61, 0x11, 0x20, 0, 0, 0, 0, 0, 0x67, 0x01, 0, 0, 0x20, 0, 0, 0,
    0xc7, 0x01, 0, 0, 0x20, 0, 0, 0, 0xb7, 0, 0, 0, 0x01, 0, 0, 0,
    0xb7, 0x02, 0, 0, 0x02, 0, 0, 0, 0x6d, 0x12, 0x01, 0, 0, 0, 0, 0,
    0xb7, 0, 0, 0, 0, 0, 0, 0, 0x95, 0, 0, 0, 0, 0, 0, 0]

def keysizeConfusionBytes : List (BitVec 8) :=
  [0xb7, 0, 0, 0, 0, 0, 0, 0, 0x61, 0x12, 0x50, 0, 0, 0, 0, 0,
    0x15, 0x02, 0x04, 0, 0, 0, 0, 0, 0x61, 0x11, 0x4c, 0, 0, 0, 0, 0,
    0xb7, 0, 0, 0, 0x01, 0, 0, 0, 0x5d, 0x12, 0x01, 0, 0, 0, 0, 0,
    0xb7, 0, 0, 0, 0, 0, 0, 0, 0x95, 0, 0, 0, 0, 0, 0, 0]

def keyEntropyDowngradeBytes : List (BitVec 8) :=
  [0xb7, 0, 0, 0, 0, 0, 0, 0, 0x61, 0x12, 0x50, 0, 0, 0, 0, 0,
    0x15, 0x02, 0x04, 0, 0, 0, 0, 0, 0x61, 0x11, 0x4c, 0, 0, 0, 0, 0,
    0xb7, 0, 0, 0, 0x01, 0, 0, 0, 0x5d, 0x12, 0x01, 0, 0, 0, 0, 0,
    0xb7, 0, 0, 0, 0, 0, 0, 0, 0x95, 0, 0, 0, 0, 0, 0, 0]

def Policy.bytecode : Policy → List (BitVec 8)
  | .connChanMap => connChanMapBytes
  | .keysizeConfusion => keysizeConfusionBytes
  | .keyEntropyDowngrade => keyEntropyDowngradeBytes

end BlueSwat.Mynewt
