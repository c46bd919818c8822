import BlueSwat.Fsm.Patch
import BlueSwat.Zephyr.State

/-!
# The Zephyr patch service (`firewall_patch.c`)
-/

set_option autoImplicit false

namespace BlueSwat.Zephyr

open Fsm

/-- The arguments of a GATT write callback that the handlers look at. -/
structure GattWrite where
  buf : Nat → BitVec 8
  len : BitVec 16
  offset : BitVec 16

/-- `BT_GATT_ERR(BT_ATT_ERR_INVALID_OFFSET)`. -/
def invalidOffset : Int := -0x07

/-- `BT_GATT_ERR(BT_ATT_ERR_INVALID_ATTRIBUTE_LEN)`. -/
def invalidAttributeLen : Int := -0x0d

def writeHeader (w : GattWrite) (p : Patch) : Patch × Int :=
  if w.offset ≠ 0 then (p, invalidOffset)
  else if w.len ≠ 2 then (p, invalidAttributeLen)
  else (p.retarget (w.buf 0) (w.buf 1), w.len.toNat)

-- `staging_len + len` is an `int`
def writeBody (w : GattWrite) (p : Patch) : Patch × Int :=
  if w.offset ≠ 0 then (p, invalidOffset)
  else if p.stagingLen.toNat + w.len.toNat > bswatStagingMax then (p, invalidAttributeLen)
  else ((p.setRoom (memcpy p.room w.buf w.len.toNat)).grow w.len, w.len.toNat)

def writeCommit (a : Allocs) (w : GattWrite) (p : Patch) : Patch × Int :=
  if w.offset ≠ 0 ∨ w.len < 1 then (p, invalidOffset)
  else
    (p.install (ifwInstallPolicy port layout.size (Registry.registerPolicy port) a.copy),
      w.len.toNat)

/-- A callback returns the number of bytes it took, or a negative error. -/
def patchService : PatchService GattWrite where
  header := writeHeader
  body := writeBody
  commit := writeCommit
  accepts := fun rc => 0 ≤ rc

end BlueSwat.Zephyr
