import BlueSwat.Fsm.Patch
import BlueSwat.Mynewt.Parsers

/-!
# The Mynewt patch service (`ble_svc_firewall_patch.c`)

A write arrives as a packet, a chain of mbufs with its length in the packet header. The handlers
get at its bytes with `ble_hs_mbuf_to_flat`, which is a parameter of the model (`ToFlat`);
`bleHsMbufToFlat` is the host's.
-/

set_option autoImplicit false

namespace BlueSwat.Mynewt

open Fsm

def OsMbuf.bytes (m : OsMbuf) : List (BitVec 8) := (List.range m.omLen.toNat).map m.omData

/-- A packet; `OS_MBUF_PKTLEN` is the length of its chain. -/
structure Packet where
  chain : List OsMbuf
  pktLen : BitVec 16
  length_chain : (chain.flatMap OsMbuf.bytes).length = pktLen.toNat

def Packet.bytes (om : Packet) : List (BitVec 8) := om.chain.flatMap OsMbuf.bytes

/-- What `ble_hs_mbuf_to_flat` leaves: the memory at `flat`, `*out_copy_len` and its result. -/
structure Flat where
  flat : Nat → BitVec 8
  copyLen : BitVec 16
  rc : Int

/-- `ble_hs_mbuf_to_flat(om, flat, max_len, &len)` as a function of `om`, the memory at `flat` and
`max_len`. -/
abbrev ToFlat := Packet → (Nat → BitVec 8) → BitVec 16 → Flat

/-- `ble_hs_mbuf_to_flat` of the host: a longer packet is cut, so that the result is never
`BLE_HS_EMSGSIZE`. -/
def bleHsMbufToFlat : ToFlat := fun om flat maxLen =>
  let copyLen := if om.pktLen ≤ maxLen then om.pktLen else maxLen
  match osMbufCopydata om.chain 0 copyLen.toNat with
  | none => ⟨flat, 0, 17⟩
  | some bytes => ⟨Ebpf.codeBytes bytes flat, copyLen, if copyLen > maxLen then 4 else 0⟩

def bleAttErrInvalidAttrValueLen : Int := 0x0d
def bleAttErrUnlikely : Int := 0x0e

section
variable (toFlat : ToFlat)

/-- `firewall_patch_handle_header`; `hdr` is what the stack holds in the place of the array. -/
def firewallPatchHandleHeader (hdr : Nat → BitVec 8) (om : Packet) (p : Patch) : Patch × Int :=
  let r := toFlat om hdr 2
  if r.rc ≠ 0 then (p, bleAttErrUnlikely)
  else if r.copyLen ≠ 2 then (p, bleAttErrInvalidAttrValueLen)
  else (p.retarget (r.flat 0) (r.flat 1), 0)

-- a copy that fails may have written to the buffer, behind what is staged
def firewallPatchHandleBody (om : Packet) (p : Patch) : Patch × Int :=
  let chunkLen := om.pktLen
  if p.stagingLen.toNat + chunkLen.toNat > bswatStagingMax then (p, bleAttErrInvalidAttrValueLen)
  else
    let r := toFlat om p.room chunkLen
    if r.rc ≠ 0 then (p.setRoom r.flat, bleAttErrUnlikely)
    else ((p.setRoom r.flat).grow r.copyLen, 0)

end

def firewallPatchHandleCommit (a : Allocs) (om : Packet) (p : Patch) : Patch × Int :=
  if om.pktLen < 1 then (p, bleAttErrInvalidAttrValueLen)
  else
    (p.install (ifwInstallPolicy port layout.size (Registry.registerPolicyIf a.node port) a.copy),
      0)

/-- The write side of `firewall_patch_access`; a write comes with what is on the stack. -/
def patchService (toFlat : ToFlat) : PatchService (Packet × (Nat → BitVec 8)) where
  header := fun w => firewallPatchHandleHeader toFlat w.2 w.1
  body := fun w => firewallPatchHandleBody toFlat w.1
  commit := fun a w => firewallPatchHandleCommit a w.1
  accepts := fun rc => rc = 0

end BlueSwat.Mynewt
