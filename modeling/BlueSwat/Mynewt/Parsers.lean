import BlueSwat.Lib.Reactive
import BlueSwat.Mynewt.Core

/-!
# The Mynewt packet parsers

`ifw_adv_ll_parser` (`fsm_ll_parser.c`), `ifw_ll_tx_parser` (`fsm_tx_parser.c`) and `ifw_smp_parser`
(`fsm_smp_parser.c`) as functions of the static variables. A buffer is the function that gives the
octet at each offset from its pointer. A call returns `none` when one of the policies it runs does
not return.
-/

set_option autoImplicit false

namespace BlueSwat.Mynewt

open Fsm

/-! ## Buffers -/

/-- `struct os_mbuf`; a chain is the list of its members. -/
structure OsMbuf where
  omData : Nat → BitVec 8
  omLen : BitVec 16

/-- The first loop of `os_mbuf_copydata`: the mbuf with offset `off`, and the offset in it. -/
def skipMbufs : List OsMbuf → Nat → Option (List OsMbuf × Nat)
  | ms, 0 => some (ms, 0)
  | [], _ + 1 => none
  | m :: ms, off + 1 =>
    if off + 1 < m.omLen.toNat then some (m :: ms, off + 1)
    else skipMbufs ms (off + 1 - m.omLen.toNat)

def copyMbufs : List OsMbuf → Nat → Nat → Option (List (BitVec 8))
  | _, _, 0 => some []
  | [], _, _ + 1 => none
  | m :: ms, off, len + 1 =>
    let count := min (m.omLen.toNat - off) (len + 1)
    (copyMbufs ms 0 (len + 1 - count)).map fun rest =>
      (List.range count).map (fun i => m.omData (off + i)) ++ rest

/-- `os_mbuf_copydata`: the octets copied, or `none` for `-1`. -/
def osMbufCopydata (m : List OsMbuf) (off len : Nat) : Option (List (BitVec 8)) :=
  if len = 0 then some [] else (skipMbufs m off).bind fun p => copyMbufs p.1 p.2 len

/-! ## The parsers -/

structure Hook where
  core : Core
  reg : Registry

namespace Hook

def stateUpdate (state type cls : BitVec 16) (h : Hook) : Hook :=
  { h with core := ifwFsmStateUpdate state type cls h.core }

def checkUpdate (E : Env layout.size) (state type cls : BitVec 16) (h : Hook) :
    Option (Verdict × Hook) :=
  (ifwFsmCheckUpdate h.reg E state type cls h.core).map fun p => (p.1, { h with core := p.2 })

end Hook

/-- The numbers of the slots that the parsers update: class and type. -/
def shared : BitVec 16 := 0
def conn : BitVec 16 := 2
def dc : BitVec 16 := 3
def bdAddr : BitVec 16 := 0
def channelMap : BitVec 16 := 0
def txOpcode : BitVec 16 := 4
def txIsCtrl : BitVec 16 := 5
def smpMaxEncSize : BitVec 16 := 2
def smpMaxEncSizePrev : BitVec 16 := 3

/-- `ifw_ble_ll_conn_periph_start`: the initiator's address is behind the 2 header octets. -/
def ifwBleLlConnPeriphStart (rxbuf : Nat → BitVec 8) (h : Hook) : Hook × Verdict :=
  ((List.range 6).foldl (fun h i =>
    h.stateUpdate ((rxbuf (2 + i)).setWidth 16) (bdAddr + BitVec.ofNat 16 i) shared) h, .pass)

/-- The channel map of a `CONNECT_IND`: 16 octets behind header and addresses. -/
def chanMap (rxbuf : Nat → BitVec 8) : List (BitVec 8) :=
  (List.range 5).map fun i => rxbuf (2 + 6 + 6 + 16 + i)

def chanMapCheck (map : List (BitVec 8)) : BitVec 16 :=
  (map.getD 1 0).setWidth 16 <<< 8 ||| (map.getD 0 0).setWidth 16

section
variable (E : Env layout.size)

/-- `ifw_adv_ll_parser`; `BLE_ADV_PDU_TYPE_CONNECT_IND` is 5. -/
def ifwAdvLlParser (ptype : BitVec 8) (rxbuf : Nat → BitVec 8) (h : Hook) :
    Option (Hook × Verdict) :=
  if ptype = 5 then
    (h.checkUpdate E (chanMapCheck (chanMap rxbuf)) channelMap conn).map fun p =>
      match p.1 with
      | .reject => (p.2, .reject)
      | .pass =>
        match ifwBleLlConnPeriphStart rxbuf p.2 with
        | (h, .reject) => (h, .reject)
        | (h, .pass) => (h, .pass)
  else some (h, .pass)

/-- `ifw_ll_tx_parser`, without the computation of `next_txlen`, which is not used. -/
def ifwLlTxParser (hdrByte : BitVec 8) (omData : Nat → BitVec 8) (h : Hook) : Hook :=
  let llid := hdrByte &&& 0x03
  let isCtrl : BitVec 16 := if llid = 3 then 1 else 0
  let opcode : BitVec 8 := if llid = 3 then omData 0 else 0
  (h.stateUpdate isCtrl txIsCtrl conn).stateUpdate (opcode.setWidth 16) txOpcode conn

/-- The Pairing Request in an SMP buffer, as `ifw_smp_parser` finds it: code 0x01 in the first octet
of the chain, and then `max_enc_key_size` at offset 4 of its first mbuf. -/
def pairingReq : List OsMbuf → Option (BitVec 8)
  | [] => none
  | om :: rest =>
    match osMbufCopydata (om :: rest) 0 1 with
    | some [op] => if op = 0x01 then some (om.omData (1 + 3)) else none
    | _ => none

/-- `ifw_smp_parser`; the empty chain is a null `rx_buf`. -/
def ifwSmpParser (om : List OsMbuf) (h : Hook) : Option (Hook × Verdict) :=
  match pairingReq om with
  | none => some (h, .pass)
  | some maxEncKeySize =>
    (h.checkUpdate E (maxEncKeySize.setWidth 16) smpMaxEncSize dc).map fun p =>
      match p.1 with
      | .reject => (p.2, .reject)
      | .pass => (p.2.stateUpdate (maxEncKeySize.setWidth 16) smpMaxEncSizePrev dc, .pass)

end

inductive Call where
  | adv (ptype : BitVec 8) (rxbuf : Nat → BitVec 8)
  | tx (hdrByte : BitVec 8) (omData : Nat → BitVec 8)
  | smp (om : List OsMbuf)

/-- One call of a parser, in its surroundings. `ifw_ll_tx_parser` returns nothing. -/
def step (h : Hook) (call : Env layout.size × Call) : Option (Hook × Verdict) :=
  match call.2 with
  | .adv ptype rxbuf => ifwAdvLlParser call.1 ptype rxbuf h
  | .tx hdrByte omData => some (ifwLlTxParser hdrByte omData h, .pass)
  | .smp om => ifwSmpParser call.1 om h

/-- The parsers after `ifw_fsm_init` and `ifw_fsm_enable(jit)`. -/
def Hook.boot (flash : Policy → Nat → BitVec 8) (jit : Bool) : Hook where
  core := ifwFsmInit .boot
  reg := ifwFsmEnable flash jit .boot

end BlueSwat.Mynewt
