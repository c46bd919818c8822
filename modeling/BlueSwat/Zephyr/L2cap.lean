import BlueSwat.Zephyr.LinkLayer

/-!
# The Zephyr L2CAP hook (`fsm_l2cap_pkt_parser.c`)

`ifw_l2cap_packet_parser_recv` as a function of the static variables, the memory, the connection and
the key pool. The hook looks at a packet without taking anything out of the buffer: it keeps a
cursor, `peek_len_total`, that every look moves on and that nothing sets back.

A call returns `none` when a policy does not return, or when the hook goes through a channel that
the lookup did not find.
-/

set_option autoImplicit false

namespace BlueSwat.Zephyr

open Fsm

abbrev Ram := BitVec 32 → BitVec 8

/-- `sys_le16_to_cpu` of the two octets at `p`. -/
def le16 (mem : Ram) (p : BitVec 32) : BitVec 16 := mem (p + 1) ++ mem p

/-- `bt_addr_le_t`, with the 6 octets of the address as one number. -/
structure BtAddrLe where
  type : BitVec 8
  val : BitVec 48
deriving DecidableEq

def addrLeAt (mem : Ram) (p : BitVec 32) : BtAddrLe where
  type := mem p
  val := mem (p + 6) ++ mem (p + 5) ++ mem (p + 4) ++ mem (p + 3) ++ mem (p + 2) ++ mem (p + 1)

/-- A buffer. `firstWord` is the word at offset 0 of the `struct net_buf`: `frags` as `net/buf.h`
declares it, `data` where a build declares it like `struct net_buf_simple`. -/
structure NetBuf where
  firstWord : BitVec 32
  data : BitVec 32

/-- `struct bt_keys`, as far as the hook reads it. -/
structure BtKeys where
  id : BitVec 8
  addr : BtAddrLe
  encSize : BitVec 8
  flags : BitVec 8
  keys : BitVec 16

def btKeysFindAddr (keyPool : List BtKeys) (id : BitVec 8) (addr : BtAddrLe) : Option BtKeys :=
  keyPool.find? fun k => k.id = id ∧ k.addr = addr

/-- `struct bt_smp`: the method, and `max_key_size` of the pairing request and response. -/
structure BtSmp where
  method : BitVec 8
  reqMaxKeySize : BitVec 8
  rspMaxKeySize : BitVec 8

def getEncryptionKeySize (smp : BtSmp) : BitVec 8 :=
  if smp.reqMaxKeySize < smp.rspMaxKeySize then smp.reqMaxKeySize else smp.rspMaxKeySize

/-- A channel of a connection. `smp` is what the memory at the channel reads as when it is taken for
a `struct bt_smp`, which only the SMP channel is. -/
structure L2capChan where
  rxCid : BitVec 16
  smp : BtSmp

/-- `struct bt_conn`; the `conn` of each of its channels is the connection. -/
structure BtConn where
  id : BitVec 8
  dst : BtAddrLe
  channels : List L2capChan

def btL2capLeLookupRxCid (conn : BtConn) (cid : BitVec 16) : Option L2capChan :=
  conn.channels.find? fun chan => chan.rxCid = cid

/-- What a call of the hook has before it. -/
structure L2capRecv where
  conn : BtConn
  buf : NetBuf
  mem : Ram
  keyPool : List BtKeys

/-- The static variables of the firewall, with `peek_len_total`. -/
structure L2capHook where
  fsm : Hook
  peekLenTotal : BitVec 32

namespace L2capHook

/-- `ifw_net_buf_pull_mem`. Its parameter is a `struct net_buf_simple`, with `data` first; the calls
pass a `struct net_buf`. -/
def ifwNetBufPullMem (buf : NetBuf) (len : BitVec 32) (h : L2capHook) : BitVec 32 × L2capHook :=
  (buf.firstWord + h.peekLenTotal, { h with peekLenTotal := h.peekLenTotal + len })

end L2capHook

/-- The updates of `ifw_smp_ident_addr_info`. -/
def stageBond (smp : BtSmp) (keys : BtKeys) (h : Hook) : Hook :=
  let encSizeBond := getEncryptionKeySize smp
  let methodBond := smp.method
  let h := h.checkUpdate (encSizeBond.setWidth 16) (.dc .smpEncSizePrev)
  let h := h.checkUpdate (methodBond.setWidth 16) (.dc .smpMethodPrev)
  let h := h.checkUpdate keys.keys (.dc .smpKeys)
  let h := h.checkUpdate (keys.encSize.setWidth 16) (.dc .smpEncSize)
  h.checkUpdate (keys.flags.setWidth 16) (.dc .smpKeysFlags)

section
variable (E : Env layout.size) (pkt : L2capRecv)

/-- `ifw_smp_ident_addr_info`; the address is read at the start of the buffer. -/
def ifwSmpIdentAddrInfo (smp : BtSmp) (h : Hook) : Option (Hook × Verdict) :=
  let req := addrLeAt pkt.mem pkt.buf.data
  if pkt.conn.dst ≠ req then
    match btKeysFindAddr pkt.keyPool pkt.conn.id req with
    | none => some (h, .pass)
    | some keys => ((stageBond smp keys h).runVerifier E (.dc .smpKeys)).map fun p => (p.2, p.1)
  else some (h, .pass)

/-- `ifw_bt_smp_recv`; `sizeof(struct bt_smp_hdr)` is 1. -/
def ifwBtSmpRecv (chan : Option L2capChan) (h : L2capHook) : Option (L2capHook × Verdict) :=
  let (hdr, h) := h.ifwNetBufPullMem pkt.buf 1
  if pkt.mem hdr = 0x09 then
    chan.bind fun chan =>
      (ifwSmpIdentAddrInfo E pkt chan.smp h.fsm).map fun p => ({ h with fsm := p.1 }, p.2)
  else some (h, .pass)

/-- `ifw_l2cap_packet_parser_recv`; `sizeof(struct bt_l2cap_hdr)` is 4, with the CID at 2. -/
def ifwL2capPacketParserRecv (h : L2capHook) : Option (L2capHook × Verdict) :=
  let (hdr, h) := h.ifwNetBufPullMem pkt.buf 4
  let cid := le16 pkt.mem (hdr + 2)
  ifwBtSmpRecv E pkt (btL2capLeLookupRxCid pkt.conn cid) h

end

def l2capStep (h : L2capHook) (call : Env layout.size × L2capRecv) :
    Option (L2capHook × Verdict) :=
  ifwL2capPacketParserRecv call.1 call.2 h

def L2capHook.boot (flash : Policy → Nat → BitVec 8) : L2capHook := ⟨.boot flash, 0⟩

end BlueSwat.Zephyr
