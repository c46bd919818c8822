import BlueSwat.Zephyr.L2cap
import BlueSwat.Zephyr.Proof.Refinement

/-!
# What the L2CAP hook answers

`l2capStep_booted`: the verdict on a packet is a function of the packet and of the pointer where the
hook looks for its header, the first word of the buffer plus `peek_len_total`. The staged state does
not come in: the hook sets every slot that its policy reads. The pointer moves on by 5 with every
packet (`runs_peekLenTotal`), and the address that is looked up in the key pool is not found through
it but at the start of the data.
-/

set_option autoImplicit false

namespace BlueSwat.Zephyr

open Ebpf Fsm Reactive

/-! ## The policy on the slots that the hook sets -/

/-- The bond of `keys` has an LTK and is stronger than what the pairing of `smp` gives: a longer
key, or authenticated where the pairing is JustWorks. -/
def BtKeys.outranks (keys : BtKeys) (smp : BtSmp) : Bool :=
  keys.keys &&& 36 ≠ 0 ∧
    (getEncryptionKeySize smp < keys.encSize ∨ keys.flags &&& 1 ≠ 0 ∧ smp.method = 0)

theorem setWidth_and_eq_zero {w n : Nat} (h : w ≤ n) (x m : BitVec w) :
    x.setWidth n &&& m.setWidth n = 0 ↔ x &&& m = 0 := by
  rw [← BitVec.setWidth_and, ← BitVec.toNat_inj, ← BitVec.toNat_inj,
    BitVec.toNat_setWidth_of_le h]
  rfl

/-- An octet on its way to a slot. -/
theorem octet_setWidth (v : BitVec 8) : (v.setWidth 16).setWidth 32 = v.setWidth 32 := by
  apply BitVec.eq_of_toNat_eq
  have := v.isLt
  simp only [BitVec.toNat_setWidth]
  omega

theorem toInt_octet (v : BitVec 8) : (v.setWidth 32).toInt = v.toNat := by
  rw [← octet_setWidth, toInt_setWidth_32, BitVec.toNat_setWidth_of_le (by decide)]

theorem stageBond_booted {flash : Policy → Nat → BitVec 8} {h : Hook} (hb : Booted flash h)
    (smp : BtSmp) (keys : BtKeys) : Booted flash (stageBond smp keys h) :=
  ((((hb.checkUpdate _ _).checkUpdate _ _).checkUpdate _ _).checkUpdate _ _).checkUpdate _ _

theorem shippedVerdict_stageBond {flash : Policy → Nat → BitVec 8} {h : Hook}
    (hb : Booted flash h) (smp : BtSmp) (keys : BtKeys) :
    shippedVerdict (.dc .smpKeys) (stageBond smp keys h).core.newFSMState =
      .rejectIf (keys.outranks smp) := by
  have hkeys : keys.keys.setWidth 32 &&& 36 = 0 ↔ keys.keys &&& 36 = 0 :=
    setWidth_and_eq_zero (by decide) keys.keys 36
  have hflags : keys.flags.setWidth 32 &&& 1 = 0 ↔ keys.flags &&& 1 = 0 :=
    setWidth_and_eq_zero (by decide) keys.flags 1
  have hmethod : smp.method.setWidth 32 = (0 : BitVec 32) ↔ smp.method = 0 := by
    rw [← BitVec.toNat_inj, ← BitVec.toNat_inj, BitVec.toNat_setWidth_of_le (by decide)]
    rfl
  have hsize : (keys.encSize.setWidth 32).toInt > ((getEncryptionKeySize smp).setWidth 32).toInt ↔
      getEncryptionKeySize smp < keys.encSize := by
    rw [toInt_octet, toInt_octet, BitVec.lt_def]
    omega
  show smpIdentCheck _ = _
  simp only [stageBond, Hook.checkUpdate, ifwFsmCheckUpdate, hb.fsmNewInit, Bool.false_eq_true,
    smpIdentCheck, FsmState.set, reduceCtorEq, Slot.dc.injEq, if_true, if_false,
    octet_setWidth, ne_eq, hkeys, hflags, hmethod, hsize, BtKeys.outranks]
  by_cases h1 : keys.keys &&& 36 = 0
  · rw [if_pos h1, Verdict.rejectIf_neg fun h => h.1 h1]
  rw [if_neg h1]
  by_cases h2 : getEncryptionKeySize smp < keys.encSize
  · rw [if_pos h2, Verdict.rejectIf_pos ⟨h1, .inl h2⟩]
  rw [if_neg h2]
  by_cases h3 : ¬ keys.flags &&& 1 = 0 ∧ smp.method = 0
  · rw [if_pos h3, Verdict.rejectIf_pos ⟨h1, .inr h3⟩]
  · rw [if_neg h3, Verdict.rejectIf_neg fun h => h.2.elim h2 h3]

/-! ## One packet -/

/-- The pairing of `smp` would weaken the bond of another device, `addr`. -/
def BtConn.weakens (conn : BtConn) (keyPool : List BtKeys) (smp : BtSmp) (addr : BtAddrLe) : Bool :=
  addr ≠ conn.dst ∧ (btKeysFindAddr keyPool conn.id addr).any (·.outranks smp)

/-- The SMP context for an Identity Address Information packet with its header at `p`: the one of
the channel that the CID names. -/
def L2capRecv.identSmp (pkt : L2capRecv) (p : BitVec 32) : Option BtSmp :=
  (btL2capLeLookupRxCid pkt.conn (le16 pkt.mem (p + 2))).map (·.smp)

/-- The verdict when the header is looked for at `p`. -/
def L2capRecv.verdictAt (pkt : L2capRecv) (p : BitVec 32) : Option Verdict :=
  if pkt.mem (p + 4) = 0x09 then
    (pkt.identSmp p).map fun smp =>
      .rejectIf (pkt.conn.weakens pkt.keyPool smp (addrLeAt pkt.mem pkt.buf.data))
  else some .pass

section
variable {flash : Policy → Nat → BitVec 8} (E : Env layout.size) (pkt : L2capRecv)

theorem ifwSmpIdentAddrInfo_booted {h : Hook} (hb : Booted flash h) (smp : BtSmp) :
    ∃ h', ifwSmpIdentAddrInfo E pkt smp h =
        some (h', .rejectIf
          (pkt.conn.weakens pkt.keyPool smp (addrLeAt pkt.mem pkt.buf.data))) ∧
      Booted flash h' := by
  unfold ifwSmpIdentAddrInfo BtConn.weakens
  generalize addrLeAt pkt.mem pkt.buf.data = req
  by_cases hdst : pkt.conn.dst ≠ req
  · dsimp only
    rw [if_pos hdst]
    cases btKeysFindAddr pkt.keyPool pkt.conn.id req with
    | none => exact ⟨h, by simp [Verdict.rejectIf], hb⟩
    | some keys =>
      have hb' := stageBond_booted hb smp keys
      refine ⟨stageBond smp keys h, ?_, hb'⟩
      simp [runVerifier_booted hb', shippedVerdict_stageBond hb, hdst.symm]
  · exact ⟨h, by simp [Verdict.rejectIf, not_not.1 hdst], hb⟩

/-- **A packet.** The verdict depends on where the header is looked for; each packet moves the
cursor on by the 4 octets of the L2CAP header and the SMP code. -/
theorem l2capStep_booted {h : L2capHook} (hb : Booted flash h.fsm) :
    (l2capStep h (E, pkt)).map (·.2) = pkt.verdictAt (pkt.buf.firstWord + h.peekLenTotal) ∧
    ∀ h' v, l2capStep h (E, pkt) = some (h', v) →
      Booted flash h'.fsm ∧ h'.peekLenTotal = h.peekLenTotal + 5 := by
  have hcur : h.peekLenTotal + 4 + 1 = h.peekLenTotal + 5 := BitVec.add_assoc _ 4 1
  have hcode : pkt.buf.firstWord + (h.peekLenTotal + 4) = pkt.buf.firstWord + h.peekLenTotal + 4 :=
    (BitVec.add_assoc _ _ _).symm
  simp only [l2capStep, ifwL2capPacketParserRecv, ifwBtSmpRecv, L2capHook.ifwNetBufPullMem, hcur,
    hcode, L2capRecv.verdictAt, L2capRecv.identSmp]
  by_cases h9 : pkt.mem (pkt.buf.firstWord + h.peekLenTotal + 4) = 0x09
  · rw [if_pos h9, if_pos h9]
    cases btL2capLeLookupRxCid pkt.conn (le16 pkt.mem (pkt.buf.firstWord + h.peekLenTotal + 2)) with
    | none => exact ⟨rfl, fun _ _ hno => nomatch hno⟩
    | some chan =>
      obtain ⟨f, hf, hbf⟩ := ifwSmpIdentAddrInfo_booted E pkt hb chan.smp
      simp only [Option.bind_some, hf, Option.map_some, Option.some.injEq, Prod.mk.injEq]
      refine ⟨trivial, ?_⟩
      rintro h' v ⟨rfl, -⟩
      exact ⟨hbf, rfl⟩
  · rw [if_neg h9, if_neg h9]
    refine ⟨rfl, ?_⟩
    rintro h' v ⟨⟩
    exact ⟨hb, rfl⟩

end

theorem l2capStep_of_verdictAt {flash : Policy → Nat → BitVec 8} {h : L2capHook} {v : Verdict}
    (E : Env layout.size) {pkt : L2capRecv} (hb : Booted flash h.fsm)
    (hv : pkt.verdictAt (pkt.buf.firstWord + h.peekLenTotal) = some v) :
    ∃ h', l2capStep h (E, pkt) = some (h', v) ∧ Booted flash h'.fsm ∧
      h'.peekLenTotal = h.peekLenTotal + 5 := by
  have hstep := l2capStep_booted E pkt hb
  rw [hv] at hstep
  obtain ⟨⟨h', v'⟩, heq, ⟨⟩⟩ := Option.map_eq_some_iff.1 hstep.1
  exact ⟨h', heq, hstep.2 h' _ heq⟩

/-! ## Runs -/

/-- **The cursor** counts the packets, 5 for each. -/
theorem runs_peekLenTotal {flash : Policy → Nat → BitVec 8} {h h' : L2capHook}
    {calls : List (Env layout.size × L2capRecv)} {vs : List Verdict} (hb : Booted flash h.fsm)
    (hr : runs l2capStep h calls = some (h', vs)) :
    Booted flash h'.fsm ∧
      h'.peekLenTotal = h.peekLenTotal + BitVec.ofNat 32 (5 * calls.length) := by
  induction calls generalizing h vs with
  | nil =>
    cases hr
    exact ⟨hb, (BitVec.add_zero _).symm⟩
  | cons call calls ih =>
    obtain ⟨⟨h1, v⟩, hstep, hrest⟩ := Option.bind_eq_some_iff.1 hr
    obtain ⟨⟨h2, ws⟩, hruns, ⟨⟩⟩ := Option.map_eq_some_iff.1 hrest
    obtain ⟨hb1, hcur⟩ := (l2capStep_booted call.1 call.2 hb).2 h1 v hstep
    obtain ⟨hb2, hcur2⟩ := ih hb1 hruns
    refine ⟨hb2, ?_⟩
    rw [hcur2, hcur, BitVec.add_assoc, List.length_cons]
    congr 1
    rw [Nat.mul_succ, Nat.add_comm, BitVec.ofNat_add]
    rfl

/-! ## The header of the packet -/

/-- Where the hook looks for the L2CAP header of a packet. -/
def L2capHook.l2capHdr (h : L2capHook) (buf : NetBuf) : BitVec 32 := (h.ifwNetBufPullMem buf 4).1

/-- Where it then looks for the SMP code. -/
def L2capHook.smpHdr (h : L2capHook) (buf : NetBuf) : BitVec 32 :=
  ((h.ifwNetBufPullMem buf 4).2.ifwNetBufPullMem buf 1).1

/-- The hook in state `h` judges the packet by its own header: it looks at the start of the data,
and the verdict is the one for the header there, whatever the state. -/
structure OwnHeader (h : L2capHook) (pkt : L2capRecv) : Prop where
  l2capHdr : h.l2capHdr pkt.buf = pkt.buf.data
  smpHdr : h.smpHdr pkt.buf = pkt.buf.data + 4
  verdict : ∀ E, (l2capStep h (E, pkt)).map (·.2) = pkt.verdictAt pkt.buf.data

/-- **When a packet is judged by its own header**: the first word of its buffer is behind the data
pointer by 5 for each packet before it. For the data pointer itself that is no packet, or a multiple
of 2 ^ 32. -/
theorem ownHeader_iff {flash : Policy → Nat → BitVec 8} {h₀ h : L2capHook}
    {calls : List (Env layout.size × L2capRecv)} {vs : List Verdict} (hb : Booted flash h₀.fsm)
    (h0 : h₀.peekLenTotal = 0) (hr : runs l2capStep h₀ calls = some (h, vs)) (pkt : L2capRecv) :
    OwnHeader h pkt ↔
      pkt.buf.firstWord + BitVec.ofNat 32 (5 * calls.length) = pkt.buf.data := by
  obtain ⟨hb', hcur⟩ := runs_peekLenTotal hb hr
  rw [h0, show (0 : BitVec 32) + _ = _ from BitVec.zero_add _] at hcur
  rw [← hcur]
  constructor
  · intro hown
    exact hown.l2capHdr
  · intro hdata
    refine ⟨hdata, ?_, fun E => ?_⟩
    · show pkt.buf.firstWord + (h.peekLenTotal + 4) = pkt.buf.data + 4
      rw [← hdata, BitVec.add_assoc]
    · rw [(l2capStep_booted E pkt hb').1, hdata]

/-- An Identity Address Information packet of the SMP channel, at `0x20000100`: L2CAP header, code,
and the random address `66:55:44:33:22:11`. -/
def identRam : Ram := fun a =>
  codeBytes [0x08, 0x00, 0x06, 0x00, 0x09, 0x01, 0x11, 0x22, 0x33, 0x44, 0x55, 0x66] (fun _ => 0)
    (a - 0x20000100).toNat

/-- The packet on a connection that pairs with JustWorks and 7 octets of key; each of `addrs` has a
bond with an LTK of 16. -/
def identRecv (firstWord : BitVec 32) (addrs : List BtAddrLe) : L2capRecv where
  conn := ⟨0, ⟨0, 0⟩, [⟨4, ⟨0, 0, 0⟩⟩, ⟨6, ⟨0, 7, 16⟩⟩]⟩
  buf := ⟨firstWord, 0x20000100⟩
  mem := identRam
  keyPool := addrs.map fun addr => ⟨0, addr, 16, 0, 4⟩

/-- The address of the packet, and what stands at the start of its data. -/
def payloadAddr : BtAddrLe := ⟨0x01, 0x665544332211⟩
def headerAddr : BtAddrLe := ⟨0x08, 0x110109000600⟩

/-- The first packet after boot is judged by its own header if the data pointer is the first word of
its buffer, and not if that word is `frags = NULL`; nor is one behind another packet. -/
theorem ownHeader_iff_first :
    (OwnHeader (.boot fun _ _ => 0) (identRecv 0x20000100 [payloadAddr]) ∧
      ¬ OwnHeader (.boot fun _ _ => 0) (identRecv 0 [payloadAddr])) ∧
    ¬ OwnHeader ⟨.boot fun _ _ => 0, 5⟩ (identRecv 0 [payloadAddr]) := by
  have hfirst := @ownHeader_iff (fun _ _ => 0) (.boot fun _ _ => 0) _ [] [] (booted_boot _) rfl rfl
  refine ⟨⟨(hfirst _).2 (by decide), fun hown => absurd ((hfirst _).1 hown) (by decide)⟩,
    fun hown => ?_⟩
  have hsecond := @ownHeader_iff (fun _ _ => 0) (.boot fun _ _ => 0) ⟨.boot fun _ _ => 0, 5⟩
    [(ramEnv, identRecv 0 [payloadAddr])] [.pass] (booted_boot _) rfl rfl
  exact absurd ((hsecond _).1 hown) (by decide)

/-- The same packet twice, with the data pointer as the first word of its buffer: rejected, then
passed. With no fragments, where the first word is `NULL`, not even the first packet is judged by
its own header. -/
theorem identRecv_twice :
    (∃ h, runs l2capStep (.boot fun _ _ => 0)
        [(ramEnv, identRecv 0x20000100 [headerAddr]), (ramEnv, identRecv 0x20000100 [headerAddr])] =
      some (h, [.reject, .pass])) ∧
    ¬ OwnHeader (.boot fun _ _ => 0) (identRecv 0 [headerAddr]) := by
  refine ⟨?_, fun hown => absurd hown.l2capHdr (by decide)⟩
  have hb : Booted (fun _ _ => 0) (L2capHook.boot fun _ _ => 0).fsm := booted_boot _
  obtain ⟨h1, hs1, hb1, hcur1⟩ := l2capStep_of_verdictAt ramEnv hb
    (show (identRecv 0x20000100 [headerAddr]).verdictAt (0x20000100 + 0) = some .reject by decide)
  have hv2 : (identRecv 0x20000100 [headerAddr]).verdictAt (0x20000100 + h1.peekLenTotal) =
      some .pass := by
    rw [hcur1]
    decide
  obtain ⟨h2, hs2, -⟩ := l2capStep_of_verdictAt ramEnv hb1 hv2
  exact ⟨h2, by rw [runs_cons hs1, runs_cons hs2]; rfl⟩

/-! ## The bond-downgrade check -/

/-- The context of the packet as the hook takes it with the cursor at 0. -/
def L2capRecv.seen (pkt : L2capRecv) : Option BtSmp :=
  if pkt.mem (pkt.buf.firstWord + 4) = 0x09 then pkt.identSmp pkt.buf.firstWord else none

/-- The context of the packet, if it is an Identity Address Information packet of the SMP
channel. -/
def L2capRecv.sent (pkt : L2capRecv) : Option BtSmp :=
  if le16 pkt.mem (pkt.buf.data + 2) = 6 ∧ pkt.mem (pkt.buf.data + 4) = 0x09 then
    pkt.identSmp pkt.buf.data
  else none

/-- The bond-downgrade check: the address in the payload, behind both headers. -/
def L2capRecv.downgrades (pkt : L2capRecv) : Bool :=
  pkt.sent.any fun smp =>
    pkt.conn.weakens pkt.keyPool smp (addrLeAt pkt.mem (pkt.buf.data + 5))

/-- The seven octets at the start of the data, taken for an address, stand in for the address in the
payload. -/
def L2capRecv.AddressesAgree (pkt : L2capRecv) : Prop :=
  let header := addrLeAt pkt.mem pkt.buf.data
  let payload := addrLeAt pkt.mem (pkt.buf.data + 5)
  match pkt.seen, pkt.sent with
  | some smp', some smp =>
    pkt.conn.weakens pkt.keyPool smp' header = pkt.conn.weakens pkt.keyPool smp payload
  | some smp', none => pkt.conn.weakens pkt.keyPool smp' header = false
  | none, some smp => pkt.conn.weakens pkt.keyPool smp payload = false
  | none, none => True

theorem verdictAt_eq_reject (pkt : L2capRecv) :
    pkt.verdictAt pkt.buf.firstWord = some .reject ↔
      pkt.seen.any fun smp =>
        pkt.conn.weakens pkt.keyPool smp (addrLeAt pkt.mem pkt.buf.data) := by
  unfold L2capRecv.verdictAt L2capRecv.seen
  by_cases h9 : pkt.mem (pkt.buf.firstWord + 4) = 0x09
  · rw [if_pos h9, if_pos h9]
    cases pkt.identSmp pkt.buf.firstWord with
    | none => simp
    | some smp => simp [Verdict.rejectIf_eq_reject]
  · rw [if_neg h9, if_neg h9]
    simp

/-- **When the hook is the bond-downgrade check.** -/
theorem rejects_downgrade_iff {flash : Policy → Nat → BitVec 8} {h : L2capHook}
    (hb : Booted flash h.fsm) (h0 : h.peekLenTotal = 0) (E : Env layout.size) (pkt : L2capRecv) :
    ((l2capStep h (E, pkt)).map (·.2) = some .reject ↔ pkt.downgrades) ↔ pkt.AddressesAgree := by
  rw [(l2capStep_booted E pkt hb).1, h0, show pkt.buf.firstWord + 0 = _ from BitVec.add_zero _,
    verdictAt_eq_reject, L2capRecv.downgrades, L2capRecv.AddressesAgree, ← Bool.eq_iff_iff]
  cases pkt.seen with
  | none =>
    cases pkt.sent with
    | none => exact iff_of_true rfl trivial
    | some smp => exact eq_comm
  | some smp' => cases pkt.sent <;> rfl

theorem rejects_downgrade_bonded :
    (l2capStep (.boot fun _ _ => 0)
        (ramEnv, identRecv 0x20000100 [payloadAddr, headerAddr])).map (·.2) = some .reject :=
  ((rejects_downgrade_iff (booted_boot fun _ _ => 0) rfl ramEnv
    (identRecv 0x20000100 [payloadAddr, headerAddr])).2 rfl).2 (by decide)

/-- The address of the packet has the stronger bond, and the packet passes, with `frags = NULL` for
the first word of its buffer as with the data pointer; in the latter case a bond of the header has
the packet rejected. -/
theorem identRecv_misread :
    (∀ firstWord ∈ ([0, 0x20000100] : List (BitVec 32)),
      (identRecv firstWord [payloadAddr]).downgrades = true ∧
      (l2capStep (.boot fun _ _ => 0) (ramEnv, identRecv firstWord [payloadAddr])).map (·.2) =
        some .pass) ∧
    ((identRecv 0x20000100 [headerAddr]).downgrades = false ∧
      (l2capStep (.boot fun _ _ => 0) (ramEnv, identRecv 0x20000100 [headerAddr])).map (·.2) =
        some .reject) := by
  have hb : Booted (fun _ _ => 0) (L2capHook.boot fun _ _ => 0).fsm := booted_boot _
  refine ⟨fun firstWord hw => ?_, ⟨by decide, ?_⟩⟩
  · rw [(l2capStep_booted _ _ hb).1]
    simp only [List.mem_cons, List.not_mem_nil, or_false] at hw
    obtain rfl | rfl := hw
    · exact ⟨by decide, by decide⟩
    · exact ⟨by decide, by decide⟩
  · rw [(l2capStep_booted _ _ hb).1]
    decide

end BlueSwat.Zephyr
