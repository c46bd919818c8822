import BlueSwat.Lib.Bits
import BlueSwat.Zephyr.LinkLayer

/-!
# Channel selection (`lll_chan.c`)

`lll_chan_sel_1` picks the next data channel of a connection and remaps it to an enabled one. A
modulo by zero has no value. `lll_chan_sel_2` picks the channel from a number that it makes of the
event counter.
-/

set_option autoImplicit false

namespace BlueSwat.Zephyr

def ChanMap.enabled (chanMap : ChanMap) (c : Nat) : Bool := Bits.bit chanMap.toList c

/-- The number of enabled channels below `n`. -/
def ChanMap.enabledBelow (chanMap : ChanMap) (n : Nat) : Nat :=
  Nat.count (chanMap.enabled · = true) n

/-- The inner loop of `chan_sel_remap`, with `bitCount` rounds to go: the final `bit_count`, which
is 255 unless the loop ends in the `break`, and the final `chan_index` and `chan_next`. -/
def remapOctet : Nat → BitVec 8 → BitVec 8 → BitVec 8 → BitVec 8 × BitVec 8 × BitVec 8
  | 0, _, chanIndex, chanNext => (255, chanIndex, chanNext)
  | bitCount + 1, bite, chanIndex, chanNext =>
    if bite &&& 0x01 ≠ 0 then
      if chanIndex = 0 then (BitVec.ofNat 8 bitCount, chanIndex, chanNext)
      else remapOctet bitCount (bite >>> 1) (chanIndex - 1) (chanNext + 1)
    else remapOctet bitCount (bite >>> 1) chanIndex (chanNext + 1)

def remapOctets : List (BitVec 8) → BitVec 8 → BitVec 8 → BitVec 8
  | [], _, chanNext => chanNext
  | bite :: rest, chanIndex, chanNext =>
    match remapOctet 8 bite chanIndex chanNext with
    | (bitCount, chanIndex, chanNext) =>
      if bitCount.toNat < 8 then chanNext else remapOctets rest chanIndex chanNext

def chanSelRemap (chanMap : ChanMap) (chanIndex : BitVec 8) : BitVec 8 :=
  remapOctets chanMap.toList chanIndex 0

/-- `lll_chan_sel_1`: the new `*chan_use` and the channel. -/
def lllChanSel1 (chanUse hop : BitVec 8) (latency : BitVec 16) (chanMap : ChanMap)
    (chanCount : BitVec 8) : Option (BitVec 8 × BitVec 8) :=
  let chanNext := (chanUse.toNat + hop.toNat * (1 + latency.toNat)) % 37
  let use := BitVec.ofNat 8 chanNext
  if (chanMap.toList[chanNext / 8]?.getD 0).getLsbD (chanNext % 8) = false then
    if chanCount = 0 then none
    else
      let chanIndex := BitVec.ofNat 8 (chanNext % chanCount.toNat)
      some (use, chanSelRemap chanMap chanIndex)
  else some (use, use)

/-! ## Algorithm 2 -/

/-- `chan_rev_8`, in unsigned arithmetic of 32 bits. -/
def chanRev8 (b : BitVec 8) : BitVec 8 :=
  let b : BitVec 32 := b.setWidth 32
  ((((b * 0x0802 &&& 0x22110) ||| (b * 0x8020 &&& 0x88440)) * 0x10101) >>> 16).setWidth 8

def chanPerm (i : BitVec 16) : BitVec 16 :=
  (chanRev8 (((i >>> 8) &&& 0xff).setWidth 8)).setWidth 16 <<< 8 |||
    (chanRev8 ((i &&& 0xff).setWidth 8)).setWidth 16

def chanMam (a b : BitVec 16) : BitVec 16 :=
  ((a.setWidth 32 * (17 : BitVec 32) + b.setWidth 32) &&& 0xffff).setWidth 16

/-- The loop has three rounds. -/
def chanPrn (counter chanId : BitVec 16) : BitVec 16 :=
  Nat.iterate (fun prnE => chanMam (chanPerm prnE) chanId) 3 (counter ^^^ chanId) ^^^ chanId

def lllChanSel2 (counter chanId : BitVec 16) (chanMap : ChanMap) (chanCount : BitVec 8) :
    BitVec 8 :=
  let prnE := chanPrn counter chanId
  let chanNext := prnE.toNat % 37
  if (chanMap.toList[chanNext / 8]?.getD 0).getLsbD (chanNext % 8) = false then
    chanSelRemap chanMap (BitVec.ofNat 8 (chanCount.toNat * prnE.toNat / 2 ^ 16))
  else BitVec.ofNat 8 chanNext

end BlueSwat.Zephyr
