import BlueSwat.Fsm.Proof.Patch
import BlueSwat.Mynewt.Patch
import BlueSwat.Zephyr.Patch

/-!
# The patch services of the two ports

The handlers of both ports do what a patch service may do (`Handled`). On Mynewt this rests on
`ble_hs_mbuf_to_flat`: when it returns 0, the bytes it counts are the first of the packet, and all
of them where there is room for all (`Flattens`).
-/

set_option autoImplicit false

namespace BlueSwat

open Fsm

/-! ## Zephyr -/

namespace Zephyr

def GattWrite.bytes (w : GattWrite) : List (BitVec 8) := bytesAt w.buf w.len.toNat

def ifwInstall (a : Allocs) : InstallCall → PolicyStore → PolicyStore × Int :=
  ifwInstallPolicy port layout.size (Registry.registerPolicy port) a.copy

theorem accepts_len (len : BitVec 16) : patchService.accepts len.toNat = true :=
  decide_eq_true (Int.natCast_nonneg len.toNat)

section
variable {install : InstallCall → PolicyStore → PolicyStore × Int} (w : GattWrite) (p : Patch)

theorem writeHeader_handled :
    Handled install p (patchService.accepts (writeHeader w p).2)
      (.start (w.bytes.getD 0 0, w.bytes.getD 1 0)) (writeHeader w p).1 := by
  by_cases hoff : w.offset ≠ 0
  · rw [writeHeader, if_pos hoff]
    exact .refused
  by_cases hlen : w.len ≠ 2
  · rw [writeHeader, if_neg hoff, if_pos hlen]
    exact .refused
  have hbytes : w.bytes = [w.buf 0, w.buf 1] := by
    rw [GattWrite.bytes, not_not.1 hlen]
    rfl
  rw [writeHeader, if_neg hoff, if_neg hlen, accepts_len, hbytes]
  exact .header _ _

theorem writeBody_handled :
    Handled install p (patchService.accepts (writeBody w p).2) (.chunk w.bytes)
      (writeBody w p).1 := by
  by_cases hoff : w.offset ≠ 0
  · rw [writeBody, if_pos hoff]
    exact .refused
  by_cases hlen : p.stagingLen.toNat + w.len.toNat > bswatStagingMax
  · rw [writeBody, if_neg hoff, if_pos hlen]
    exact .refused
  rw [writeBody, if_neg hoff, if_neg hlen, accepts_len, GattWrite.bytes,
    ← bytesAt_memcpy p.room w.buf]
  exact .body _ _ (Nat.not_lt.1 hlen)

end

theorem writeCommit_handled (a : Allocs) (w : GattWrite) (p : Patch) :
    Handled (ifwInstall a) p (patchService.accepts (writeCommit a w p).2) .commit
      (writeCommit a w p).1 := by
  by_cases hoff : w.offset ≠ 0 ∨ w.len < 1
  · rw [writeCommit, if_pos hoff]
    exact .refused
  rw [writeCommit, if_neg hoff, accepts_len]
  exact .commit

theorem patchService_handles : patchService.Handles GattWrite.bytes ifwInstall := by
  rintro p ⟨char, w, a⟩
  cases char with
  | header => exact writeHeader_handled w p
  | body => exact writeBody_handled w p
  | commit => exact writeCommit_handled a w p

end Zephyr

/-! ## Mynewt -/

namespace Mynewt

def ifwInstall (a : Allocs) : InstallCall → PolicyStore → PolicyStore × Int :=
  ifwInstallPolicy port layout.size (Registry.registerPolicyIf a.node port) a.copy

/-- `ble_hs_mbuf_to_flat` fails or copies the whole packet. -/
def CopiesWhole (toFlat : ToFlat) : Prop :=
  ∀ om flat maxLen, (toFlat om flat maxLen).rc ≠ 0 ∨
    (toFlat om flat maxLen).copyLen = om.pktLen ∧
      bytesAt (toFlat om flat maxLen).flat om.pktLen.toNat = om.bytes

/-- A copy that does not fail is a beginning of the packet, and the packet where it has room. -/
structure Flattens (toFlat : ToFlat) : Prop where
  isPrefix : ∀ om flat maxLen, (toFlat om flat maxLen).rc = 0 →
    bytesAt (toFlat om flat maxLen).flat (toFlat om flat maxLen).copyLen.toNat <+: om.bytes
  whole : ∀ om flat, (toFlat om flat om.pktLen).rc = 0 →
    bytesAt (toFlat om flat om.pktLen).flat (toFlat om flat om.pktLen).copyLen.toNat = om.bytes

theorem CopiesWhole.flattens {toFlat : ToFlat} (h : CopiesWhole toFlat) : Flattens toFlat := by
  have heq : ∀ om flat maxLen, (toFlat om flat maxLen).rc = 0 →
      bytesAt (toFlat om flat maxLen).flat (toFlat om flat maxLen).copyLen.toNat = om.bytes := by
    intro om flat maxLen hrc
    obtain hno | ⟨hlen, hbytes⟩ := h om flat maxLen
    · exact absurd hrc hno
    · rw [hlen, hbytes]
  exact ⟨fun om flat maxLen hrc => (heq om flat maxLen hrc) ▸ List.prefix_rfl,
    fun om flat hrc => heq om flat _ hrc⟩

theorem copyMbufs_take {ms : List OsMbuf} {len : Nat}
    (h : len ≤ (ms.flatMap OsMbuf.bytes).length) :
    copyMbufs ms 0 len = some ((ms.flatMap OsMbuf.bytes).take len) := by
  induction ms generalizing len with
  | nil =>
    obtain rfl : len = 0 := by simpa using h
    rfl
  | cons m ms ih =>
    cases len with
    | zero => rfl
    | succ len =>
      have hm : m.bytes.length = m.omLen.toNat := by simp [OsMbuf.bytes]
      rw [List.flatMap_cons, List.length_append, hm] at h
      -- the loop goes on with what the first mbuf does not hold
      have hrest := @ih (len + 1 - min (m.omLen.toNat - 0) (len + 1)) (by omega)
      simp only [copyMbufs, hrest, Option.map_some, List.flatMap_cons, List.take_append, hm]
      refine congrArg some (congrArg₂ (· ++ ·) ?_ (congrArg (List.take · _) (by omega)))
      simp [OsMbuf.bytes, ← List.map_take, List.take_range, Nat.min_comm]

theorem osMbufCopydata_take {ms : List OsMbuf} {len : Nat}
    (h : len ≤ (ms.flatMap OsMbuf.bytes).length) :
    osMbufCopydata ms 0 len = some ((ms.flatMap OsMbuf.bytes).take len) := by
  by_cases hlen : len = 0
  · rw [osMbufCopydata, if_pos hlen, hlen, List.take_zero]
  · rw [osMbufCopydata, if_neg hlen, skipMbufs, Option.bind_some, copyMbufs_take h]

/-- The copy of the host: the packet, or as much of it as there is room for. -/
theorem bleHsMbufToFlat_bytes (om : Packet) (flat : Nat → BitVec 8) (maxLen : BitVec 16) :
    bytesAt (bleHsMbufToFlat om flat maxLen).flat (bleHsMbufToFlat om flat maxLen).copyLen.toNat =
      om.bytes.take (min om.pktLen.toNat maxLen.toNat) := by
  have hmin : (if om.pktLen ≤ maxLen then om.pktLen else maxLen).toNat =
      min om.pktLen.toNat maxLen.toNat := by
    by_cases h : om.pktLen ≤ maxLen
    · rw [if_pos h, Nat.min_eq_left h]
    · rw [if_neg h, Nat.min_eq_right (Nat.le_of_not_le h)]
  have hlen : min om.pktLen.toNat maxLen.toNat ≤ om.bytes.length :=
    om.length_chain.symm ▸ Nat.min_le_left _ _
  have hcopy := osMbufCopydata_take hlen
  rw [bleHsMbufToFlat]
  simp only [hmin, hcopy]
  have hbytes := bytesAt_codeBytes (om.bytes.take (min om.pktLen.toNat maxLen.toNat)) flat
  rwa [List.length_take, Nat.min_eq_left hlen] at hbytes

theorem bleHsMbufToFlat_flattens : Flattens bleHsMbufToFlat where
  isPrefix om flat maxLen _ := by
    rw [bleHsMbufToFlat_bytes]
    exact List.take_prefix _ _
  whole om flat _ := by
    rw [bleHsMbufToFlat_bytes, Nat.min_self, ← om.length_chain]
    exact List.take_length

section
variable {toFlat : ToFlat} {install : InstallCall → PolicyStore → PolicyStore × Int}

theorem firewallPatchHandleHeader_handled (h : Flattens toFlat) (hdr : Nat → BitVec 8)
    (om : Packet) (p : Patch) :
    Handled install p
      ((patchService toFlat).accepts (firewallPatchHandleHeader toFlat hdr om p).2)
      (.start (om.bytes.getD 0 0, om.bytes.getD 1 0))
      (firewallPatchHandleHeader toFlat hdr om p).1 := by
  by_cases hrc : (toFlat om hdr 2).rc ≠ 0
  · rw [firewallPatchHandleHeader, if_pos hrc]
    exact .refused
  by_cases hlen : (toFlat om hdr 2).copyLen ≠ 2
  · rw [firewallPatchHandleHeader, if_neg hrc, if_pos hlen]
    exact .refused
  have hbytes := h.isPrefix om hdr 2 (not_not.1 hrc)
  rw [not_not.1 hlen] at hbytes
  obtain ⟨rest, hrest⟩ := hbytes
  rw [firewallPatchHandleHeader, if_neg hrc, if_neg hlen, ← hrest]
  exact .header _ _

theorem firewallPatchHandleBody_handled (h : Flattens toFlat) (om : Packet) (p : Patch) :
    Handled install p ((patchService toFlat).accepts (firewallPatchHandleBody toFlat om p).2)
      (.chunk om.bytes) (firewallPatchHandleBody toFlat om p).1 := by
  by_cases hlen : p.stagingLen.toNat + om.pktLen.toNat > bswatStagingMax
  · rw [firewallPatchHandleBody, if_pos hlen]
    exact .refused
  by_cases hrc : (toFlat om p.room om.pktLen).rc ≠ 0
  · rw [firewallPatchHandleBody, if_neg hlen, if_pos hrc]
    exact .rejected _
  have hbytes := h.whole om p.room (not_not.1 hrc)
  have hcopied : (toFlat om p.room om.pktLen).copyLen.toNat = om.pktLen.toNat := by
    simpa [Packet.bytes, om.length_chain] using congrArg List.length hbytes
  rw [firewallPatchHandleBody, if_neg hlen, if_neg hrc, ← hbytes]
  exact .body _ _ (by omega)

theorem firewallPatchHandleCommit_handled (a : Allocs) (om : Packet) (p : Patch) :
    Handled (ifwInstall a) p
      ((patchService toFlat).accepts (firewallPatchHandleCommit a om p).2) .commit
      (firewallPatchHandleCommit a om p).1 := by
  by_cases hlen : om.pktLen < 1
  · rw [firewallPatchHandleCommit, if_pos hlen]
    exact .refused
  rw [firewallPatchHandleCommit, if_neg hlen]
  exact .commit

theorem patchService_handles (h : Flattens toFlat) :
    (patchService toFlat).Handles (fun w => w.1.bytes) ifwInstall := by
  rintro p ⟨char, ⟨om, hdr⟩, a⟩
  cases char with
  | header => exact firewallPatchHandleHeader_handled h hdr om p
  | body => exact firewallPatchHandleBody_handled h om p
  | commit => exact firewallPatchHandleCommit_handled a om p

end

end Mynewt

/-- **The patch services reassemble uploads**, on Zephyr, and on Mynewt with a copy that fails or is
of the whole write as with the host's, which cuts it. -/
theorem patchService_reassembles (behind : Nat → BitVec 8) (store : PolicyStore) :
    Zephyr.patchService.Reassembles Zephyr.GattWrite.bytes Zephyr.ifwInstall
      (.boot behind store) ∧
    (∀ toFlat : Mynewt.ToFlat, Mynewt.CopiesWhole toFlat ∨ toFlat = Mynewt.bleHsMbufToFlat →
      (Mynewt.patchService toFlat).Reassembles (fun w => w.1.bytes) Mynewt.ifwInstall
        (.boot behind store)) := by
  refine ⟨Zephyr.patchService_handles.reassembles behind store, fun toFlat h => ?_⟩
  have hflat : Mynewt.Flattens toFlat := by
    obtain h | rfl := h
    · exact h.flattens
    · exact Mynewt.bleHsMbufToFlat_flattens
  exact (Mynewt.patchService_handles hflat).reassembles behind store

/-- A policy of two instructions, sent in chunks of 3 and 13 bytes. -/
example :
    let write := fun (char : Characteristic) (bytes : List (BitVec 8)) =>
      (⟨char, ⟨Ebpf.codeBytes bytes fun _ => 0, BitVec.ofNat 16 bytes.length, 0⟩,
        ⟨some fun _ => 0, true⟩⟩ : PatchWrite Zephyr.GattWrite)
    (Reactive.after Zephyr.patchService.step (.boot (fun _ => 0) ⟨.boot, 0⟩)
      [write .header [3, 0], write .body [0xb7, 0, 0],
        write .body [0, 1, 0, 0, 0, 0x95, 0, 0, 0, 0, 0, 0, 0],
        write .commit [1]]).lastInstallRc = 0 := by
  decide

end BlueSwat
