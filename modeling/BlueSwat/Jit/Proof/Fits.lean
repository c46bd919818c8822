import BlueSwat.Jit.Proof.Passes
import BlueSwat.Zephyr.Policies

/-!
# The code buffer

`jit_mem_allocate` takes 10 bytes for an instruction and 16 more, and nothing checks that the code
fits. `jitCode_fits_iff` says for which programs it does; `dcNesn_overflows` is one of the shipped
policies for which it does not.
-/

set_option autoImplicit false

namespace BlueSwat.Jit

open Ebpf

/-- The bytes of the instructions of a program, by the table. -/
def bodyBytes (insts : Nat → EbpfInst) (instNum : Nat) : Nat :=
  ((layout insts instNum (genSize insts instNum)).1.map fun p =>
    genSize insts instNum p.1 p.2).sum

theorem codeBytesOf_eq (insts : Nat → EbpfInst) (instNum : Nat) :
    codeBytesOf insts instNum = bodyBytes insts instNum + 34 := by
  have h : (layout insts instNum (genSize insts instNum)).2 = _ :=
    Assembly.Listing.place_end_eq_sum
  have h26 : prologueSize = 26 := rfl
  have h8 : epilogueSize = 8 := rfl
  rw [codeBytesOf, h]
  change prologueSize + bodyBytes insts instNum + epilogueSize = _
  omega

/-- **The code of a program fits its buffer iff its instructions take 18 bytes less than 10 for each
of them.** Prologue and epilogue take 34 bytes, and the buffer has 16 for them. -/
theorem jitCode_fits_iff (insts : Nat → EbpfInst) (instNum : Nat) (helper : BitVec 32 → BitVec 32)
    (beyond : Row) (stray : Int → BitVec 8) (hT : ∀ i < instNum, Tabled (insts i)) :
    size (jitCompile (genJitState insts instNum helper beyond stray)).jitCode ≤ codeSize instNum ↔
      bodyBytes insts instNum + 18 ≤ 10 * instNum := by
  rw [size_jitCompile helper beyond stray hT, codeBytesOf_eq, codeSize]
  omega

/-- The 9 instructions of `dc_nesn`. -/
def dcNesnInsts : Nat → EbpfInst := instAt (codeBytes Zephyr.dcNesnBytes fun _ => 0)

theorem jitCode_fits_iff_dcNesn :
    (∀ i < 9, Tabled (dcNesnInsts i)) ∧
      (size (jitCompile (genJitState dcNesnInsts 9 (fun _ => 0) bpfR0 fun _ => 0)).jitCode ≤
        codeSize 9 ↔ bodyBytes dcNesnInsts 9 + 18 ≤ 10 * 9) := by
  have hT : ∀ i < 9, Tabled (dcNesnInsts i) := tabled_of (by decide)
  exact ⟨hT, jitCode_fits_iff dcNesnInsts 9 _ _ _ hT⟩

theorem dcNesn_overflows :
    size (jitCompile (genJitState dcNesnInsts 9 (fun _ => 0) bpfR0 fun _ => 0)).jitCode = 114 ∧
      codeSize 9 = 106 := by
  decide

end BlueSwat.Jit
