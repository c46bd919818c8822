import BlueSwat.Jit.Proof.Mirror

/-!
# The code that loads and stores rows

A row on the stack is brought to a pair of temporary registers, or one half of it to one of them,
and back; a row in machine registers stays where it is.
-/

set_option autoImplicit false

namespace BlueSwat.Jit

open Thumb
open Ebpf (Form)

/-- A row in two machine registers. -/
def regRow (lo hi : Reg) : Row := ⟨hi.toNat, lo.toNat⟩

def rowHalf (r : BitVec 4) (hi : Bool) : Int := if hi then (rowOf r).hi else (rowOf r).lo

/-! ## Registers -/

structure RegPair where
  lo : Reg
  hi : Reg
  deriving DecidableEq

/-- The registers that the first operand can be in when it is loaded, and those of the second
one. -/
def dstPairs : List RegPair :=
  [⟨heldLo 0, heldHi 0⟩, ⟨heldLo 1, heldHi 1⟩, ⟨heldLo 6, heldHi 6⟩, ⟨tmpLo, tmpHi⟩]

def srcPairs : List RegPair :=
  [⟨heldLo 0, heldHi 0⟩, ⟨heldLo 1, heldHi 1⟩, ⟨heldLo 6, heldHi 6⟩, ⟨tmp2Lo, tmp2Hi⟩]

theorem dstPair_mem : ∀ d : BitVec 4, d.toNat < 11 → ⟨heldLo d, heldHi d⟩ ∈ dstPairs := by decide

theorem dstPair_low : ∀ p ∈ dstPairs, (special p.lo = false ∧ p.lo.toNat < 8) ∧
    (special p.hi = false ∧ p.hi.toNat < 8) := by decide

theorem srcPair_mem {r : BitVec 4} (hr : r.toNat < 11) (form : Form) :
    ⟨srcLo form r, srcHi form r⟩ ∈ srcPairs := by
  cases form with
  | imm => simp [srcLo, srcHi, srcPairs]
  | reg =>
    revert r
    decide

theorem srcLo_eq (r : BitVec 4) : srcLo .reg r = halfReg r false tmp2Lo := by
  simp [srcLo, halfReg, heldReg]

theorem srcHi_eq (r : BitVec 4) : srcHi .reg r = halfReg r true tmp2Hi := by
  simp [srcHi, halfReg, heldReg]

/-! ## Rows -/

/-- The destination is loaded, and stored. -/
theorem disassemble_getDst : ∀ d : BitVec 4, d.toNat < 11 →
    (armBpfGetReg64 (rowOf d) tmp).2 = regRow (heldLo d) (heldHi d) ∧
      disassemble (armBpfGetReg64 (rowOf d) tmp).1 = some (fetchDst d) ∧
      disassemble (armBpfPutReg64 (rowOf d) (regRow (heldLo d) (heldHi d))) =
        some (storeRow d) := by
  decide

/-- The registers of the destination, when it need not be loaded. -/
theorem heldRow_eq : ∀ d : BitVec 4, d.toNat < 11 →
    (if isStacked (rowOf d).lo then tmp else rowOf d) = regRow (heldLo d) (heldHi d) := by decide

/-- The source is loaded. -/
theorem disassemble_getSrc : ∀ r : BitVec 4, r.toNat < 11 →
    (armBpfGetReg64 (rowOf r) tmp2).2 = regRow (srcLo .reg r) (srcHi .reg r) ∧
      disassemble (armBpfGetReg64 (rowOf r) tmp2).1 = some (fetchSrc r) := by
  decide

/-! ## Halves -/

/-- One half is loaded. -/
theorem disassemble_getHalf : ∀ r : BitVec 4, r.toNat < 11 → ∀ hi : Bool,
    ∀ q ∈ [tmpLo, tmpHi, tmp2Lo, tmp2Hi],
    (armBpfGetReg32 (rowHalf r hi) q.toNat).2 = (halfReg r hi q).toNat ∧
      disassemble (armBpfGetReg32 (rowHalf r hi) q.toNat).1 = some (fetchHalf r hi q) := by
  decide

/-- One half is stored. -/
theorem disassemble_putHalf : ∀ d : BitVec 4, d.toNat < 11 → ∀ hi : Bool,
    ∀ q ∈ [0, 2, 4, tmpHi, tmp2Lo, tmp2Hi, ip, lr],
    disassemble (armBpfPutReg32 (rowHalf d hi) q.toNat) = some (putHalf d hi q) := by
  decide +kernel

end BlueSwat.Jit
