import Mathlib.Data.BitVec

/-!
# Byte order

`swapBytes k x` is the low `k` bytes of `x` in reverse order, zero-extended. Code that reverses
bytes with masks and shifts is a disjunction of terms `byteOf j x <<< (8 * n)` and
`byteOf j x >>> (8 * n)`; the lemmas here give the bits of such terms (`getLsbD_byteOf_shiftLeft`,
`getLsbD_byteOf_ushiftRight`) and of `swapBytes` (`getLsbD_swapBytes`).
-/

set_option autoImplicit false

namespace ByteOrder

variable {w : Nat}

def swapBytes : Nat → BitVec w → BitVec w
  | 0, _ => 0
  | k + 1, x => (x.setWidth 8).setWidth w <<< (8 * k) ||| swapBytes k (x >>> 8)

/-- Byte `j` of `x`, in its place. -/
def byteOf (j : Nat) (x : BitVec w) : BitVec w := x &&& BitVec.ofNat w (255 <<< (8 * j))

theorem getLsbD_byteOf (j : Nat) (x : BitVec w) (i : Nat) :
    (byteOf j x).getLsbD i = (decide (i / 8 = j) && x.getLsbD i) := by
  by_cases hi : i < w
  · have h255 : 255 = 2 ^ 8 - 1 := rfl
    rw [byteOf, BitVec.getLsbD_and, BitVec.getLsbD_ofNat, Nat.testBit_shiftLeft, h255,
      Nat.testBit_two_pow_sub_one]
    grind
  · simp [byteOf, BitVec.getLsbD_of_ge x i (by omega)]

theorem getLsbD_byteOf_shiftLeft (j k : Nat) (x : BitVec w) {i : Nat} (hi : i < w) :
    (byteOf j x <<< (8 * k)).getLsbD i =
      (decide (i / 8 = j + k) && x.getLsbD (8 * j + i % 8)) := by
  rw [BitVec.getLsbD_shiftLeft, getLsbD_byteOf]
  by_cases h : i / 8 = j + k
  · have e : i - 8 * k = 8 * j + i % 8 := by omega
    simp [h, e, hi, show ¬ i < 8 * k by omega, show (8 * j + i % 8) / 8 = j by omega]
  · have e : i < 8 * k ∨ ¬ (i - 8 * k) / 8 = j := by omega
    rcases e with e | e <;> simp [h, e]

theorem getLsbD_byteOf_ushiftRight (j k : Nat) (x : BitVec w) (i : Nat) :
    (byteOf j x >>> (8 * k)).getLsbD i =
      (decide (i / 8 + k = j) && x.getLsbD (8 * j + i % 8)) := by
  rw [BitVec.getLsbD_ushiftRight, getLsbD_byteOf]
  by_cases h : i / 8 + k = j
  · have e : 8 * k + i = 8 * j + i % 8 := by omega
    simp [h, e, show (8 * j + i % 8) / 8 = j by omega]
  · simp [h, show ¬ (8 * k + i) / 8 = j by omega]

theorem getLsbD_swapBytes {k : Nat} (hk : 8 * k ≤ w) (x : BitVec w) (i : Nat) :
    (swapBytes k x).getLsbD i =
      (decide (i < 8 * k) && x.getLsbD (8 * (k - 1 - i / 8) + i % 8)) := by
  induction k generalizing x with
  | zero => simp [swapBytes]
  | succ k ih =>
    rw [swapBytes, BitVec.getLsbD_or, BitVec.getLsbD_shiftLeft, ih (by omega),
      BitVec.getLsbD_ushiftRight, BitVec.getLsbD_setWidth, BitVec.getLsbD_setWidth]
    by_cases h : i < 8 * k
    · have e : 8 + (8 * (k - 1 - i / 8) + i % 8) = 8 * (k + 1 - 1 - i / 8) + i % 8 := by omega
      simp [h, e, show i < 8 * (k + 1) by omega]
    · by_cases h' : i < 8 * (k + 1)
      · -- the byte moved to the top
        have e : 8 * (k - i / 8) + i % 8 = i - 8 * k := by omega
        simp [h, h', e, show i < w by omega, show i - 8 * k < w by omega,
          show i - 8 * k < 8 by omega]
      · simp [h, h', show ¬ i - 8 * k < 8 by omega]

end ByteOrder
