import Mathlib.Data.BitVec

/-!
# Byte memory

A memory maps addresses of width `w` to bytes; multi-byte values are little-endian and addresses
wrap. `read M a n` is the value of the `n` bytes at `a`, `write M a n v` puts the low `n` bytes
of `v` there. `Within a base n` says that `a` is one of the `n` bytes at `base`.

* `read_four`: four bytes that are the bytes of a word read as that word.
* `sshiftRight_shiftLeft_setWidth`, `ushiftRight_shiftLeft_setWidth`: shifting the low half up and
  back down sign- or zero-extends it.
-/

set_option autoImplicit false

namespace Bytes

variable {w : Nat}

/-- The value of the `n` bytes at `a`, least significant first. -/
def read (M : BitVec w → BitVec 8) (a : BitVec w) : Nat → Nat
  | 0 => 0
  | n + 1 => read M a n + 256 ^ n * (M (a + BitVec.ofNat w n)).toNat

/-- `M` with the low `n` bytes of `v` at `a`. -/
def write (M : BitVec w → BitVec 8) (a : BitVec w) (n : Nat) (v : BitVec 64) :
    BitVec w → BitVec 8 :=
  fun b => if (b - a).toNat < n then v.extractLsb' (8 * (b - a).toNat) 8 else M b

def Within (a base : BitVec w) (n : Nat) : Prop := (a - base).toNat < n

instance (a base : BitVec w) (n : Nat) : Decidable (Within a base n) :=
  inferInstanceAs (Decidable (_ < _))

theorem read_congr {M N : BitVec w → BitVec 8} {a : BitVec w} {n : Nat}
    (h : ∀ i < n, M (a + BitVec.ofNat w i) = N (a + BitVec.ofNat w i)) :
    read M a n = read N a n := by
  induction n with
  | zero => rfl
  | succ n ih => rw [read, read, ih fun i hi => h i (by omega), h n (by omega)]

theorem read_lt (M : BitVec w → BitVec 8) (a : BitVec w) (n : Nat) : read M a n < 256 ^ n := by
  induction n with
  | zero => exact Nat.one_pos
  | succ n ih =>
    have h : 256 ^ n * (M (a + BitVec.ofNat w n)).toNat ≤ 256 ^ n * 255 :=
      Nat.mul_le_mul_left _ (Nat.le_of_lt_succ (M (a + BitVec.ofNat w n)).isLt)
    rw [read, Nat.pow_succ]
    omega

/-- Bytes that follow are the higher ones. -/
theorem read_add (M : BitVec w → BitVec 8) (a : BitVec w) (m n : Nat) :
    read M a (m + n) = read M a m + 256 ^ m * read M (a + BitVec.ofNat w m) n := by
  induction n with
  | zero => rw [Nat.add_zero, read, Nat.mul_zero, Nat.add_zero]
  | succ n ih =>
    rw [← Nat.add_assoc, read, ih, read, Nat.mul_add, Nat.pow_add, Nat.mul_assoc, BitVec.add_assoc,
      ← BitVec.ofNat_add, Nat.add_assoc]

/-- A memory with a 1 at `c`. -/
def hot (c : BitVec w) : BitVec w → BitVec 8 := fun a => if a = c then 1 else 0

theorem read_hot_ne {c a : BitVec w} (h : a ≠ c) (n : Nat) : read (hot c) a n ≠ 1 := by
  induction n with
  | zero => exact Nat.zero_ne_one
  | succ n ih =>
    rw [read, hot]
    split
    · rename_i hc
      have hn : n ≠ 0 := fun e => h (by rwa [e, BitVec.add_zero] at hc)
      have : 256 ^ 1 ≤ 256 ^ n := Nat.pow_le_pow_right (by decide) (by omega)
      show read (hot c) a n + 256 ^ n * 1 ≠ 1
      omega
    · exact ih

theorem read_hot_self (c : BitVec w) {n : Nat} (h0 : 0 < n) (hn : n ≤ 2 ^ w) :
    read (hot c) c n = 1 := by
  induction n with
  | zero => exact absurd h0 (Nat.lt_irrefl 0)
  | succ n ih =>
    by_cases h : n = 0
    · subst h
      simp [read, hot]
    · have hne : c + BitVec.ofNat w n ≠ c := fun e => by
        have h1 : c + BitVec.ofNat w n - c = 0#w := by rw [e, BitVec.sub_self]
        have h2 := congrArg BitVec.toNat h1
        rw [BitVec.add_comm, BitVec.add_sub_cancel, BitVec.toNat_ofNat,
          Nat.mod_eq_of_lt (by omega)] at h2
        exact h h2
      rw [read, ih (by omega) (by omega), hot, if_neg hne]
      rfl

theorem write_of_not_within {M : BitVec w → BitVec 8} {a b : BitVec w} {n : Nat} {v : BitVec 64}
    (h : ¬ Within b a n) : write M a n v b = M b := if_neg h

/-- A byte within `a` is `a` and an offset. -/
theorem Within.exists_add {a b : BitVec w} {n : Nat} (h : Within b a n) :
    ∃ i < n, b = a + BitVec.ofNat w i :=
  ⟨(b - a).toNat, h, by rw [BitVec.ofNat_toNat, BitVec.setWidth_eq, BitVec.add_comm,
    BitVec.sub_add_cancel]⟩

theorem within_add {base : BitVec w} {k n : Nat} (hk : k < n) :
    Within (base + BitVec.ofNat w k) base n := by
  rw [Within, BitVec.add_comm, BitVec.add_sub_cancel, BitVec.toNat_ofNat]
  exact Nat.lt_of_le_of_lt (Nat.mod_le _ _) hk

theorem within_add_ofInt {base : BitVec w} {z : Int} {n : Nat} (h0 : 0 ≤ z) (hz : z < n) :
    Within (base + BitVec.ofInt w z) base n := by
  obtain ⟨k, rfl⟩ := Int.eq_ofNat_of_zero_le h0
  rw [BitVec.ofInt_natCast]
  exact within_add (by omega)

/-- A range inside a range. -/
theorem Within.widen {a b base c : BitVec w} {m n : Nat} (h : Within a b n) (hb : b = base + c)
    (hm : c.toNat + n ≤ m) : Within a base m := by
  have hsplit : a - base = a - b + c := by rw [hb, ← BitVec.sub_sub, BitVec.sub_add_cancel]
  have hle := Nat.mod_le ((a - b).toNat + c.toNat) (2 ^ w)
  have hlt : (a - b).toNat < n := h
  rw [Within, hsplit, BitVec.toNat_add]
  omega

theorem toNat_extract_byte {n : Nat} (x : BitVec n) (i : Nat) :
    (x.extractLsb' (8 * i) 8).toNat = x.toNat / 256 ^ i % 256 := by
  rw [BitVec.extractLsb'_toNat, Nat.shiftRight_eq_div_pow, Nat.pow_mul]

/-- Four bytes that are the bytes of `x` read as `x`. -/
theorem read_four {M : BitVec w → BitVec 8} {a : BitVec w} {x : BitVec 32}
    (h : ∀ i < 4, M (a + BitVec.ofNat w i) = x.extractLsb' (8 * i) 8) :
    read M a 4 = x.toNat := by
  have hx := x.isLt
  simp only [read, h 0 (by decide), h 1 (by decide), h 2 (by decide), h 3 (by decide),
    toNat_extract_byte]
  omega

/-- Shifting the low word up by 32 and arithmetically back down sign-extends it. -/
theorem sshiftRight_shiftLeft_setWidth (x : BitVec 32) :
    (x.setWidth 64 <<< 32).sshiftRight 32 = x.signExtend 64 := by
  apply BitVec.eq_of_getLsbD_eq
  intro i hi
  simp only [BitVec.getLsbD_sshiftRight, BitVec.getLsbD_shiftLeft, BitVec.getLsbD_setWidth,
    BitVec.getLsbD_signExtend, BitVec.msb_eq_getLsbD_last]
  by_cases h : i < 32
  · simp [h, hi, show 32 + i < 64 by omega, show ¬ 64 ≤ i by omega]
  · simp [h, hi, show ¬ 32 + i < 64 by omega, show ¬ 64 ≤ i by omega]

/-- Shifting up by 32 and back down keeps the low word. -/
theorem ushiftRight_shiftLeft_setWidth (y : BitVec 64) :
    (y <<< 32) >>> 32 = (y.setWidth 32).setWidth 64 := by
  apply BitVec.eq_of_toNat_eq
  have := y.isLt
  simp only [BitVec.toNat_setWidth, BitVec.toNat_ushiftRight, BitVec.toNat_shiftLeft,
    Nat.shiftLeft_eq, Nat.shiftRight_eq_div_pow]
  omega

end Bytes
