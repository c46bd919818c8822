import Mathlib.Data.Nat.Count
import Mathlib.Data.BitVec

/-!
# Bits of octet strings

Bit `c` of a string of octets is bit `c % 8` of octet `c / 8`. `Nat.count` counts the set bits below
a position.

* `count_bit`: the set bits of a string, octet by octet.
* `ones_clear_lowest`: `b & (b - 1)` has one bit less than `b`.
* `Selects p n k c`: a scan of the first `n` positions for the one after `k` hits stops at `c`; the
  rules follow the scan.
-/

set_option autoImplicit false

namespace Bits

def bit (l : List (BitVec 8)) (c : Nat) : Bool := ((l[c / 8]?).getD 0).getLsbD (c % 8)

def ones (b : BitVec 8) : Nat := Nat.count (b.getLsbD · = true) 8

theorem bit_cons_lt (b : BitVec 8) (l : List (BitVec 8)) {c : Nat} (h : c < 8) :
    bit (b :: l) c = b.getLsbD c := by
  rw [bit, Nat.div_eq_of_lt h, Nat.mod_eq_of_lt h]
  rfl

theorem bit_cons_add (b : BitVec 8) (l : List (BitVec 8)) (c : Nat) :
    bit (b :: l) (8 + c) = bit l c := by
  rw [bit, bit, show (8 + c) / 8 = c / 8 + 1 by omega, show (8 + c) % 8 = c % 8 by omega]
  rfl

theorem count_congr {p q : Nat → Bool} {n : Nat} (h : ∀ i < n, p i = q i) :
    Nat.count (p · = true) n = Nat.count (q · = true) n := by
  induction n with
  | zero => rfl
  | succ n ih =>
    rw [Nat.count_succ, Nat.count_succ, ih fun i hi => h i (by omega), h n (by omega)]

/-- The set bits of a string are those of its octets. -/
theorem count_bit (l : List (BitVec 8)) :
    Nat.count (bit l · = true) (8 * l.length) = (l.map ones).sum := by
  induction l with
  | nil => rfl
  | cons b l ih =>
    have h1 : Nat.count (bit (b :: l) · = true) 8 = ones b :=
      count_congr fun c hc => bit_cons_lt b l hc
    have h2 : Nat.count (fun c => bit (b :: l) (8 + c) = true) (8 * l.length) =
        Nat.count (bit l · = true) (8 * l.length) := count_congr fun c _ => bit_cons_add b l c
    rw [List.length_cons, Nat.mul_succ, Nat.add_comm, Nat.count_add, h1, h2, ih, List.map_cons,
      List.sum_cons]

theorem ones_zero : ones 0#8 = 0 := by decide

/-- `b & (b - 1)` clears one bit. -/
theorem ones_clear_lowest : ∀ b : BitVec 8, b ≠ 0 → ones (b &&& (b - 1)) + 1 = ones b := by
  decide

/-! ## Scans -/

/-- A scan of positions `0 .. n - 1` that stops at the hit after the first `k` stops at `c`, or at
`n` when there are not that many. -/
def Selects (p : Nat → Bool) (n k c : Nat) : Prop :=
  (c < n ∧ p c = true ∧ Nat.count (p · = true) c = k) ∨
    (c = n ∧ Nat.count (p · = true) n ≤ k)

variable {p : Nat → Bool} {n m k c : Nat}

theorem Selects.hit (h : Selects p n k c) (hk : k < Nat.count (p · = true) n) :
    c < n ∧ p c = true ∧ Nat.count (p · = true) c = k := by
  rcases h with h | ⟨-, h⟩
  · exact h
  · omega

theorem Selects.congr {q : Nat → Bool} (h : Selects p n k c) (hq : ∀ i < n, q i = p i) :
    Selects q n k c := by
  rcases h with ⟨h0, h1, h2⟩ | ⟨rfl, h2⟩
  · exact .inl ⟨h0, by rw [hq c h0, h1], by rw [count_congr fun i hi => hq i (by omega), h2]⟩
  · exact .inr ⟨rfl, by rwa [count_congr hq]⟩

theorem Selects.extend (h : Selects p n k c) (hc : c < n) : Selects p (n + m) k c := by
  rcases h with ⟨-, h1, h2⟩ | ⟨rfl, -⟩
  · exact .inl ⟨by omega, h1, h2⟩
  · omega

theorem Selects.here (h : p 0 = true) : Selects p (n + 1) 0 0 :=
  .inl ⟨by omega, h, rfl⟩

/-- The scan passes position 0, and a hit there counts. -/
theorem Selects.next (h : Selects (fun i => p (i + 1)) n k c) :
    Selects p (n + 1) (k + if p 0 = true then 1 else 0) (c + 1) := by
  rcases h with ⟨h0, h1, h2⟩ | ⟨rfl, h2⟩
  · exact .inl ⟨by omega, h1, by rw [Nat.count_succ']; exact congrArg (· + _) h2⟩
  · exact .inr ⟨rfl, by rw [Nat.count_succ']; exact Nat.add_le_add_right h2 _⟩

/-- A scan that has passed `n` positions goes on with the hits still to come. -/
theorem Selects.append (hn : Nat.count (p · = true) n ≤ k)
    (h : Selects (fun i => p (n + i)) m (k - Nat.count (p · = true) n) c) :
    Selects p (n + m) k (n + c) := by
  rcases h with ⟨h0, h1, h2⟩ | ⟨rfl, h2⟩
  · refine .inl ⟨by omega, h1, ?_⟩
    rw [Nat.count_add, show Nat.count (fun i => p (n + i) = true) c = _ from h2]
    omega
  · refine .inr ⟨rfl, ?_⟩
    have h3 : Nat.count (fun i => p (n + i) = true) c ≤ _ := h2
    rw [Nat.count_add]
    omega

end Bits
