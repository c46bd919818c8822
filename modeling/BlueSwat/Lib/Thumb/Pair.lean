import BlueSwat.Lib.Thumb

/-!
# 64-bit arithmetic on pairs of words

A 64-bit value is held as its low and its high word. An addition takes the carry of the low words to
the high ones, and so does a signed comparison; values whose high words are zero are compared by
their low words.
-/

set_option autoImplicit false

namespace Thumb

def low (v : BitVec 64) : Word := v.setWidth 32

def high (v : BitVec 64) : Word := (v >>> 32).setWidth 32

def pair (h l : Word) : BitVec 64 := BitVec.ofNat 64 (h.toNat * 2 ^ 32 + l.toNat)

section
variable (v a b : BitVec 64)

theorem toNat_low : (low v).toNat = v.toNat % 2 ^ 32 := BitVec.toNat_setWidth ..

theorem toNat_high : (high v).toNat = v.toNat / 2 ^ 32 := by
  have := v.isLt
  simp only [high, BitVec.toNat_setWidth, BitVec.toNat_ushiftRight, Nat.shiftRight_eq_div_pow]
  omega

theorem toNat_eq_pair : v.toNat = (high v).toNat * 2 ^ 32 + (low v).toNat := by
  rw [toNat_low, toNat_high]
  omega

theorem toInt_eq_pair : v.toInt = (high v).toInt * 2 ^ 32 + (low v).toNat := by
  have := v.isLt
  rw [BitVec.toInt_eq_toNat_cond, BitVec.toInt_eq_toNat_cond, toNat_low, toNat_high]
  split <;> split <;> omega

theorem getLsbD_low (i : Nat) : (low v).getLsbD i = (decide (i < 32) && v.getLsbD i) :=
  BitVec.getLsbD_setWidth ..

theorem getLsbD_high (i : Nat) : (high v).getLsbD i = (decide (i < 32) && v.getLsbD (32 + i)) := by
  rw [high, BitVec.getLsbD_setWidth, BitVec.getLsbD_ushiftRight]

theorem toNat_pair (h l : Word) : (pair h l).toNat = h.toNat * 2 ^ 32 + l.toNat := by
  have := h.isLt
  have := l.isLt
  rw [pair, BitVec.toNat_ofNat]
  omega

theorem low_pair (h l : Word) : low (pair h l) = l := by
  apply BitVec.eq_of_toNat_eq
  have := l.isLt
  rw [toNat_low, toNat_pair]
  omega

theorem high_pair (h l : Word) : high (pair h l) = h := by
  apply BitVec.eq_of_toNat_eq
  have := l.isLt
  rw [toNat_high, toNat_pair]
  omega

theorem pair_high_low : pair (high v) (low v) = v := by
  apply BitVec.eq_of_toNat_eq
  rw [toNat_pair, ← toNat_eq_pair]

/-! ## Operations -/

theorem low_and : low (a &&& b) = low a &&& low b := BitVec.setWidth_and

theorem high_and : high (a &&& b) = high a &&& high b := by
  simp only [high, BitVec.ushiftRight_and_distrib, BitVec.setWidth_and]

theorem low_or : low (a ||| b) = low a ||| low b := BitVec.setWidth_or

theorem high_or : high (a ||| b) = high a ||| high b := by
  simp only [high, BitVec.ushiftRight_or_distrib, BitVec.setWidth_or]

theorem low_xor : low (a ^^^ b) = low a ^^^ low b := BitVec.setWidth_xor

theorem high_xor : high (a ^^^ b) = high a ^^^ high b := by
  simp only [high, BitVec.ushiftRight_xor_distrib, BitVec.setWidth_xor]

/-! ## Shifts

The low half of a shift to the left is that of the low half, and the high half of a shift to the
right is that of the high half. The other half gets bits from both up to a shift by 32, and from the
other one after that. -/

section
variable {n : Nat}

theorem low_shiftLeft (n : Nat) : low (v <<< n) = low v <<< n := by
  apply BitVec.eq_of_getLsbD_eq
  intro i hi
  rw [getLsbD_low, BitVec.getLsbD_shiftLeft, BitVec.getLsbD_shiftLeft, getLsbD_low]
  simp [hi, show i < 64 by omega, show i - n < 32 by omega]

theorem high_shiftLeft_of_le (h : n ≤ 32) :
    high (v <<< n) = high v <<< n ||| low v >>> (32 - n) := by
  apply BitVec.eq_of_getLsbD_eq
  intro i hi
  rw [getLsbD_high, BitVec.getLsbD_or, BitVec.getLsbD_shiftLeft, BitVec.getLsbD_shiftLeft,
    BitVec.getLsbD_ushiftRight, getLsbD_high, getLsbD_low]
  by_cases hin : i < n
  · simp [hi, hin, show ¬ 32 + i < n by omega, show 32 + i < 64 by omega,
      show 32 - n + i < 32 by omega, show 32 + i - n = 32 - n + i by omega]
  · simp [hi, hin, show ¬ 32 + i < n by omega, show 32 + i < 64 by omega,
      show ¬ 32 - n + i < 32 by omega, show 32 + i - n = 32 + (i - n) by omega,
      show i - n < 32 by omega]

theorem high_shiftLeft_of_ge (h : 32 ≤ n) : high (v <<< n) = low v <<< (n - 32) := by
  apply BitVec.eq_of_getLsbD_eq
  intro i hi
  rw [getLsbD_high, BitVec.getLsbD_shiftLeft, BitVec.getLsbD_shiftLeft, getLsbD_low]
  simp only [hi, show 32 + i < 64 by omega,
    show (32 + i < n) = (i < n - 32) from propext (by omega),
    show 32 + i - n = i - (n - 32) by omega, show i - (n - 32) < 32 by omega, decide_true,
    Bool.true_and]

theorem high_ushiftRight (n : Nat) : high (v >>> n) = high v >>> n := by
  apply BitVec.eq_of_getLsbD_eq
  intro i hi
  rw [getLsbD_high, BitVec.getLsbD_ushiftRight, BitVec.getLsbD_ushiftRight, getLsbD_high,
    show n + (32 + i) = 32 + (n + i) by omega]
  by_cases hni : n + i < 32
  · simp [hi, hni]
  · simp [hni, BitVec.getLsbD_of_ge v (32 + (n + i)) (by omega)]

theorem low_ushiftRight_of_le (h : n ≤ 32) :
    low (v >>> n) = low v >>> n ||| high v <<< (32 - n) := by
  apply BitVec.eq_of_getLsbD_eq
  intro i hi
  rw [getLsbD_low, BitVec.getLsbD_or, BitVec.getLsbD_ushiftRight, BitVec.getLsbD_ushiftRight,
    BitVec.getLsbD_shiftLeft, getLsbD_low, getLsbD_high]
  by_cases hni : n + i < 32
  · simp [hi, hni, show i < 32 - n by omega]
  · simp [hi, hni, show ¬ i < 32 - n by omega, show 32 + (i - (32 - n)) = n + i by omega,
      show i - (32 - n) < 32 by omega]

theorem low_ushiftRight_of_ge (h : 32 ≤ n) : low (v >>> n) = high v >>> (n - 32) := by
  apply BitVec.eq_of_getLsbD_eq
  intro i hi
  rw [getLsbD_low, BitVec.getLsbD_ushiftRight, BitVec.getLsbD_ushiftRight, getLsbD_high,
    show 32 + (n - 32 + i) = n + i by omega]
  by_cases hni : n - 32 + i < 32
  · simp [hi, hni]
  · simp [hni, BitVec.getLsbD_of_ge v (n + i) (by omega)]

theorem msb_high : (high v).msb = v.msb := by
  rw [BitVec.msb_eq_getLsbD_last, BitVec.msb_eq_getLsbD_last, getLsbD_high]
  rfl

theorem high_sshiftRight (n : Nat) : high (v.sshiftRight n) = (high v).sshiftRight n := by
  apply BitVec.eq_of_getLsbD_eq
  intro i hi
  rw [getLsbD_high, BitVec.getLsbD_sshiftRight, BitVec.getLsbD_sshiftRight, msb_high, getLsbD_high,
    show n + (32 + i) = 32 + (n + i) by omega]
  by_cases hni : n + i < 32
  · simp [hi, hni, show 32 + (n + i) < 64 by omega, show ¬ 32 ≤ i by omega,
      show 32 + i < 64 by omega]
  · simp [hi, hni, show ¬ 32 + (n + i) < 64 by omega, show ¬ 32 ≤ i by omega,
      show ¬ 64 ≤ 32 + i by omega]

theorem low_sshiftRight_of_le (h : n ≤ 32) :
    low (v.sshiftRight n) = low v >>> n ||| high v <<< (32 - n) := by
  rw [← low_ushiftRight_of_le v h]
  apply BitVec.eq_of_getLsbD_eq
  intro i hi
  rw [getLsbD_low, getLsbD_low, BitVec.getLsbD_sshiftRight, BitVec.getLsbD_ushiftRight]
  simp [hi, show ¬ 64 ≤ i by omega, show n + i < 64 by omega]

theorem low_sshiftRight_of_ge (h : 32 ≤ n) :
    low (v.sshiftRight n) = (high v).sshiftRight (n - 32) := by
  apply BitVec.eq_of_getLsbD_eq
  intro i hi
  rw [getLsbD_low, BitVec.getLsbD_sshiftRight, BitVec.getLsbD_sshiftRight, msb_high, getLsbD_high,
    show 32 + (n - 32 + i) = n + i by omega]
  by_cases hni : n - 32 + i < 32
  · simp [hi, hni, show n + i < 64 by omega, show ¬ 64 ≤ i by omega, show ¬ 32 ≤ i by omega]
  · simp [hi, hni, show ¬ n + i < 64 by omega, show ¬ 64 ≤ i by omega, show ¬ 32 ≤ i by omega]

/-- All shifts by more than 31 fill the word with its sign. -/
theorem sshiftRight_of_ge (x : Word) (h : 31 ≤ n) : x.sshiftRight n = x.sshiftRight 31 := by
  apply BitVec.eq_of_getLsbD_eq
  intro i hi
  rw [BitVec.getLsbD_sshiftRight, BitVec.getLsbD_sshiftRight]
  by_cases h0 : n + i < 32
  · rw [show n = 31 by omega]
  · by_cases h1 : 31 + i < 32
    · simp [show i = 0 by omega, BitVec.msb_eq_getLsbD_last]
      omega
    · simp [h0, h1]

end

/-! ## Extensions, sums and products -/

theorem low_setWidth (x : Word) : low (x.setWidth 64) = x := by
  apply BitVec.eq_of_toNat_eq
  have := x.isLt
  rw [toNat_low, BitVec.toNat_setWidth]
  omega

theorem high_setWidth (x : Word) : high (x.setWidth 64) = 0 := by
  apply BitVec.eq_of_toNat_eq
  have := x.isLt
  rw [toNat_high, BitVec.toNat_setWidth]
  change _ = 0
  omega

theorem low_signExtend (x : Word) : low (x.signExtend 64) = x := by
  apply BitVec.eq_of_getLsbD_eq
  intro i hi
  rw [getLsbD_low, BitVec.getLsbD_signExtend]
  simp [hi, show i < 64 by omega]

theorem high_signExtend (x : Word) : high (x.signExtend 64) = if x.msb then -1 else 0 := by
  apply BitVec.eq_of_getLsbD_eq
  intro i hi
  rw [getLsbD_high, BitVec.getLsbD_signExtend]
  cases hx : x.msb with
  | true =>
    have h1 : (-1 : Word).getLsbD i = true := by
      rw [show (-1 : Word) = BitVec.allOnes 32 from rfl, BitVec.getLsbD_allOnes, decide_eq_true hi]
    rw [if_pos rfl, h1]
    simp [show ¬ 32 + i < 32 by omega, show 32 + i < 64 by omega, hi]
  | false => simp [show ¬ 32 + i < 32 by omega]

/-! ## Additions and comparisons -/

theorem low_add : low (a + b) = (addWithCarry (low a) (low b) false).1 := by
  rw [low, BitVec.setWidth_add _ _ (by decide)]
  exact (BitVec.add_zero _).symm

end

section
variable (x y : Word) (c : Bool)

theorem toNat_addWithCarry :
    (addWithCarry x y c).1.toNat = (x.toNat + y.toNat + c.toNat) % 2 ^ 32 := by
  have hc : c.toNat ≤ 1 := Bool.toNat_le c
  simp only [addWithCarry, BitVec.toNat_add, BitVec.toNat_ofNat]
  omega

theorem carry_addWithCarry :
    (addWithCarry x y c).2.1 = decide (2 ^ 32 ≤ x.toNat + y.toNat + c.toNat) := by
  have h := toNat_addWithCarry x y c
  rw [Bool.eq_iff_iff, decide_eq_true_iff]
  change (_ != _) = true ↔ _
  rw [bne_iff_ne]
  change (addWithCarry x y c).1.toNat ≠ _ ↔ _
  rw [h]
  omega

/-- The sign of the result differs from the overflow iff the sum of the signed values is
negative. -/
theorem negative_addWithCarry :
    ((addWithCarry x y c).1.msb != (addWithCarry x y c).2.2) =
      decide (x.toInt + y.toInt + c.toNat < 0) := by
  have hc : c.toNat ≤ 1 := Bool.toNat_le c
  have hr := toNat_addWithCarry x y c
  have hv : (addWithCarry x y c).2.2 =
      decide ((addWithCarry x y c).1.toInt ≠ x.toInt + y.toInt + c.toNat) := by
    rw [Bool.eq_iff_iff, decide_eq_true_iff]
    exact bne_iff_ne
  rw [hv, BitVec.msb_eq_toInt]
  generalize (addWithCarry x y c).1 = r at *
  have := x.isLt
  have := y.isLt
  rw [BitVec.toInt_eq_toNat_cond, BitVec.toInt_eq_toNat_cond, BitVec.toInt_eq_toNat_cond, hr]
  rw [Bool.eq_iff_iff, bne_iff_ne, decide_eq_true_iff, ne_eq, decide_eq_decide]
  omega

theorem toNat_compl : (~~~y).toNat = 2 ^ 32 - 1 - y.toNat := BitVec.toNat_not

theorem toInt_compl : (~~~y).toInt = -1 - y.toInt := by
  have := y.isLt
  rw [BitVec.toInt_eq_toNat_cond, BitVec.toInt_eq_toNat_cond, toNat_compl]
  omega

/-- `CMP x, y` finds no borrow iff `y` is not above `x`. -/
theorem carry_cmp : (addWithCarry x (~~~y) true).2.1 = decide (y.toNat ≤ x.toNat) := by
  have := y.isLt
  rw [carry_addWithCarry, toNat_compl, decide_eq_decide]
  change 2 ^ 32 ≤ _ + 1 ↔ _
  omega

theorem zero_cmp : ((addWithCarry x (~~~y) true).1 == 0) = (x == y) := by
  have := x.isLt
  have := y.isLt
  rw [Bool.eq_iff_iff, beq_iff_eq, beq_iff_eq, ← BitVec.toNat_inj, ← BitVec.toNat_inj,
    toNat_addWithCarry, toNat_compl]
  change (_ + 1) % 2 ^ 32 = 0 ↔ _
  omega

/-! ## Conditions after a comparison -/

theorem passes_eq : (Flags.arith (addWithCarry x (~~~y) true)).passes 0 = (x == y) :=
  zero_cmp x y

theorem passes_ne : (Flags.arith (addWithCarry x (~~~y) true)).passes 1 = (x != y) :=
  congrArg (!·) (zero_cmp x y)

theorem passes_cs : (Flags.arith (addWithCarry x (~~~y) true)).passes 2 = y.ule x := carry_cmp x y

theorem passes_hi : (Flags.arith (addWithCarry x (~~~y) true)).passes 8 = y.ult x := by
  change ((addWithCarry x (~~~y) true).2.1 && !((addWithCarry x (~~~y) true).1 == 0)) = _
  rw [carry_cmp, zero_cmp, BitVec.ult, Bool.eq_iff_iff]
  simp only [Bool.and_eq_true, decide_eq_true_eq, Bool.not_eq_true', beq_eq_false_iff_ne, ne_eq,
    ← BitVec.toNat_inj]
  omega

end

section
variable (a b : BitVec 64)

theorem high_add :
    high (a + b) =
      (addWithCarry (high a) (high b) (addWithCarry (low a) (low b) false).2.1).1 := by
  apply BitVec.eq_of_toNat_eq
  have := a.isLt
  have := b.isLt
  rw [toNat_addWithCarry, carry_addWithCarry, toNat_high, toNat_high, toNat_high, toNat_low,
    toNat_low, BitVec.toNat_add]
  by_cases h : 2 ^ 32 ≤ a.toNat % 2 ^ 32 + b.toNat % 2 ^ 32 + false.toNat
  · rw [decide_eq_true h]
    simp only [Bool.toNat_true, Bool.toNat_false] at h ⊢
    omega
  · rw [decide_eq_false h]
    simp only [Bool.toNat_false] at h ⊢
    omega

/-- The signed comparison of two pairs: `CMP` of the low words, `SBCS` of the high ones. -/
theorem passes_lt :
    (Flags.arith (addWithCarry (high a) (~~~high b)
      (addWithCarry (low a) (~~~low b) true).2.1)).passes 11 = a.slt b := by
  have h := negative_addWithCarry (high a) (~~~high b) (addWithCarry (low a) (~~~low b) true).2.1
  have := (low a).isLt
  have := (low b).isLt
  refine Eq.trans ?_ (h.trans ?_)
  · rfl
  rw [carry_cmp, toInt_compl, BitVec.slt, decide_eq_decide, toInt_eq_pair a, toInt_eq_pair b]
  by_cases hc : (low b).toNat ≤ (low a).toNat
  · rw [decide_eq_true hc, Bool.toNat_true]
    omega
  · rw [decide_eq_false hc, Bool.toNat_false]
    omega

theorem passes_ge :
    (Flags.arith (addWithCarry (high a) (~~~high b)
      (addWithCarry (low a) (~~~low b) true).2.1)).passes 10 = b.sle a := by
  have h := passes_lt a b
  rw [BitVec.sle_eq_not_slt, ← h]
  exact (Bool.not_not _).symm

/-! ## Differences and products -/

theorem low_sub : low (a - b) = (addWithCarry (low a) (~~~low b) true).1 := by
  apply BitVec.eq_of_toNat_eq
  have := a.isLt
  have := b.isLt
  have := (low b).isLt
  rw [toNat_addWithCarry, toNat_compl, toNat_low, BitVec.toNat_sub, toNat_low, toNat_low,
    Bool.toNat_true]
  omega

theorem high_sub :
    high (a - b) =
      (addWithCarry (high a) (~~~high b) (addWithCarry (low a) (~~~low b) true).2.1).1 := by
  apply BitVec.eq_of_toNat_eq
  have := a.isLt
  have := b.isLt
  rw [toNat_addWithCarry, carry_cmp, toNat_compl, toNat_high, toNat_high, toNat_high, toNat_low,
    toNat_low, BitVec.toNat_sub]
  by_cases h : b.toNat % 2 ^ 32 ≤ a.toNat % 2 ^ 32
  · rw [decide_eq_true h, Bool.toNat_true]
    omega
  · rw [decide_eq_false h, Bool.toNat_false]
    omega

/-- The product of the low words, and what the high words add to its high word. -/
theorem mul_eq_pair :
    a * b = pair (high ((low a).setWidth 64 * (low b).setWidth 64) +
      (high a * low b + low a * high b)) (low ((low a).setWidth 64 * (low b).setWidth 64)) := by
  apply BitVec.eq_of_toNat_eq
  have hla := (low a).isLt
  have hlb := (low b).isLt
  rw [toNat_pair, BitVec.toNat_add, BitVec.toNat_add, BitVec.toNat_mul, BitVec.toNat_mul,
    BitVec.toNat_mul, toNat_high, toNat_low (_ * _), BitVec.toNat_mul, BitVec.toNat_setWidth,
    BitVec.toNat_setWidth, toNat_eq_pair a, toNat_eq_pair b]
  generalize (high a).toNat = ha at *
  generalize (high b).toNat = hb at *
  generalize (low a).toNat = la at *
  generalize (low b).toNat = lb at *
  rw [Nat.mod_eq_of_lt (show la < 2 ^ 64 by omega), Nat.mod_eq_of_lt (show lb < 2 ^ 64 by omega)]
  have hlt : la * lb < 2 ^ 32 * 2 ^ 32 := Nat.mul_lt_mul'' hla hlb
  have hexp : (ha * 2 ^ 32 + la) * (hb * 2 ^ 32 + lb) =
      ha * hb * 2 ^ 64 + (ha * lb + la * hb) * 2 ^ 32 + la * lb := by
    rw [Nat.add_mul, Nat.mul_add, Nat.mul_add, Nat.add_mul]
    have e1 : ha * 2 ^ 32 * (hb * 2 ^ 32) = ha * hb * 2 ^ 64 := by
      rw [Nat.mul_mul_mul_comm, ← Nat.pow_add]
    have e2 : ha * 2 ^ 32 * lb = ha * lb * 2 ^ 32 := Nat.mul_right_comm ..
    rw [e1, e2, ← Nat.mul_assoc]
    omega
  rw [hexp]
  generalize la * lb = p at *
  generalize ha * lb = q at *
  generalize la * hb = r at *
  generalize ha * hb = m at *
  omega

end

end Thumb
