import BlueSwat.Lib.Bytes

/-!
# Records of words in byte memory

A C struct whose members are words (or arrays of words) is the list of its words in declaration
order. A `Layout` names them by a type `ι` of slots, a value of the struct is a function
`ι → BitVec 32`, and `Holds` says that memory holds that value at an address.

* `holds_image`: a value written to memory (`image`) is held there.
* `Holds.read`, `Holds.readBack`: reading a slot, or all of them, gives the value back.
* `Holds.congr`: only the bytes of the record matter.
* `Holds.agree`: the value fixes them.
-/

set_option autoImplicit false

namespace Record

open Bytes

/-- The words of a struct in declaration order; every slot is one of them. -/
structure Layout (ι : Type) [DecidableEq ι] where
  slots : List ι
  complete : ∀ i, i ∈ slots

variable {ι : Type} [DecidableEq ι] {w : Nat}

section
variable (L : Layout ι)

/-- `sizeof`. -/
def Layout.size : Nat := 4 * L.slots.length

/-- `offsetof`. -/
def Layout.offset (i : ι) : Nat := 4 * L.slots.idxOf i

/-- Memory `M` with the value `s` at `base`. -/
def Layout.image (M : BitVec w → BitVec 8) (base : BitVec w) (s : ι → BitVec 32) :
    BitVec w → BitVec 8 := fun a =>
  match L.slots[(a - base).toNat / 4]? with
  | some i => (s i).extractLsb' (8 * ((a - base).toNat % 4)) 8
  | none => M a

def Layout.readBack (M : BitVec w → BitVec 8) (base : BitVec w) : ι → BitVec 32 := fun i =>
  BitVec.ofNat 32 (read M (base + BitVec.ofNat w (L.offset i)) 4)

/-- Memory `M` holds the value `s` at `base`. -/
def Layout.Holds (M : BitVec w → BitVec 8) (base : BitVec w) (s : ι → BitVec 32) : Prop :=
  ∀ i, ∀ k < 4, M (base + BitVec.ofNat w (L.offset i) + BitVec.ofNat w k) =
    (s i).extractLsb' (8 * k) 8

end

variable {L : Layout ι} {M M' : BitVec w → BitVec 8} {base : BitVec w} {s : ι → BitVec 32}

theorem Layout.offset_add_lt (i : ι) {k : Nat} (hk : k < 4) : L.offset i + k < L.size := by
  have := List.idxOf_lt_length_of_mem (L.complete i)
  simp only [offset, size]
  omega

theorem add_offset_add (base : BitVec w) (n k : Nat) :
    base + BitVec.ofNat w n + BitVec.ofNat w k = base + BitVec.ofNat w (n + k) := by
  rw [BitVec.add_assoc, BitVec.ofNat_add]

theorem holds_image (hsz : L.size ≤ 2 ^ w) : L.Holds (L.image M base s) base s := by
  intro i k hk
  have hlt := L.offset_add_lt i hk
  have hk' : (base + BitVec.ofNat w (L.offset i) + BitVec.ofNat w k - base).toNat =
      L.offset i + k := by
    rw [add_offset_add, BitVec.add_comm, BitVec.add_sub_cancel, BitVec.toNat_ofNat,
      Nat.mod_eq_of_lt (by omega)]
  have hi : L.slots[(L.offset i + k) / 4]? = some i := by
    rw [show (L.offset i + k) / 4 = L.slots.idxOf i by simp only [Layout.offset]; omega]
    exact List.getElem?_idxOf (L.complete i)
  have hm : (L.offset i + k) % 4 = k := by simp only [Layout.offset]; omega
  simp only [Layout.image, hk', hi, hm]

theorem Layout.Holds.congr (h : L.Holds M base s) (hM : ∀ a, Within a base L.size → M' a = M a) :
    L.Holds M' base s := by
  intro i k hk
  rw [← h i k hk]
  apply hM
  rw [add_offset_add]
  exact within_add (L.offset_add_lt i hk)

/-- Where no slot is listed twice, the value fixes every byte of the struct. -/
theorem Layout.Holds.agree (hnd : L.slots.Nodup) (h : L.Holds M base s) (h' : L.Holds M' base s)
    {a : BitVec w} (ha : Within a base L.size) : M a = M' a := by
  obtain ⟨d, hd, rfl⟩ := ha.exists_add
  have hq : d / 4 < L.slots.length := by
    rw [Layout.size] at hd
    omega
  have hoff : L.offset L.slots[d / 4] = 4 * (d / 4) := by
    rw [Layout.offset, hnd.idxOf_getElem]
  have hat : base + BitVec.ofNat w d =
      base + BitVec.ofNat w (L.offset L.slots[d / 4]) + BitVec.ofNat w (d % 4) := by
    rw [add_offset_add, hoff, Nat.div_add_mod]
  have hk : d % 4 < 4 := Nat.mod_lt _ (by decide)
  rw [hat, h _ _ hk, h' _ _ hk]

theorem Layout.Holds.read (h : L.Holds M base s) (i : ι) :
    Bytes.read M (base + BitVec.ofNat w (L.offset i)) 4 = (s i).toNat :=
  read_four (h i)

theorem Layout.Holds.readBack (h : L.Holds M base s) : L.readBack M base = s := by
  funext i
  rw [Layout.readBack, h.read, BitVec.ofNat_toNat, BitVec.setWidth_eq]

end Record
