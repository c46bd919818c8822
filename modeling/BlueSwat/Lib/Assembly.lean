import Mathlib.Algebra.GroupWithZero.Nat

/-!
# Placing the items of a listing

A pass of an assembler goes through the items of a listing from front to back and puts each where
the one before it ended. How long an item is may depend on where it is put. An item can take several
slots of the listing (`next`), and a pass can give up after one (`stops`).

* `place_next`, `place_pred`: the item after a placed one is put at its end, and every placed item
  but the first comes after a placed one.
* `place_last`: an item that ends the listing ends the pass.
* `place_unique`: an item has one place.
* `place_end_eq_sum`: the end of a pass is the sum of the sizes.
* `place_congr`: passes that agree on the sizes of what one of them places agree on all places.
* `size_eq_of_place_eq`: passes that agree on the places agree on the size of every item that
  another one comes after.
-/

set_option autoImplicit false

namespace Assembly

/-- A listing of `num` slots; the item at slot `i` takes the slots before `next i`. -/
structure Listing where
  num : Nat
  next : Nat → Nat
  stops : Nat → Bool
  lt_next : ∀ i, i < next i

namespace Listing

variable (L : Listing) (size : Nat → Nat → Nat)

/-- The items from slot `i` on with their places, and the end of the last one, if item `i` takes
`size i a` at place `a`. There are at most `fuel` of them. -/
def place : Nat → Nat → Nat → List (Nat × Nat) × Nat
  | 0, _, a => ([], a)
  | fuel + 1, i, a =>
    if i < L.num then
      if L.stops i then ([(i, a)], a + size i a)
      else
        let (places, stop) := place fuel (L.next i) (a + size i a)
        ((i, a) :: places, stop)
    else ([], a)

variable {L size} {fuel i a p b t : Nat}

theorem place_of_le (h : L.num ≤ i) : L.place size fuel i a = ([], a) := by
  cases fuel with
  | zero => rfl
  | succ fuel => rw [place, if_neg (by omega)]

theorem place_stop (hi : i < L.num) (h : L.stops i = true) :
    L.place size (fuel + 1) i a = ([(i, a)], a + size i a) := by
  rw [place, if_pos hi, if_pos h]

theorem place_cons (hi : i < L.num) (h : L.stops i = false) :
    L.place size (fuel + 1) i a =
      ((i, a) :: (L.place size fuel (L.next i) (a + size i a)).1,
        (L.place size fuel (L.next i) (a + size i a)).2) := by
  rw [place, if_pos hi, if_neg (by simp [h])]

/-- Induction over a pass: nothing is left, it stops, or it goes on behind the first item. -/
theorem place_induct {motive : Nat → Nat → Nat → Prop}
    (done : ∀ fuel i a, (fuel = 0 ∨ L.num ≤ i) → motive fuel i a)
    (stop : ∀ fuel i a, i < L.num → L.stops i = true → motive (fuel + 1) i a)
    (cons : ∀ fuel i a, i < L.num → L.stops i = false →
      motive fuel (L.next i) (a + size i a) → motive (fuel + 1) i a) (fuel i a : Nat) :
    motive fuel i a := by
  induction fuel generalizing i a with
  | zero => exact done 0 i a (.inl rfl)
  | succ fuel ih =>
    by_cases hi : i < L.num
    · cases h : L.stops i with
      | true => exact stop fuel i a hi h
      | false => exact cons fuel i a hi h (ih _ _)
    · exact done _ i a (.inr (by omega))

theorem place_done (h : fuel = 0 ∨ L.num ≤ i) : L.place size fuel i a = ([], a) := by
  rcases h with rfl | h
  · rfl
  · exact place_of_le h

/-! ## The places of one pass -/

/-- Items are placed in order. -/
theorem le_of_mem_place (h : (p, b) ∈ (L.place size fuel i a).1) : i ≤ p ∧ p < L.num := by
  induction fuel, i, a using @place_induct L size with
  | done fuel i a hd => simp [place_done hd] at h
  | stop fuel i a hi hs =>
    simp only [place_stop hi hs, List.mem_singleton, Prod.mk.injEq] at h
    omega
  | cons fuel i a hi hs ih =>
    simp only [place_cons hi hs, List.mem_cons, Prod.mk.injEq] at h
    have := L.lt_next i
    rcases h with h | h
    · omega
    · have := ih h
      omega

theorem place_unique (h1 : (p, b) ∈ (L.place size fuel i a).1)
    (h2 : (p, t) ∈ (L.place size fuel i a).1) : b = t := by
  induction fuel, i, a using @place_induct L size with
  | done fuel i a hd => simp [place_done hd] at h1
  | stop fuel i a hi hs =>
    simp only [place_stop hi hs, List.mem_singleton, Prod.mk.injEq] at h1 h2
    omega
  | cons fuel i a hi hs ih =>
    simp only [place_cons hi hs, List.mem_cons, Prod.mk.injEq] at h1 h2
    have hlt := L.lt_next i
    rcases h1 with h1 | h1 <;> rcases h2 with h2 | h2
    · omega
    · have := le_of_mem_place h2
      omega
    · have := le_of_mem_place h1
      omega
    · exact ih h1 h2

/-- Every placed item but the first comes after a placed one. -/
theorem place_pred (h : (t, b) ∈ (L.place size fuel i a).1) :
    (t = i ∧ b = a) ∨ ∃ p c, (p, c) ∈ (L.place size fuel i a).1 ∧ L.stops p = false ∧
      L.next p = t ∧ b = c + size p c := by
  induction fuel, i, a using @place_induct L size with
  | done fuel i a hd => simp [place_done hd] at h
  | stop fuel i a hi hs =>
    simp only [place_stop hi hs, List.mem_singleton, Prod.mk.injEq] at h
    exact .inl h
  | cons fuel i a hi hs ih =>
    simp only [place_cons hi hs, List.mem_cons, Prod.mk.injEq] at h ⊢
    rcases h with h | h
    · exact .inl h
    right
    rcases ih h with ⟨rfl, rfl⟩ | ⟨p, c, hp, h1⟩
    · exact ⟨i, a, .inl ⟨rfl, rfl⟩, hs, rfl, rfl⟩
    · exact ⟨p, c, .inr hp, h1⟩

/-- With enough fuel, the item after a placed one is placed. -/
theorem place_next (hf : L.num ≤ fuel + i) (h : (p, b) ∈ (L.place size fuel i a).1)
    (hs : L.stops p = false) (hn : L.next p < L.num) :
    (L.next p, b + size p b) ∈ (L.place size fuel i a).1 := by
  induction fuel, i, a using @place_induct L size with
  | done fuel i a hd => simp [place_done hd] at h
  | stop fuel i a hi hst =>
    simp only [place_stop hi hst, List.mem_singleton, Prod.mk.injEq] at h
    rw [h.1, hst] at hs
    cases hs
  | cons fuel i a hi hst ih =>
    have hlt := L.lt_next i
    simp only [place_cons hi hst, List.mem_cons, Prod.mk.injEq] at h ⊢
    right
    rcases h with ⟨rfl, rfl⟩ | h
    · -- the rest of the pass has fuel for at least one more item
      obtain ⟨k, rfl⟩ : ∃ k, fuel = k + 1 := ⟨fuel - 1, by omega⟩
      cases hk : L.stops (L.next p) with
      | true => simp [place_stop hn hk]
      | false => simp [place_cons hn hk]
    · exact ih (by omega) h

/-- An item that ends the listing ends the pass. -/
theorem place_last (h : (p, b) ∈ (L.place size fuel i a).1) (hs : L.stops p = false)
    (hn : L.num ≤ L.next p) : (L.place size fuel i a).2 = b + size p b := by
  induction fuel, i, a using @place_induct L size with
  | done fuel i a hd => simp [place_done hd] at h
  | stop fuel i a hi hst =>
    simp only [place_stop hi hst, List.mem_singleton, Prod.mk.injEq] at h
    rw [h.1, hst] at hs
    cases hs
  | cons fuel i a hi hst ih =>
    simp only [place_cons hi hst, List.mem_cons, Prod.mk.injEq] at h ⊢
    rcases h with ⟨rfl, rfl⟩ | h
    · rw [place_of_le hn]
    · exact ih h

theorem le_place_end : a ≤ (L.place size fuel i a).2 := by
  induction fuel, i, a using @place_induct L size with
  | done fuel i a hd => simp [place_done hd]
  | stop fuel i a hi hs => simp [place_stop hi hs]
  | cons fuel i a hi hs ih =>
    simp only [place_cons hi hs]
    omega

/-- The pass ends behind every item. -/
theorem end_of_mem_place (h : (p, b) ∈ (L.place size fuel i a).1) :
    b + size p b ≤ (L.place size fuel i a).2 := by
  induction fuel, i, a using @place_induct L size with
  | done fuel i a hd => simp [place_done hd] at h
  | stop fuel i a hi hs =>
    simp only [place_stop hi hs, List.mem_singleton, Prod.mk.injEq] at h ⊢
    obtain ⟨rfl, rfl⟩ := h
    exact Nat.le_refl _
  | cons fuel i a hi hs ih =>
    simp only [place_cons hi hs, List.mem_cons, Prod.mk.injEq] at h ⊢
    rcases h with ⟨rfl, rfl⟩ | h
    · exact le_place_end
    · exact ih h

theorem place_end_eq_sum :
    (L.place size fuel i a).2 = a + ((L.place size fuel i a).1.map fun p => size p.1 p.2).sum := by
  induction fuel, i, a using @place_induct L size with
  | done fuel i a hd => simp [place_done hd]
  | stop fuel i a hi hs => simp [place_stop hi hs]
  | cons fuel i a hi hs ih =>
    simp only [place_cons hi hs, List.map_cons, List.sum_cons]
    omega

/-! ## Two passes -/

theorem place_congr {size' : Nat → Nat → Nat}
    (h : ∀ p b, (p, b) ∈ (L.place size fuel i a).1 → size p b = size' p b) :
    L.place size fuel i a = L.place size' fuel i a := by
  induction fuel, i, a using @place_induct L size with
  | done fuel i a hd => rw [place_done hd, place_done hd]
  | stop fuel i a hi hs =>
    rw [place_stop hi hs, place_stop hi hs, h i a (by simp [place_stop hi hs])]
  | cons fuel i a hi hs ih =>
    have h0 := h i a (by simp [place_cons hi hs])
    have ih' := ih fun p b hp => h p b (by simp [place_cons hi hs, hp])
    rw [place_cons hi hs, place_cons hi hs, ← h0, ih']

/-- An item whose successor has the same place in both passes has the same size in both. -/
theorem size_eq_of_place_eq {size' : Nat → Nat → Nat} (hf : L.num ≤ fuel + i)
    (h : (L.place size fuel i a).1 = (L.place size' fuel i a).1)
    (hp : (p, b) ∈ (L.place size fuel i a).1) (hs : L.stops p = false) (hn : L.next p < L.num) :
    size p b = size' p b := by
  have h1 := place_next hf hp hs hn
  have h2 := place_next hf (h ▸ hp) hs hn
  have := place_unique h1 (h ▸ h2)
  omega

end Listing

end Assembly
