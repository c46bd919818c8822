import Mathlib.Logic.Function.Basic

/-!
# Linked lists in a heap

A heap maps the addresses of allocated nodes to a value and the address of the next node, `none` for
`NULL`. `Chain h p l`: from `p` on, the nodes are those of `l`, and the last one ends the list.

* `Chain.unique`, `Chain.nodup`: the nodes of a list are determined by its head, and no node comes
  twice (the list has no cycle).
* `Chain.congr`: a list depends on its own nodes only.
* `Chain.append`, `Chain.unlink`: the list after a node is put behind its last one, and after the
  node behind its first one is taken out.
* `Chain.link`: the last node is made to point to another list.
* `Lists`: many lists without a node in common; `Lists.update`, `Lists.link`, `Lists.first`: a free
  node is written, and is put behind a list.
-/

set_option autoImplicit false

namespace LinkedList

structure Node (A V : Type) where
  next : Option A
  value : V

abbrev Heap (A V : Type) := A → Option (Node A V)

variable {A V : Type}

/-- The list at `p` has the nodes `l`: their addresses and values. -/
def Chain (h : Heap A V) : Option A → List (A × V) → Prop
  | p, [] => p = none
  | p, (a, v) :: l => p = some a ∧ ∃ n, h a = some ⟨n, v⟩ ∧ Chain h n l

def addrs (l : List (A × V)) : List A := l.map Prod.fst

section
variable {h h' : Heap A V} {p : Option A} {l l' : List (A × V)} {a b : A} {v w : V}

@[simp] theorem addrs_nil : addrs ([] : List (A × V)) = [] := rfl

@[simp] theorem addrs_cons (x : A × V) (l : List (A × V)) : addrs (x :: l) = x.1 :: addrs l := rfl

@[simp] theorem addrs_append (l l' : List (A × V)) : addrs (l ++ l') = addrs l ++ addrs l' :=
  List.map_append

theorem Chain.unique (hl : Chain h p l) (hl' : Chain h p l') : l = l' := by
  induction l generalizing p l' with
  | nil =>
    cases hl
    cases l' with
    | nil => rfl
    | cons x l' => cases hl'.1
  | cons x l ih =>
    obtain ⟨rfl, n, hn, hc⟩ := hl
    cases l' with
    | nil => cases hl'
    | cons y l' =>
      obtain ⟨a, v⟩ := y
      obtain ⟨e, n', hn', hc'⟩ := hl'
      cases e
      cases hn.symm.trans hn'
      rw [ih hc hc']

/-- The list from a node on. -/
theorem Chain.of_mem (hl : Chain h p l) (ha : a ∈ addrs l) :
    ∃ v k, Chain h (some a) ((a, v) :: k) ∧ k.length < l.length := by
  induction l generalizing p with
  | nil => cases ha
  | cons x l ih =>
    obtain ⟨rfl, n, hn, hc⟩ := hl
    rw [addrs_cons, List.mem_cons] at ha
    rcases ha with rfl | ha
    · exact ⟨x.2, l, ⟨rfl, n, hn, hc⟩, Nat.lt_succ_self _⟩
    · obtain ⟨v, k, hk, hlt⟩ := ih hc ha
      exact ⟨v, k, hk, Nat.lt_succ_of_lt hlt⟩

theorem Chain.nodup (hl : Chain h p l) : (addrs l).Nodup := by
  induction l generalizing p with
  | nil => exact List.nodup_nil
  | cons x l ih =>
    obtain ⟨rfl, n, hn, hc⟩ := hl
    refine List.nodup_cons.2 ⟨fun hx => ?_, ih hc⟩
    -- the list from the second time on would be the whole list, and shorter
    obtain ⟨v, k, hk, hlt⟩ := hc.of_mem hx
    have he := hk.unique (show Chain h (some x.1) (x :: l) from ⟨rfl, n, hn, hc⟩)
    rw [← (List.cons.inj he).2] at hlt
    exact Nat.lt_irrefl _ hlt

theorem Chain.congr (hl : Chain h p l) (he : ∀ a ∈ addrs l, h' a = h a) : Chain h' p l := by
  induction l generalizing p with
  | nil => exact hl
  | cons x l ih =>
    obtain ⟨rfl, n, hn, hc⟩ := hl
    exact ⟨rfl, n, (he x.1 List.mem_cons_self).trans hn,
      ih hc fun a ha => he a (List.mem_cons_of_mem _ ha)⟩

theorem Chain.allocated (hl : Chain h p l) (ha : a ∈ addrs l) : (h a).isSome := by
  obtain ⟨v, k, ⟨-, n, hn, -⟩, -⟩ := hl.of_mem ha
  rw [hn]
  rfl

theorem Chain.last (hl : Chain h p (l ++ [(a, v)])) : h a = some ⟨none, v⟩ := by
  induction l generalizing p with
  | nil =>
    obtain ⟨rfl, n, hn, rfl⟩ := hl
    exact hn
  | cons x l ih =>
    obtain ⟨-, n, -, hc⟩ := hl
    exact ih hc

variable [DecidableEq A]

/-- Put the node `b` behind the last one, `a`. -/
theorem Chain.append (hl : Chain h p (l ++ [(a, v)])) (hb : b ∉ addrs (l ++ [(a, v)])) :
    Chain (Function.update (Function.update h b (some ⟨none, w⟩)) a (some ⟨some b, v⟩)) p
      (l ++ [(a, v), (b, w)]) := by
  induction l generalizing p with
  | nil =>
    obtain ⟨rfl, n, hn, rfl⟩ := hl
    have hba : b ≠ a := fun e => hb (by simp [e])
    exact ⟨rfl, some b, by simp, rfl, none, by simp [hba], rfl⟩
  | cons x l ih =>
    have hnd := hl.nodup
    obtain ⟨rfl, n, hn, hc⟩ := hl
    rw [List.cons_append, addrs_cons, List.mem_cons, not_or] at hb
    have hxa : x.1 ≠ a := fun e => (List.nodup_cons.1 hnd).1 (by simp [e])
    refine ⟨rfl, n, ?_, ih hc hb.2⟩
    rw [Function.update_of_ne hxa, Function.update_of_ne (Ne.symm hb.1), hn]

/-- Take out the node `b` behind the first one, `a`. -/
theorem Chain.unlink {n : Option A} (hl : Chain h p ((a, v) :: (b, w) :: l))
    (hb : h b = some ⟨n, w⟩) :
    Chain (Function.update (Function.update h a (some ⟨n, v⟩)) b none) p ((a, v) :: l) := by
  have hnd := hl.nodup
  obtain ⟨rfl, _, -, rfl, n', hb', hc⟩ := hl
  cases hb.symm.trans hb'
  simp only [addrs_cons, List.nodup_cons, List.mem_cons, not_or] at hnd
  refine ⟨rfl, n, by simp [hnd.1.1], hc.congr fun x hx => ?_⟩
  have hxa : x ≠ a := fun e => hnd.1.2 (e ▸ hx)
  have hxb : x ≠ b := fun e => hnd.2.1 (e ▸ hx)
  rw [Function.update_of_ne hxb, Function.update_of_ne hxa]

/-- Let the last node, `a`, point to the list at `b`. -/
theorem Chain.link {k : List (A × V)} (hl : Chain h p (l ++ [(a, v)])) (hb : Chain h (some b) k)
    (ha : a ∉ addrs k) :
    Chain (Function.update h a (some ⟨some b, v⟩)) p (l ++ (a, v) :: k) := by
  induction l generalizing p with
  | nil =>
    obtain ⟨rfl, n, hn, rfl⟩ := hl
    refine ⟨rfl, some b, by simp, hb.congr fun x hx => ?_⟩
    have hxa : x ≠ a := fun e => ha (e ▸ hx)
    exact Function.update_of_ne hxa _ _
  | cons x l ih =>
    have hnd := hl.nodup
    obtain ⟨rfl, n, hn, hc⟩ := hl
    have hxa : x.1 ≠ a := fun e => (List.nodup_cons.1 hnd).1 (by simp [e])
    exact ⟨rfl, n, by rw [Function.update_of_ne hxa, hn], ih hc⟩

end

/-! ## Many lists in one heap -/

/-- The lists at the heads `head` have the nodes `nodes`, and no node is in two of them. -/
structure Lists {I : Type} (h : Heap A V) (head : I → Option A) (nodes : I → List (A × V)) :
    Prop where
  chain : ∀ i, Chain h (head i) (nodes i)
  apart : ∀ i j, i ≠ j → ∀ a ∈ addrs (nodes i), a ∉ addrs (nodes j)

section
variable {I : Type} {h h' : Heap A V} {head head' : I → Option A} {nodes : I → List (A × V)}
  {i : I} {a b : A} {v w : V} {l : List (A × V)}

/-- One list changes, and nothing that the others are made of. -/
theorem Lists.replace [DecidableEq I] (hl : Lists h head nodes) (hi : Chain h' (head' i) l)
    (hhead : ∀ j, j ≠ i → head' j = head j)
    (hheap : ∀ j, j ≠ i → ∀ a ∈ addrs (nodes j), h' a = h a)
    (hfree : ∀ j, j ≠ i → ∀ a ∈ addrs l, a ∉ addrs (nodes j)) :
    Lists h' head' (Function.update nodes i l) := by
  refine ⟨fun j => ?_, fun j k hjk a ha => ?_⟩
  · by_cases hj : j = i
    · subst hj
      rwa [Function.update_self]
    · rw [Function.update_of_ne hj, hhead j hj]
      exact (hl.chain j).congr (hheap j hj)
  · by_cases hj : j = i
    · subst hj
      rw [Function.update_self] at ha
      rw [Function.update_of_ne (Ne.symm hjk)]
      exact hfree k (Ne.symm hjk) a ha
    · rw [Function.update_of_ne hj] at ha
      by_cases hk : k = i
      · subst hk
        rw [Function.update_self]
        exact fun hal => hfree j hj a hal ha
      · rw [Function.update_of_ne hk]
        exact hl.apart j k hjk a ha

/-- A node in no list becomes the first one of a list that was empty. -/
theorem Lists.first [DecidableEq I] (hl : Lists h head nodes) (hi : nodes i = [])
    (hb : h b = some ⟨none, w⟩) (hfree : ∀ j, b ∉ addrs (nodes j)) :
    Lists h (Function.update head i (some b)) (Function.update nodes i (nodes i ++ [(b, w)])) := by
  refine hl.replace ?_ (fun j hj => Function.update_of_ne hj _ _) (fun _ _ _ _ => rfl)
    fun j _ x hx => ?_
  · rw [Function.update_self, hi]
    exact ⟨rfl, none, hb, rfl⟩
  · rw [hi, List.nil_append, addrs_cons, addrs_nil, List.mem_singleton] at hx
    rw [hx]
    exact hfree j

variable [DecidableEq A]

/-- A node in no list is written. -/
theorem Lists.update (hl : Lists h head nodes) (ha : ∀ i, a ∉ addrs (nodes i))
    (n : Option (Node A V)) : Lists (Function.update h a n) head nodes := by
  refine ⟨fun i => (hl.chain i).congr fun x hx => ?_, hl.apart⟩
  have hxa : x ≠ a := fun e => ha i (e ▸ hx)
  exact Function.update_of_ne hxa _ _

/-- A node in no list is put behind the last one of a list. -/
theorem Lists.link [DecidableEq I] (hl : Lists h head nodes) (hi : nodes i = l ++ [(a, v)])
    (hb : h b = some ⟨none, w⟩) (hfree : ∀ j, b ∉ addrs (nodes j)) :
    Lists (Function.update h a (some ⟨some b, v⟩)) head
      (Function.update nodes i (nodes i ++ [(b, w)])) := by
  have ha : a ∈ addrs (nodes i) := by simp [hi]
  have hab : a ≠ b := fun e => hfree i (e ▸ ha)
  have hc := hl.chain i
  rw [hi] at hc
  have hchain := hc.link (k := [(b, w)]) ⟨rfl, none, hb, rfl⟩ (by simpa using hab)
  rw [List.append_cons, ← hi] at hchain
  refine hl.replace hchain (fun _ _ => rfl) (fun j hj x hx => ?_) fun j hj x hx => ?_
  · have hxa : x ≠ a := fun e => hl.apart j i hj x hx (e ▸ ha)
    exact Function.update_of_ne hxa _ _
  · rw [addrs_append, List.mem_append] at hx
    rcases hx with hx | hx
    · exact hl.apart i j (Ne.symm hj) x hx
    · rw [List.mem_singleton.1 hx]
      exact hfree j

end

end LinkedList
