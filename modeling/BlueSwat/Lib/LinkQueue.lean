import Mathlib.Logic.Function.Basic
import Mathlib.Data.List.Nodup

/-!
# Queues of links

A heap of links, each with the address of the next one and a payload. A queue is a segment of it:
`Seg h q p l` are the links from `p` up to `q`, without `q`, whose own fields mean nothing yet. A
link is put in by filling in the fields of `q` and making the new link the end.

* `Seg.snoc`, `Seg.next`: a payload is put in, the first link is taken out.
* `Seg.congr`: a segment depends on its own links only, so that segments of one heap with no link
  in common do not disturb each other.
* `Seg.nil_iff`: the segment is empty when its two ends are the same link.
-/

set_option autoImplicit false

namespace LinkQueue

structure Link (A V : Type) where
  next : A
  mem : V

abbrev Links (A V : Type) := A → Link A V

variable {A V : Type}

def Seg (h : Links A V) (q : A) : A → List (A × V) → Prop
  | p, [] => p = q
  | p, (a, v) :: l => p = a ∧ (h a).mem = v ∧ Seg h q (h a).next l

def addrs (l : List (A × V)) : List A := l.map Prod.fst

def payloads (l : List (A × V)) : List V := l.map Prod.snd

section
variable {h h' : Links A V} {p q b : A} {v : V} {x : A × V} {l : List (A × V)}

@[simp] theorem addrs_nil : addrs ([] : List (A × V)) = [] := rfl

@[simp] theorem addrs_cons : addrs (x :: l) = x.1 :: addrs l := rfl

@[simp] theorem addrs_append (l l' : List (A × V)) : addrs (l ++ l') = addrs l ++ addrs l' :=
  List.map_append

@[simp] theorem payloads_nil : payloads ([] : List (A × V)) = [] := rfl

@[simp] theorem payloads_cons : payloads (x :: l) = x.2 :: payloads l := rfl

@[simp] theorem payloads_append (l l' : List (A × V)) :
    payloads (l ++ l') = payloads l ++ payloads l' := List.map_append

theorem Seg.congr (hl : Seg h q p l) (he : ∀ a ∈ addrs l, h' a = h a) : Seg h' q p l := by
  induction l generalizing p with
  | nil => exact hl
  | cons x l ih =>
    obtain ⟨rfl, hv, hs⟩ := hl
    have hx : h' x.1 = h x.1 := he x.1 List.mem_cons_self
    refine ⟨rfl, hx ▸ hv, ?_⟩
    rw [hx]
    exact ih hs fun a ha => he a (List.mem_cons_of_mem _ ha)

theorem Seg.nil_iff (hl : Seg h q p l) (hq : q ∉ addrs l) : p = q ↔ l = [] := by
  cases l with
  | nil => exact ⟨fun _ => rfl, fun _ => hl⟩
  | cons x l =>
    obtain ⟨rfl, -, -⟩ := hl
    exact ⟨fun e => absurd List.mem_cons_self (e ▸ hq), fun e => by cases e⟩

theorem Seg.next (hl : Seg h q p (x :: l)) : Seg h q (h p).next l := by
  obtain ⟨rfl, -, hs⟩ := hl
  exact hs

theorem Seg.head (hl : Seg h q p (x :: l)) : (p, (h p).mem) = x := by
  obtain ⟨rfl, hv, -⟩ := hl
  rw [hv]

theorem Seg.snoc [DecidableEq A] (hl : Seg h q p l) (hq : q ∉ addrs l) :
    Seg (Function.update h q ⟨b, v⟩) b p (l ++ [(q, v)]) := by
  induction l generalizing p with
  | nil =>
    cases hl
    exact ⟨rfl, by simp, by simp [Seg]⟩
  | cons x l ih =>
    obtain ⟨rfl, hv, hs⟩ := hl
    rw [addrs_cons, List.mem_cons, not_or] at hq
    have hx : Function.update h q ⟨b, v⟩ x.1 = h x.1 := Function.update_of_ne (Ne.symm hq.1) _ _
    refine ⟨rfl, hx ▸ hv, ?_⟩
    rw [hx]
    exact ih hs hq.2

end

end LinkQueue
