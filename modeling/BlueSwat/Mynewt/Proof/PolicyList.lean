import BlueSwat.Mynewt.PolicyList

/-!
# The policy lists are sequences

`Separated s nodes`: the nodes of each slot's list, and no node in two lists. Each loop follows the
list of one slot and writes to its nodes (`lastNode_eq`, `unlinkNode_spec`), so that the lists of
the other slots stay as they are (`Separated.update`). `calls_hold` is the result for whole runs;
`apply_register` says that `Fsm.Registry` has the same sequences.
-/

set_option autoImplicit false

namespace BlueSwat.Mynewt

open Fsm LinkedList

abbrev SlotId := StateClass × Fin port.dcParamNum

def slotEntry (slot : SlotId) : Nat := port.entry slot.1 slot.2

theorem slotEntry_injective : Function.Injective slotEntry := by
  intro ⟨c, t⟩ ⟨c', t'⟩ h
  have ht : t.val < 4 := t.isLt
  have ht' : t'.val < 4 := t'.isLt
  have he : c.ctorIdx * 4 + t.val = c'.ctorIdx * 4 + t'.val := h
  have hc : c = c' := by
    have : c.ctorIdx = c'.ctorIdx := by omega
    cases c <;> cases c' <;> first | rfl | cases this
  subst hc
  rw [Fin.ext (show t.val = t'.val by omega)]

/-! ## The loops -/

section
variable {heap : Heap Addr Int} {l : List (Addr × Int)} {p a b : Addr} {v : Int} {fuel : Nat}
  (pid : Int)

theorem lastNode_eq (hl : Chain heap (some p) (l ++ [(a, v)])) (hf : l.length < fuel) :
    PolicyLists.lastNode heap fuel p = some a := by
  induction l generalizing p fuel with
  | nil =>
    obtain ⟨⟨⟩, n, hn, rfl⟩ := hl
    obtain ⟨f, rfl⟩ : ∃ f, fuel = f + 1 := ⟨fuel - 1, by simp at hf; omega⟩
    rw [PolicyLists.lastNode, hn]
    rfl
  | cons x l ih =>
    obtain ⟨⟨⟩, n, hn, hc⟩ := hl
    obtain ⟨f, rfl⟩ : ∃ f, fuel = f + 1 := ⟨fuel - 1, by simp at hf; omega⟩
    -- the rest of the list has a first node
    obtain ⟨q, rfl⟩ : ∃ q, n = some q := by
      cases l with
      | nil => exact ⟨a, hc.1⟩
      | cons y l => exact ⟨y.1, hc.1⟩
    rw [PolicyLists.lastNode, hn]
    exact ih hc (by simpa using hf)

theorem appendNode_spec (hl : Chain heap (some p) l) (hf : l.length ≤ fuel)
    (hb : heap b = none) :
    ∃ heap', PolicyLists.appendNode fuel p (some b) pid heap = some heap' ∧
      Chain heap' (some p) (l ++ [(b, pid)]) ∧ ∀ x, x ∉ addrs l → x ≠ b → heap' x = heap x := by
  have hfresh : b ∉ addrs l := fun h => by simpa [hb] using hl.allocated h
  obtain rfl | ⟨k, ⟨a, v⟩, rfl⟩ := List.eq_nil_or_concat l
  · cases hl
  · simp only [List.concat_eq_append] at hl hf hfresh ⊢
    have hba : a ≠ b := fun e => hfresh (by simp [e])
    refine ⟨_, ?_, by simpa using hl.append hfresh, fun x hx hxb => ?_⟩
    · rw [PolicyLists.appendNode, lastNode_eq hl (by simp at hf; omega)]
      simp [Function.update_of_ne hba, hl.last]
    · have hxa : x ≠ a := fun e => hx (by simp [e])
      rw [Function.update_of_ne hxa, Function.update_of_ne hxb]

theorem unlinkNode_spec (hl : Chain heap (some p) ((p, v) :: l)) (hf : l.length < fuel) :
    ∃ heap', PolicyLists.unlinkNode pid heap fuel p = some heap' ∧
      Chain heap' (some p) ((p, v) :: l.eraseP (pid == ·.2)) ∧
      ∀ x, x ∉ addrs ((p, v) :: l) → heap' x = heap x := by
  induction l generalizing p v fuel with
  | nil =>
    obtain ⟨f, rfl⟩ : ∃ f, fuel = f + 1 := ⟨fuel - 1, by simp at hf; omega⟩
    refine ⟨heap, ?_, hl, fun _ _ => rfl⟩
    obtain ⟨-, n, hn, rfl⟩ := hl
    rw [PolicyLists.unlinkNode, hn]
    rfl
  | cons x l ih =>
    obtain ⟨q, w⟩ := x
    obtain ⟨f, rfl⟩ : ∃ f, fuel = f + 1 := ⟨fuel - 1, by simp at hf; omega⟩
    have hl' := hl
    obtain ⟨-, _, hp, rfl, n, hq, hc⟩ := hl'
    rw [PolicyLists.unlinkNode, hp, Option.bind_some]
    simp only [hq, Option.bind_some]
    by_cases hw : w = pid
    · subst hw
      refine ⟨_, if_pos rfl, by simpa using hl.unlink hq, fun x hx => ?_⟩
      simp only [addrs_cons, List.mem_cons, not_or] at hx
      rw [Function.update_of_ne hx.2.1, Function.update_of_ne hx.1]
    · obtain ⟨heap', he, hc', hframe⟩ := ih ⟨rfl, n, hq, hc⟩ (by simpa using hf)
      have hp' : heap' p = heap p := hframe p (List.nodup_cons.1 hl.nodup).1
      refine ⟨heap', (if_neg hw).trans he, ?_, fun x hx => hframe x fun h =>
        hx (List.mem_cons_of_mem _ h)⟩
      rw [List.eraseP_cons_of_neg (by simpa using Ne.symm hw)]
      exact ⟨rfl, some q, hp'.trans hp, hc'⟩

end

/-! ## The lists of the slots -/

/-- The lists have the nodes `nodes`, no node is in two of them, and before the first registration
they are empty. -/
structure Separated (s : PolicyLists) (nodes : SlotId → List (Addr × Int)) : Prop where
  chain : ∀ slot, Chain s.heap (s.policy (slotEntry slot)) (nodes slot)
  disjoint : ∀ slot slot', slot ≠ slot' → ∀ a ∈ addrs (nodes slot), a ∉ addrs (nodes slot')
  unused : s.policyMgrInit = false → ∀ slot, nodes slot = []

section
variable {s s' : PolicyLists} {nodes : SlotId → List (Addr × Int)} {slot : SlotId}
  {l : List (Addr × Int)}

theorem Separated.boot : Separated .boot fun _ => [] where
  chain _ := rfl
  disjoint _ _ _ _ h := by cases h
  unused _ _ := rfl

/-- The list of one slot changes: its nodes were in it before, or they were free. -/
theorem Separated.update (hs : Separated s nodes)
    (hchain : Chain s'.heap (s'.policy (slotEntry slot)) l)
    (hpolicy : ∀ e, e ≠ slotEntry slot → s'.policy e = s.policy e)
    (hheap : ∀ x, x ∉ addrs (nodes slot) → (s.heap x).isSome → s'.heap x = s.heap x)
    (hnodes : ∀ x ∈ addrs l, x ∈ addrs (nodes slot) ∨ s.heap x = none)
    (hinit : s'.policyMgrInit = false → s.policyMgrInit = false ∧ l = []) :
    Separated s' (Function.update nodes slot l) := by
  -- a node of another slot is not one of `l`
  have hapart : ∀ slot', slot' ≠ slot → ∀ a ∈ addrs (nodes slot'), a ∉ addrs l := by
    intro slot' hne a ha hal
    rcases hnodes a hal with h | h
    · exact hs.disjoint slot' slot hne a ha h
    · simpa [h] using (hs.chain slot').allocated ha
  refine ⟨fun slot' => ?_, fun x y hxy => ?_, fun h slot' => ?_⟩
  · by_cases hne : slot' = slot
    · subst hne
      rwa [Function.update_self]
    · rw [Function.update_of_ne hne, hpolicy _ fun e => hne (slotEntry_injective e)]
      refine (hs.chain slot').congr fun a ha => ?_
      exact hheap a (hs.disjoint slot' slot hne a ha) ((hs.chain slot').allocated ha)
  · intro a ha
    by_cases hx : x = slot
    · subst hx
      rw [Function.update_self] at ha
      rw [Function.update_of_ne (Ne.symm hxy)]
      exact fun h => hapart y (Ne.symm hxy) a h ha
    · rw [Function.update_of_ne hx] at ha
      by_cases hy : y = slot
      · subst hy
        rw [Function.update_self]
        exact hapart x hx a ha
      · rw [Function.update_of_ne hy]
        exact hs.disjoint x y hxy a ha
  · by_cases hne : slot' = slot
    · subst hne
      rw [Function.update_self, (hinit h).2]
    · rw [Function.update_of_ne hne, hs.unused (hinit h).1]

theorem Separated.init (hs : Separated s nodes) :
    Separated (if s.policyMgrInit then s else s.initPolicyManager) nodes := by
  cases hi : s.policyMgrInit with
  | true => exact hs
  | false =>
    have hnil := hs.unused hi
    exact ⟨fun slot => by rw [hnil]; rfl, hs.disjoint, fun _ => hnil⟩

end

/-! ## Calls -/

section
variable {s : PolicyLists} {nodes : SlotId → List (Addr × Int)} (slot : SlotId) {pid : Int}
  {a : Addr} {fuel : Nat}

theorem registerPolicy_separated (hs : Separated s nodes) (ha : s.heap a = none)
    (hf : (nodes slot).length ≤ fuel) :
    ∃ s', s.registerPolicy fuel slot.1 slot.2 pid (some a) = some s' ∧
      Separated s' (Function.update nodes slot (nodes slot ++ [(a, pid)])) := by
  generalize hs₀ : (if s.policyMgrInit then s else s.initPolicyManager) = s₀
  have hsep : Separated s₀ nodes := hs₀ ▸ hs.init
  have hheap : s₀.heap = s.heap := by rw [← hs₀]; split <;> rfl
  have hinit : s₀.policyMgrInit = true := by rw [← hs₀]; split <;> [assumption; rfl]
  rw [← hheap] at ha
  have hc := hsep.chain slot
  have hnew : ∀ x ∈ addrs (nodes slot ++ [(a, pid)]), x ∈ addrs (nodes slot) ∨
      s₀.heap x = none := by
    intro x hx
    rw [addrs_append, List.mem_append] at hx
    exact hx.imp_right fun h => by rw [List.mem_singleton.1 h]; exact ha
  have hother : ∀ {x}, (s₀.heap x).isSome → x ≠ a := fun h e => by simp [e, ha] at h
  simp only [PolicyLists.registerPolicy, hs₀]
  cases hp : s₀.policy (port.entry slot.1 slot.2) with
  | none =>
    rw [slotEntry, hp] at hc
    have hnil : nodes slot = [] := hc.unique (show Chain s₀.heap none [] from rfl)
    refine ⟨_, rfl, hsep.update ?_ (fun e he => Function.update_of_ne he _ _)
      (fun x _ hx => Function.update_of_ne (hother hx) _ _) hnew
      fun h => absurd (hinit.symm.trans h) (by decide)⟩
    rw [hnil]
    exact ⟨Function.update_self _ _ _, none, Function.update_self _ _ _, rfl⟩
  | some p =>
    rw [slotEntry, hp] at hc
    obtain ⟨heap', he, hc', hframe⟩ := appendNode_spec pid hc hf ha
    refine ⟨{ s₀ with heap := heap' }, by simp only [he, Option.map_some],
      hsep.update ?_ (fun _ _ => rfl) (fun x hx hsome => hframe x hx (hother hsome)) hnew
      fun h => absurd (hinit.symm.trans h) (by decide)⟩
    rw [slotEntry, hp]
    exact hc'

theorem removePolicy_separated (hs : Separated s nodes) (hf : (nodes slot).length ≤ fuel) :
    ∃ s', s.removePolicy fuel slot.1 slot.2 pid = some s' ∧
      Separated s' (Function.update nodes slot ((nodes slot).eraseP (pid == ·.2))) := by
  have hc := hs.chain slot
  have hsub : ∀ x ∈ addrs ((nodes slot).eraseP (pid == ·.2)),
      x ∈ addrs (nodes slot) ∨ s.heap x = none := fun x hx =>
    .inl ((List.eraseP_sublist.map Prod.fst).subset hx)
  have hnil : s.policyMgrInit = false →
      s.policyMgrInit = false ∧ (nodes slot).eraseP (pid == ·.2) = [] := fun h =>
    ⟨h, by rw [hs.unused h]; rfl⟩
  rw [PolicyLists.removePolicy]
  cases hn : nodes slot with
  | nil =>
    rw [hn] at hc
    have hp : s.policy (port.entry slot.1 slot.2) = none := hc
    refine ⟨s, by rw [hp], ?_⟩
    rw [List.eraseP_nil, ← hn, Function.update_eq_self]
    exact hs
  | cons x l =>
    obtain ⟨p, v⟩ := x
    rw [hn] at hc hf
    have hc' := hc
    obtain ⟨hp, n, hheap, hrest⟩ := hc'
    rw [slotEntry] at hp
    rw [← hn]
    by_cases hv : v = pid
    · subst hv
      refine ⟨{ s with
          policy := Function.update s.policy (slotEntry slot) n
          heap := Function.update s.heap p none },
        by rw [hp]; simp only [hheap, Option.bind_some, if_true]; rfl,
          hs.update ?_ (fun e he => Function.update_of_ne he _ _) ?_ hsub hnil⟩
      · rw [hn, List.eraseP_cons_of_pos (by simp)]
        show Chain _ (Function.update s.policy (slotEntry slot) n (slotEntry slot)) l
        rw [Function.update_self]
        refine hrest.congr fun b hb => ?_
        have hbp : b ≠ p := fun e => (List.nodup_cons.1 hc.nodup).1 (e ▸ hb)
        exact Function.update_of_ne hbp _ _
      · intro x hx _
        rw [hn] at hx
        exact Function.update_of_ne (fun e => hx (by simp [e])) _ _
    · rw [slotEntry, hp] at hc
      have hlen : l.length < fuel := by simp at hf; omega
      obtain ⟨heap', he, hchain, hframe⟩ := unlinkNode_spec pid hc hlen
      refine ⟨{ s with heap := heap' }, by
        simp only [hp, hheap, Option.bind_some, if_neg hv, he, Option.map_some],
        hs.update ?_ (fun _ _ => rfl) (fun x hx _ => hframe x (hn ▸ hx)) hsub hnil⟩
      rw [hn, List.eraseP_cons_of_neg (by simpa using Ne.symm hv), slotEntry, hp]
      exact hchain

theorem exec_separated (c : PolicyCall) (hs : Separated s nodes)
    (hfresh : ∀ cls type pid a, c = .register cls type pid a → s.heap a = none)
    (hf : ∀ slot, (nodes slot).length ≤ fuel) :
    ∃ s' nodes', c.exec fuel s = some s' ∧ Separated s' nodes' ∧
      (∀ slot, (nodes' slot).length ≤ (nodes slot).length + 1) ∧
      (fun slot => (nodes' slot).map Prod.snd) = c.apply fun slot => (nodes slot).map Prod.snd := by
  cases c with
  | register cls type pid a =>
    obtain ⟨s', he, hs'⟩ := registerPolicy_separated (cls, type) hs
      (hfresh cls type pid a rfl) (hf _)
    refine ⟨s', _, he, hs', fun slot => ?_, ?_⟩
    · by_cases h : slot = (cls, type)
      · simp [h]
      · simp [h]
    · exact (Function.comp_update (List.map Prod.snd) _ _ _).trans (by
        rw [List.map_append]; rfl)
  | remove cls type pid =>
    obtain ⟨s', he, hs'⟩ := removePolicy_separated (cls, type) hs (hf _)
    refine ⟨s', _, he, hs', fun slot => ?_, ?_⟩
    · by_cases h : slot = (cls, type)
      · subst h
        rw [Function.update_self]
        exact (List.length_eraseP_le).trans (Nat.le_succ _)
      · simp [h]
    · refine (Function.comp_update (List.map Prod.snd) _ _ _).trans ?_
      rw [PolicyCall.apply, List.erase_eq_eraseP, List.eraseP_map]
      rfl

/-- What a whole run does: the lists stay separated, and their numbers are those of the run on
sequences. -/
theorem runCalls_separated (calls : List PolicyCall) (hs : Separated s nodes)
    (hfresh : AllocsFresh fuel calls s) (hf : ∀ slot, (nodes slot).length + calls.length ≤ fuel) :
    ∃ s' nodes', runCalls fuel calls s = some s' ∧ Separated s' nodes' ∧
      (fun slot => (nodes' slot).map Prod.snd) =
        calls.foldl (fun L c => c.apply L) fun slot => (nodes slot).map Prod.snd := by
  induction calls generalizing s nodes with
  | nil => exact ⟨s, nodes, rfl, hs, rfl⟩
  | cons c calls ih =>
    simp only [List.length_cons] at hf
    obtain ⟨s₁, nodes₁, he, hs₁, hlen, hv⟩ := exec_separated c hs hfresh.1 fun slot =>
      (Nat.le_add_right _ _).trans (hf slot)
    obtain ⟨s', nodes', hr, hs', hv'⟩ := ih hs₁ (hfresh.2 s₁ he) fun slot => by
      have := hf slot
      have := hlen slot
      omega
    refine ⟨s', nodes', ?_, hs', ?_⟩
    · rw [runCalls, he]
      exact hr
    · rw [hv', List.foldl_cons, hv]

end

/-- **The lists are sequences.** However `register_policy` and `remove_policy` are called on slots
of the table, with nodes that are free when they are handed out, every call returns, and the lists
are what the calls make of the sequences of the slots. -/
theorem calls_hold (calls : List PolicyCall) (fuel : Nat) (hf : calls.length ≤ fuel)
    (hfresh : AllocsFresh fuel calls .boot) :
    ∃ s, runCalls fuel calls .boot = some s ∧
      Holds s (calls.foldl (fun L c => c.apply L) fun _ => []) := by
  obtain ⟨s, nodes, hr, hs, hv⟩ := runCalls_separated calls Separated.boot hfresh
    fun _ => by simpa using hf
  exact ⟨s, hr, nodes, fun slot => ⟨hs.chain slot, (hs.chain slot).nodup, congrFun hv slot⟩,
    hs.disjoint⟩

theorem calls_hold_twice :
    ∃ s, runCalls 3 [.register .dc ⟨2, by decide⟩ 1 0x100, .register .dc ⟨2, by decide⟩ 2 0x200,
        .remove .dc ⟨2, by decide⟩ 1] .boot = some s ∧
      Holds s (Function.update (fun _ => []) (.dc, ⟨2, by decide⟩) [2]) := by
  refine (calls_hold [.register .dc ⟨2, by decide⟩ 1 0x100,
    .register .dc ⟨2, by decide⟩ 2 0x200, .remove .dc ⟨2, by decide⟩ 1] 3 (by decide)
      ⟨fun _ _ _ _ _ => rfl, ?_⟩).imp fun s hs => ⟨hs.1, ?_⟩
  · intro s hs
    cases hs
    exact ⟨by rintro _ _ _ _ ⟨⟩; rfl, fun _ _ => ⟨by rintro _ _ _ _ ⟨⟩, fun _ _ => trivial⟩⟩
  · simpa [PolicyCall.apply] using hs.2

/-- `Fsm.Registry` appends as the lists do. -/
theorem apply_register (reg : Registry) (hreg : reg.policyMgrInit = true) (cls : StateClass)
    (type : Fin port.dcParamNum) (pid : Int) (a : Addr) :
    (PolicyCall.register cls type pid a).apply (fun slot => reg.policyManager (slotEntry slot)) =
      fun slot => (reg.registerPolicy port cls type pid).policyManager (slotEntry slot) := by
  funext slot
  simp only [PolicyCall.apply, Registry.registerPolicy, hreg, if_true]
  by_cases h : slot = (cls, type)
  · subst h
    rw [Function.update_self]
    exact (if_pos rfl).symm
  · rw [Function.update_of_ne h]
    exact (if_neg fun e => h (slotEntry_injective e)).symm

end BlueSwat.Mynewt
