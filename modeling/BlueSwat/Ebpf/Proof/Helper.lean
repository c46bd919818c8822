import BlueSwat.Ebpf.Helper

/-!
# The lifetime of the helper table

`countedAlong_iff`: over a run of calls the table counts its users, outlives them and is freed with
the last of them exactly when no VM that has not registered a function is destroyed while others
have. Such a VM takes the reference of another one with it.
-/

set_option autoImplicit false

namespace BlueSwat.Ebpf

namespace HelperHeap

variable {h : HelperHeap} {a a' : VmSet} {v vm : Nat}

/-- The heap has the VMs of `a`, and no table but the shared one. -/
structure Tracks (h : HelperHeap) (a : VmSet) : Prop where
  created : h.vmNum = a.created
  live : ∀ v, (h.vms v).isSome ↔ v ∈ a.live
  registered : ∀ v, (h.vms v).join.isSome ↔ v ∈ a.registered
  born : ∀ v ∈ a.live, v < a.created
  single : ∀ g, (h.tables g).isSome → h.gHelperFunc = some g

theorem isSome_of_join (hv : (h.vms v).join.isSome) : (h.vms v).isSome := by
  cases e : h.vms v with
  | none => simp [e] at hv
  | some p => rfl

theorem Tracks.users (hT : Tracks h a) : h.users = a.registered := by
  ext v
  simp only [HelperHeap.users, Finset.mem_filter, Finset.mem_range, ← hT.registered v,
    and_iff_right_iff_imp]
  intro hv
  rw [hT.created]
  exact hT.born v ((hT.live v).1 (isSome_of_join hv))

theorem tracks_boot : Tracks boot .boot where
  created := rfl
  live v := by simp [boot, VmSet.boot]
  registered v := by simp [boot, VmSet.boot]
  born v hv := by simp [VmSet.boot] at hv
  single g hg := by simp [boot] at hg

theorem counted_boot : Counted boot where
  refcnt g hg := by cases hg
  allocated v g hv := by cases hv
  freed _ := ⟨rfl, fun _ => rfl⟩

/-! ## Creating a VM -/

theorem not_live_vmNum (hT : Tracks h a) : h.vms h.vmNum = none := by
  cases e : h.vms h.vmNum with
  | none => rfl
  | some p =>
    have hlt := hT.born h.vmNum ((hT.live _).1 (by simp [e]))
    rw [hT.created] at hlt
    exact absurd hlt (Nat.lt_irrefl _)

theorem tracks_create (hT : Tracks h a) :
    Tracks h.ebpfCreate { a with created := a.created + 1, live := insert a.created a.live } where
  created := congrArg (· + 1) hT.created
  live v := by
    by_cases hv : v = h.vmNum
    · simp [ebpfCreate, hv, hT.created]
    · simp [ebpfCreate, hv, ← hT.live v, ← hT.created]
  registered v := by
    by_cases hv : v = h.vmNum
    · have : h.vmNum ∉ a.registered := fun hm => by
        simpa [not_live_vmNum hT] using (hT.registered h.vmNum).2 hm
      simp [ebpfCreate, hv, this]
    · simp [ebpfCreate, hv, ← hT.registered v]
  born v hv := by
    rw [Finset.mem_insert] at hv
    rcases hv with rfl | hv
    · exact Nat.lt_succ_self _
    · exact Nat.lt_succ_of_lt (hT.born v hv)
  single := hT.single

theorem users_create (hT : Tracks h a) : h.ebpfCreate.users = h.users := by
  rw [(tracks_create hT).users, hT.users]

theorem counted_create (hT : Tracks h a) (hC : Counted h) : Counted h.ebpfCreate where
  refcnt g hg := by
    rw [users_create hT]
    exact hC.refcnt g hg
  allocated v g hv := by
    by_cases hn : v = h.vmNum
    · simp [ebpfCreate, hn] at hv
    · exact hC.allocated v g (by simpa [ebpfCreate, hn] using hv)
  freed hu := hC.freed (by rwa [users_create hT] at hu)

/-! ## Registering a function -/

theorem tracks_share {g : Nat} (hT : Tracks h a) (hvm : vm ∈ a.live) :
    Tracks (h.share vm g) { a with registered := insert vm a.registered } where
  created := hT.created
  live v := by
    by_cases hv : v = vm
    · simp [share, hv, hvm]
    · simp [share, hv, hT.live v]
  registered v := by
    by_cases hv : v = vm
    · simp [share, hv]
    · simp [share, hv, hT.registered v]
  born := hT.born
  single g' hg' := by
    refine hT.single g' ?_
    by_cases hg : g' = g
    · simpa [share, hg] using hg'
    · simpa [share, hg] using hg'

/-- Sharing the table with one more VM counts it. -/
theorem counted_share {g : Nat} {t : HelperFunc} (hT : Tracks h a) (hvm : vm ∈ a.live)
    (hg : h.gHelperFunc = some g) (ht : h.tables g = some t)
    (hcnt : t.refcnt = h.users.card) (hother : ∀ v g', h.vms v = some (some g') → g' = g)
    (hvms : h.vms vm = some none) : Counted (h.share vm g) := by
  have hnot : vm ∉ a.registered := fun hm => by
    simpa [hvms] using (hT.registered vm).2 hm
  have hcard : (h.share vm g).users.card = h.users.card + 1 := by
    rw [(tracks_share hT hvm).users, hT.users, Finset.card_insert_of_notMem hnot]
  refine ⟨fun g' hg' => ?_, fun v g' hv => ?_, fun hu => ?_⟩
  · obtain rfl : g = g' := Option.some.inj (hg.symm.trans hg')
    refine ⟨{ t with refcnt := t.refcnt + 1 }, by simp [share, ht], ?_⟩
    show t.refcnt + 1 = _
    rw [hcard, hcnt]
    rfl
  · have hgg : g' = g := by
      by_cases hv' : v = vm
      · simpa [share, hv', eq_comm] using hv
      · exact hother v g' (by simpa [share, hv'] using hv)
    subst hgg
    exact ⟨hg, by simp [share, ht]⟩
  · rw [hu, Finset.card_empty] at hcard
    exact absurd hcard (Nat.succ_ne_zero _).symm

theorem tracks_allocTable (hT : Tracks h a) (hg : h.gHelperFunc = none) :
    Tracks h.allocTable a where
  created := hT.created
  live := hT.live
  registered := hT.registered
  born := hT.born
  single g hsome := by
    by_cases hn : g = h.tableNum
    · exact congrArg some hn.symm
    · have hold := hT.single g (by simpa [allocTable, hn] using hsome)
      rw [hg] at hold
      cases hold

/-- **A VM that registers a function has the table.** -/
theorem tableFor_spec {helperFunc : Option Nat} (hT : Tracks h a) (hC : Counted h)
    (hvms : h.vms vm = some helperFunc) :
    Tracks (h.tableFor vm helperFunc).1 { a with registered := insert vm a.registered } ∧
      Counted (h.tableFor vm helperFunc).1 ∧
      ((h.tableFor vm helperFunc).1.tables (h.tableFor vm helperFunc).2).isSome := by
  have hvm : vm ∈ a.live := (hT.live vm).1 (by simp [hvms])
  fun_cases tableFor vm helperFunc h with
  | case1 g =>
    have hmem : insert vm a.registered = a.registered :=
      Finset.insert_eq_of_mem ((hT.registered vm).1 (by simp [hvms]))
    exact ⟨by rwa [hmem], hC, (hC.allocated vm g hvms).2⟩
  | case2 g hg =>
    obtain ⟨t, ht, hcnt⟩ := hC.refcnt g hg
    refine ⟨tracks_share hT hvm, counted_share hT hvm hg ht hcnt (fun v g' hv => ?_) hvms,
      by simp [share, ht]⟩
    exact Option.some.inj ((hC.allocated v g' hv).1.symm.trans hg)
  | case3 hg =>
    -- no VM has a table, so there is none to count
    have hnone : ∀ v g, h.vms v ≠ some (some g) := fun v g hv => by
      rw [(hC.allocated v g hv).1] at hg
      cases hg
    have hempty : h.users = ∅ := by
      rw [HelperHeap.users, Finset.filter_eq_empty_iff]
      intro v _ hv
      obtain ⟨g, hg⟩ := Option.isSome_iff_exists.1 hv
      exact hnone v g (Option.join_eq_some_iff.1 hg)
    have hT' := tracks_allocTable hT hg
    have ht : h.allocTable.tables h.tableNum = some ⟨fun _ => 0, 0⟩ := by simp [allocTable]
    refine ⟨tracks_share hT' hvm, ?_, by simp [share, ht]⟩
    refine counted_share hT' hvm rfl ht ?_ (fun v g hv => absurd hv (hnone v g)) hvms
    rw [hT'.users, ← hT.users, hempty]
    rfl

/-- Writing an entry of a table changes neither the VMs nor the count. -/
theorem setFunc_spec {g : Nat} (idx : Nat) (fn : BitVec 32) (hT : Tracks h a) (hC : Counted h)
    (hg : (h.tables g).isSome) : ∃ h', h.setFunc g idx fn = some h' ∧ Tracks h' a ∧ Counted h' := by
  obtain ⟨t, ht⟩ := Option.isSome_iff_exists.1 hg
  have hset : h.setFunc g idx fn = some { h with
      tables := Function.update h.tables g
        (some { t with extFuncs := Function.update t.extFuncs idx fn }) } := by
    rw [setFunc, ht]
    rfl
  refine ⟨_, hset, ⟨hT.created, hT.live, hT.registered, hT.born,
    fun g' hg' => hT.single g' ?_⟩, fun g' hg' => ?_, fun v g' hv => ?_, fun hu => ?_⟩
  · by_cases hgg : g' = g
    · rw [hgg, ht]
      rfl
    · simpa [hgg] using hg'
  · obtain ⟨t', ht', hcnt⟩ := hC.refcnt g' hg'
    by_cases hgg : g' = g
    · subst hgg
      obtain rfl : t = t' := Option.some.inj (ht.symm.trans ht')
      exact ⟨{ t with extFuncs := Function.update t.extFuncs idx fn }, by simp, hcnt⟩
    · exact ⟨t', by simpa [hgg] using ht', hcnt⟩
  · obtain ⟨h1, h2⟩ := hC.allocated v g' hv
    refine ⟨h1, ?_⟩
    by_cases hgg : g' = g
    · simp [hgg]
    · simpa [hgg] using h2
  · rw [(hC.freed hu).2 g] at ht
    cases ht

theorem register_spec (hT : Tracks h a) (hC : Counted h) (hvm : vm ∈ a.live) (idx : Nat)
    (fn : BitVec 32) :
    ∃ p, h.ebpfRegister vm idx fn = some p ∧
      Tracks p.1 { a with registered := insert vm a.registered } ∧ Counted p.1 := by
  obtain ⟨helper, hvms⟩ := Option.isSome_iff_exists.1 ((hT.live vm).2 hvm)
  obtain ⟨hT', hC', htab⟩ := tableFor_spec hT hC hvms
  simp only [ebpfRegister, hvms, Option.bind_some]
  by_cases hidx : idx ≥ maxExtFuncs
  · exact ⟨_, if_pos hidx, hT', hC'⟩
  · obtain ⟨h', hset, hspec⟩ := setFunc_spec idx fn hT' hC' htab
    exact ⟨(h', 0), by rw [if_neg hidx, hset, Option.map_some], hspec⟩

/-! ## Destroying a VM -/

theorem release_vms (h : HelperHeap) : h.release.vms = h.vms ∧ h.release.vmNum = h.vmNum := by
  unfold release
  split
  · exact ⟨rfl, rfl⟩
  split
  · exact ⟨rfl, rfl⟩
  split <;> exact ⟨rfl, rfl⟩

theorem release_single (hT : Tracks h a) {g : Nat} (hg : (h.release.tables g).isSome) :
    h.release.gHelperFunc = some g := by
  revert hg
  fun_cases release h with
  | case1 | case2 => exact hT.single g
  | case3 g' hg' t ht hone =>
    intro hg
    by_cases hgg : g = g'
    · simp [hgg] at hg
    · have hold := hT.single g (by simpa [hgg] using hg)
      exact absurd (Option.some.inj (hold.symm.trans hg')) hgg
  | case4 g' hg' t ht hone =>
    intro hg
    by_cases hgg : g = g'
    · rw [hgg]
      exact hg'
    · exact hT.single g (by simpa [hgg] using hg)

/-- The heap after `ebpf_vm_destroy`. -/
def destroyed (vm : Nat) (h : HelperHeap) : HelperHeap :=
  { h.release with vms := Function.update h.release.vms vm none }

theorem tracks_destroyed (vm : Nat) (hT : Tracks h a) :
    Tracks (h.destroyed vm)
      { a with live := a.live.erase vm, registered := a.registered.erase vm } where
  created := (release_vms h).2.trans hT.created
  live v := by
    by_cases hv : v = vm
    · simp [destroyed, hv]
    · simp [destroyed, hv, (release_vms h).1, hT.live v]
  registered v := by
    by_cases hv : v = vm
    · simp [destroyed, hv]
    · simp [destroyed, hv, (release_vms h).1, hT.registered v]
  born v hv := hT.born v (Finset.mem_of_mem_erase hv)
  single g hg := release_single hT hg

/-- Without users there is no table to release. -/
theorem counted_destroyed_of_empty (hT : Tracks h a) (hC : Counted h) (he : a.registered = ∅) :
    Counted (h.destroyed vm) := by
  obtain ⟨hg, htab⟩ := hC.freed (hT.users.trans he)
  have hrel : h.release = h := by simp [release, hg]
  refine ⟨fun g hg' => ?_, fun v g hv => ?_, fun _ => ⟨by simp [destroyed, hrel, hg], ?_⟩⟩
  · simp [destroyed, hrel, hg] at hg'
  · have hv' : h.vms v = some (some g) := by
      by_cases hvm : v = vm
      · simp [destroyed, hvm] at hv
      · simpa [destroyed, hvm, hrel] using hv
    rw [(hC.allocated v g hv').1] at hg
    cases hg
  · exact fun g => by simp [destroyed, hrel, htab g]

theorem exists_table (hT : Tracks h a) (hC : Counted h) (hne : a.registered ≠ ∅) :
    ∃ g t, h.gHelperFunc = some g ∧ h.tables g = some t ∧ t.refcnt = a.registered.card := by
  obtain ⟨v, hv⟩ := Finset.nonempty_iff_ne_empty.2 hne
  obtain ⟨g, hg⟩ := Option.isSome_iff_exists.1 ((hT.registered v).2 hv)
  rw [Option.join_eq_some_iff] at hg
  have hgl := (hC.allocated v g hg).1
  obtain ⟨t, ht, hcnt⟩ := hC.refcnt g hgl
  exact ⟨g, t, hgl, ht, by rw [hcnt, hT.users]⟩

/-- The last reference is given up: the table is freed. -/
theorem counted_destroyed_last {g : Nat} {t : HelperFunc} (hT : Tracks h a)
    (hg : h.gHelperFunc = some g) (ht : h.tables g = some t) (hone : t.refcnt - 1 = 0) :
    Counted (h.destroyed vm) ↔ a.registered.erase vm = ∅ := by
  have hrel : h.release =
      { h with tables := Function.update h.tables g none, gHelperFunc := none } := by
    simp only [release, hg, ht, if_pos hone]
  have hnull : (h.destroyed vm).gHelperFunc = none := by simp [destroyed, hrel]
  have hT' := tracks_destroyed vm hT
  constructor
  · intro hC'
    rw [Finset.eq_empty_iff_forall_notMem]
    intro v hv
    obtain ⟨g', hg'⟩ := Option.isSome_iff_exists.1 ((hT'.registered v).2 hv)
    have hptr := (hC'.allocated v g' (Option.join_eq_some_iff.1 hg')).1
    rw [hnull] at hptr
    cases hptr
  · intro hempty
    refine ⟨fun g' hg' => ?_, fun v g' hv => ?_, fun _ => ⟨hnull, fun g' => ?_⟩⟩
    · rw [hnull] at hg'
      cases hg'
    · have hr := (hT'.registered v).1 (by rw [hv]; rfl)
      rw [hempty] at hr
      simp at hr
    · cases hs : (h.destroyed vm).tables g' with
      | none => rfl
      | some t' =>
        have hptr := hT'.single g' (by rw [hs]; rfl)
        rw [hnull] at hptr
        cases hptr

/-- Another reference is given up: the table stays, with one reference less. -/
theorem counted_destroyed_other {g : Nat} {t : HelperFunc} (hT : Tracks h a) (hC : Counted h)
    (hg : h.gHelperFunc = some g) (ht : h.tables g = some t) (hone : t.refcnt - 1 ≠ 0) :
    Counted (h.destroyed vm) ↔
      t.refcnt - 1 = (a.registered.erase vm).card ∧ a.registered.erase vm ≠ ∅ := by
  have hrel : h.release =
      { h with tables := Function.update h.tables g (some { t with refcnt := t.refcnt - 1 }) } := by
    simp only [release, hg, ht, if_neg hone]
  have hsame : (h.destroyed vm).gHelperFunc = some g := by simp [destroyed, hrel, hg]
  have htab : (h.destroyed vm).tables g = some { t with refcnt := t.refcnt - 1 } := by
    simp [destroyed, hrel]
  have husers := (tracks_destroyed vm hT).users
  constructor
  · intro hC'
    obtain ⟨t', ht', hcnt⟩ := hC'.refcnt g hsame
    obtain rfl : _ = t' := Option.some.inj (htab.symm.trans ht')
    rw [husers] at hcnt
    refine ⟨hcnt, fun he => ?_⟩
    have hnull := (hC'.freed (husers.trans he)).1
    rw [hsame] at hnull
    cases hnull
  · rintro ⟨hcnt, hne⟩
    refine ⟨fun g' hg' => ?_, fun v g' hv => ?_, fun hu => absurd (husers.symm.trans hu) hne⟩
    · obtain rfl : g = g' := Option.some.inj (hsame.symm.trans hg')
      exact ⟨_, htab, by rw [husers]; exact hcnt⟩
    · have hv' : h.vms v = some (some g') := by
        by_cases hvm : v = vm
        · simp [destroyed, hvm] at hv
        · simpa [destroyed, hvm, (release_vms h).1] using hv
      obtain rfl : g' = g := Option.some.inj ((hC.allocated v g' hv').1.symm.trans hg)
      exact ⟨hsame, by rw [htab]; rfl⟩

/-- **Destroying a VM keeps the count** iff the VM has registered a function or no VM has. -/
theorem counted_destroyed_iff (hT : Tracks h a) (hC : Counted h) :
    Counted (h.destroyed vm) ↔ vm ∈ a.registered ∨ a.registered = ∅ := by
  by_cases he : a.registered = ∅
  · exact iff_of_true (counted_destroyed_of_empty hT hC he) (.inr he)
  obtain ⟨g, t, hg, ht, hcnt⟩ := exists_table hT hC he
  have hpos : 0 < a.registered.card := Finset.card_pos.2 (Finset.nonempty_iff_ne_empty.2 he)
  simp only [he, or_false]
  by_cases hvm : vm ∈ a.registered
  · have hcard := Finset.card_erase_of_mem hvm
    refine iff_of_true ?_ hvm
    by_cases hone : t.refcnt - 1 = 0
    · rw [counted_destroyed_last hT hg ht hone, ← Finset.card_eq_zero]
      omega
    · rw [counted_destroyed_other hT hC hg ht hone, ne_eq, ← Finset.card_eq_zero]
      omega
  · have herase := Finset.erase_eq_of_notMem hvm
    refine iff_of_false (fun hC' => ?_) hvm
    by_cases hone : t.refcnt - 1 = 0
    · rw [counted_destroyed_last hT hg ht hone, herase] at hC'
      exact he hC'
    · rw [counted_destroyed_other hT hC hg ht hone, herase] at hC'
      omega

/-! ## Runs -/

/-- **One call**: it is defined, and keeps the count unless it destroys a VM that is not counted. -/
theorem exec_step {c : HelperCall} (hT : Tracks h a) (hC : Counted h) (hc : c.track a = some a') :
    ∃ h', c.exec h = some h' ∧ Tracks h' a' ∧
      (Counted h' ↔ ∀ vm, c = .destroy vm → vm ∈ a.registered ∨ a.registered = ∅) := by
  cases c with
  | create =>
    cases hc
    exact ⟨_, rfl, tracks_create hT, iff_of_true (counted_create hT hC) fun _ e => by cases e⟩
  | register vm idx fn =>
    simp only [HelperCall.track, Option.ite_none_right_eq_some, Option.some.injEq] at hc
    obtain ⟨hvm, rfl⟩ := hc
    obtain ⟨p, hp, hT', hC'⟩ := register_spec hT hC hvm idx fn
    exact ⟨p.1, by rw [HelperCall.exec, hp, Option.map_some], hT',
      iff_of_true hC' fun _ e => by cases e⟩
  | destroy vm =>
    simp only [HelperCall.track, Option.ite_none_right_eq_some, Option.some.injEq] at hc
    obtain ⟨hvm, rfl⟩ := hc
    obtain ⟨helper, hvms⟩ := Option.isSome_iff_exists.1 ((hT.live vm).2 hvm)
    refine ⟨h.destroyed vm, by rw [HelperCall.exec, ebpfVmDestroy, hvms]; rfl,
      tracks_destroyed vm hT, ?_⟩
    simp only [HelperCall.destroy.injEq, forall_eq']
    exact counted_destroyed_iff hT hC

theorem countedAlong_of_tracks {calls : List HelperCall} (hT : Tracks h a) (hC : Counted h)
    (hp : ProperCalls calls a) : CountedAlong calls h ↔ DestroysUsers calls a := by
  induction calls generalizing h a with
  | nil => exact iff_of_true hC trivial
  | cons c cs ih =>
    obtain ⟨a', ha', hp'⟩ := hp
    obtain ⟨h', hh', hT', hC'⟩ := exec_step hT hC ha'
    have htail : Counted h' → (CountedAlong cs h' ↔ DestroysUsers cs a') := fun hc => ih hT' hc hp'
    have hhead : CountedAlong cs h' → Counted h' := fun hcs => by
      cases cs with
      | nil => exact hcs
      | cons => exact hcs.1
    simp only [CountedAlong, DestroysUsers, hh', ha', Option.some.injEq, exists_eq_left',
      forall_eq', hC, true_and, ← hC']
    exact ⟨fun hcs => ⟨hhead hcs, (htail (hhead hcs)).1 hcs⟩, fun hd => (htail hd.1).2 hd.2⟩

end HelperHeap

/-- **When the table counts its users**, over any interleaving of calls on VMs that are not yet
destroyed. -/
theorem countedAlong_iff {calls : List HelperCall} (hp : ProperCalls calls .boot) :
    CountedAlong calls .boot ↔ DestroysUsers calls .boot :=
  HelperHeap.countedAlong_of_tracks HelperHeap.tracks_boot HelperHeap.counted_boot hp

/-- Two VMs register a function and are destroyed. -/
theorem countedAlong_iff_twoVms :
    CountedAlong [.create, .create, .register 0 1 0x8001, .register 1 2 0x8011, .destroy 0,
      .destroy 1] .boot :=
  (countedAlong_iff (by simp [ProperCalls, HelperCall.track, VmSet.boot])).2
    (by simp [DestroysUsers, HelperCall.track, VmSet.boot])

/-- Of two VMs the first registers a function and the second is destroyed: the table that the first
one still points to is freed. -/
theorem destroy_frees_shared :
    (([.create, .create, .register 0 1 0x8001, .destroy 1] : List HelperCall).foldl
      (fun h c => h.bind c.exec) (some .boot)).map
        (fun h => (h.vms 0, h.tables 0 |>.isSome, h.gHelperFunc, h.users)) =
      some (some (some 0), false, none, {0}) ∧
    ¬ CountedAlong [.create, .create, .register 0 1 0x8001, .destroy 1] .boot := by
  refine ⟨by decide, fun h => ?_⟩
  rw [HelperHeap.countedAlong_of_tracks HelperHeap.tracks_boot HelperHeap.counted_boot
    (by simp [ProperCalls, HelperCall.track, VmSet.boot])] at h
  simp [DestroysUsers, HelperCall.track, VmSet.boot] at h

end BlueSwat.Ebpf
