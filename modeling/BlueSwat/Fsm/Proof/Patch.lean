import BlueSwat.Ebpf.Proof.Verify
import BlueSwat.Fsm.Patch
import BlueSwat.Lib.Reactive
import BlueSwat.Lib.Upload

/-!
# What a patch service installs

A patch service is a receiver of chunked uploads (`Upload.apply`) on the target and the staged bytes
of its static variables (`Patch.view`). `Handled` says what a handler may do; a port whose handlers
do nothing else installs what was uploaded (`reassembles`), and the installation depends on the
uploaded bytes only (`ifwInstallPolicy_receives`), not on the chunks or on what else the buffer
holds.
-/

set_option autoImplicit false

namespace BlueSwat.Fsm

open Ebpf Reactive

/-! ## Bytes at a pointer -/

/-- The `n` bytes at a pointer. -/
def bytesAt (buf : Nat → BitVec 8) (n : Nat) : List (BitVec 8) := (List.range n).map buf

@[simp] theorem length_bytesAt (buf : Nat → BitVec 8) (n : Nat) : (bytesAt buf n).length = n := by
  simp [bytesAt]

theorem bytesAt_inj {buf buf' : Nat → BitVec 8} {n n' : Nat} :
    bytesAt buf n = bytesAt buf' n' ↔ n = n' ∧ ∀ i < n, buf i = buf' i := by
  constructor
  · intro h
    have hn : n = n' := by simpa using congrArg List.length h
    subst hn
    simpa [bytesAt] using h
  · rintro ⟨rfl, h⟩
    simpa [bytesAt] using h

theorem bytesAt_add (buf : Nat → BitVec 8) (n m : Nat) :
    bytesAt buf (n + m) = bytesAt buf n ++ bytesAt (fun i => buf (n + i)) m := by
  simp [bytesAt, List.range_add, Function.comp_def]

theorem bytesAt_memcpy (block buf : Nat → BitVec 8) (n : Nat) :
    bytesAt (memcpy block buf n) n = bytesAt buf n :=
  bytesAt_inj.2 ⟨rfl, fun _ hi => if_pos hi⟩

theorem bytesAt_codeBytes (bytes : List (BitVec 8)) (rest : Nat → BitVec 8) :
    bytesAt (codeBytes bytes rest) bytes.length = bytes := by
  apply List.ext_getElem (length_bytesAt ..)
  intro i _ hi
  simp [bytesAt, codeBytes, hi]

/-! ## Installations -/

/-- The arguments of a call: the target `t`, and a pointer to the bytes. -/
def InstallCall.Receives (call : InstallCall) (t : BitVec 8 × BitVec 8)
    (bytes : List (BitVec 8)) : Prop :=
  call.cls = t.1.toNat ∧ call.type = t.2.toNat ∧
    ∃ code, call.code = some code ∧ bytesAt code call.len.toNat = bytes

/-- An installation depends on the target and the bytes it receives. -/
theorem ifwInstallPolicy_receives (port : Port) (stateSize : Nat)
    (register : StateClass → Nat → Int → Registry → Registry) (copy : Option (Nat → BitVec 8))
    {call call' : InstallCall} {t : BitVec 8 × BitVec 8} {bytes : List (BitVec 8)}
    (h : call.Receives t bytes) (h' : call'.Receives t bytes) (store : PolicyStore) :
    ifwInstallPolicy port stateSize register copy call store =
      ifwInstallPolicy port stateSize register copy call' store := by
  obtain ⟨cls, type, code, len⟩ := call
  obtain ⟨cls', type', code', len'⟩ := call'
  obtain ⟨rfl, rfl, buf, ⟨⟩, hbuf⟩ := h
  obtain ⟨rfl, rfl, buf', ⟨⟩, hbuf'⟩ := h'
  obtain ⟨hlen, hsame⟩ := bytesAt_inj.1 (hbuf.trans hbuf'.symm)
  obtain rfl := BitVec.eq_of_toNat_eq hlen
  have hverify := ifwVerifyPolicy_congr stateSize hsame
  have hcopy : ∀ block, memcpy block buf len.toNat = memcpy block buf' len.toNat := fun block =>
    funext fun i => ite_congr rfl (hsame i) fun _ => rfl
  simp only [ifwInstallPolicy, hverify, hcopy]

/-! ## Handlers -/

/-- The target and the staged bytes. -/
def Patch.view (p : Patch) : (BitVec 8 × BitVec 8) × List (BitVec 8) :=
  ((p.targetClass, p.targetType), bytesAt p.stagingBuf p.stagingLen.toNat)

abbrev PatchEvent := Upload.Event (BitVec 8 × BitVec 8) (BitVec 8)

/-- What a handler may do in a state: refuse the write, which may leave something in the free part
of the buffer, or do what an accepted write is for. -/
inductive Handled (ifwInstall : InstallCall → PolicyStore → PolicyStore × Int) (p : Patch) :
    Bool → PatchEvent → Patch → Prop
  | rejected {e : PatchEvent} (flat : Nat → BitVec 8) :
      Handled ifwInstall p false e (p.setRoom flat)
  | header (cls type : BitVec 8) :
      Handled ifwInstall p true (.start (cls, type)) (p.retarget cls type)
  | body (flat : Nat → BitVec 8) (len : BitVec 16)
      (fits : p.stagingLen.toNat + len.toNat ≤ bswatStagingMax) :
      Handled ifwInstall p true (.chunk (bytesAt flat len.toNat)) ((p.setRoom flat).grow len)
  | commit : Handled ifwInstall p true .commit (p.install ifwInstall)

section
variable {ifwInstall : InstallCall → PolicyStore → PolicyStore × Int} {p q : Patch}
  {accepted : Bool} {e : PatchEvent}

theorem Patch.setRoom_room (p : Patch) : p.setRoom p.room = p := by
  have hbuf : (p.setRoom p.room).stagingBuf = p.stagingBuf := by
    funext i
    by_cases hi : i < p.stagingLen.toNat
    · exact if_pos hi
    · simp only [Patch.setRoom, Patch.room, if_neg hi]
      congr 1
      omega
  cases p
  exact congrArg (Patch.mk · _ _ _ _ _) hbuf

theorem Patch.view_setRoom (p : Patch) (flat : Nat → BitVec 8) : (p.setRoom flat).view = p.view :=
  congrArg (Prod.mk _) (bytesAt_inj.2 ⟨rfl, fun _ hi => if_pos hi⟩)

theorem Patch.view_grow {p : Patch} {flat : Nat → BitVec 8} {len : BitVec 16}
    (h : p.stagingLen.toNat + len.toNat ≤ bswatStagingMax) :
    ((p.setRoom flat).grow len).stagingLen.toNat = p.stagingLen.toNat + len.toNat ∧
    ((p.setRoom flat).grow len).view =
      (p.view.1, p.view.2 ++ bytesAt flat len.toNat) := by
  have hlen : (p.stagingLen + len).toNat = p.stagingLen.toNat + len.toNat := by
    rw [BitVec.toNat_add, Nat.mod_eq_of_lt]
    exact Nat.lt_of_le_of_lt h (by decide)
  refine ⟨hlen, congrArg (Prod.mk _) ?_⟩
  show bytesAt _ (p.stagingLen + len).toNat = _
  rw [hlen, bytesAt_add]
  refine congrArg₂ (· ++ ·) (bytesAt_inj.2 ⟨rfl, fun _ hi => if_pos hi⟩)
    (bytesAt_inj.2 ⟨rfl, fun i _ => ?_⟩)
  simp [Patch.grow, Patch.setRoom]

/-- A handler may return an error and do nothing. -/
theorem Handled.refused : Handled ifwInstall p false e p := by
  simpa only [p.setRoom_room] using @Handled.rejected ifwInstall p e p.room

theorem Handled.setRoom (h : Handled ifwInstall p false e q) : ∃ flat, q = p.setRoom flat := by
  cases h with
  | rejected flat => exact ⟨flat, rfl⟩

theorem Handled.install (h : Handled ifwInstall p true .commit q) : q = p.install ifwInstall := by
  cases h with
  | commit => rfl

/-- A handler is a step of the receiver. -/
theorem Handled.view (h : Handled ifwInstall p accepted e q) :
    q.view = if accepted then Upload.apply p.view e else p.view := by
  cases h with
  | rejected flat => exact p.view_setRoom flat
  | header cls type => rfl
  | body flat len fits => exact (Patch.view_grow fits).2
  | commit => rfl

theorem Handled.stagingLen_le (h : Handled ifwInstall p accepted e q)
    (hp : p.stagingLen.toNat ≤ bswatStagingMax) : q.stagingLen.toNat ≤ bswatStagingMax := by
  cases h with
  | rejected flat => exact hp
  | header cls type => exact Nat.zero_le _
  | body flat len fits => exact (Patch.view_grow fits).1.trans_le fits
  | commit => exact Nat.zero_le _

end

/-! ## Runs -/

section
variable {ω : Type} (S : PatchService ω) (bytes : ω → List (BitVec 8))

/-- The event of a write that is accepted; `bytes` are the bytes written. -/
def PatchWrite.event (w : PatchWrite ω) : PatchEvent :=
  match w.char with
  | .header => .start ((bytes w.write).getD 0 0, (bytes w.write).getD 1 0)
  | .body => .chunk (bytes w.write)
  | .commit => .commit

/-- The accepted writes of a run. -/
def PatchService.events (p : Patch) : List (PatchWrite ω) → List PatchEvent
  | [] => []
  | w :: ws =>
    let r := S.step p w
    (if S.accepts r.2 then [w.event bytes] else []) ++ PatchService.events r.1 ws

/-- Every handler does what `Handled` allows. -/
def PatchService.Handles (ifwInstall : Allocs → InstallCall → PolicyStore → PolicyStore × Int) :
    Prop :=
  ∀ (p : Patch) (w : PatchWrite ω),
    Handled (ifwInstall w.allocs) p (S.accepts (S.step p w).2) (w.event bytes) (S.step p w).1

/-- **Reassembly.** In the states that writes lead to from `p₀`:
an accepted Commit calls `ifw_install_policy` on the target of the last accepted Header and on the
chunks accepted since the last accepted Header or Commit; two histories that agree on these install
the same policy; a write that is not accepted keeps the target, the staged bytes and the store; and
`staging_len` is in bounds. -/
structure PatchService.Reassembles
    (ifwInstall : Allocs → InstallCall → PolicyStore → PolicyStore × Int) (p₀ : Patch) : Prop where
  commit : ∀ (ws : List (PatchWrite ω)) (w : PatchWrite ω), w.char = .commit →
    let p := after S.step p₀ ws
    let r := S.step p w
    S.accepts r.2 = true →
    ∃ call : InstallCall,
      call.Receives (Upload.target (0, 0) (S.events bytes p₀ ws))
        (Upload.pending (S.events bytes p₀ ws)) ∧
      (r.1.store, r.1.lastInstallRc) = ifwInstall w.allocs call p.store
  chunking : ∀ (ws ws' : List (PatchWrite ω)) (w : PatchWrite ω), w.char = .commit →
    let r := S.step (after S.step p₀ ws) w
    let r' := S.step (after S.step p₀ ws') w
    S.accepts r.2 = true → S.accepts r'.2 = true →
    (after S.step p₀ ws).store = (after S.step p₀ ws').store →
    Upload.target (0, 0) (S.events bytes p₀ ws) = Upload.target (0, 0) (S.events bytes p₀ ws') →
    Upload.pending (S.events bytes p₀ ws) = Upload.pending (S.events bytes p₀ ws') →
    r.1.store = r'.1.store ∧ r.1.lastInstallRc = r'.1.lastInstallRc
  rejected : ∀ (ws : List (PatchWrite ω)) (w : PatchWrite ω),
    let p := after S.step p₀ ws
    let r := S.step p w
    S.accepts r.2 = false →
    r.1.targetClass = p.targetClass ∧ r.1.targetType = p.targetType ∧
      r.1.stagingLen = p.stagingLen ∧
      (∀ i < p.stagingLen.toNat, r.1.stagingBuf i = p.stagingBuf i) ∧
      r.1.store = p.store ∧ r.1.lastInstallRc = p.lastInstallRc
  bounded : ∀ ws : List (PatchWrite ω),
    (after S.step p₀ ws).stagingLen.toNat ≤ bswatStagingMax

variable {S bytes} {ifwInstall : Allocs → InstallCall → PolicyStore → PolicyStore × Int}

/-- **A run** of a service is a run of the receiver on the accepted writes. -/
theorem PatchService.Handles.after_view (h : S.Handles bytes ifwInstall) (p : Patch)
    (ws : List (PatchWrite ω)) :
    (after S.step p ws).view = (S.events bytes p ws).foldl Upload.apply p.view := by
  induction ws generalizing p with
  | nil => rfl
  | cons w ws ih =>
    rw [after_cons, ih, PatchService.events, List.foldl_append, (h p w).view]
    cases S.accepts (S.step p w).2 <;> rfl

theorem PatchService.Handles.stagingLen_le (h : S.Handles bytes ifwInstall) {p : Patch}
    (hp : p.stagingLen.toNat ≤ bswatStagingMax) (ws : List (PatchWrite ω)) :
    (after S.step p ws).stagingLen.toNat ≤ bswatStagingMax := by
  induction ws generalizing p with
  | nil => exact hp
  | cons w ws ih => exact ih ((h p w).stagingLen_le hp)

theorem PatchService.Handles.receives (h : S.Handles bytes ifwInstall) {p₀ : Patch}
    (h₀ : p₀.view = ((0, 0), [])) (ws : List (PatchWrite ω)) :
    (after S.step p₀ ws).installCall.Receives (Upload.target (0, 0) (S.events bytes p₀ ws))
      (Upload.pending (S.events bytes p₀ ws)) := by
  have hview := h.after_view p₀ ws
  rw [h₀, Upload.foldl_apply, Patch.view, Prod.mk.injEq] at hview
  rw [← hview.1, ← hview.2]
  refine ⟨rfl, rfl, _, rfl, bytesAt_inj.2 ⟨?_, fun _ _ => rfl⟩⟩
  exact BitVec.toNat_setWidth_of_le (by decide)

theorem PatchService.Handles.commit_eq (h : S.Handles bytes ifwInstall) {w : PatchWrite ω}
    (hw : w.char = .commit) {p : Patch} (ha : S.accepts (S.step p w).2 = true) :
    (S.step p w).1 = p.install (ifwInstall w.allocs) := by
  have hw' : w.event bytes = .commit := by simp only [PatchWrite.event, hw]
  have hstep := h p w
  rw [ha, hw'] at hstep
  exact hstep.install

end

section
variable {ω : Type} {S : PatchService ω} {bytes : ω → List (BitVec 8)} {port : Port}
  {stateSize : Nat} {register : Allocs → StateClass → Nat → Int → Registry → Registry}

theorem PatchService.Handles.reassembles
    (h : S.Handles bytes fun a => ifwInstallPolicy port stateSize (register a) a.copy)
    (behind : Nat → BitVec 8) (store : PolicyStore) :
    S.Reassembles bytes (fun a => ifwInstallPolicy port stateSize (register a) a.copy)
      (.boot behind store) where
  commit := by
    intro ws w hw p r ha
    refine ⟨p.installCall, h.receives rfl ws, ?_⟩
    rw [show r.1 = _ from h.commit_eq hw ha]
    rfl
  chunking := by
    intro ws ws' w hw r r' ha ha' hstore htarget hpending
    have hcall : (after S.step (.boot behind store) ws).installCall.Receives _ _ :=
      h.receives rfl ws
    rw [htarget, hpending] at hcall
    have hsame := ifwInstallPolicy_receives port stateSize (register w.allocs) w.allocs.copy hcall
      (h.receives rfl ws') (after S.step (.boot behind store) ws').store
    rw [show r.1 = _ from h.commit_eq hw ha, show r'.1 = _ from h.commit_eq hw ha']
    simp only [Patch.install, hstore, hsame, and_self]
  rejected := by
    intro ws w p r ha
    have hstep := h p w
    rw [show S.accepts (S.step p w).2 = false from ha] at hstep
    obtain ⟨flat, hr⟩ := hstep.setRoom
    rw [show r.1 = _ from hr]
    exact ⟨rfl, rfl, rfl, fun _ hi => if_pos hi, rfl, rfl⟩
  bounded := h.stagingLen_le (Nat.zero_le _)

end

end BlueSwat.Fsm
