import Mathlib.Data.Finset.Card

/-!
# The helper table (`ebpf_vm.c`)

All VMs share one table of helper functions, `g_helepr_func`. `ebpf_register` allocates it for the
first VM that registers a function, and `ebpf_vm_destroy` frees it when its `refcnt` gets to 0.

VMs and tables are numbered in the order of their allocation, and a number stands for the pointer.
A freed VM or table is `none`; a call that uses one gives `none`.
-/

set_option autoImplicit false

namespace BlueSwat.Ebpf

def maxExtFuncs : Nat := 12

/-- `ebpf_helper_func`. -/
structure HelperFunc where
  extFuncs : Nat → BitVec 32
  refcnt : Int

/-- `vms v` is the `helper_func` of VM `v`, if `v` is allocated; `vmNum` and `tableNum` count the
allocations. -/
structure HelperHeap where
  vms : Nat → Option (Option Nat)
  vmNum : Nat
  tables : Nat → Option HelperFunc
  tableNum : Nat
  gHelperFunc : Option Nat

namespace HelperHeap

def boot : HelperHeap := ⟨fun _ => none, 0, fun _ => none, 0, none⟩

/-- `ebpf_create`. -/
def ebpfCreate (h : HelperHeap) : HelperHeap :=
  { h with vms := Function.update h.vms h.vmNum (some none), vmNum := h.vmNum + 1 }

/-- The allocation of `g_helepr_func`. -/
def allocTable (h : HelperHeap) : HelperHeap :=
  { h with
    tables := Function.update h.tables h.tableNum (some ⟨fun _ => 0, 0⟩)
    tableNum := h.tableNum + 1
    gHelperFunc := some h.tableNum }

/-- `g_helepr_func->refcnt += 1; vm->helper_func = g_helepr_func;`. -/
def share (vm g : Nat) (h : HelperHeap) : HelperHeap :=
  { h with
    vms := Function.update h.vms vm (some (some g))
    tables := Function.update h.tables g
      ((h.tables g).map fun t => { t with refcnt := t.refcnt + 1 }) }

/-- The first block of `ebpf_register`: the heap, and the table of a VM with this `helper_func`. -/
def tableFor (vm : Nat) (helperFunc : Option Nat) (h : HelperHeap) : HelperHeap × Nat :=
  match helperFunc, h.gHelperFunc with
  | some g, _ => (h, g)
  | none, some g => (h.share vm g, g)
  | none, none => (h.allocTable.share vm h.tableNum, h.tableNum)

/-- `ext_funcs[idx] = fn`. -/
def setFunc (g idx : Nat) (fn : BitVec 32) (h : HelperHeap) : Option HelperHeap :=
  (h.tables g).map fun t =>
    { h with
      tables := Function.update h.tables g
        (some { t with extFuncs := Function.update t.extFuncs idx fn }) }

/-- `ebpf_register`: the heap and the value returned. -/
def ebpfRegister (vm idx : Nat) (fn : BitVec 32) (h : HelperHeap) : Option (HelperHeap × Int) :=
  (h.vms vm).bind fun helperFunc =>
    let p := h.tableFor vm helperFunc
    if idx ≥ maxExtFuncs then some (p.1, -1) else (p.1.setFunc p.2 idx fn).map (·, 0)

/-- The first block of `ebpf_vm_destroy`; it does not look at the `helper_func` of the VM. -/
def release (h : HelperHeap) : HelperHeap :=
  match h.gHelperFunc with
  | none => h
  | some g => match h.tables g with
    | none => h
    | some t =>
      if t.refcnt - 1 = 0 then
        { h with tables := Function.update h.tables g none, gHelperFunc := none }
      else
        { h with tables := Function.update h.tables g (some { t with refcnt := t.refcnt - 1 }) }

/-- `ebpf_vm_destroy`. -/
def ebpfVmDestroy (vm : Nat) (h : HelperHeap) : Option HelperHeap :=
  (h.vms vm).map fun _ => { h.release with vms := Function.update h.release.vms vm none }

/-- The live VMs whose `helper_func` is set. -/
def users (h : HelperHeap) : Finset Nat :=
  (Finset.range h.vmNum).filter fun v => (h.vms v).join.isSome

end HelperHeap

/-! ## Calls -/

inductive HelperCall where
  | create
  | register (vm idx : Nat) (fn : BitVec 32)
  | destroy (vm : Nat)

def HelperCall.exec (c : HelperCall) (h : HelperHeap) : Option HelperHeap :=
  match c with
  | .create => some h.ebpfCreate
  | .register vm idx fn => (h.ebpfRegister vm idx fn).map (·.1)
  | .destroy vm => h.ebpfVmDestroy vm

/-! ## What the table is for -/

/-- The VMs, without a table: how many were created, which of them are not destroyed, and which of
these have registered a function. -/
structure VmSet where
  created : Nat
  live : Finset Nat
  registered : Finset Nat

def VmSet.boot : VmSet := ⟨0, ∅, ∅⟩

/-- One call; `none` if it names a VM that does not exist or is destroyed. -/
def HelperCall.track (c : HelperCall) (a : VmSet) : Option VmSet :=
  match c with
  | .create => some { a with created := a.created + 1, live := insert a.created a.live }
  | .register vm _ _ =>
    if vm ∈ a.live then some { a with registered := insert vm a.registered } else none
  | .destroy vm =>
    if vm ∈ a.live then
      some { a with live := a.live.erase vm, registered := a.registered.erase vm }
    else none

/-- Every call names a VM that is not destroyed. -/
def ProperCalls : List HelperCall → VmSet → Prop
  | [], _ => True
  | c :: cs, a => ∃ a', c.track a = some a' ∧ ProperCalls cs a'

/-- A VM that has not registered a function is destroyed only while no VM has. -/
def DestroysUsers : List HelperCall → VmSet → Prop
  | [], _ => True
  | c :: cs, a =>
    (∀ vm, c = .destroy vm → vm ∈ a.registered ∨ a.registered = ∅) ∧
      ∀ a', c.track a = some a' → DestroysUsers cs a'

/-- The table is there while VMs use it, and counts them. -/
structure Counted (h : HelperHeap) : Prop where
  refcnt : ∀ g, h.gHelperFunc = some g → ∃ t, h.tables g = some t ∧ t.refcnt = h.users.card
  allocated : ∀ v g, h.vms v = some (some g) → h.gHelperFunc = some g ∧ (h.tables g).isSome
  freed : h.users = ∅ → h.gHelperFunc = none ∧ ∀ g, h.tables g = none

/-- `Counted` holds before the first call and after each one, and every call is defined. -/
def CountedAlong : List HelperCall → HelperHeap → Prop
  | [], h => Counted h
  | c :: cs, h => Counted h ∧ ∃ h', c.exec h = some h' ∧ CountedAlong cs h'

end BlueSwat.Ebpf
