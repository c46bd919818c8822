import BlueSwat.Mynewt.State
import BlueSwat.Preempt.Cells

/-!
# A thread that installs policies and the checks that interrupt it

The Mynewt device, as far as the registry goes: a thread carries out installations one after
another, one store at a time, and between any two stores a hook may run `run_fsm_check_policy` to
its end. `Fsm.PolicyStore` has the same registry with installations in one piece (`atomicStep`).
-/

set_option autoImplicit false

namespace BlueSwat.Preempt

open Fsm
open Mynewt (Addr FsmState layout port)

/-- A call of `ifw_install_policy` with what its two allocations return. -/
structure InstallOp where
  call : InstallCall
  copy : Option (Nat → BitVec 8)
  block : Option (Addr × PolicyNode)

/-- A call of `run_fsm_check_policy`, in its surroundings. -/
structure Check where
  E : Env layout.size
  type : Nat
  cls : StateClass
  s : FsmState

/-- What is seen from outside: the answer of a check, the return code of an installation. -/
inductive Seen where
  | checked (r : Option (Verdict × FsmState))
  | installed (rc : Int)

/-! ## Store by store -/

/-- The registry in memory and the installation under way: its return code and the stores that are
left. -/
structure Thread where
  cells : Cells
  busy : Option (InstallOp × Int × List Store)

/-- The thread calls `ifw_install_policy`; it does its next store; a hook interrupts it. -/
inductive Event where
  | install (op : InstallOp)
  | store
  | check (k : Check)

section
variable (fuel : Nat)

def Cells.check (c : Cells) (k : Check) : Option (Verdict × FsmState) :=
  c.runFsmCheckPolicy layout port fuel k.E k.type k.cls k.s

/-- `ifw_install_policy` on the registry in memory. -/
def InstallOp.stores (op : InstallOp) (c : Cells) : Option (List Store × Int) :=
  installStores port layout.size
    (fun cls type pid => mynewtRegisterPolicy port fuel cls type pid op.block) op.copy op.call c

/-- Nothing is seen of a store that is not the last one. A thread does not begin an installation
before the last one is done. -/
def Thread.step (t : Thread) : Event → Thread × Option Seen
  | .check k => (t, some (.checked (t.cells.check fuel k)))
  | .install op => match t.busy, op.stores fuel t.cells with
    | none, some ([], rc) => (t, some (.installed rc))
    | none, some (s :: stores, rc) => ({ t with busy := some (op, rc, s :: stores) }, none)
    | _, _ => (t, none)
  | .store => match t.busy with
    | some (_, rc, [s]) => (⟨t.cells.store s, none⟩, some (.installed rc))
    | some (op, rc, s :: stores) => (⟨t.cells.store s, some (op, rc, stores)⟩, none)
    | _ => (t, none)

end

/-! ## In one piece -/

inductive AtomicEvent where
  | install (op : InstallOp)
  | check (k : Check)

def InstallOp.atomic (op : InstallOp) (store : PolicyStore) : PolicyStore × Int :=
  ifwInstallPolicy port layout.size (Registry.registerPolicyIf op.block.isSome port) op.copy op.call
    store

def atomicStep (store : PolicyStore) : AtomicEvent → PolicyStore × Seen
  | .install op => ((op.atomic store).1, .installed (op.atomic store).2)
  | .check k =>
    (store, .checked (runFsmCheckPolicy layout port store.toRegistry k.E k.type k.cls k.s))

/-! ## The order in which the effects happen -/

section
variable (fuel : Nat)

/-- An installation happens when it returns, a check when it is made. -/
def Thread.point (t : Thread) : Event → Option AtomicEvent
  | .check k => some (.check k)
  | .install op => match t.busy, op.stores fuel t.cells with
    | none, some ([], _) => some (.install op)
    | _, _ => none
  | .store => match t.busy with
    | some (op, _, [_]) => some (.install op)
    | _ => none

def Thread.points : Thread → List Event → List AtomicEvent
  | _, [] => []
  | t, e :: es => (t.point fuel e).toList ++ Thread.points (t.step fuel e).1 es

/-- A block that is handed out is not in use. -/
def Thread.Fresh : Thread → List Event → Prop
  | _, [] => True
  | t, e :: es =>
    (∀ op a node, e = .install op → t.busy = none → op.block = some (a, node) →
      t.cells.heap a = none) ∧ Thread.Fresh (t.step fuel e).1 es

end

end BlueSwat.Preempt
