import Mathlib.Logic.Basic

/-!
# The common core of the FSM (`fsm_core.h`)

What the two ports share by design: the state classes, the core states and the verdicts.
-/

set_option autoImplicit false

namespace BlueSwat.Fsm

/-- `enum ifw_core_state_type`. -/
inductive CoreState where
  | llState | pairingMode | pairingMethod | bleRole | ioCapacity
deriving DecidableEq, Repr

def ifwCoreStateNum : CoreState → Nat
  | .llState => 7
  | .pairingMode => 2
  | .pairingMethod => 4
  | .bleRole => 7
  | .ioCapacity => 6

/-- `IFW_SPI_PARAM`. -/
inductive SpiParam where
  | hciEvtLen | hciAclLen
deriving DecidableEq, Repr

/-- `IFW_HCI_PARAM`. -/
inductive HciParam where
  | hciCmdBuf
deriving DecidableEq, Repr

/-- `enum ifw_state_class`. -/
inductive StateClass where
  | shared | core | conn | dc | spi | hci
deriving DecidableEq, Repr

inductive Verdict where
  | pass | reject
deriving DecidableEq, Repr

def Verdict.code : Verdict → BitVec 64
  | .pass => 0
  | .reject => 1

/-- `if (reject) return IFW_OPERATION_REJECT; return IFW_OPERATION_PASS;`. -/
def Verdict.rejectIf (reject : Bool) : Verdict := if reject then .reject else .pass

theorem Verdict.rejectIf_pos {p : Prop} [Decidable p] (h : p) : Verdict.rejectIf p = .reject := by
  rw [decide_eq_true h]
  rfl

theorem Verdict.rejectIf_neg {p : Prop} [Decidable p] (h : ¬ p) : Verdict.rejectIf p = .pass := by
  rw [decide_eq_false h]
  rfl

theorem Verdict.rejectIf_eq_reject {b : Bool} : Verdict.rejectIf b = .reject ↔ b = true := by
  cases b <;> simp [rejectIf]

theorem Verdict.rejectIf_congr {p q : Prop} [Decidable p] [Decidable q] (h : p ↔ q) :
    Verdict.rejectIf p = .rejectIf q := by
  rw [decide_eq_decide.2 h]

theorem Verdict.rejectIf_inj {p q : Prop} [Decidable p] [Decidable q] :
    Verdict.rejectIf p = .rejectIf q ↔ (p ↔ q) := by
  refine ⟨fun h => ?_, rejectIf_congr⟩
  by_cases hp : p <;> by_cases hq : q <;> simp_all [rejectIf]

theorem Verdict.rejectIf_bool_inj {b c : Bool} : Verdict.rejectIf b = .rejectIf c ↔ b = c := by
  cases b <;> cases c <;> simp [rejectIf]

/-- `if (p) return PASS; if (q) return REJECT; return PASS;`. -/
theorem Verdict.rejectIf_not_and {p q : Prop} [Decidable p] [Decidable q] :
    (if p then .pass else if q then .reject else .pass) = Verdict.rejectIf (¬ p ∧ q) := by
  by_cases hp : p <;> by_cases hq : q <;> simp [hp, hq, rejectIf]

end BlueSwat.Fsm
