import BlueSwat.Fsm.Patch
import BlueSwat.Lib.Reactive

/-!
# The device

The packet hooks and the patch service of a port run on one registry: a commit installs a policy,
and the next packet meets it. A `Device` takes the calls of the hooks and the writes to the service
in any order.
-/

set_option autoImplicit false

namespace BlueSwat.Fsm

/-- The packet hooks of a port: a call on their static variables, and the registry among them. -/
structure Hooks (η κ : Type) where
  step : η → κ → Option (η × Verdict)
  reg : η → Registry
  setReg : Registry → η → η

structure Device (η : Type) where
  hook : η
  patch : Patch

inductive DeviceEvent (κ ω : Type) where
  | call (c : κ)
  | write (w : PatchWrite ω)

/-- The verdict of a hook, or the return code of a write handler. -/
inductive DeviceAnswer where
  | verdict (v : Verdict)
  | written (rc : Int)
deriving DecidableEq

section
variable {η κ ω : Type} (H : Hooks η κ) (S : PatchService ω)

def Device.step (d : Device η) : DeviceEvent κ ω → Option (Device η × DeviceAnswer)
  | .call c => (H.step d.hook c).map fun p => ({ d with hook := p.1 }, .verdict p.2)
  | .write w =>
    let r := S.step d.patch w
    some (⟨H.setReg r.1.store.toRegistry d.hook, r.1⟩, .written r.2)

/-- Before the first packet and the first write, with no policy installed. -/
def Device.boot (h : η) (behind : Nat → BitVec 8) : Device η := ⟨h, .boot behind ⟨H.reg h, 0⟩⟩

end

end BlueSwat.Fsm
