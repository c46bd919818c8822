import BlueSwat.Lib.Thumb
import BlueSwat.Ebpf.Verifier
import BlueSwat.Jit.Size

/-!
# When a translation is laid out consistently

`Consistent` is the property itself, on the two passes as they run: both put every instruction at
the same place, and every branch that is emitted goes where its instruction says. `Aligned` is a
condition on the program, in terms of the table of sizes.
-/

set_option autoImplicit false

namespace BlueSwat.Jit

open Ebpf

/-! ## The passes as they run -/

/-- The calls of `build_inst` in a pass: the instruction, and the state it is called in. -/
def visits : Nat → Nat → JitState → List (Nat × JitState)
  | 0, _, _ => []
  | fuel + 1, i, s =>
    if i < s.instNum then
      (i, s) :: match buildRound s i with
        | (s', some i') => visits fuel i' s'
        | (_, none) => []
    else []

/-- The state in which the first pass enters the body. -/
def preStart (s : JitState) : JitState :=
  emit { s with idx := 0, needGen := false } buildPrologue

/-- The instructions of a pass that enters the body in `s`, each with its place. -/
def placesOf (s : JitState) : List (Nat × Nat) :=
  (visits s.instNum 0 s).map fun v => (v.1, v.2.idx)

/-- What `build_inst` emits for a jump or an `EXIT`: the code in front of the branch, and the
branch. -/
def branchOf (s : JitState) (pc : Nat) : Code × Code :=
  match Op.ofCode (s.insts pc).opcode with
  | some op => buildJump s pc op
  | none => ([], [])

/-- Where the branch at `a` goes, if `code` is one branch. -/
def branchTarget (a : Nat) (code : Code) : Option Int :=
  match Thumb.decode (code.getD 0 0) (code.getD 1 0) with
  | some (.b _ off, len) => if len = 2 * code.length then some (a + 4 + off.toInt) else none
  | _ => none

/-- The instruction a jump goes to. -/
def jumpTarget (inst : EbpfInst) (pc : Nat) : Int := pc + 1 + inst.offset.toInt

/-- A branch that is emitted for instruction `pc` goes to the epilogue, or to the place of the
instruction that the jump names. -/
def Lands (s : JitState) (v : Nat × JitState) : Prop :=
  let branch := branchOf v.2 v.1
  branch.2 ≠ [] → ∃ a : Nat, branchTarget (v.2.idx + 2 * branch.1.length) branch.2 =
    some (a : Int) ∧
    if (v.2.insts v.1).opcode = Op.exit.code then a = (buildBody s).idx
    else ∃ t, jumpTarget (v.2.insts v.1) v.1 = (t : Nat) ∧ (t, a) ∈ placesOf s

/-- The translation of a program that starts in `s`: every instruction has the same place in both
passes, and every branch lands. -/
structure Consistent (code : Nat → BitVec 8) (s : JitState) : Prop where
  placed : ∀ i < s.instNum, visited code i = true →
    ∃ a, (i, a) ∈ placesOf (genStart (prePass s))
  same : placesOf (preStart s) = placesOf (genStart (prePass s))
  lands : ∀ v ∈ visits s.instNum 0 (genStart (prePass s)), Lands (genStart (prePass s)) v

/-! ## The condition on the program -/

/-- A jump that a branch is emitted for. -/
def emitsBranch (inst : EbpfInst) : Bool :=
  match Op.ofCode inst.opcode with
  | some .ja => inst.offset != 0
  | some (.jcond c form) => (jumpCond c).isSome && !(form == .imm && inst.offset == 0)
  | _ => false

/-- No jump leaves the program or goes to the second slot of an `LDDW`. -/
def JumpsInside (code : Nat → BitVec 8) (instNum : Nat) : Prop :=
  ∀ i < instNum, visited code i = true → emitsBranch (instAt code i) = true →
    ∃ t < instNum, jumpTarget (instAt code i) i = (t : Nat) ∧ visited code t = true

/-- The places that the first pass gives to the instructions of `code`. -/
def places (code : Nat → BitVec 8) (instNum : Nat) : List (Nat × Nat) :=
  (layout (instAt code) instNum (preSize (instAt code) instNum)).1

/-- * Only the last instruction may be one that `build_inst` refuses.
* Every `EXIT` but the last is near enough to the epilogue for a short branch.
* A jump does not go to the first instruction, and the place it goes to and the end of the jump
  agree in all but their low bytes. -/
structure Aligned (code : Nat → BitVec 8) (instNum : Nat) : Prop where
  accepted : ∀ i, i + 1 < instNum → visited code i = true → refused (instAt code i) = false
  exits : ∀ i a, (i, a) ∈ places code instNum → (instAt code i).opcode = Op.exit.code →
    i + 1 ≠ instNum → epilogueAt (instAt code) instNum < a + 2050
  jumps : ∀ i a t b, (i, a) ∈ places code instNum → emitsBranch (instAt code i) = true →
    jumpTarget (instAt code i) i = (t : Nat) → (t, b) ∈ places code instNum →
    t ≠ 0 ∧ b / 256 = (a + preSize (instAt code) instNum i a) / 256

end BlueSwat.Jit
