import BlueSwat.Fsm.Install

/-!
# The patch service

A GATT service uploads a policy: a Header write names the class and type, Body writes append to a
staging buffer, a Commit write calls `ifw_install_policy` on what is there. Both ports keep the same
static variables (`Patch`) and differ in how a handler gets at the bytes of a write and in what it
returns, so a port is a `PatchService`. The status characteristic reads `last_install_rc` and
changes nothing.
-/

set_option autoImplicit false

namespace BlueSwat.Fsm

def bswatStagingMax : Nat := 256

/-- The static variables of the service, and the store that it installs to. `stagingBuf` is the
memory from `staging_buf` on. -/
structure Patch where
  stagingBuf : Nat → BitVec 8
  stagingLen : BitVec 16
  targetClass : BitVec 8
  targetType : BitVec 8
  lastInstallRc : Int
  store : PolicyStore

namespace Patch

/-- Before the first write; `behind` is the memory behind the buffer. -/
def boot (behind : Nat → BitVec 8) (store : PolicyStore) : Patch where
  stagingBuf := fun i => if i < bswatStagingMax then 0 else behind i
  stagingLen := 0
  targetClass := 0
  targetType := 0
  lastInstallRc := -100
  store := store

def retarget (cls type : BitVec 8) (p : Patch) : Patch :=
  { p with targetClass := cls, targetType := type, stagingLen := 0 }

/-- The memory at `&staging_buf[staging_len]`. -/
def room (p : Patch) (i : Nat) : BitVec 8 := p.stagingBuf (p.stagingLen.toNat + i)

def setRoom (flat : Nat → BitVec 8) (p : Patch) : Patch :=
  { p with stagingBuf := fun i =>
      if i < p.stagingLen.toNat then p.stagingBuf i else flat (i - p.stagingLen.toNat) }

def grow (len : BitVec 16) (p : Patch) : Patch := { p with stagingLen := p.stagingLen + len }

def installCall (p : Patch) : InstallCall :=
  ⟨p.targetClass.toNat, p.targetType.toNat, some p.stagingBuf, p.stagingLen.setWidth 32⟩

/-- `last_install_rc = ifw_install_policy(..); staging_len = 0`. -/
def install (ifwInstall : InstallCall → PolicyStore → PolicyStore × Int) (p : Patch) : Patch :=
  let r := ifwInstall p.installCall p.store
  { p with store := r.1, lastInstallRc := r.2, stagingLen := 0 }

end Patch

/-- What the allocations of an installation return: the block for the bytecode, and whether there
is memory for the list node. -/
structure Allocs where
  copy : Option (Nat → BitVec 8)
  node : Bool

/-- The write handlers of a port, with the return codes that accept a write. -/
structure PatchService (ω : Type) where
  header : ω → Patch → Patch × Int
  body : ω → Patch → Patch × Int
  commit : Allocs → ω → Patch → Patch × Int
  accepts : Int → Bool

inductive Characteristic where
  | header | body | commit
deriving DecidableEq

structure PatchWrite (ω : Type) where
  char : Characteristic
  write : ω
  allocs : Allocs

def PatchService.step {ω : Type} (S : PatchService ω) (p : Patch) (w : PatchWrite ω) :
    Patch × Int :=
  match w.char with
  | .header => S.header w.write p
  | .body => S.body w.write p
  | .commit => S.commit w.allocs w.write p

end BlueSwat.Fsm
