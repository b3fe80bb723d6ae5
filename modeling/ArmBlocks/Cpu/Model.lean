/-!
# The two processors

An engine drives two guest processors side by side. Which one is running decides the architecture
version, and that in turn decides which encodings exist and how a handful of instructions behave.
-/

set_option autoImplicit false

namespace ArmBlocks

/-- A guest processor. -/
inductive Cpu where
  /-- ARM946E-S, architecture version 5TE. -/
  | arm9
  /-- ARM7TDMI, architecture version 4T. -/
  | arm7
  deriving DecidableEq, Repr, Inhabited

namespace Cpu

/-- Both processors, in the order they are set up in. -/
def all : List Cpu := [.arm9, .arm7]

/-- Whether the processor follows architecture version 5. -/
def isV5 : Cpu → Bool
  | .arm9 => true
  | .arm7 => false

/-- Position of the processor in a pair. -/
def index : Cpu → Nat
  | .arm9 => 0
  | .arm7 => 1

/-- The name used in notices. -/
def text : Cpu → String
  | .arm9 => "ARM9"
  | .arm7 => "ARM7"

end Cpu

/-- One value for each processor. -/
structure PerCpu (α : Type) where
  arm9 : α
  arm7 : α
  deriving Inhabited

namespace PerCpu

variable {α : Type}

/-- The value of a processor. -/
def get (p : PerCpu α) : Cpu → α
  | .arm9 => p.arm9
  | .arm7 => p.arm7

/-- The pair with the value of one processor replaced. -/
def set (p : PerCpu α) (cpu : Cpu) (x : α) : PerCpu α :=
  match cpu with
  | .arm9 => { p with arm9 := x }
  | .arm7 => { p with arm7 := x }

@[simp] theorem get_set_self (p : PerCpu α) (cpu : Cpu) (x : α) : (p.set cpu x).get cpu = x := by
  cases cpu <;> rfl

theorem get_set_of_ne (p : PerCpu α) {cpu other : Cpu} (x : α) (h : other ≠ cpu) :
    (p.set cpu x).get other = p.get other := by
  cases cpu <;> cases other <;> first | rfl | exact absurd rfl h

end PerCpu

end ArmBlocks
