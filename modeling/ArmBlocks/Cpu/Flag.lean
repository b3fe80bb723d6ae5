import ArmBlocks.Word.Bits

/-!
# Status flags

`Flag` names the single bits of the status register the machine acts on. `FlagSet` is something
else: a set of the four condition flags, which is what the analysis of a run computes with. The
two meet only in the proofs, so the set is four truth values and not a mask over the register.
-/

set_option autoImplicit false

namespace ArmBlocks

/-- A single bit of the status register. -/
inductive Flag where
  /-- The result was negative. -/
  | neg
  /-- The result was zero. -/
  | zero
  /-- The carry out. -/
  | carry
  /-- The signed overflow. -/
  | overflow
  /-- A saturating operation clamped its result; only ever set by instructions. -/
  | clamped
  /-- Interrupts are off. -/
  | irqDisable
  /-- Fast interrupts are off. -/
  | fiqDisable
  /-- The processor executes THUMB code. -/
  | thumb
  deriving DecidableEq, Repr, Inhabited

namespace Flag

/-- The position of the flag in the status register. -/
def bit : Flag → Nat
  | .neg => 31
  | .zero => 30
  | .carry => 29
  | .overflow => 28
  | .clamped => 27
  | .irqDisable => 7
  | .fiqDisable => 6
  | .thumb => 5

/-- The word with only the flag set. -/
def mask (f : Flag) : Word := 1#32 <<< f.bit

theorem bit_lt (f : Flag) : f.bit < 32 := by
  cases f <;> decide

/-- No two flags share a position. -/
theorem bit_inj {f g : Flag} : f.bit = g.bit ↔ f = g := by
  cases f <;> cases g <;> decide

end Flag

/-- A set of condition flags. -/
structure FlagSet where
  n : Bool
  z : Bool
  c : Bool
  v : Bool
  deriving DecidableEq, Repr, Inhabited

namespace FlagSet

/-- No flag. -/
def empty : FlagSet := ⟨false, false, false, false⟩

/-- All four flags. -/
def all : FlagSet := ⟨true, true, true, true⟩

/-- The flags of either set. -/
def union (a b : FlagSet) : FlagSet := ⟨a.n || b.n, a.z || b.z, a.c || b.c, a.v || b.v⟩

/-- The flags of both sets. -/
def inter (a b : FlagSet) : FlagSet := ⟨a.n && b.n, a.z && b.z, a.c && b.c, a.v && b.v⟩

/-- The flags of the first set that are not in the second. -/
def diff (a b : FlagSet) : FlagSet := ⟨a.n && !b.n, a.z && !b.z, a.c && !b.c, a.v && !b.v⟩

/-- Whether the set holds no flag. -/
def isEmpty (a : FlagSet) : Bool := !(a.n || a.z || a.c || a.v)

/-- The set as a number, with N, Z, C and V from bit 3 down. -/
def toNat (a : FlagSet) : Nat :=
  (if a.n then 8 else 0) + (if a.z then 4 else 0) + (if a.c then 2 else 0) + (if a.v then 1 else 0)

/-- The negative and zero flags, which every flag-setting operation writes. -/
def nz : FlagSet := ⟨true, true, false, false⟩

/-- The flags a logical operation with a shifted operand writes. -/
def nzc : FlagSet := ⟨true, true, true, false⟩

/-- The carry alone. -/
def carry : FlagSet := ⟨false, false, true, false⟩

theorem isEmpty_iff (a : FlagSet) : a.isEmpty = true ↔ a = empty := by
  cases a; simp [isEmpty, empty]; grind

end FlagSet

end ArmBlocks
