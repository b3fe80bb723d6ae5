import ArmBlocks.Cpu.State
import ArmBlocks.Word.Sum

/-!
# Results and their flags

A flag-setting instruction records its result in the status register. There are three amounts of
recording: sign and zero only, those and a carry that comes from elsewhere (the shifter), or all
four flags of a sum. Each is a function on the processor state, and an instruction that sets no
flags simply does not call it.
-/

set_option autoImplicit false

namespace ArmBlocks

namespace CpuState

/-- Records the sign of a word and whether it is zero. -/
def setNz (s : CpuState) (x : Word) : CpuState :=
  (s.setFlag .neg x.msb).setFlag .zero (x == 0)

/-- Records sign and zero, with a carry. -/
def setNzc (s : CpuState) (x : Word) (carry : Bool) : CpuState :=
  (s.setNz x).setFlag .carry carry

/-- Records all four flags of a sum. -/
def setNzcv (s : CpuState) (sum : Sum) : CpuState :=
  (s.setNzc sum.word sum.carry).setFlag .overflow sum.overflow

/-- The carry flag as a number. -/
def carry (s : CpuState) : Word := Word.ofBool (s.flag .carry)

/-- Sums with a carry in, recording the flags if asked to. -/
def addWithCarry (s : CpuState) (set : Bool) (a b c : Word) : Word × CpuState :=
  let sum := Sum.of a b c
  (sum.word, if set then s.setNzcv sum else s)

/-- Adds. -/
def add (s : CpuState) (set : Bool) (a b : Word) : Word × CpuState := s.addWithCarry set a b 0

/-- Subtracts: adds the complement and one. -/
def sub (s : CpuState) (set : Bool) (a b : Word) : Word × CpuState := s.addWithCarry set a (~~~b) 1

/-- Subtracts with the carry standing for "no borrow". -/
def subWithCarry (s : CpuState) (set : Bool) (a b c : Word) : Word × CpuState :=
  s.addWithCarry set a (~~~b) c

end CpuState

end ArmBlocks
