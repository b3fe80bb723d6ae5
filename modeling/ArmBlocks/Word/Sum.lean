import ArmBlocks.Word.Bits

/-!
# Sums with their flags, and saturating sums

There is one adder. A subtraction is the sum with the second word complemented and a carry of one
going in, so the carry that comes out of it means "no borrow", and every compare in the machine
rests on that reading. `Sum.of` therefore answers all three facts at once: the word, the carry out
of bit 31 and the signed overflow.

The saturating forms clamp to the signed range instead and say whether they had to.
-/

set_option autoImplicit false

namespace ArmBlocks

/-- What an addition yields beside its word. -/
structure Sum where
  /-- The sum modulo 2³². -/
  word : Word
  /-- Whether the unsigned sum did not fit. -/
  carry : Bool
  /-- Whether the signed sum did not fit: both operands have one sign and the result the other. -/
  overflow : Bool
  deriving DecidableEq, Repr

namespace Sum

/-- The sum of two words and a carry. -/
def of (a b c : Word) : Sum :=
  let wide := a.toNat + b.toNat + c.toNat
  let word : Word := BitVec.ofNat 32 wide
  { word
    carry := decide (0x100000000 ≤ wide)
    overflow := (~~~(a ^^^ b) &&& (a ^^^ word)).msb }

end Sum

namespace Saturating

/-- The largest signed word. -/
def top : Word := 0x7FFFFFFF

/-- The smallest signed word. -/
def bottom : Word := 0x80000000

/-- A signed number as a word, clamped to the signed range, and whether it had to be. -/
def clamp (n : Int) : Word × Bool :=
  if n < -0x80000000 then (bottom, true)
  else if 0x80000000 ≤ n then (top, true)
  else (BitVec.ofInt 32 n, false)

/-- Signed addition, clamped. -/
def add (a b : Word) : Word × Bool := clamp (a.toInt + b.toInt)

/-- Signed subtraction, clamped. -/
def sub (a b : Word) : Word × Bool := clamp (a.toInt - b.toInt)

end Saturating

end ArmBlocks
