import ArmBlocks.Word.Bits

/-!
# The barrel shifter

Each shift takes the amount as a register gives it (any number, not only one below 32) and the
carry that comes in, and answers the shifted word with the carry that goes out. An amount of zero
is no shift at all: word and carry come back as they were.

For every other amount the carry out is the last bit moved over the edge. Written that way the
cases at 32 and above need no arms of their own: shifting right by more than 32 moves a zero out
because a bit past the top is clear, and rotating by a multiple of 32 leaves the word alone with
its top bit as the last one moved. Only `lsl` has to say what happens above 32, where the position
`32 - n` no longer names the bit.
-/

set_option autoImplicit false

namespace ArmBlocks

/-- The kinds of shift an operand can ask for. -/
inductive ShiftKind where
  | lsl
  | lsr
  | asr
  | ror
  deriving DecidableEq, Repr, Inhabited

namespace Shift

/-- Logical shift left. -/
def lsl (x : Word) (n : Nat) (carry : Bool) : Word × Bool :=
  if n = 0 then (x, carry)
  else if n ≤ 32 then (x <<< n, x.getLsbD (32 - n))
  else (0, false)

/-- Logical shift right. -/
def lsr (x : Word) (n : Nat) (carry : Bool) : Word × Bool :=
  if n = 0 then (x, carry) else (x >>> n, x.getLsbD (n - 1))

/-- Arithmetic shift right: the sign moves in at the top, so past 32 it also moves out. -/
def asr (x : Word) (n : Nat) (carry : Bool) : Word × Bool :=
  if n = 0 then (x, carry) else (x.sshiftRight n, x.getLsbD (min (n - 1) 31))

/-- Rotate right: the last bit moved is the one that is now at the top. -/
def ror (x : Word) (n : Nat) (carry : Bool) : Word × Bool :=
  if n = 0 then (x, carry) else (x.rotateRight n, (x.rotateRight n).msb)

/-- Rotate right by one through the carry: the carry enters at the top, bit 0 becomes the carry. -/
def rrx (x : Word) (carry : Bool) : Word × Bool :=
  (Bits.put (x >>> 1) 31 carry, x.getLsbD 0)

end Shift

namespace ShiftKind

/-- The shift a kind stands for. -/
def apply (kind : ShiftKind) (x : Word) (n : Nat) (carry : Bool) : Word × Bool :=
  match kind with
  | .lsl => Shift.lsl x n carry
  | .lsr => Shift.lsr x n carry
  | .asr => Shift.asr x n carry
  | .ror => Shift.ror x n carry

/-- The kind a two-bit field encodes. -/
def ofBits (bits : BitVec 2) : ShiftKind :=
  match bits with
  | 0 => .lsl
  | 1 => .lsr
  | 2 => .asr
  | 3 => .ror

end ShiftKind

end ArmBlocks
