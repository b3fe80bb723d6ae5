import ArmBlocks.Op.Effects
import ArmBlocks.Cpu.Model
import ArmBlocks.Cpu.Condition

/-!
# Instructions

A decoded operation together with where it stands, what it was decoded from and when it executes.
Everything the later stages ask of an instruction is a function of these, so an instruction whose
operation was replaced by a simpler one needs nothing recomputed.
-/

set_option autoImplicit false

namespace ArmBlocks

/-- A decoded instruction. -/
structure Instruction where
  cpu : Cpu
  addr : Word
  /-- The encoded instruction. -/
  raw : Word
  /-- Whether it is a THUMB instruction. -/
  thumb : Bool
  cond : Condition
  op : Op
  deriving DecidableEq, Repr

namespace Instruction

/-- Bytes in the instruction. -/
def width (i : Instruction) : Word := if i.thumb then 2 else 4

/-- The address of the instruction after it. -/
def next (i : Instruction) : Word := i.addr + i.width

/-- What reading r15 yields in the instruction: its address and two instructions more. -/
def pipelinePc (i : Instruction) : Word := i.addr + i.width * 2

/-- Whether the program counter is among the registers read. -/
def readsPc (i : Instruction) : Bool := i.op.registersRead.has .pc

/-- Whether the program counter is among the registers written. -/
def writesPc (i : Instruction) : Bool := i.op.registersWritten.has .pc

/-- The condition flags that decide whether and how the instruction executes. -/
def flagsRead (i : Instruction) : FlagSet := i.op.flagsRead.union i.cond.reads

/-- The condition flags written when it executes. -/
def flagsWritten (i : Instruction) : FlagSet := i.op.flagsWritten

/-- Whether it executes whatever the flags are. -/
def isUnconditional (i : Instruction) : Bool := i.cond == .always

/-- Whether it never executes. -/
def isNever (i : Instruction) : Bool := i.cond == .never

/-- Whether nothing can follow it in a run: it is undefined, or it surely leaves. -/
def endsRun (i : Instruction) : Bool :=
  i.op == .undefined || (i.writesPc && i.isUnconditional)

end Instruction

end ArmBlocks
