import ArmBlocks.Instruction

/-!
# Removing flags that nobody looks at

Most flag-setting instructions are followed by another one before anything reads a flag. This is
the backward liveness analysis that finds them, and the removal in one pass.

From the end of a run to its start it carries the set of flags somebody may still look at. At the
end, after every instruction that writes the program counter, and before every instruction that
may leave the block, that is all of them: what runs then is unknown, and the status register may
be shown to it. An unconditional instruction that writes flags ends their being live; a
conditional one may not execute and ends nothing.

Only an unconditional instruction is simplified, only if *none* of the flags it writes is live,
and only if it has a form without flags. A comparison has none; it becomes an operation that takes
the same time and does nothing.
-/

set_option autoImplicit false

namespace ArmBlocks

namespace Op

/-- The operation without its flags, if it sets any and can do without. An operation that writes
the program counter cannot: its flag bit means something else. -/
def withoutFlags? : Op → Option Op
  | .alu op s rd rn operand =>
    if s && !(rd == .pc && op.writes) then
      if op.writes then some (.alu op false rd rn operand)
      else some (.nop (if operand.isShiftedBy then 2 else 1))
    else none
  | .mul op s rd rn rs rm => if s then some (.mul op false rd rn rs rm) else none
  | _ => none

end Op

namespace Liveness

/-- The flags that are live after an instruction, from those live at the start of what follows. -/
def liveAfter (i : Instruction) (live : FlagSet) : FlagSet := if i.writesPc then .all else live

/-- Whether an instruction computes flags, and none that is live. -/
def isDead (i : Instruction) (live : FlagSet) : Bool :=
  !i.flagsWritten.isEmpty && (i.flagsWritten.inter live).isEmpty

/-- The instruction without its flags where they are dead. -/
def simplify (i : Instruction) (live : FlagSet) : Instruction :=
  if i.isUnconditional && isDead i live then
    match i.op.withoutFlags? with
    | some op => { i with op }
    | none => i
  else i

/-- The flags that are live before an instruction. -/
def liveBefore (i : Instruction) (live : FlagSet) : FlagSet :=
  if i.op.mayExit then .all
  else (if i.isUnconditional then live.diff i.flagsWritten else live).union i.flagsRead

/-- The simplified run, and the flags live at its start. -/
def pass : List Instruction → FlagSet × List Instruction
  | [] => (.all, [])
  | i :: rest =>
    let (live, rest) := pass rest
    let live := liveAfter i live
    let i := simplify i live
    (liveBefore i live, i :: rest)

/-- The run without the flags that nobody looks at. -/
def optimize (run : List Instruction) : List Instruction := (pass run).2

end Liveness

end ArmBlocks
