import ArmBlocks.Machine.Basic

/-!
# Branches

A branch writes the program counter; leaving the block is somebody else's business. All of them
are functions on the processor. `link` is the address to return to, with the lowest bit set if the
return is to THUMB code; it was settled when the instruction was compiled.
-/

set_option autoImplicit false

namespace ArmBlocks

namespace CpuState

/-- Writes the link register if asked to. -/
def linkIf (s : CpuState) (b : Bool) (link : Word) : CpuState := if b then s.write .lr link else s

/-- Branches to a fixed target, in THUMB from then on if `exchange` says so. -/
def branch (s : CpuState) (link : Word) (links exchange : Bool) (target : Word) : CpuState :=
  let s := s.linkIf links link
  (if exchange then s.setFlag .thumb true else s).write .pc target

/-- Branches to a register, whose lowest bit selects the instruction set. The target is read
before the link is written. -/
def branchExchange (s : CpuState) (pc link : Word) (links : Bool) (rm : Reg) : CpuState :=
  let target := s.read pc rm
  ((s.linkIf links link).setFlag .thumb (target.getLsbD 0)).write .pc target

/-- The first half of a long branch: leaves the upper part of the target in the link register. -/
def linkPrefix (s : CpuState) (value : Word) : CpuState := s.write .lr value

/-- The second half of a long branch: completes the target, in ARM from then on if `exchange` says
so, and links. -/
def linkSuffix (s : CpuState) (link offset : Word) (exchange : Bool) : CpuState :=
  let target := s.reg .lr + offset
  let s := s.write .lr link
  if exchange then (s.setFlag .thumb false).write .pc (target &&& ~~~3#32) else s.write .pc target

end CpuState

end ArmBlocks
