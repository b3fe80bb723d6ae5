import ArmBlocks.Machine.Basic

/-!
# Traps, breakpoints and the control coprocessor

A software interrupt is offered to the host first. If the host handles it, execution goes on as
after any instruction; if not, the guest's handler is entered. The machine remembers which, since
only the second leaves the block.

Of the coprocessors only the control coprocessor exists. Transfers to others take their time and
do nothing.
-/

set_option autoImplicit false

namespace ArmBlocks

/-- The number of the control coprocessor. -/
def controlCoprocessor : BitVec 4 := 15

namespace Guest

variable {σ : Type}

/-- Executes a software interrupt. -/
def softwareInterrupt (bus : Bus σ) (pc cost comment : Word) : Guest σ Continuation := do
  let handled ← modifyGet fun m =>
    let (handled, cpu, host) := bus.softwareInterrupt m.host m.cpu comment
    (handled, { m with cpu, host })
  match handled with
  | some cycles =>
    spend (cycles.setWidth 32 + cost)
    modify fun m => { m with trapped := false }
  | none =>
    spend cost
    let s ← cpu
    enter bus .softwareInterrupt (s.addressOf pc + s.width)
    modify fun m => { m with trapped := true }
  return .next

/-- Executes a breakpoint: there is no debugger, so it is reported and passed over. -/
def breakpoint (pc cost : Word) : Guest σ Continuation := do
  let s ← cpu
  notify (.breakpoint s.cpu (s.addressOf pc))
  spend cost
  return .next

/-- Executes an undefined instruction: the guest's handler is entered and the block left. -/
def undefined (bus : Bus σ) (pc cost : Word) : Guest σ Continuation := do
  spend cost
  let s ← cpu
  enter bus .undefined (s.addressOf pc + s.width)
  return .leave .early

/-- Moves a register to the control coprocessor. -/
def controlWrite (bus : Bus σ) (pc : Word) (r : ControlRegister) (rd : Reg) : Guest σ Unit :=
  modify fun m => { m with host := bus.controlWrite m.host m.cpu.cpu (m.cpu.readLate pc rd) r }

/-- Moves a register from the control coprocessor. With the program counter as destination only
the condition flags are written. -/
def controlRead (bus : Bus σ) (r : ControlRegister) (rd : Reg) : Guest σ Unit := do
  let x ← modifyGet fun m =>
    let (x, host) := bus.controlRead m.host m.cpu.cpu r
    (x, { m with host })
  modifyCpu fun s =>
    if rd = .pc then s.setFlags ((s.cpsr &&& 0x0FFFFFFF) ||| (x &&& 0xF0000000)) else s.write rd x

/-- Executes a coprocessor transfer. -/
def coproc (bus : Bus σ) (pc : Word) (load : Bool) (cp : BitVec 4) (r : ControlRegister)
    (rd : Reg) : Guest σ Continuation := do
  if cp = controlCoprocessor then
    if load then controlRead bus r rd else controlWrite bus pc r rd
  return .next

end Guest

end ArmBlocks
