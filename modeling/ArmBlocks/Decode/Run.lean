import ArmBlocks.Decode.Arm
import ArmBlocks.Decode.Thumb
import ArmBlocks.Bus
import ArmBlocks.Config

/-!
# Decoding a run of instructions

A run is what a block is made of: instructions at consecutive addresses, fetched and decoded one
after the other. It ends after an instruction that nothing can follow, where the next instruction
would start a page or cannot be fetched, or when it is long enough. A run that cannot even start
is empty.

Fetching goes through the bus like any other access (the host may notice it), but takes no time
and does not align: the address is the program counter's business.
-/

set_option autoImplicit false

namespace ArmBlocks

namespace Decode

variable {σ : Type}

/-- Fetches and decodes the instruction at an address. -/
def fetch (bus : Bus σ) (cpu : Cpu) (thumb : Bool) (addr : Word) (host : σ) :
    Option Instruction × σ :=
  if thumb then
    let (raw, host) := bus.get host cpu .half addr
    (raw.map fun raw => Thumb.decode cpu addr (raw.setWidth 16), host)
  else
    let (raw, host) := bus.get host cpu .word addr
    (raw.map (Arm.decode cpu addr), host)

/-- At most `limit` instructions from an address up. -/
def instructions (bus : Bus σ) (cpu : Cpu) (thumb : Bool) :
    Nat → Word → σ → List Instruction × σ
  | 0, _, host => ([], host)
  | limit + 1, addr, host =>
    match fetch bus cpu thumb addr host with
    | (none, host) => ([], host)
    | (some i, host) =>
      if i.endsRun || Address.startsPage i.next then ([i], host)
      else
        let (rest, host) := instructions bus cpu thumb limit i.next host
        (i :: rest, host)

/-- The run that starts at an address, of at most `limit` instructions and never more than a block
can hold. -/
def run (bus : Bus σ) (cpu : Cpu) (start : Word) (thumb : Bool) (limit : Nat) (host : σ) :
    List Instruction × σ :=
  instructions bus cpu thumb (min limit Config.maxBlock) start host

end Decode

end ArmBlocks
