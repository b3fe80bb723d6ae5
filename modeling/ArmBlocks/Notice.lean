import ArmBlocks.Cpu.Model
import ArmBlocks.Address

/-!
# Notices

An engine tells its embedder what it is doing in notices of five levels. A notice is a cause with
its data; the wording is one function on it, so that no operation has to know how its notice
reads.
-/

set_option autoImplicit false

namespace ArmBlocks

/-- How much a notice matters. -/
inductive Level where
  | error
  | warn
  | info
  | debug
  | trace
  deriving DecidableEq, Repr

/-- The name of a level. -/
def Level.text : Level → String
  | .error => "ERROR"
  | .warn => "WARN"
  | .info => "INFO"
  | .debug => "DEBUG"
  | .trace => "TRACE"

/-- What an engine calls itself. -/
def engineName : String := "Threaded code translator"

/-- Something an engine tells its embedder. -/
inductive Notice where
  /-- A configured block size was out of range. -/
  | blockSizeClamped (instructions : Nat)
  /-- The engine is ready, with that many MiB of code cache for each processor. -/
  | initialized (mebibytes : Nat)
  /-- The engine released its memory. -/
  | shutDown
  /-- A processor is about to execute. -/
  | executing (cpu : Cpu) (addr : Word)
  /-- A processor ran into memory that is not executable or not there. -/
  | unmapped (cpu : Cpu) (addr : Word)
  /-- Code changes too often to be worth compiling. -/
  | thrashing (cpu : Cpu) (addr : Word)
  /-- A code cache is reset because little of it is left. -/
  | cacheLow (cpu : Cpu) (bytes : Nat)
  /-- A code cache is reset because a block did not fit. -/
  | cacheExhausted (cpu : Cpu) (addr : Word)
  /-- A block was compiled. -/
  | compiled (cpu : Cpu) (addr : Word) (instructions used : Nat)
  /-- A block was dropped because its code may have changed. -/
  | invalidated (cpu : Cpu) (addr : Word)
  /-- A block has no slot to be found through. -/
  | unmappedSlot (addr : Word)
  /-- The guest executed a breakpoint. -/
  | breakpoint (cpu : Cpu) (addr : Word)
  deriving DecidableEq, Repr

namespace Notice

/-- How much the notice matters. -/
def level : Notice → Level
  | .blockSizeClamped .. | .unmappedSlot .. | .breakpoint .. => .warn
  | .initialized .. | .shutDown | .unmapped .. | .thrashing .. | .cacheLow ..
  | .cacheExhausted .. => .info
  | .compiled .. | .invalidated .. => .debug
  | .executing .. => .trace

/-- The wording of the notice. -/
def message : Notice → String
  | .blockSizeClamped n =>
    "Block size of " ++ toString n ++ " instructions is out of range, clamping"
  | .initialized mib =>
    engineName ++ " initialized with " ++ toString mib ++ " MiB of code cache per CPU"
  | .shutDown => engineName ++ " shut down"
  | .executing cpu addr => cpu.text ++ " executing at " ++ Address.text addr
  | .unmapped cpu addr =>
    cpu.text ++ " tried to execute unmapped code at " ++ Address.text addr ++ ", halting"
  | .thrashing cpu addr =>
    "Code at " ++ Address.text addr ++ " on " ++ cpu.text ++
      " keeps getting rewritten, interpreting it instead"
  | .cacheLow cpu bytes =>
    "Code cache of " ++ cpu.text ++ " is down to " ++ toString bytes ++ " bytes, resetting"
  | .cacheExhausted cpu addr =>
    "Code cache of " ++ cpu.text ++ " ran out while compiling " ++ Address.text addr ++
      ", resetting"
  | .compiled cpu addr n used =>
    "Compiled " ++ toString n ++ " instructions at " ++ Address.text addr ++ " on " ++ cpu.text ++
      ", " ++ toString used ++ " bytes of cache used"
  | .invalidated cpu addr => "Invalidated block at " ++ Address.text addr ++ " on " ++ cpu.text
  | .unmappedSlot addr => "Tried to install a block into unmapped " ++ Address.text addr
  | .breakpoint cpu addr => cpu.text ++ " hit a breakpoint at 0x" ++ addr.hex ++ ", ignoring"

/-- The notice as a line: its level and its wording. -/
def line (n : Notice) : String := n.level.text ++ " " ++ n.message

end Notice

end ArmBlocks
