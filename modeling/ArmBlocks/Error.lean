import ArmBlocks.Cpu.Model
import ArmBlocks.Word.Hex

/-!
# What an engine can refuse

Faults of the guest are never reported here; the guest gets an exception for them. These are the
embedder's: memory the host did not grant, a bad description of executable memory, use outside of
the engine's life, and a processor that ran into memory that is not there.
-/

set_option autoImplicit false

namespace ArmBlocks

/-- Why an engine refused. -/
inductive EngineError where
  /-- The host did not grant that many bytes. -/
  | reserve (bytes : Nat)
  /-- A code region is misaligned or has a bad mirror size. -/
  | invalidRegion (first last : Word)
  /-- The engine holds no code cache. -/
  | notInitialized
  /-- The next instruction of the processor cannot be fetched. -/
  | unmappedCode (cpu : Cpu) (addr : Word)
  deriving DecidableEq, Repr

namespace EngineError

/-- The text shown for an error. -/
def message : EngineError → String
  | .reserve bytes => "could not reserve " ++ toString bytes ++ " bytes for the code cache"
  | .invalidRegion first last =>
    "code region 0x" ++ first.hex ++ "..0x" ++ last.hex ++
      " is not 16KiB aligned or has a bad mirror size"
  | .notInitialized => "engine was used before init or after shutdown"
  | .unmappedCode cpu addr => cpu.text ++ " tried to execute unmapped memory at 0x" ++ addr.hex

end EngineError

end ArmBlocks
