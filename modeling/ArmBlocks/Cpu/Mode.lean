import ArmBlocks.Word.Bits

/-!
# Processor modes

The low five bits of the status register name the mode. Most patterns name none, so reading one is
partial (`ofBits?`) while writing one is not; who has to act on a pattern without a mode takes it
for User, and that choice is made where the status register is read.

Two modes may share a register bank. `bank` numbers the banks, and User and System are the only
pair with one number: that is all there is to System mode apart from its privilege.
-/

set_option autoImplicit false

namespace ArmBlocks

/-- The mode a processor runs in. -/
inductive Mode where
  | user
  | fiq
  | supervisor
  | abort
  | irq
  | undefined
  | system
  deriving DecidableEq, Repr, Inhabited

namespace Mode

/-- Every mode. -/
def all : List Mode := [.user, .fiq, .supervisor, .abort, .irq, .undefined, .system]

/-- The mode that the low five bits of a word name. -/
def ofBits? (word : Word) : Option Mode :=
  match word.setWidth 5 with
  | 0b10000 => some .user
  | 0b10001 => some .fiq
  | 0b10010 => some .irq
  | 0b10011 => some .supervisor
  | 0b10111 => some .abort
  | 0b11011 => some .undefined
  | 0b11111 => some .system
  | _ => none

/-- The five bits of a mode. -/
def bits : Mode → Word
  | .user => 0b10000
  | .fiq => 0b10001
  | .irq => 0b10010
  | .supervisor => 0b10011
  | .abort => 0b10111
  | .undefined => 0b11011
  | .system => 0b11111

/-- The bank that holds the mode's stack pointer, link register and saved status. -/
def bank : Mode → Fin 6
  | .user => 0
  | .system => 0
  | .fiq => 1
  | .supervisor => 2
  | .abort => 3
  | .irq => 4
  | .undefined => 5

/-- Whether the mode saves a status register of its own. -/
def hasSaved : Mode → Bool
  | .user => false
  | .system => false
  | _ => true

/-- The name of the mode. -/
def text : Mode → String
  | .user => "User"
  | .fiq => "Fiq"
  | .supervisor => "Supervisor"
  | .abort => "Abort"
  | .irq => "Irq"
  | .undefined => "Undefined"
  | .system => "System"

theorem ofBits?_bits (m : Mode) : ofBits? m.bits = some m := by
  cases m <;> rfl

end Mode

end ArmBlocks
