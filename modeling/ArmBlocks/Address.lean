import ArmBlocks.Word.Hex

/-!
# Guest addresses

An address is a word. What makes it an address is alignment, the 16 KiB page it lies in (a block
never crosses one) and the way notices write it.
-/

set_option autoImplicit false

namespace ArmBlocks

namespace Address

/-- Bytes in a page. A run of instructions ends at the first one that would start a page. -/
def page : Nat := 0x4000

/-- The largest multiple of `width`, a power of two, that is not above the address. -/
def align (addr width : Word) : Word := addr &&& -width

/-- Whether the address starts a page. -/
def startsPage (addr : Word) : Bool := addr.toNat % page == 0

/-- The way notices write an address. -/
def text (addr : Word) : String := "$0x" ++ addr.hex

end Address

end ArmBlocks
