import ArmBlocks.Word.Bits

/-!
# Words in hexadecimal

Notices and error texts show addresses as eight upper-case digits. There is one function for the
digits and each text puts its own mark (`$0x`, `0x`) in front.
-/

set_option autoImplicit false

namespace ArmBlocks

/-- The eight upper-case hexadecimal digits of a word, the highest first. -/
def Word.hex (x : Word) : String :=
  String.ofList <| (List.range 8).reverse.map fun i =>
    (Nat.digitChar ((x.toNat >>> (4 * i)) % 16)).toUpper

end ArmBlocks
