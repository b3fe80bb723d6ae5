import ArmBlocks.Word.Bits

/-!
# Bit patterns and decoding tables

An instruction set is described by a list of rows, each saying which bits of a short key matter,
what they must be, and which form of instruction that is. Rows overlap on purpose: a special
encoding stands before the general one it was carved out of, and **the first row that accepts the
key decides**. A row may be reserved for version 5 of the architecture; for version 4 it is simply
not there, so the key falls through to whatever comes after.

Separating the table from the meaning of a form keeps both readable. It also means that two
versions can only differ where a reserved row accepts a key.
-/

set_option autoImplicit false

namespace ArmBlocks

/-- A pattern for words of a fixed width. -/
structure Pattern (w : Nat) where
  /-- The bits that matter. -/
  care : BitVec w
  /-- What those bits must be; the others are clear. -/
  value : BitVec w
  deriving DecidableEq, Repr

namespace Pattern

variable {w : Nat}

/-- Whether a word has the required bits. -/
def accepts (p : Pattern w) (x : BitVec w) : Bool := x &&& p.care == p.value

end Pattern

/-- One row of a decoding table with forms in `α`. -/
structure Row (w : Nat) (α : Type) where
  pattern : Pattern w
  form : α
  /-- Whether the row exists in version 5 alone. -/
  v5Only : Bool := false

namespace Row

variable {w : Nat} {α : Type}

/-- Whether the row is there and accepts a key. -/
def applies (v5 : Bool) (key : BitVec w) (row : Row w α) : Bool :=
  (v5 || !row.v5Only) && row.pattern.accepts key

/-- The form of the first row that accepts a key. -/
def classify (rows : List (Row w α)) (otherwise : α) (v5 : Bool) (key : BitVec w) : α :=
  match rows.find? (applies v5 key) with
  | some row => row.form
  | none => otherwise

end Row

/-- A row of both versions. -/
def row {w : Nat} {α : Type} (care value : BitVec w) (form : α) : Row w α :=
  ⟨⟨care, value⟩, form, false⟩

/-- A row of version 5. -/
def row5 {w : Nat} {α : Type} (care value : BitVec w) (form : α) : Row w α :=
  ⟨⟨care, value⟩, form, true⟩

end ArmBlocks
