/-!
# Words and the bits inside them

Everything the machine holds is a machine word, and everything the decoders do is cutting words
into fields. `Word` is the 32-bit one; the functions below work at any width, because the same
questions are asked of bytes, halfwords and doublewords.

**Reading outside of a value is not an error.** A bit past the top is clear, and a slice that
reaches past the top has zeros there. That is what lets a decoder ask for a field before it knows
how wide the instruction is, and it is why `slice` cuts its mask at the width instead of shifting
by whatever it was given.
-/

set_option autoImplicit false

namespace ArmBlocks

/-- A 32-bit machine word: a register, an address, an ARM instruction. -/
abbrev Word := BitVec 32

/-- A THUMB instruction, or the halfword a 16-bit access moves. -/
abbrev Halfword := BitVec 16

/-- The number of one of the sixteen visible registers. -/
abbrev Reg := BitVec 4

namespace Reg

/-- The program counter. -/
def pc : Reg := 15

/-- The link register. -/
def lr : Reg := 14

/-- The stack pointer. -/
def sp : Reg := 13

end Reg

namespace Bits

variable {w : Nat}

/-- Whether bit `i` is set; a bit outside of the value is clear. -/
def test (x : BitVec w) (i : Nat) : Bool := x.getLsbD i

/-- The value with bit `i` forced to `b`. -/
def put (x : BitVec w) (i : Nat) (b : Bool) : BitVec w :=
  if b then x ||| (1#w <<< i) else x &&& ~~~(1#w <<< i)

/-- The `len` bits from `start` up, moved to the bottom. Bits outside of the value read as zero,
and a length past the width asks for all of them. -/
def slice (x : BitVec w) (start len : Nat) : BitVec w :=
  if len < w then (x >>> start) &&& BitVec.ofNat w (Nat.pow 2 len - 1) else x >>> start

theorem test_put (x : BitVec w) {i : Nat} (j : Nat) (b : Bool) (h : i < w) :
    test (put x i b) j = if i = j then b else test x j := by
  have one : (1#w <<< i).getLsbD j = decide (i = j) := by
    rw [BitVec.getLsbD_shiftLeft, BitVec.getLsbD_one]
    by_cases same : i = j
    · subst same
      simp only [h, Nat.lt_irrefl, Nat.sub_self, decide_true, decide_false, Bool.not_false,
        Bool.and_true, Bool.true_and]
      exact decide_eq_true (by omega)
    · simp [same]
      omega
  cases b with
  | true =>
    simp only [test, put, if_true, BitVec.getLsbD_or, one]
    by_cases same : i = j <;> simp [same]
  | false =>
    simp only [test, put, Bool.false_eq_true, if_false, BitVec.getLsbD_and, BitVec.getLsbD_not, one]
    by_cases same : i = j
    · simp [same]
    · by_cases inside : j < w
      · simp [same, inside]
      · simp [BitVec.getLsbD_of_ge x j (by omega)]

/-- The low byte of a halfword. -/
def low (x : Halfword) : BitVec 8 := x.setWidth 8

/-- The low 11 bits of a halfword as a signed number. -/
def signed11 (x : Halfword) : Halfword := (x.setWidth 11).signExtend 16

/-- The low 24 bits of a word as a signed number. -/
def signed24 (x : Word) : Word := (x.setWidth 24).signExtend 32

end Bits

/-- The numeric value of a truth value, for sums that take a carry in. -/
def Word.ofBool (b : Bool) : Word := if b then 1 else 0

end ArmBlocks
