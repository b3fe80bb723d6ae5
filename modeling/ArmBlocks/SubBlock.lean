import ArmBlocks.Instruction

/-!
# Sub-blocks

Consecutive instructions with the same condition share one check of it. That is sound as long as
none of them changes the flags, so a conditional instruction that writes flags is the last of its
sub-block. Unconditional instructions need no check and are never split.
-/

set_option autoImplicit false

namespace ArmBlocks

/-- A group of consecutive instructions with one condition. -/
structure SubBlock where
  first : Instruction
  rest : List Instruction
  deriving DecidableEq, Repr

namespace SubBlock

/-- The instructions, in order. -/
def instructions (b : SubBlock) : List Instruction := b.first :: b.rest

/-- The condition they share. -/
def cond (b : SubBlock) : Condition := b.first.cond

/-- The number of instructions. -/
def size (b : SubBlock) : Nat := b.rest.length + 1

/-- Whether the condition has to be looked at again after an instruction. -/
def splitsAfter (i : Instruction) : Bool := !i.isUnconditional && !i.flagsWritten.isEmpty

/-- The run cut into sub-blocks. -/
def partition : List Instruction → List SubBlock
  | [] => []
  | i :: rest =>
    match partition rest with
    | b :: bs =>
      if b.cond = i.cond ∧ splitsAfter i = false then ⟨i, b.instructions⟩ :: bs
      else ⟨i, []⟩ :: b :: bs
    | [] => [⟨i, []⟩]

/-- Nothing is lost or moved by cutting a run. -/
theorem flatMap_instructions_partition (run : List Instruction) :
    (partition run).flatMap instructions = run := by
  induction run with
  | nil => rfl
  | cons i rest ih =>
    rw [partition]
    split
    · rename_i b bs h
      rw [h] at ih
      split
      · simpa [instructions] using ih
      · simpa [instructions] using ih
    · rename_i h
      rw [h] at ih
      simpa [instructions] using ih

end SubBlock

end ArmBlocks
