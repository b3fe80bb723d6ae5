import ArmBlocks.Cpu.Flag

/-!
# Condition codes

The top four bits of an ARM instruction, and a field of the THUMB conditional branch. Each code
and its successor are opposites, except the last pair: `always` holds and `never` does not,
whatever the flags are. Version 5 gives the `never` space a meaning of its own, but its decoder
does so, and what it decodes there is unconditional.
-/

set_option autoImplicit false

namespace ArmBlocks

/-- When an instruction is executed. -/
inductive Condition where
  | equal
  | notEqual
  | carrySet
  | carryClear
  | minus
  | plus
  | overflowSet
  | overflowClear
  /-- Unsigned greater. -/
  | higher
  /-- Unsigned less or the same. -/
  | lowerOrSame
  | greaterOrEqual
  | less
  | greater
  | lessOrEqual
  | always
  | never
  deriving DecidableEq, Repr, Inhabited

namespace Condition

/-- The condition a four-bit field encodes. -/
def ofBits (bits : BitVec 4) : Condition :=
  match bits with
  | 0 => .equal
  | 1 => .notEqual
  | 2 => .carrySet
  | 3 => .carryClear
  | 4 => .minus
  | 5 => .plus
  | 6 => .overflowSet
  | 7 => .overflowClear
  | 8 => .higher
  | 9 => .lowerOrSame
  | 10 => .greaterOrEqual
  | 11 => .less
  | 12 => .greater
  | 13 => .lessOrEqual
  | 14 => .always
  | _ => .never

/-- The four-bit field of a condition. -/
def bits : Condition → BitVec 4
  | .equal => 0
  | .notEqual => 1
  | .carrySet => 2
  | .carryClear => 3
  | .minus => 4
  | .plus => 5
  | .overflowSet => 6
  | .overflowClear => 7
  | .higher => 8
  | .lowerOrSame => 9
  | .greaterOrEqual => 10
  | .less => 11
  | .greater => 12
  | .lessOrEqual => 13
  | .always => 14
  | .never => 15

/-- Whether the condition holds under the four condition flags. -/
def holds (cond : Condition) (n z c v : Bool) : Bool :=
  match cond with
  | .equal => z
  | .notEqual => !z
  | .carrySet => c
  | .carryClear => !c
  | .minus => n
  | .plus => !n
  | .overflowSet => v
  | .overflowClear => !v
  | .higher => c && !z
  | .lowerOrSame => !(c && !z)
  | .greaterOrEqual => n == v
  | .less => !(n == v)
  | .greater => !z && n == v
  | .lessOrEqual => !(!z && n == v)
  | .always => true
  | .never => false

/-- The flags the condition looks at. -/
def reads : Condition → FlagSet
  | .equal | .notEqual => ⟨false, true, false, false⟩
  | .carrySet | .carryClear => ⟨false, false, true, false⟩
  | .minus | .plus => ⟨true, false, false, false⟩
  | .overflowSet | .overflowClear => ⟨false, false, false, true⟩
  | .higher | .lowerOrSame => ⟨false, true, true, false⟩
  | .greaterOrEqual | .less => ⟨true, false, false, true⟩
  | .greater | .lessOrEqual => ⟨true, true, false, true⟩
  | .always | .never => .empty

/-- Every condition, in the order of its field. -/
def all : List Condition :=
  (List.range 16).map fun i => ofBits (BitVec.ofNat 4 i)

theorem ofBits_bits (cond : Condition) : ofBits cond.bits = cond := by
  cases cond <;> rfl

end Condition

end ArmBlocks
