import ArmBlocks.Machine.Basic
import ArmBlocks.Op.Basic

/-!
# Multiplication, leading zeros and saturating sums

These touch nothing but the processor, so each is a function from one `CpuState` to the next. Only
the time of a multiplication depends on the data: the multiplier is worked off byte by byte, and
the array stops as soon as what is left of it is nothing but sign.
-/

set_option autoImplicit false

namespace ArmBlocks

namespace Multiplier

/-- The time the multiplier array takes for a multiplier. -/
def cycles (x : Word) (signed : Bool) : Nat :=
  let x := if signed && x.msb then ~~~x else x
  if x.toNat ≤ 0xFF then 1
  else if x.toNat ≤ 0xFFFF then 2
  else if x.toNat ≤ 0xFFFFFF then 3
  else 4

/-- The upper or lower half of a word as a signed number. -/
def half (x : Word) (top : Bool) : Word :=
  (if top then x.extractLsb' 16 16 else x.extractLsb' 0 16).signExtend 32

/-- The upper word of a signed product, sixteen bits down. -/
def wordByHalf (x y : Word) : Word :=
  (((x.signExtend 64) * (y.signExtend 64)).sshiftRight 16).setWidth 32

/-- Two words as one number, the high one first. -/
def join (high low : Word) : BitVec 64 := high ++ low

/-- The high word of a number. -/
def high (x : BitVec 64) : Word := x.extractLsb' 32 32

/-- The low word of a number. -/
def low (x : BitVec 64) : Word := x.extractLsb' 0 32

end Multiplier

namespace MulOp

/-- Whether the multiplier is taken as a signed number. -/
def isSigned : MulOp → Bool
  | .umull | .umlal => false
  | _ => true

end MulOp

namespace CpuState

open Multiplier

/-- Multiplies. The 64-bit forms write the low word first, so that with equal destinations the
high word stays. -/
def multiply (s : CpuState) (pc : Word) (op : MulOp) (set : Bool) (rd rn rs rm : Reg) : CpuState :=
  let x := s.read pc rm
  let y := s.read pc rs
  if op.isLong then
    let product :=
      if op.isSigned then x.signExtend 64 * y.signExtend 64 else x.setWidth 64 * y.setWidth 64
    let sum := if op.accumulates then product + join (s.read pc rd) (s.read pc rn) else product
    let s := (s.write rn (low sum)).write rd (high sum)
    if set then (s.setFlag .neg sum.msb).setFlag .zero (sum == 0) else s
  else
    let sum := if op.accumulates then x * y + s.read pc rn else x * y
    let s := s.write rd sum
    if set then s.setNz sum else s

/-- Adds a signed product, marking an overflow. -/
def accumulate (s : CpuState) (rd : Reg) (product acc : Word) : CpuState :=
  let s := if product.saddOverflow acc then s.setFlag .clamped true else s
  s.write rd (product + acc)

/-- Multiplies halfwords. -/
def multiplyHalves (s : CpuState) (pc : Word) (op : HalfMulOp) (rd rn rs rm : Reg)
    (xTop yTop : Bool) : CpuState :=
  let x := half (s.read pc rm) xTop
  let y := half (s.read pc rs) yTop
  match op with
  | .smla => s.accumulate rd (x * y) (s.read pc rn)
  | .smlaw => s.accumulate rd (wordByHalf (s.read pc rm) y) (s.read pc rn)
  | .smulw => s.write rd (wordByHalf (s.read pc rm) y)
  | .smlal =>
    let sum := join (s.read pc rd) (s.read pc rn) + (x * y).signExtend 64
    (s.write rn (low sum)).write rd (high sum)
  | .smul => s.write rd (x * y)

/-- Counts leading zeros. -/
def countZeros (s : CpuState) (pc : Word) (rd rm : Reg) : CpuState :=
  s.write rd (s.read pc rm).clz

/-- Adds or subtracts with saturation, the second operand doubled with saturation if asked for. -/
def saturate (s : CpuState) (pc : Word) (op : SatOp) (rd rn rm : Reg) : CpuState :=
  let x := s.read pc rm
  let y := s.read pc rn
  let (y, clamped) := if op.doubles then Saturating.add y y else (y, false)
  let (result, clampedToo) := if op.subtracts then Saturating.sub x y else Saturating.add x y
  let s := if clamped || clampedToo then s.setFlag .clamped true else s
  s.write rd result

end CpuState

end ArmBlocks
