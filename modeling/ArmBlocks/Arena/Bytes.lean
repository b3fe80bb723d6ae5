import ArmBlocks.Arena.Basic
import ArmBlocks.Bus

/-!
# An arena of bytes

The same bump allocator with one byte in a cell. A record is the list of its bytes here, so records of
different sizes may overlay each other, which an arena of whole records cannot express. Numbers of the
three access widths are records in little-endian order.

Free space holds a poison byte. It is never written: a byte that nobody wrote since the last reset
simply reads as poison.
-/

set_option autoImplicit false

namespace ArmBlocks

/-- The bytes of a number, the lowest first. -/
def Width.toBytes (w : Width) (x : Word) : List (BitVec 8) :=
  (List.range w.bytes).map fun i => x.extractLsb' (8 * i) 8

/-- The number that bytes make up, the lowest first. -/
def Width.ofBytes : List (BitVec 8) → Word
  | [] => 0
  | b :: bs => (ofBytes bs <<< 8) ||| b.setWidth 32

namespace Arena

/-- What free space reads as. -/
def poison : BitVec 8 := 0xFD

/-- The byte at an offset. -/
def byte (a : Arena (BitVec 8)) (offset : Nat) : BitVec 8 := (a.cell? offset).getD poison

/-- Writes bytes from an offset up. -/
def setBytes (a : Arena (BitVec 8)) (offset : Nat) : List (BitVec 8) → Arena (BitVec 8)
  | [] => a
  | b :: bs => (a.setCell offset b).setBytes (offset + 1) bs

/-- Reads `count` bytes from an offset up. -/
def bytes (a : Arena (BitVec 8)) (offset count : Nat) : List (BitVec 8) :=
  (List.range count).map fun i => a.byte (offset + i)

/-! ## Records -/

/-- The record at index `i` of an array of records of `size` bytes. -/
def getRecord (a : Arena (BitVec 8)) (size : Nat) (ref : Ref) (i : Nat) : List (BitVec 8) :=
  a.bytes (position ref size i) size

/-- Writes the record at index `i` of an array of records of its size. -/
def setRecord (a : Arena (BitVec 8)) (ref : Ref) (i : Nat) (record : List (BitVec 8)) :
    Arena (BitVec 8) :=
  a.setBytes (position ref record.length i) record

/-- Allocates and writes a record. -/
def putRecord (a : Arena (BitVec 8)) (record : List (BitVec 8)) : Option Ref × Arena (BitVec 8) :=
  match a.allocAligned record.length with
  | (some ref, a) => (some ref, a.setRecord ref 0 record)
  | (none, a) => (none, a)

/-- Allocates an array of `count` equal records. -/
def putRecords (a : Arena (BitVec 8)) (count : Nat) (fill : List (BitVec 8)) :
    Option Ref × Arena (BitVec 8) :=
  match a.allocAligned (fill.length * count) with
  | (some ref, a) => (some ref, (List.range count).foldl (fun a i => a.setRecord ref i fill) a)
  | (none, a) => (none, a)

/-! ## Numbers -/

/-- The number at index `i` of an array. -/
def getNumber (a : Arena (BitVec 8)) (w : Width) (ref : Ref) (i : Nat) : Word :=
  Width.ofBytes (a.getRecord w.bytes ref i)

/-- Writes the number at index `i` of an array. -/
def setNumber (a : Arena (BitVec 8)) (w : Width) (ref : Ref) (i : Nat) (x : Word) :
    Arena (BitVec 8) :=
  a.setRecord ref i (w.toBytes x)

/-- Allocates and writes a number. -/
def putNumber (a : Arena (BitVec 8)) (w : Width) (x : Word) : Option Ref × Arena (BitVec 8) :=
  a.putRecord (w.toBytes x)

/-- Allocates an array of `count` equal numbers. -/
def putNumbers (a : Arena (BitVec 8)) (w : Width) (count : Nat) (x : Word) :
    Option Ref × Arena (BitVec 8) :=
  a.putRecords count (w.toBytes x)

end Arena

end ArmBlocks
