import Std.Data.TreeMap
import ArmBlocks.Error

/-!
# The arena

A code cache lives in one stretch of reserved memory that is handed out front to back and given
back all at once. `Arena α` is that stretch with cells of type `α` at byte offsets: the engine
keeps its records in one, and `ArmBlocks.Arena.Bytes` keeps plain bytes in another.

Whether there is memory for an arena is up to the host, and what it answers is a parameter of every
reservation. Nothing here relies on it.

Three rules carry the weight.

* **An allocation that would fill the arena to the last byte fails already.** The arena is full
  at `used + size = capacity`, not one byte later.
* **Aligned allocations pay for their padding in advance.** `alignment - 1` extra bytes are taken
  and the offset is rounded up afterwards, so consecutive allocations of aligned records never
  share a byte whatever came before them.
* **An offset is a word.** It is narrowed when a reference is made, so references are only
  distinct in an arena of at most 2³² bytes.

A reset forgets every cell and starts a new generation; a reference says nothing about the
generation it was made in, so whoever keeps one keeps the generation beside it.
-/

set_option autoImplicit false

namespace ArmBlocks

/-- A reference to a record in an arena: the offset it starts at. -/
structure Ref where
  offset : Word
  deriving DecidableEq, Repr, Inhabited

/-- A bump allocator over cells at byte offsets. -/
structure Arena (α : Type) where
  /-- Bytes reserved. -/
  capacity : Nat
  /-- Bytes handed out since the last reset. -/
  used : Nat
  /-- Resets so far, as a word. -/
  generation : Word
  /-- What was written since the last reset, by offset. -/
  cells : Std.TreeMap Nat α

namespace Arena

variable {α : Type}

/-- Records start at multiples of this many bytes. -/
def alignment : Nat := 32

/-- What a host grants that has memory enough for everything but the absurd. -/
def usual (bytes : Nat) : Bool := bytes < 0x4000000000000000

/-- An arena of the given size, if the host grants so many bytes. -/
def reserve (capacity : Nat) (grants : Nat → Bool := usual) : Except EngineError (Arena α) :=
  if grants capacity then
    .ok { capacity, used := 0, generation := 0, cells := ∅ }
  else .error (.reserve capacity)

/-- Space left, in bytes. -/
def remaining (a : Arena α) : Nat := a.capacity - a.used

/-- Takes `size` bytes and answers where they start; nothing is taken if the arena would be full. -/
def alloc (a : Arena α) (size : Nat) : Option Nat × Arena α :=
  if a.used + size < a.capacity then (some a.used, { a with used := a.used + size }) else (none, a)

/-- The least multiple of the alignment that is not below an offset. -/
def roundUp (offset : Nat) : Nat := (offset + (alignment - 1)) / alignment * alignment

/-- Takes `size` bytes that start at a multiple of the alignment. -/
def allocAligned (a : Arena α) (size : Nat) : Option Ref × Arena α :=
  match a.alloc (size + (alignment - 1)) with
  | (some offset, a) => (some ⟨BitVec.ofNat 32 (roundUp offset)⟩, a)
  | (none, a) => (none, a)

/-- The cell at an offset, if one was written since the last reset. -/
def cell? (a : Arena α) (offset : Nat) : Option α := a.cells[offset]?

/-- The arena with a cell written. -/
def setCell (a : Arena α) (offset : Nat) (x : α) : Arena α :=
  { a with cells := a.cells.insert offset x }

/-- Forgets everything and starts a new generation. -/
def reset (a : Arena α) : Arena α :=
  { a with used := 0, generation := a.generation + 1, cells := ∅ }

/-! ## Arrays of records

A record of `size` bytes occupies one cell, at its first byte; record `i` of an array starts
`i * size` bytes after the first. -/

/-- The offset of a record in an array. -/
def position (ref : Ref) (size i : Nat) : Nat := ref.offset.toNat + i * size

/-- The record at index `i` of an array of records of `size` bytes. -/
def get? (a : Arena α) (ref : Ref) (size i : Nat) : Option α := a.cell? (position ref size i)

/-- Writes the record at index `i` of an array of records of `size` bytes. -/
def write (a : Arena α) (ref : Ref) (size i : Nat) (x : α) : Arena α :=
  a.setCell (position ref size i) x

/-- Allocates and writes one record. -/
def put (a : Arena α) (size : Nat) (x : α) : Option Ref × Arena α :=
  match a.allocAligned size with
  | (some ref, a) => (some ref, a.write ref size 0 x)
  | (none, a) => (none, a)

/-- Writes records to an array from index `i` on. -/
def writeList (a : Arena α) (ref : Ref) (size : Nat) : Nat → List α → Arena α
  | _, [] => a
  | i, x :: xs => (a.write ref size i x).writeList ref size (i + 1) xs

/-- Allocates an array of `count` records, all written with `fill`. -/
def putArray (a : Arena α) (size count : Nat) (fill : α) : Option Ref × Arena α :=
  match a.allocAligned (size * count) with
  | (some ref, a) => (some ref, a.writeList ref size 0 (List.replicate count fill))
  | (none, a) => (none, a)

/-! ## What the operations do to the cells -/

theorem cell?_setCell (a : Arena α) (offset other : Nat) (x : α) :
    (a.setCell offset x).cell? other = if offset = other then some x else a.cell? other := by
  simp [cell?, setCell, Std.TreeMap.getElem?_insert]

@[simp] theorem cell?_reset (a : Arena α) (offset : Nat) : a.reset.cell? offset = none := by
  simp [cell?, reset]

@[simp] theorem used_setCell (a : Arena α) (offset : Nat) (x : α) :
    (a.setCell offset x).used = a.used := rfl

@[simp] theorem used_write (a : Arena α) (ref : Ref) (size i : Nat) (x : α) :
    (a.write ref size i x).used = a.used := rfl

theorem alloc_of_lt {a : Arena α} {size : Nat} (h : a.used + size < a.capacity) :
    a.alloc size = (some a.used, { a with used := a.used + size }) := by
  simp [alloc, h]

theorem alloc_of_le {a : Arena α} {size : Nat} (h : a.capacity ≤ a.used + size) :
    a.alloc size = (none, a) := by
  simp [alloc, Nat.not_lt.mpr h]

end Arena

end ArmBlocks
