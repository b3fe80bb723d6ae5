import Std.Data.TreeMap
import ArmBlocks.Arena.Basic
import ArmBlocks.Bus
import ArmBlocks.Notice

/-!
# The slot table

To find a block by the address of its first instruction, every halfword of executable memory has a
*slot*. Mirrors of one piece of memory share their slots, so the table must know the layout.

* **With code regions** a page table covers the low 256 MiB in pages of 16 KiB. The entry of a page
  is the slot of its first halfword; a page without memory has none. Slots are numbered region
  after region, as many for each as its backing memory has halfwords, and start above one page's
  worth that is never used.
* **Without regions** the table is flat: half of the address modulo 128 MiB.

Only slots that hold something are stored. The numbering is what the rest of the engine relies on:
it is dense inside a page, so the code of a block is an interval of slots.
-/

set_option autoImplicit false

namespace ArmBlocks

/-- What is known about an address. -/
inductive SlotEntry where
  /-- A block was compiled; its header is good while the arena is in that generation. -/
  | compiled (header : Ref) (generation : Word)
  /-- The code changes too often to be compiled. -/
  | interpret
  deriving DecidableEq, Repr

/-- Whether an entry names a block. -/
def SlotEntry.isCompiled : SlotEntry → Bool
  | .compiled .. => true
  | .interpret => false

/-- How addresses are numbered. -/
inductive SlotLayout where
  /-- By page: the first slot of each page that has memory; and the number of slots. -/
  | regions (pages : Std.TreeMap Nat Nat) (size : Nat)
  /-- Without regard to what is mapped. -/
  | flat

/-- Slots in a page, one for each halfword. -/
def pageSlots : Nat := 0x2000

/-- The part of the address space that regions lie in; what is above repeats it. -/
def regionSpace : Nat := 0x10000000

/-- The part of the address space that a flat table covers; what is above repeats it. -/
def flatSpace : Nat := 0x08000000

namespace CodeRegion

/-- Whether the region starts and ends with a page, is not empty, lies in the low 256 MiB and is
backed by a power of two of at least a page. -/
def valid (r : CodeRegion) : Bool :=
  let bounds := Address.startsPage r.first && Address.startsPage r.last &&
    r.first.toNat < r.last.toNat && r.last.toNat ≤ regionSpace
  let mirror := r.mirror &&& (r.mirror - 1) == 0 && r.mirror != 0 && Address.page ≤ r.mirror.toNat
  bounds && mirror

/-- The first slot of a page of the region, whose own slots start at `base`. -/
def pageEntry (r : CodeRegion) (base page : Nat) : Nat :=
  base + page * Address.page % r.mirror.toNat / 2

/-- The pages of the region. -/
def pages (r : CodeRegion) : List Nat :=
  let start := r.first.toNat / Address.page
  List.range' start (r.last.toNat / Address.page - start)

end CodeRegion

namespace SlotLayout

/-- Enters the pages of a region, whose own slots start at `base`. -/
def enterRegion (pages : Std.TreeMap Nat Nat) (r : CodeRegion) (base : Nat) : Std.TreeMap Nat Nat :=
  r.pages.foldl (fun pages page => pages.insert page (r.pageEntry base page)) pages

/-- Adds regions one by one; a later one takes pages over from an earlier one. -/
def addRegions :
    List CodeRegion → Std.TreeMap Nat Nat → Nat →
      Except EngineError (Std.TreeMap Nat Nat × Nat)
  | [], pages, size => .ok (pages, size)
  | r :: rest, pages, size =>
    if r.valid then addRegions rest (enterRegion pages r size) (size + r.mirror.toNat / 2)
    else .error (.invalidRegion r.first r.last)

/-- The layout of some regions; the first bad one is refused. -/
def ofRegions (regions : List CodeRegion) : Except EngineError SlotLayout :=
  if regions.isEmpty then .ok .flat
  else (addRegions regions ∅ pageSlots).map fun (pages, size) => .regions pages size

/-- The page of an address in the page table. -/
def pageOf (addr : Word) : Nat := addr.toNat % regionSpace / Address.page

/-- The slot of an address, if it lies in executable memory. -/
def slot? : SlotLayout → Word → Option Nat
  | .regions pages _, addr =>
    (pages[pageOf addr]?).map fun entry => entry + addr.toNat % Address.page / 2
  | .flat, addr => some (addr.toNat % flatSpace / 2)

/-- The number of slots. -/
def size : SlotLayout → Nat
  | .regions _ size => size
  | .flat => flatSpace / 2

end SlotLayout

/-- Blocks by slot. -/
structure SlotTable where
  layout : SlotLayout
  slots : Std.TreeMap Nat SlotEntry

namespace SlotTable

/-- An empty table for some regions. -/
def ofRegions (regions : List CodeRegion) : Except EngineError SlotTable :=
  (SlotLayout.ofRegions regions).map fun layout => { layout, slots := ∅ }

/-- The slot of an address. -/
def slot? (t : SlotTable) (addr : Word) : Option Nat := t.layout.slot? addr

/-- Whether an address lies in executable memory. -/
def isMapped (t : SlotTable) (addr : Word) : Bool := (t.slot? addr).isSome

/-- What is known about an address. -/
def lookup (t : SlotTable) (addr : Word) : Option SlotEntry :=
  (t.slot? addr).bind fun slot => t.slots[slot]?

/-- Puts a block at an address. Where there is no slot nothing happens but a notice, and the
answer is false. -/
def install (t : SlotTable) (addr : Word) (block : SlotEntry) : Bool × SlotTable × List Notice :=
  match t.slot? addr with
  | some slot => (true, { t with slots := t.slots.insert slot block }, [])
  | none => (false, t, [.unmappedSlot addr])

/-- Clears the slot of an address and answers what it held. -/
def invalidate (t : SlotTable) (addr : Word) : Option SlotEntry × SlotTable :=
  match t.slot? addr with
  | some slot =>
    match t.slots[slot]? with
    | some block => (some block, { t with slots := t.slots.erase slot })
    | none => (none, t)
  | none => (none, t)

/-- Clears every slot. -/
def reset (t : SlotTable) : SlotTable := { t with slots := ∅ }

/-! ## What the operations do to a lookup -/

@[simp] theorem lookup_reset (t : SlotTable) (addr : Word) : t.reset.lookup addr = none := by
  simp [lookup, reset, slot?]

end SlotTable

end ArmBlocks
