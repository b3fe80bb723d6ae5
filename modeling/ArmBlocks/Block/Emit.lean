import ArmBlocks.Block.Step

/-!
# Emitting a block

The steps of a run get their places in an arena. The node array comes first, unfilled and of
exactly the right length; then the records follow, group by group, and the terminal one. When all
of them have a place the nodes are known and the array is filled in; the header is last.

Emission fails when the arena is full, and then the arena stays as far as it got: what was
allocated is gone until the next reset. `Emit` is therefore a state monad around an option, and
not the other way round.
-/

set_option autoImplicit false

namespace ArmBlocks

/-- Building a block in an arena; fails when the arena is full, and keeps the arena. -/
def Emit (α : Type) : Type := Arena Record → Option α × Arena Record

namespace Emit

variable {α β : Type}

instance : Monad Emit where
  pure x := fun arena => (some x, arena)
  bind x f := fun arena =>
    match x arena with
    | (some y, arena) => f y arena
    | (none, arena) => (none, arena)

/-- Allocates and writes a record. -/
def put (r : Record) : Emit Ref := fun arena => arena.put r.bytes r

/-- Allocates an array of unfilled nodes. -/
def putNodes (count : Nat) : Emit Ref :=
  fun arena => arena.putArray Record.nodeBytes count (.node .blank)

/-- Fills in an array of nodes. -/
def setNodes (nodes : Ref) (filled : List Node) : Emit Unit :=
  fun arena => (some (), arena.writeList nodes Record.nodeBytes 0 (filled.map .node))

@[simp] theorem pure_apply (x : α) (arena : Arena Record) :
    (pure x : Emit α) arena = (some x, arena) := rfl

theorem bind_apply (x : Emit α) (f : α → Emit β) (arena : Arena Record) :
    (x >>= f) arena =
      match x arena with
      | (some y, arena) => f y arena
      | (none, arena) => (none, arena) := rfl

end Emit

namespace Step

/-- Finds a place for the record of a step. -/
def place (s : Step) : Emit Node :=
  match s.record with
  | some r => do
    let data ← Emit.put r
    return ⟨s.kind, data, s.pc⟩
  | none => return ⟨s.kind, ⟨0⟩, s.pc⟩

/-- Finds places for the records of some steps, in their order. -/
def placeAll : List Step → Emit (List Node)
  | [] => return []
  | s :: rest => do
    let n ← s.place
    let nodes ← placeAll rest
    return n :: nodes

end Step

namespace StepGroup

/-- Finds places for the records of a group, that of its lead last. -/
def place (g : StepGroup) : Emit (List Node) := do
  let body ← Step.placeAll g.body
  match g.lead with
  | none => return body
  | some s => do
    let lead ← s.place
    return lead :: body

/-- Finds places for the records of some groups. -/
def placeAll : List StepGroup → Emit (List Node)
  | [] => return []
  | g :: rest => do
    let nodes ← g.place
    let more ← placeAll rest
    return nodes ++ more

end StepGroup

namespace Block

/-- Emits a run that starts with `first` and ends with `last`, answering where its header is. -/
def emitRun (run : List Instruction) (first last : Instruction) : Emit Ref := do
  let len := nodeCount run
  let nodes ← Emit.putNodes len
  let placed ← StepGroup.placeAll (groups 0 (SubBlock.partition run))
  let terminal ← (finishStep last).place
  Emit.setNodes nodes (placed ++ [terminal])
  Emit.put (.header
    { nodes, len := BitVec.ofNat 16 len, thumb := first.thumb, first := first.addr
      last := last.next })

/-- Emits a run into an arena, answering where its header is, or nothing if the arena is full. An
empty run makes no block and counts as not fitting. -/
def emit (run : List Instruction) (arena : Arena Record) : Option Ref × Arena Record :=
  match run.head?, run.getLast? with
  | some first, some last => emitRun run first last arena
  | _, _ => (none, arena)

end Block

end ArmBlocks
