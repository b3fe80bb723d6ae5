import ArmBlocks.Block.Record
import ArmBlocks.SubBlock

/-!
# The steps of a block

What a run becomes before any of it has a place. A `Step` is a node with its record beside it
instead of a reference to it, and everything about the shape of a block is decided on steps: which
nodes there are, in which order, and where a check continues. Emission adds nothing to that but
room.

**The steps of a sub-block come as a group,** because its lead, the check in front of it, is
finished last: it names the node after the sub-block. That order is visible in the arena, where
the record of a check lies behind those of the instructions it guards.

`nodeCount` answers how many steps there are without making them. The node array is allocated
before anything else, and so needs the number first.
-/

set_option autoImplicit false

namespace ArmBlocks

/-- A node whose record has no place yet. -/
structure Step where
  kind : NodeKind
  /-- Its record, where it has one. -/
  record : Option Record
  pc : Word
  deriving DecidableEq, Repr

/-- The steps of a sub-block. -/
structure StepGroup where
  /-- What stands in front: the check of the condition, or the step that passes over it all. -/
  lead : Option Step
  /-- The steps of the instructions. -/
  body : List Step
  deriving DecidableEq, Repr

namespace StepGroup

/-- The steps in the order of their nodes. -/
def steps (g : StepGroup) : List Step := g.lead.toList ++ g.body

end StepGroup

namespace Op

/-- The node after an instruction that writes the program counter. -/
def publishKind : Op → NodeKind
  | .softwareInterrupt _ => .publishIfTrapped
  | _ => .publish

end Op

namespace Instruction

/-- The number of nodes of one instruction: itself, one before if it reads and writes the program
counter, one after if it writes it. -/
def nodeCount (i : Instruction) : Nat :=
  1 + (if i.readsPc && i.writesPc then 1 else 0) + (if i.writesPc then 1 else 0)

/-- The steps of one instruction. -/
def steps (i : Instruction) : List Step :=
  (if i.readsPc && i.writesPc then [⟨.showPc, none, i.pipelinePc⟩] else []) ++
    ⟨.action, some (.action i.action), i.pipelinePc⟩ ::
    (if i.writesPc then [⟨i.op.publishKind, none, i.pipelinePc⟩] else [])

theorem length_steps (i : Instruction) : i.steps.length = i.nodeCount := by
  unfold steps nodeCount
  split <;> split <;> simp

/-- The number of nodes of some instructions. -/
def nodeCounts : List Instruction → Nat
  | [] => 0
  | i :: rest => i.nodeCount + nodeCounts rest

theorem length_flatMap_steps (is : List Instruction) : (is.flatMap steps).length = nodeCounts is := by
  induction is with
  | nil => rfl
  | cons i rest ih => rw [List.flatMap_cons, List.length_append, ih, length_steps, nodeCounts]

end Instruction

namespace SubBlock

/-- The number of nodes of a sub-block. -/
def nodeCount (b : SubBlock) : Nat :=
  match b.cond with
  | .always => Instruction.nodeCounts b.instructions
  | .never => 1
  | _ => 1 + Instruction.nodeCounts b.instructions

/-- The steps of a sub-block that starts at node `start`. One that never executes is passed over
as a whole; one under a condition is checked first. -/
def group (b : SubBlock) (start : Nat) : StepGroup :=
  let body := b.instructions.flatMap Instruction.steps
  match b.cond with
  | .always => { lead := none, body }
  | .never =>
    let pass := Record.pass (BitVec.ofNat 16 b.size)
    { lead := some ⟨.pass, some pass, b.first.pipelinePc⟩, body := [] }
  | cond =>
    let after := start + 1 + body.length
    let check := Record.check cond (BitVec.ofNat 16 after) (BitVec.ofNat 16 b.size)
    { lead := some ⟨.check, some check, b.first.pipelinePc⟩, body }

theorem length_steps_group (b : SubBlock) (start : Nat) :
    (b.group start).steps.length = b.nodeCount := by
  have h := Instruction.length_flatMap_steps b.instructions
  unfold group nodeCount StepGroup.steps
  split
  · simp_all
  · simp_all
  · simp_all [Nat.add_comm]

/-- The number of nodes of some sub-blocks. -/
def nodeCounts : List SubBlock → Nat
  | [] => 0
  | b :: rest => b.nodeCount + nodeCounts rest

end SubBlock

namespace Block

/-- The groups of sub-blocks, the first of which starts at node `start`. -/
def groups : Nat → List SubBlock → List StepGroup
  | _, [] => []
  | start, b :: rest => b.group start :: groups (start + b.nodeCount) rest

/-- The step that continues after a block which ends with `last`. -/
def finishStep (last : Instruction) : Step :=
  ⟨.finish, some (.finish last.next), last.pipelinePc⟩

/-- The number of nodes of a run, the terminal one included. -/
def nodeCount (run : List Instruction) : Nat :=
  SubBlock.nodeCounts (SubBlock.partition run) + 1

/-- The steps of a run that ends with `last`, in the order of their nodes. -/
def steps (run : List Instruction) (last : Instruction) : List Step :=
  (groups 0 (SubBlock.partition run)).flatMap StepGroup.steps ++ [finishStep last]

theorem length_steps_groups (start : Nat) (blocks : List SubBlock) :
    ((groups start blocks).flatMap StepGroup.steps).length =
      SubBlock.nodeCounts blocks := by
  induction blocks generalizing start with
  | nil => rfl
  | cons b rest ih =>
    simp only [groups, List.flatMap_cons, List.length_append, SubBlock.nodeCounts]
    rw [ih, SubBlock.length_steps_group]

theorem length_steps (run : List Instruction) (last : Instruction) :
    (steps run last).length = nodeCount run := by
  simp only [steps, nodeCount, List.length_append, length_steps_groups, List.length_singleton]

end Block

end ArmBlocks
