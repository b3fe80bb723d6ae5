import ArmBlocks.Arena.Basic
import ArmBlocks.Machine.Action

/-!
# What a block consists of

A block is a header, an array of nodes, and a record beside each node that needs one, all of them
in one arena. A node says what is done; its record holds the data. The nodes are

* one for each instruction, whose record is its `Action`;
* control nodes around them: a check in front of a conditional sub-block, one node in place of a
  sub-block that never executes, and nodes that keep the visible r15 in step with instructions
  that write it;
* the terminal node, which continues after the block.

**Sizes are part of the interface.** Nothing here is laid out byte by byte, but how much of the
arena a record takes decides when the arena is full and what the statistics say. `Record.bytes` is
that account.
-/

set_option autoImplicit false

namespace ArmBlocks

/-- What a node does. -/
inductive NodeKind where
  /-- Nothing yet: the array was allocated and the node not written. -/
  | blank
  /-- Checks the condition of a sub-block. -/
  | check
  /-- Passes over a sub-block that never executes. -/
  | pass
  /-- Makes r15 visible before an instruction that reads and writes it. -/
  | showPc
  /-- Publishes the program counter an instruction wrote, and leaves. -/
  | publish
  /-- The same after a software interrupt, if it entered the guest's handler. -/
  | publishIfTrapped
  /-- Continues after the block. -/
  | finish
  /-- Executes an instruction. -/
  | action
  deriving DecidableEq, Repr

/-- One link of a block. -/
structure Node where
  kind : NodeKind
  /-- Its record, where it has one. -/
  data : Ref
  /-- What reading r15 yields in the node's instruction. -/
  pc : Word
  deriving DecidableEq, Repr

namespace Node

/-- A node that is not filled in yet. -/
def blank : Node := ⟨.blank, ⟨0⟩, 0⟩

end Node

/-- The header of a block. -/
structure Block.Header where
  nodes : Ref
  /-- The number of nodes. -/
  len : BitVec 16
  thumb : Bool
  /-- The address of the first instruction. -/
  first : Word
  /-- The address after the last instruction. -/
  last : Word
  deriving DecidableEq, Repr

/-- What an arena of blocks holds. -/
inductive Record where
  | node (n : Node)
  | header (h : Block.Header)
  /-- Of an action node. -/
  | action (a : Action)
  /-- Of a check: the condition, the node after the sub-block, and the number of instructions, each
  of which costs a cycle when passed over. -/
  | check (cond : Condition) (target instructions : BitVec 16)
  /-- Of a node that passes over a sub-block: the cycles that takes. -/
  | pass (cycles : BitVec 16)
  /-- Of the terminal node: the address after the block. -/
  | finish (next : Word)
  deriving DecidableEq, Repr

namespace Op

/-- The bytes that the record of an operation takes. -/
def recordBytes : Op → Nat
  | .mul .. | .halfMul .. | .clz .. | .sat .. => 7
  | .block .. => 6
  | _ => 12

end Op

namespace Record

/-- The bytes of a node. -/
def nodeBytes : Nat := 16

/-- The bytes of a header. -/
def headerBytes : Nat := 16

/-- The bytes that a record takes. -/
def bytes : Record → Nat
  | .node _ => nodeBytes
  | .header _ => headerBytes
  | .action a => a.op.recordBytes
  | .check .. => 6
  | .pass _ => 2
  | .finish _ => 4

end Record

end ArmBlocks
