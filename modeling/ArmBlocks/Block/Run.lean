import ArmBlocks.Block.Record

/-!
# Running a block

The nodes of a block are executed one after the other until one of them leaves. Only a condition
node continues anywhere but at the following node, and it jumps forward; so no node is visited
twice, and the number of nodes bounds the walk. That bound is the fuel `walk` recurses on.

**A block that was written over is not followed.** Nothing on the way checks what the bytes of a record
were written as. Where a node or its record is something else than what it is read as, or the walk goes
in circles, the exit is `broken`: what happens there is not said, and whatever else a run answers says
nothing either. No block that stands as it was emitted is left that way.
-/

set_option autoImplicit false

namespace ArmBlocks

namespace Block

variable {σ : Type}

/-- The header at an offset. -/
def header? (arena : Arena Record) (ref : Ref) : Option Block.Header :=
  match arena.get? ref Record.headerBytes 0 with
  | some (.header h) => some h
  | _ => none

/-- The node at an index of a node array. -/
def node? (arena : Arena Record) (nodes : Ref) (i : Nat) : Option Node :=
  match arena.get? nodes Record.nodeBytes i with
  | some (.node n) => some n
  | _ => none

/-- The record of a node. -/
def data? (arena : Arena Record) (n : Node) : Option Record := arena.get? n.data 0 0

/-- Publishes the program counter an instruction wrote. -/
def publish : Guest σ Continuation := do
  Guest.modifyCpu fun s => { s with next := s.reg .pc }
  return .leave .early

/-- Executes a node with its record. -/
def executeNode (bus : Bus σ) (kind : NodeKind) (record : Option Record) (pc : Word) :
    Guest σ Continuation := do
  match kind, record with
  | .action, some (.action a) => a.execute bus pc
  | .check, some (.check cond target instructions) =>
    if (← Guest.cpu).satisfies cond then return .next
    else
      Guest.spend (instructions.setWidth 32)
      return .jump target
  | .pass, some (.pass cycles) =>
    Guest.spend (cycles.setWidth 32)
    return .next
  | .showPc, _ =>
    Guest.modifyCpu (·.setReg .pc pc)
    return .next
  | .publish, _ => publish
  | .publishIfTrapped, _ => if (← get).trapped then publish else return .next
  | .finish, some (.finish next) =>
    Guest.modifyCpu fun s => { s with next }
    return .leave .atEnd
  | .blank, _ => return .leave .early
  | _, _ => return .leave .broken

/-- Executes the nodes of a block from index `i` on, visiting no more than `fuel` of them. Behind the
last node there is nothing to execute. -/
def walk (bus : Bus σ) (arena : Arena Record) (h : Block.Header) : Nat → Nat → Guest σ Exit
  | 0, i => return if i < h.len.toNat then .broken else .early
  | fuel + 1, i => do
    if i < h.len.toNat then
      match node? arena h.nodes i with
      | none => return .broken
      | some n =>
        match ← executeNode bus n.kind (data? arena n) n.pc with
        | .next => walk bus arena h fuel (i + 1)
        | .jump target => walk bus arena h fuel target.toNat
        | .leave exit => return exit
    else return .early

/-- Runs a block, answering how it was left. -/
def run (bus : Bus σ) (arena : Arena Record) (h : Block.Header) : Guest σ Exit :=
  walk bus arena h h.len.toNat 0

end Block

end ArmBlocks
