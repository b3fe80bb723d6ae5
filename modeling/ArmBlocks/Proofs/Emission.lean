import Mathlib.Data.List.Forall2
import ArmBlocks.Proofs.ArenaGrowth
import ArmBlocks.Block.Emit
import ArmBlocks.Block.Run
import ArmBlocks.Config

/-!
# What emission leaves in the arena

Emission gives the steps of a run their places. `Block.At` is what that comes to: at a reference
stands a header, behind it an array of nodes, and node `k` together with its record is step `k`.
Running a block needs nothing else of the arena, and all of it lies in the handed-out part, so a
block that was emitted stays (`Block.At.mono`).

The main result is `Block.at_of_emit`. Its proof follows the emission: the records are placed in
the order of the groups (`Emits`, one rule for each way of putting emissions together), and only
then is the node array filled in, which lies before all of them. A block also ends before the
handed-out part does (`Block.Inside`), which a cell cannot say: it does not know how long its record
is.

What is asked of the arena is that it ends within 2³² bytes of an offset, and what was handed out from
there on is kept. From the start of the arena, that is all that ever stood there; from where the block
begins, it is the block.
-/

set_option autoImplicit false

namespace ArmBlocks

/-- Every record takes room. -/
theorem Record.bytes_pos (r : Record) : 0 < r.bytes := by
  cases r with
  | action x => cases x with | mk op => cases op <;> simp [bytes, Op.recordBytes]
  | _ => simp [bytes, nodeBytes, headerBytes]

/-- A node is what a step asks for, and its record stands in the arena. -/
structure Node.Holds (a : Arena Record) (n : Node) (s : Step) : Prop where
  kind : n.kind = s.kind
  pc : n.pc = s.pc
  record : ∀ r, s.record = some r → a.Has n.data.offset.toNat r

theorem Node.Holds.mono {a b : Arena Record} {n : Node} {s : Step} (h : n.Holds a s)
    (grows : a.Grows b) : n.Holds b s :=
  ⟨h.kind, h.pc, fun r hr => (h.record r hr).mono grows⟩

/-- At a reference stands a block of the given steps. -/
structure Block.At (a : Arena Record) (ref : Ref) (h : Block.Header) (steps : List Step) :
    Prop where
  header : a.Has ref.offset.toNat (.header h)
  len : h.len.toNat = steps.length
  nodes : ∀ (k : Nat) (s : Step), steps[k]? = some s →
    ∃ n : Node, a.Has (Arena.position h.nodes Record.nodeBytes k) (.node n) ∧ n.Holds a s

/-- A block stays where it is when others are emitted. -/
theorem Block.At.mono {a b : Arena Record} {ref : Ref} {h : Block.Header} {steps : List Step}
    (block : Block.At a ref h steps) (grows : a.Grows b) : Block.At b ref h steps where
  header := block.header.mono grows
  len := block.len
  nodes k s hs := by
    obtain ⟨n, stands, holds⟩ := block.nodes k s hs
    exact ⟨n, stands.mono grows, holds.mono grows⟩

/-- A block of the given steps does not run past the handed-out part. -/
structure Block.Inside (a : Arena Record) (ref : Ref) (h : Block.Header) (steps : List Step) :
    Prop where
  header : ref.offset.toNat + Record.headerBytes ≤ a.used
  array : Arena.position h.nodes Record.nodeBytes steps.length ≤ a.used
  records : ∀ (k : Nat) (s : Step) (n : Node) (r : Record), steps[k]? = some s →
    a.Has (Arena.position h.nodes Record.nodeBytes k) (.node n) → s.record = some r →
      n.data.offset.toNat + r.bytes ≤ a.used

theorem Block.At.header?_eq {a : Arena Record} {ref : Ref} {h : Block.Header} {steps : List Step}
    (block : Block.At a ref h steps) : Block.header? a ref = some h := by
  have cell : a.get? ref Record.headerBytes 0 = some (.header h) := by
    simpa [Arena.get?, Arena.position] using block.header.2
  simp only [Block.header?, cell]

theorem Block.node?_of_has {a : Arena Record} {nodes : Ref} {k : Nat} {n : Node}
    (h : a.Has (Arena.position nodes Record.nodeBytes k) (.node n)) :
    Block.node? a nodes k = some n := by
  simp only [Block.node?, Arena.get?, h.2]

theorem Block.data?_of_has {a : Arena Record} {n : Node} {r : Record}
    (h : a.Has n.data.offset.toNat r) : Block.data? a n = some r := by
  simpa [Block.data?, Arena.get?, Arena.position] using h.2

namespace Emit

variable {α β : Type}

/-- A composite emission succeeds where both parts do. -/
theorem bind_eq_some {x : Emit α} {f : α → Emit β} {a c : Arena Record} {z : β}
    (h : (x >>= f) a = (some z, c)) : ∃ y b, x a = (some y, b) ∧ f y b = (some z, c) := by
  rw [bind_apply] at h
  split at h
  · rename_i y b hx
    exact ⟨y, b, hx, h⟩
  · exact absurd h (by simp)

/-- Where an emission succeeds in an arena that ends within 2³² bytes of `low` and of which at least
`front` bytes are handed out, it grows the arena, and what it answers is as described. -/
def Emits (low front : Nat) (x : Emit α) (Q : Arena Record → α → Prop) : Prop :=
  ∀ a b y, x a = (some y, b) → a.capacity ≤ low + 2 ^ 32 → front ≤ a.used →
    a.GrowsFrom low b ∧ Q b y

theorem pure_eq_some {x y : α} {a b : Arena Record} (h : (Pure.pure x : Emit α) a = (some y, b)) :
    x = y ∧ a = b := by
  simpa using h

/-- The first part of a composite emission does what is said of it, and the rest starts in the
arena it leaves. -/
theorem Emits.first {low front : Nat} {Q : Arena Record → α → Prop} {x : Emit α} {f : α → Emit β}
    {a c : Arena Record} {z : β} (hx : Emits low front x Q) (h : (x >>= f) a = (some z, c))
    (hc : a.capacity ≤ low + 2 ^ 32) (hl : front ≤ a.used) :
    ∃ y b, f y b = (some z, c) ∧ a.GrowsFrom low b ∧ Q b y ∧ b.capacity ≤ low + 2 ^ 32 ∧
      front ≤ b.used := by
  obtain ⟨y, b, here, rest⟩ := bind_eq_some h
  obtain ⟨grows, hq⟩ := hx a b y here hc hl
  have hc' : b.capacity ≤ low + 2 ^ 32 := by rw [grows.capacity]; exact hc
  exact ⟨y, b, rest, grows, hq, hc', Nat.le_trans hl grows.used⟩

/-- A record lands behind `front`, as a whole. -/
theorem emits_put (low front : Nat) (r : Record) :
    Emits low front (put r) fun b ref => b.Gives front ref r.bytes ∧ b.Has ref.offset.toNat r := by
  intro a b ref eq hc hl
  obtain ⟨grows, gives, -, has⟩ := Arena.put_eq_some eq hc r.bytes_pos
  exact ⟨grows, gives.mono hl (Nat.le_refl _), has⟩

end Emit

/-! ## The steps that occur

Not every step is emitted: the record of an action fits twelve bytes, and r15 is published in one of
two ways. What is emitted is regular in that sense, from the instructions up.
-/

/-- A step is without a record only where its node needs none, and its record is a small one. -/
inductive Step.Regular : Step → Prop where
  | bare (kind : NodeKind) (pc : Word)
      (h : kind = .showPc ∨ kind = .publish ∨ kind = .publishIfTrapped) : Regular ⟨kind, none, pc⟩
  | full (kind : NodeKind) (r : Record) (pc : Word) (h : r.bytes ≤ 12) :
      Regular ⟨kind, some r, pc⟩

theorem Op.recordBytes_le (op : Op) : op.recordBytes ≤ 12 := by
  cases op <;> simp [Op.recordBytes]

theorem Op.publishKind_eq (op : Op) :
    op.publishKind = .publish ∨ op.publishKind = .publishIfTrapped := by
  cases op <;> simp [Op.publishKind]

/-- The steps of an instruction are regular: the action has a record, and what comes before and behind it
has none. -/
theorem Instruction.regular_steps (i : Instruction) : ∀ s ∈ i.steps, s.Regular := by
  intro s hs
  simp only [Instruction.steps, List.mem_append, List.mem_cons, List.mem_ite_nil_right,
    List.not_mem_nil, or_false] at hs
  rcases hs with ⟨-, rfl⟩ | rfl | ⟨-, rfl⟩
  · exact .bare _ _ (.inl rfl)
  · exact .full _ _ _ i.action.op.recordBytes_le
  · exact .bare _ _ (.inr i.op.publishKind_eq)

/-- So are those of a sub-block with its check or its skip. -/
theorem SubBlock.regular_group (b : SubBlock) (start : Nat) :
    ∀ s ∈ (b.group start).steps, s.Regular := by
  have body : ∀ s ∈ b.instructions.flatMap Instruction.steps, s.Regular := by
    intro s hs
    obtain ⟨i, -, hi⟩ := List.mem_flatMap.mp hs
    exact i.regular_steps s hi
  intro s hs
  unfold SubBlock.group StepGroup.steps at hs
  split at hs
  · exact body s hs
  · obtain rfl : s = _ := by simpa using hs
    exact .full _ _ _ (Nat.le_add_left 2 10)
  · rcases List.mem_cons.mp hs with rfl | hs
    · exact .full _ _ _ (Nat.le_add_left 6 6)
    · exact body s hs

/-- So are those of all sub-blocks. -/
theorem Block.regular_groups (blocks : List SubBlock) :
    ∀ start, ∀ s ∈ (Block.groups start blocks).flatMap StepGroup.steps, s.Regular := by
  induction blocks with
  | nil => intro start s hs; exact absurd hs (by simp [Block.groups])
  | cons b rest ih =>
    intro start s hs
    rw [Block.groups, List.flatMap_cons, List.mem_append] at hs
    rcases hs with hs | hs
    · exact b.regular_group start s hs
    · exact ih _ s hs

/-- Every step of a block is of a regular shape. -/
theorem Block.regular_steps (run : List Instruction) (last : Instruction) :
    ∀ s ∈ Block.steps run last, s.Regular := by
  intro s hs
  rw [Block.steps, List.mem_append] at hs
  rcases hs with hs | hs
  · exact Block.regular_groups _ 0 s hs
  · obtain rfl : s = Block.finishStep last := by simpa using hs
    exact .full _ _ _ (Nat.le_add_left 4 8)

/-! ## Properties of whole emissions

An emission is allocations one after the other. What holds of each of them and is kept by sequencing
holds of every emission, which is how bounds and invariants are proved without looking at the nodes.
-/

namespace Emit

/-- A property of emissions that survives putting them together. -/
structure Compositional (P : (α : Type) → Emit α → Prop) : Prop where
  pure : ∀ {α : Type} (x : α), P α (Pure.pure x)
  bind : ∀ {α β : Type} {x : Emit α} {f : α → Emit β}, P α x → (∀ y, P β (f y)) → P β (x >>= f)

namespace Compositional

variable {P : (α : Type) → Emit α → Prop} (h : Compositional P)
  (small : ∀ r : Record, r.bytes ≤ 12 → P Ref (put r))

include h small

theorem place (s : Step) (regular : s.Regular) : P Node s.place := by
  cases regular with
  | bare kind pc => exact h.pure (⟨kind, ⟨0⟩, pc⟩ : Node)
  | full kind r pc le => exact h.bind (small r le) fun data => h.pure (⟨kind, data, pc⟩ : Node)

theorem placeAll :
    ∀ steps : List Step, (∀ s ∈ steps, s.Regular) → P (List Node) (Step.placeAll steps)
  | [], _ => h.pure []
  | s :: rest, regular => by
    have one := h.place small s (regular s (by simp))
    have others := placeAll rest fun s hs => regular s (by simp [hs])
    exact h.bind one fun n => h.bind others fun nodes => h.pure (n :: nodes)

/-- What holds of placing a regular step, and of doing one thing after the other, holds of placing a group.
The check is placed after the body, as it has to know where that ends. -/
theorem placeGroup (g : StepGroup) (regular : ∀ s ∈ g.steps, s.Regular) :
    P (List Node) g.place := by
  unfold StepGroup.place
  have body := h.placeAll small g.body fun s hs => regular s (by simp [StepGroup.steps, hs])
  cases hlead : g.lead with
  | none => exact h.bind body fun all => h.pure all
  | some lead =>
    have one := h.place small lead (regular lead (by simp [StepGroup.steps, hlead]))
    exact h.bind body fun all => h.bind one fun n => h.pure (n :: all)

/-- What is true of a small record is true of all the records that stand beside nodes. -/
theorem placeGroups :
    ∀ groups : List StepGroup, (∀ s ∈ groups.flatMap StepGroup.steps, s.Regular) →
      P (List Node) (StepGroup.placeAll groups)
  | [], _ => h.pure []
  | g :: rest, regular => by
    have one := h.placeGroup small g fun s hs => regular s (by simp [hs])
    have others := placeGroups rest fun s hs =>
      regular s (by rw [List.flatMap_cons]; exact List.mem_append_right _ hs)
    exact h.bind one fun nodes => h.bind others fun more => h.pure (nodes ++ more)

end Compositional

end Emit

/-! ## The records of the steps

A node refers to a record that was put before it. It holds its step as long as that record is there,
and both are as long as the arena has not grown past what references tell apart.
-/

/-- A node that is what a step asks for, with its record handed out behind `front`. -/
structure Node.HoldsFrom (front : Nat) (a : Arena Record) (n : Node) (s : Step) : Prop where
  holds : n.Holds a s
  gives : ∀ r, s.record = some r → a.Gives front n.data r.bytes

open Emit (Emits)
open List (Forall₂)

section

variable {low front : Nat} (le : low ≤ front)

include le

theorem Node.HoldsFrom.mono {a b : Arena Record} {n : Node} {s : Step}
    (h : n.HoldsFrom front a s) (grows : a.GrowsFrom low b) : n.HoldsFrom front b s where
  holds := by
    refine ⟨h.holds.kind, h.holds.pc, fun r hr => ?_⟩
    have handed := ((h.gives r hr).mono le (Nat.le_refl _)).handed r.bytes_pos
    exact (h.holds.record r hr).keep handed grows
  gives r hr := (h.gives r hr).mono (Nat.le_refl _) grows.used

theorem Forall₂.holdsFrom_mono {a b : Arena Record} {nodes : List Node} {steps : List Step}
    (h : Forall₂ (Node.HoldsFrom front a) nodes steps) (grows : a.GrowsFrom low b) :
    Forall₂ (Node.HoldsFrom front b) nodes steps :=
  h.imp fun _ _ hn => hn.mono le grows

omit le in
/-- A step is placed as a node with its record beside it. -/
theorem Step.emits_place (s : Step) :
    Emits low front s.place fun b n => n.HoldsFrom front b s := by
  intro a c n eq hc hl
  cases hr : s.record with
  | some r =>
    simp only [Step.place, hr] at eq
    obtain ⟨ref, b, eq, grows, ⟨gives, has⟩, -, -⟩ := (Emit.emits_put low front r).first eq hc hl
    obtain ⟨rfl, rfl⟩ := Emit.pure_eq_some eq
    have own : ∀ r', s.record = some r' → r = r' :=
      fun r' hr' => Option.some.inj (hr.symm.trans hr')
    refine ⟨grows, ⟨rfl, rfl, fun r' hr' => ?_⟩, fun r' hr' => ?_⟩
    · rw [← own r' hr']
      exact has
    · rw [← own r' hr']
      exact gives
  | none =>
    simp only [Step.place, hr] at eq
    obtain ⟨rfl, rfl⟩ := Emit.pure_eq_some eq
    have none : ∀ r, s.record ≠ some r := fun r hr' => absurd (hr.symm.trans hr') (by simp)
    exact ⟨.refl _, ⟨rfl, rfl, fun r hr => absurd hr (none r)⟩, fun r hr => absurd hr (none r)⟩

/-- Steps are placed one behind the other, and what is placed later leaves the earlier records alone. -/
theorem Step.emits_placeAll :
    ∀ steps : List Step, Emits low front (Step.placeAll steps) fun b nodes =>
      Forall₂ (Node.HoldsFrom front b) nodes steps
  | [] => by
    intro a b nodes eq _ _
    obtain ⟨rfl, rfl⟩ := Emit.pure_eq_some eq
    exact ⟨.refl _, .nil⟩
  | s :: rest => by
    intro a d all eq hc hl
    obtain ⟨n, b, eq, grows, hn, hc, hl⟩ := s.emits_place.first eq hc hl
    obtain ⟨nodes, c, eq, grows', hnodes, -, -⟩ := (Step.emits_placeAll rest).first eq hc hl
    obtain ⟨rfl, rfl⟩ := Emit.pure_eq_some eq
    exact ⟨grows.trans grows', .cons (hn.mono le grows') hnodes⟩

/-- A group gives the nodes of its steps in order, though the record of the check is put last. -/
theorem StepGroup.emits_place (g : StepGroup) :
    Emits low front g.place fun b nodes => Forall₂ (Node.HoldsFrom front b) nodes g.steps := by
  intro a d all eq hc hl
  unfold StepGroup.place at eq
  obtain ⟨body, b, eq, grows, hbody, hc, hl⟩ := (Step.emits_placeAll le g.body).first eq hc hl
  cases hlead : g.lead with
  | none =>
    simp only [hlead] at eq
    obtain ⟨rfl, rfl⟩ := Emit.pure_eq_some eq
    rw [StepGroup.steps, hlead]
    exact ⟨grows, hbody⟩
  | some s =>
    simp only [hlead] at eq
    obtain ⟨lead, c, eq, grows', hs, -, -⟩ := s.emits_place.first eq hc hl
    obtain ⟨rfl, rfl⟩ := Emit.pure_eq_some eq
    rw [StepGroup.steps, hlead]
    exact ⟨grows.trans grows', .cons hs (Forall₂.holdsFrom_mono le hbody grows')⟩

/-- Groups give the nodes of their steps, one group behind the other. -/
theorem StepGroup.emits_placeAll :
    ∀ groups : List StepGroup,
      Emits low front (StepGroup.placeAll groups) fun b nodes =>
        Forall₂ (Node.HoldsFrom front b) nodes (groups.flatMap StepGroup.steps)
  | [] => by
    intro a b nodes eq _ _
    obtain ⟨rfl, rfl⟩ := Emit.pure_eq_some eq
    exact ⟨.refl _, .nil⟩
  | g :: rest => by
    intro a d all eq hc hl
    obtain ⟨nodes, b, eq, grows, hnodes, hc, hl⟩ := (g.emits_place le).first eq hc hl
    obtain ⟨more, c, eq, grows', hmore, -, -⟩ := (StepGroup.emits_placeAll rest).first eq hc hl
    obtain ⟨rfl, rfl⟩ := Emit.pure_eq_some eq
    rw [List.flatMap_cons]
    exact ⟨grows.trans grows', List.rel_append (Forall₂.holdsFrom_mono le hnodes grows') hmore⟩

end

/-- Nodes whose records were placed are filled into an array that was handed out before them. Each one
stands in its place with its record, and still does when the arena has grown. -/
theorem Node.holdsFrom_of_filled {low : Nat} {b d f : Arena Record} {array : Ref} {nodes : List Node}
    {steps : List Step} (records : Forall₂ (Node.HoldsFrom b.used d) nodes steps)
    (handed : b.Gives low array (Record.nodeBytes * nodes.length)) (le : low ≤ b.used)
    (used : b.used ≤ d.used) (reach : d.used ≤ low + 2 ^ 32)
    (grows : (d.writeList array Record.nodeBytes 0 (nodes.map .node)).GrowsFrom low f) {k : Nat}
    {s : Step} (hs : steps[k]? = some s) :
    ∃ n : Node, n.HoldsFrom b.used f s ∧ f.Has (Arena.position array Record.nodeBytes k) (.node n) := by
  have size : 0 < Record.nodeBytes := by decide
  have same := Nat.le_of_eq
    (Arena.used_writeList array Record.nodeBytes (nodes.map Record.node) d 0).symm
  obtain ⟨hk, rfl⟩ := List.getElem?_eq_some_iff.mp hs
  have hk' : k < nodes.length := by rw [records.length_eq]; exact hk
  have held := records.get hk' hk
  have filled : nodes[k].HoldsFrom b.used
      (d.writeList array Record.nodeBytes 0 (nodes.map .node)) steps[k] := by
    refine ⟨⟨held.holds.kind, held.holds.pc, fun r hr => ?_⟩, fun r hr => ?_⟩
    · -- the array ends before the record begins, and does so as references tell it
      have outside := handed.apart (held.gives r hr) reach
      have bytes := r.bytes_pos
      refine (held.holds.record r hr).writeList ?_ size
      rw [Arena.position, List.length_map, Nat.mul_comm]
      omega
    · exact (held.gives r hr).mono (Nat.le_refl _) same
  have listed : (nodes.map Record.node)[k]? = some (.node nodes[k]) := by
    rw [List.getElem?_map, List.getElem?_eq_getElem hk']
    rfl
  have room : Arena.position array Record.nodeBytes (nodes.map Record.node).length ≤ d.used := by
    rw [Arena.position, List.length_map, Nat.mul_comm]
    exact Nat.le_trans handed.add_le used
  have inside : k * Record.nodeBytes < Record.nodeBytes * nodes.length := by
    rw [Nat.mul_comm]
    exact Nat.mul_lt_mul_of_pos_left hk' size
  have place := (handed.mono (Nat.le_refl _) (Nat.le_trans used same)).handed inside
  exact ⟨nodes[k], filled.mono le grows, (Arena.has_writeList array size room listed).keep place grows⟩

namespace Block

/-! ## How long a block can be

The jumps of a block are written in sixteen bits, and 256 instructions make far fewer nodes than that.
-/

theorem nodeCount_instruction_le (i : Instruction) : i.nodeCount ≤ 3 := by
  unfold Instruction.nodeCount
  split <;> split <;> omega

theorem nodeCounts_le (is : List Instruction) : Instruction.nodeCounts is ≤ 3 * is.length := by
  induction is with
  | nil => exact Nat.le_refl _
  | cons i rest ih =>
    have head := nodeCount_instruction_le i
    simp only [Instruction.nodeCounts, List.length_cons]
    omega

/-- A sub-block has at most four nodes for each instruction: three of its own and, for the first, the
check. -/
theorem nodeCount_subBlock_le (b : SubBlock) : b.nodeCount ≤ 4 * b.instructions.length := by
  have body := nodeCounts_le b.instructions
  have one : 1 ≤ b.instructions.length := by simp [SubBlock.instructions]
  unfold SubBlock.nodeCount
  split
  · omega
  · omega
  · omega

/-- Four nodes for an instruction, and the terminal one. -/
theorem nodeCount_le (run : List Instruction) : nodeCount run ≤ 4 * run.length + 1 := by
  have blocks : ∀ bs : List SubBlock,
      SubBlock.nodeCounts bs ≤ 4 * (bs.flatMap SubBlock.instructions).length := by
    intro bs
    induction bs with
    | nil => exact Nat.le_refl _
    | cons b rest ih =>
      have head := nodeCount_subBlock_le b
      simp only [SubBlock.nodeCounts, List.flatMap_cons, List.length_append]
      omega
  have all := blocks (SubBlock.partition run)
  rw [SubBlock.flatMap_instructions_partition] at all
  unfold nodeCount
  omega

/-- The nodes of a run the decoder makes can be counted in sixteen bits. -/
theorem nodeCount_lt {run : List Instruction} (h : run.length ≤ Config.maxBlock) :
    nodeCount run < 2 ^ 16 := by
  have le := nodeCount_le run
  unfold Config.maxBlock at h
  omega

/-! ## A whole block

The space for the nodes is taken first and filled in last, behind the records. Two facts carry it:
what was handed out is still there when it is filled in, and filling it in changes nothing outside.
-/

/-- The header of a run. -/
def headerOf (nodes : Ref) (run : List Instruction) (first last : Instruction) : Block.Header :=
  { nodes, len := BitVec.ofNat 16 (nodeCount run), thumb := first.thumb, first := first.addr
    last := last.next }

/-- A run that was emitted into an arena that ends within 2³² bytes of `low` stands there as a whole,
there is room left, and what was handed out from `low` on still stands. -/
theorem stands_of_emitRun {low : Nat} {run : List Instruction} {first last : Instruction}
    {a f : Arena Record} {ref : Ref} (h : emitRun run first last a = (some ref, f))
    (hc : a.capacity ≤ low + 2 ^ 32) (hl : low ≤ a.used) (hn : nodeCount run < 2 ^ 16) :
    a.GrowsFrom low f ∧ f.used < a.capacity ∧
      ∃ nodes, Block.At f ref (headerOf nodes run first last) (steps run last) ∧
        Block.Inside f ref (headerOf nodes run first last) (steps run last) := by
  unfold emitRun at h
  obtain ⟨nodes, b, made, h⟩ := Emit.bind_eq_some h
  obtain ⟨grows, array, room⟩ := Arena.putArray_eq_some made hc (by decide)
  have hcb : b.capacity ≤ low + 2 ^ 32 := by rw [grows.capacity]; exact hc
  have behind : low ≤ b.used := Nat.le_trans hl grows.used
  obtain ⟨placed, c, h, grows', hplaced, hcc, hl'⟩ :=
    (StepGroup.emits_placeAll behind _).first h hcb (Nat.le_refl b.used)
  obtain ⟨terminal, d, h, grows'', hterminal, -, -⟩ :=
    (finishStep last).emits_place.first h hcc hl'
  obtain ⟨⟨⟩, e, filled, h⟩ := Emit.bind_eq_some h
  have records : Forall₂ (Node.HoldsFrom b.used d) (placed ++ [terminal]) (steps run last) :=
    List.rel_append (Forall₂.holdsFrom_mono behind hplaced grows'') (.cons hterminal .nil)
  have count : (placed ++ [terminal]).length = nodeCount run := by
    rw [records.length_eq, length_steps]
  obtain rfl : d.writeList nodes Record.nodeBytes 0 ((placed ++ [terminal]).map .node) = e :=
    (Prod.mk.inj filled).2
  -- the nodes are filled in last: what their space was handed out for is still all of it
  have whole : b.Gives a.used nodes
      (Record.nodeBytes * ((placed ++ [terminal]).map Record.node).length) := by
    rw [List.length_map, count]
    exact array
  have middle := (grows.trans (grows'.trans grows'')).writeList whole
    (Nat.le_trans (Nat.le_of_lt room) hc) (by decide)
  obtain ⟨final, header, room', has⟩ := Arena.put_eq_some h (by rw [middle.capacity]; exact hc)
    (Nat.zero_lt_succ 15)
  rw [middle.capacity] at room'
  have used : b.used ≤ d.used := (grows'.trans grows'').used
  have used' : d.used ≤ f.used := by
    rw [← Arena.used_writeList nodes Record.nodeBytes ((placed ++ [terminal]).map Record.node) d 0]
    exact final.used
  have reach : d.used ≤ low + 2 ^ 32 := by omega
  rw [← count] at array
  -- one fact about each node, used for what it holds and once more for where its record ends
  have node {k : Nat} {s : Step} (hs : (steps run last)[k]? = some s) :=
    Node.holdsFrom_of_filled records (array.mono hl (Nat.le_refl _)) behind used reach final hs
  refine ⟨middle.trans final, room', nodes, ⟨has, ?_, fun k s hs => ?_⟩, header.add_le, ?_,
    fun k s n r hs hn hr => ?_⟩
  · rw [length_steps]
    exact Nat.mod_eq_of_lt hn
  · obtain ⟨n, held, stands⟩ := node hs
    exact ⟨n, stands, held.holds⟩
  · rw [← records.length_eq, Arena.position, Nat.mul_comm]
    exact Nat.le_trans array.add_le (Nat.le_trans used used')
  · obtain ⟨n', held, stands⟩ := node hs
    obtain rfl : n = n' := by
      have same := hn.2.symm.trans stands.2
      exact Record.node.inj (Option.some.inj same)
    exact (held.gives r hr).add_le

/-- The same for a run that knows its own ends. -/
theorem stands_of_emit_from {low : Nat} {run : List Instruction} {a b : Arena Record} {ref : Ref}
    (h : emit run a = (some ref, b)) (hc : a.capacity ≤ low + 2 ^ 32) (hl : low ≤ a.used)
    (hn : nodeCount run < 2 ^ 16) :
    ∃ first last nodes, run.head? = some first ∧ run.getLast? = some last ∧ a.GrowsFrom low b ∧
      b.used < a.capacity ∧ Block.At b ref (headerOf nodes run first last) (steps run last) ∧
      Block.Inside b ref (headerOf nodes run first last) (steps run last) := by
  unfold emit at h
  split at h
  · rename_i first last hfirst hlast
    obtain ⟨grows, room, nodes, block, inside⟩ := stands_of_emitRun h hc hl hn
    exact ⟨first, last, nodes, hfirst, hlast, grows, room, block, inside⟩
  · exact absurd h (by simp)

/-- In an arena of at most 2³² bytes all that stood there before still does. -/
theorem stands_of_emit {run : List Instruction} {a b : Arena Record} {ref : Ref}
    (h : emit run a = (some ref, b)) (hc : a.capacity ≤ 2 ^ 32) (hn : nodeCount run < 2 ^ 16) :
    ∃ first last nodes, run.head? = some first ∧ run.getLast? = some last ∧ a.Grows b ∧
      Block.At b ref (headerOf nodes run first last) (steps run last) ∧
      Block.Inside b ref (headerOf nodes run first last) (steps run last) := by
  obtain ⟨first, last, nodes, hfirst, hlast, grows, room, block, inside⟩ :=
    stands_of_emit_from h (show a.capacity ≤ 0 + 2 ^ 32 by omega) (Nat.zero_le _) hn
  have reached : a.used ≤ 2 ^ 32 := Nat.le_trans grows.used (by omega)
  exact ⟨first, last, nodes, hfirst, hlast, grows.grows reached, block, inside⟩

theorem at_of_emit {run : List Instruction} {a b : Arena Record} {ref : Ref}
    (h : emit run a = (some ref, b)) (hc : a.capacity ≤ 2 ^ 32) (hl : nodeCount run < 2 ^ 16) :
    ∃ first last nodes, run.head? = some first ∧ run.getLast? = some last ∧ a.Grows b ∧
      Block.At b ref (headerOf nodes run first last) (steps run last) := by
  obtain ⟨first, last, nodes, hfirst, hlast, grows, block, -⟩ := stands_of_emit h hc hl
  exact ⟨first, last, nodes, hfirst, hlast, grows, block⟩

/-! ## The headers that emission writes

In an arena of more than 2³² bytes the records of a block may be overwritten by those of another.
Its header may then be gone, but it is never mistaken: the only header an emission writes is its
own. -/

/-- Whatever an emission writes, it is as described, also where it fails; and the arena stays as
large as it is. -/
structure Writes {α : Type} (P : Record → Prop) (x : Emit α) : Prop where
  capacity : ∀ a, (x a).2.capacity = a.capacity
  cells : ∀ (a : Arena Record) (offset : Nat) (r : Record),
    (x a).2.cell? offset = some r → a.cell? offset = some r ∨ P r

namespace Writes

variable {α β : Type} {P : Record → Prop}

theorem pure (x : α) : Writes P (Pure.pure x : Emit α) := ⟨fun _ => rfl, fun _ _ _ h => .inl h⟩

/-- What is written by one thing and then another is written by either. -/
theorem bind {x : Emit α} {f : α → Emit β} (hx : Writes P x) (hf : ∀ y, Writes P (f y)) :
    Writes P (x >>= f) := by
  refine ⟨fun a => ?_, fun a offset r h => ?_⟩
  · have first := hx.capacity a
    rw [Emit.bind_apply]
    split
    · rename_i y b eq
      rw [eq] at first
      exact ((hf y).capacity b).trans first
    · rename_i b eq
      rw [eq] at first
      exact first
  -- a record is there before, or was written by the first part or by the second
  · have first := hx.cells a offset r
    rw [Emit.bind_apply] at h
    split at h
    · rename_i y b eq
      rw [eq] at first
      rcases (hf y).cells b offset r h with h | h
      · exact first h
      · exact .inr h
    · rename_i b eq
      rw [eq] at first
      exact first h

theorem put {r : Record} (h : P r) : Writes P (Emit.put r) := by
  refine ⟨fun a => Arena.capacity_put a _ r, fun a offset r' eq => ?_⟩
  rcases Arena.cell?_put eq with old | rfl
  · exact .inl old
  · exact .inr h

theorem putNodes (count : Nat) (h : P (.node .blank)) : Writes P (Emit.putNodes count) := by
  refine ⟨fun a => Arena.capacity_putArray a _ count _, fun a offset r eq => ?_⟩
  rcases Arena.cell?_putArray eq with old | rfl
  · exact .inl old
  · exact .inr h

theorem setNodes (nodes : Ref) (filled : List Node) (h : ∀ n, P (.node n)) :
    Writes P (Emit.setNodes nodes filled) := by
  refine ⟨fun a => Arena.capacity_writeList nodes _ _ a 0, fun a offset r eq => ?_⟩
  rcases Arena.cell?_writeList_mem nodes _ _ _ _ a 0 eq with old | new
  · exact .inl old
  · obtain ⟨n, -, rfl⟩ := List.mem_map.mp new
    exact .inr (h n)

theorem composes (P : Record → Prop) : Emit.Compositional fun _ x => Writes P x := ⟨pure, bind⟩

end Writes

/-- A record that is no header, or the header of a block that starts with an instruction. -/
def IsHeaderOf (first : Instruction) (r : Record) : Prop :=
  ∀ h, r = .header h → h.first = first.addr ∧ h.thumb = first.thumb

/-- Of the records of a run only its header is one. -/
theorem writes_emitRun (run : List Instruction) (first last : Instruction) :
    Writes (IsHeaderOf first) (emitRun run first last) := by
  have small : ∀ r : Record, r.bytes ≤ 12 → IsHeaderOf first r := by
    rintro r le h rfl
    exact absurd le (by simp [Record.bytes, Record.headerBytes])
  have node : ∀ n, IsHeaderOf first (.node n) := fun n h eq => by cases eq
  have beside : ∀ r : Record, r.bytes ≤ 12 → Writes (IsHeaderOf first) (Emit.put r) :=
    fun r le => .put (small r le)
  have composes := Writes.composes (IsHeaderOf first)
  refine .bind (.putNodes _ (node _)) fun nodes =>
    .bind (composes.placeGroups beside _ (regular_groups _ 0)) fun placed =>
      .bind (composes.place beside _ (.full _ _ _ (Nat.le_add_left 4 8))) fun terminal =>
        .bind (.setNodes _ _ node) fun _ => .put ?_
  rintro h ⟨⟩
  exact ⟨rfl, rfl⟩

theorem capacity_emit (run : List Instruction) (a : Arena Record) :
    (emit run a).2.capacity = a.capacity := by
  unfold emit
  split
  · rename_i first last _ _
    exact (writes_emitRun run first last).capacity a
  · rfl

theorem capacity_of_emit {run : List Instruction} {a b : Arena Record} {ref? : Option Ref}
    (emitted : emit run a = (ref?, b)) : b.capacity = a.capacity := by
  rw [← capacity_emit run a, emitted]

/-- A header is found where a record stands that is one. -/
theorem header?_eq_some {a : Arena Record} {ref : Ref} {h : Block.Header} :
    header? a ref = some h ↔ a.get? ref Record.headerBytes 0 = some (.header h) := by
  unfold header?
  split
  · rename_i found eq
    simp [eq]
  · rename_i other
    simpa using other h

/-- A header found after an emission was found before or is that of the emitted run. -/
theorem header?_emit {run : List Instruction} {first : Instruction}
    (hfirst : run.head? = some first) {a : Arena Record} {ref : Ref} {h : Block.Header}
    (found : header? (emit run a).2 ref = some h) :
    header? a ref = some h ∨ (h.first = first.addr ∧ h.thumb = first.thumb) := by
  cases hlast : run.getLast? with
  | some last =>
    simp only [emit, hfirst, hlast, header?_eq_some] at found
    rcases (writes_emitRun run first last).cells a _ _ found with old | new
    · exact .inl (header?_eq_some.mpr old)
    · exact .inr (new h rfl)
  | none =>
    simp only [emit, hfirst, hlast] at found
    exact .inl found

/-- The header of the emitted run is found at the answered reference, however large the arena. -/
theorem header?_of_emit {run : List Instruction} {first : Instruction}
    (hfirst : run.head? = some first) {a b : Arena Record} {ref : Ref}
    (h : emit run a = (some ref, b)) :
    ∃ header, header? b ref = some header ∧ header.first = first.addr ∧
      header.thumb = first.thumb := by
  cases hlast : run.getLast? with
  | some last =>
    simp only [emit, hfirst, hlast, emitRun] at h
    obtain ⟨nodes, a₁, -, h⟩ := Emit.bind_eq_some h
    obtain ⟨placed, a₂, -, h⟩ := Emit.bind_eq_some h
    obtain ⟨terminal, a₃, -, h⟩ := Emit.bind_eq_some h
    obtain ⟨_, a₄, -, h⟩ := Emit.bind_eq_some h
    have stands : b.get? ref Record.headerBytes 0 = _ := Arena.get?_put h
    refine ⟨_, by rw [header?, stands], rfl, rfl⟩
  | none =>
    simp only [emit, hfirst, hlast] at h
    exact absurd h (by simp)

end Block

end ArmBlocks
