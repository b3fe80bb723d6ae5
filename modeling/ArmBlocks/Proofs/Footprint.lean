import ArmBlocks.Proofs.Perform

/-!
# How much of an arena a block takes

A block takes the same number of bytes wherever it is emitted: a node and a padded record for each
step, the padding of the node array, and the header (`Block.footprint`). **An emission succeeds exactly
where that is less than what is left** (`Block.emit_cases`), whatever stands in the arena and however
large it is.

The account follows the emission, one rule for each way of putting emissions together (`Emit.Costs`).
What it comes to is bounded by the number of instructions (`Block.footprint_le`): no instruction needs
more than one that is alone under its condition and both reads and writes the program counter.

A footprint is small, so the references within a block are its own wherever it is emitted: **a block
stands in an arena of any size** (`Block.at_of_emit_anywhere`), whatever else its references point to.
-/

set_option autoImplicit false

namespace ArmBlocks

namespace Emit

variable {α β : Type} {cost more : Nat}

/-- An emission that takes so many bytes, and fails where no more than that are left. -/
def Costs (cost : Nat) (x : Emit α) : Prop :=
  ∀ a : Arena Record, a.used < a.capacity →
    (a.used + cost < a.capacity →
      ∃ y b, x a = (some y, b) ∧ b.used = a.used + cost ∧ b.capacity = a.capacity) ∧
    (a.capacity ≤ a.used + cost → ∃ b, x a = (none, b))

namespace Costs

theorem pure (x : α) : Costs 0 (Pure.pure x : Emit α) := fun a left =>
  ⟨fun _ => ⟨x, a, rfl, rfl, rfl⟩, fun full => absurd left (Nat.not_lt.mpr full)⟩

/-- Costs add up. If there is no room for the first part there is none for both. -/
theorem bind {x : Emit α} {f : α → Emit β} (hx : Costs cost x) (hf : ∀ y, Costs more (f y)) :
    Costs (cost + more) (x >>= f) := by
  intro a left
  obtain ⟨fits, fails⟩ := hx a left
  rcases Nat.lt_or_ge (a.used + cost) a.capacity with room | full
  · obtain ⟨y, b, first, used, capacity⟩ := fits room
    obtain ⟨fits', fails'⟩ := hf y b (by omega)
    rw [bind_apply, first]
    refine ⟨fun room => ?_, fun full => fails' (by omega)⟩
    obtain ⟨z, c, second, used', capacity'⟩ := fits' (by omega)
    exact ⟨z, c, second, by omega, by omega⟩
  · obtain ⟨b, first⟩ := fails full
    refine ⟨fun room => absurd room (by omega), fun _ => ⟨b, ?_⟩⟩
    rw [bind_apply, first]

theorem congr {x : Emit α} (h : Costs cost x) (eq : cost = more) : Costs more x := eq ▸ h

theorem put (r : Record) : Costs (Arena.paddedSize r.bytes) (put r) := by
  intro a _
  refine ⟨fun room => Arena.put_of_lt r room, fun full => ⟨a, ?_⟩⟩
  simp only [Emit.put, Arena.put, Arena.allocAligned_of_le full]

theorem putNodes (count : Nat) :
    Costs (Arena.paddedSize (Record.nodeBytes * count)) (putNodes count) := by
  intro a _
  refine ⟨fun room => ?_, fun full => ⟨a, ?_⟩⟩
  · exact Arena.putArray_of_lt (.node .blank) room
  · simp only [Emit.putNodes, Arena.putArray, Arena.allocAligned_of_le full]

theorem setNodes (nodes : Ref) (filled : List Node) : Costs 0 (setNodes nodes filled) := by
  intro a left
  refine ⟨fun _ => ⟨(), _, rfl, ?_, ?_⟩, fun full => absurd left (Nat.not_lt.mpr full)⟩
  · exact Arena.used_writeList ..
  · exact Arena.capacity_writeList ..

end Costs

end Emit

open Emit (Costs)

/-! ## Steps

Every step costs what its record takes, padded, whatever is in the arena. So the size of an emission
is known before it starts, as the sum over its steps.
-/

namespace Step

/-- The bytes that the record of a step takes, its padding included. -/
def footprint (s : Step) : Nat :=
  match s.record with
  | some r => Arena.paddedSize r.bytes
  | none => 0

/-- The bytes that the records of some steps take. -/
def footprints (steps : List Step) : Nat := (steps.map footprint).sum

@[simp] theorem footprints_nil : footprints [] = 0 := rfl

@[simp] theorem footprints_cons (s : Step) (rest : List Step) :
    footprints (s :: rest) = s.footprint + footprints rest := by
  simp [footprints]

@[simp] theorem footprints_append (xs ys : List Step) :
    footprints (xs ++ ys) = footprints xs + footprints ys := by
  simp [footprints]

/-- A group takes what its steps take, in whatever order they are placed. -/
theorem costs_place (s : Step) : Costs s.footprint s.place := by
  unfold footprint place
  cases s.record with
  | some r => exact (Costs.put r).bind fun data => .pure (⟨s.kind, data, s.pc⟩ : Node)
  | none => exact .pure (⟨s.kind, ⟨0⟩, s.pc⟩ : Node)

theorem costs_placeAll : ∀ steps : List Step, Costs (footprints steps) (placeAll steps)
  | [] => .pure []
  | s :: rest => by
    rw [footprints_cons]
    exact s.costs_place.bind fun n =>
      (costs_placeAll rest).bind fun nodes => .pure (n :: nodes)

/-- No record beside a node takes more than this. -/
theorem Regular.footprint_le {s : Step} (h : s.Regular) : s.footprint ≤ 43 := by
  cases h with
  | bare kind pc h => exact Nat.zero_le _
  | full kind r pc small => exact Nat.add_le_add_right small 31

/-- A regular step takes at most 43 bytes beside its node. -/
theorem footprints_le (steps : List Step) (regular : ∀ s ∈ steps, s.Regular) :
    footprints steps ≤ 43 * steps.length := by
  induction steps with
  | nil => exact Nat.le_refl _
  | cons s rest ih =>
    have head := (regular s (by simp)).footprint_le
    have tail := ih fun t ht => regular t (by simp [ht])
    rw [footprints_cons, List.length_cons]
    omega

end Step

namespace StepGroup

theorem costs_place (g : StepGroup) : Costs (Step.footprints g.steps) g.place := by
  unfold place steps
  have body := Step.costs_placeAll g.body
  cases g.lead with
  | none => exact body.bind fun all => .pure all
  | some lead =>
    refine (body.bind fun all => lead.costs_place.bind fun n => .pure (n :: all)).congr ?_
    simp only [Option.toList_some, List.singleton_append, Step.footprints_cons]
    omega

theorem costs_placeAll :
    ∀ groups : List StepGroup, Costs (Step.footprints (groups.flatMap steps)) (placeAll groups)
  | [] => .pure []
  | g :: rest => by
    rw [List.flatMap_cons, Step.footprints_append]
    exact g.costs_place.bind fun nodes =>
      (costs_placeAll rest).bind fun more => .pure (nodes ++ more)

end StepGroup

/-! ## Blocks

An emission is refused at the first record that does not fit. As all of them are taken one behind the
other, that happens exactly where their sum does not fit.
-/

namespace Block

variable {run : List Instruction} {last : Instruction}

/-- The bytes that the block of a run which ends with `last` takes: the node array, the records of the
steps, and the header. -/
def footprint (run : List Instruction) (last : Instruction) : Nat :=
  Arena.paddedSize (Record.nodeBytes * nodeCount run) + Step.footprints (steps run last) +
    Arena.paddedSize Record.headerBytes

/-- Emitting a run takes exactly its footprint. -/
theorem costs_emitRun (run : List Instruction) (first last : Instruction) :
    Costs (footprint run last) (emitRun run first last) := by
  have groups := StepGroup.costs_placeAll (groups 0 (SubBlock.partition run))
  have header (h : Header) : Costs (Arena.paddedSize Record.headerBytes) (Emit.put (.header h)) :=
    Costs.put (.header h)
  have all : Costs _ (emitRun run first last) :=
    (Costs.putNodes (nodeCount run)).bind fun nodes => groups.bind fun placed =>
      (finishStep last).costs_place.bind fun terminal =>
        (Costs.setNodes nodes (placed ++ [terminal])).bind fun _ => header _
  refine all.congr ?_
  rw [footprint, steps, Step.footprints_append, Step.footprints_cons, Step.footprints_nil]
  omega

/-- Where nothing is left, nothing is emitted. -/
theorem emitRun_of_full {first : Instruction} {a : Arena Record} (full : a.capacity ≤ a.used) :
    emitRun run first last a = (none, a) := by
  have none : Emit.putNodes (nodeCount run) a = (none, a) := by
    simp only [Emit.putNodes, Arena.putArray, Arena.allocAligned_of_le (Nat.le_add_right_of_le full)]
  rw [emitRun, Emit.bind_apply, none]

/-- **A run is emitted exactly where its footprint is less than what is left,** and takes just that. -/
theorem emit_cases (hlast : run.getLast? = some last) (a : Arena Record) :
    (a.used + footprint run last < a.capacity →
      ∃ ref b, emit run a = (some ref, b) ∧ b.used = a.used + footprint run last ∧
        b.capacity = a.capacity) ∧
    (a.capacity ≤ a.used + footprint run last → ∃ b, emit run a = (none, b)) := by
  obtain ⟨first, hfirst⟩ : ∃ first, run.head? = some first := by
    cases run with
    | nil => cases hlast
    | cons i rest => exact ⟨i, rfl⟩
  have emits : emit run a = emitRun run first last a := by simp only [emit, hfirst, hlast]
  rw [emits]
  rcases Nat.lt_or_ge a.used a.capacity with left | full
  · exact costs_emitRun run first last a left
  · exact ⟨fun room => absurd room (by omega), fun _ => ⟨a, emitRun_of_full full⟩⟩

/-- What was emitted took its footprint, and something is left. -/
theorem used_of_emit (hlast : run.getLast? = some last) {a b : Arena Record} {ref : Ref}
    (emitted : emit run a = (some ref, b)) :
    b.used = a.used + footprint run last ∧ b.used < b.capacity := by
  obtain ⟨fits, fails⟩ := emit_cases hlast a
  rcases Nat.lt_or_ge (a.used + footprint run last) a.capacity with room | full
  · obtain ⟨_, _, other, used, capacity⟩ := fits room
    obtain ⟨-, rfl⟩ := Prod.mk.inj (emitted.symm.trans other)
    exact ⟨used, by omega⟩
  · obtain ⟨_, other⟩ := fails full
    cases emitted.symm.trans other

/-! ## Bounds -/

/-- The room that surely suffices for a run: a node and a record for each step, and the header. -/
def roomFor (run : List Instruction) : Nat := 59 * nodeCount run + 78

theorem footprint_le_roomFor (run : List Instruction) (last : Instruction) :
    footprint run last ≤ roomFor run := by
  have records := Step.footprints_le (steps run last) (regular_steps run last)
  rw [length_steps] at records
  simp only [footprint, roomFor, Arena.paddedSize, Arena.alignment, Record.nodeBytes,
    Record.headerBytes]
  omega

/-- A run is emitted where there is room for it. -/
theorem emit_of_room (h : run ≠ []) {a : Arena Record} (room : a.used + roomFor run < a.capacity) :
    ∃ ref b, emit run a = (some ref, b) ∧ b.capacity = a.capacity := by
  have hlast : run.getLast? = some (run.getLast h) := List.getLast?_eq_some_getLast h
  have le := footprint_le_roomFor run (run.getLast h)
  obtain ⟨ref, b, emitted, -, capacity⟩ := (emit_cases hlast a).1 (by omega)
  exact ⟨ref, b, emitted, capacity⟩

/-! ## In an arena of any size

Emission asks how large the arena is only to see whether there is room. So a block comes out as if the
arena ended right behind it, which is far less than 2³² bytes from where it begins. -/

end Block

namespace Arena

variable {α : Type} {a b : Arena α} {capacity : Nat} {ref : Ref}

/-- The same arena with another end. -/
def endingAt (a : Arena α) (capacity : Nat) : Arena α := { a with capacity }

/-- An allocation that went through goes through in every arena that ends behind it. -/
theorem allocAligned_endingAt {size : Nat} (h : a.allocAligned size = (some ref, b))
    (room : b.used < capacity) :
    (a.endingAt capacity).allocAligned size = (some ref, b.endingAt capacity) := by
  obtain ⟨-, room', rfl⟩ := gives_of_allocAligned h
  rw [allocAligned_of_lt (show a.used + paddedSize size < a.capacity from room')] at h
  rw [allocAligned_of_lt (show (a.endingAt capacity).used + paddedSize size <
    (a.endingAt capacity).capacity from room)]
  rw [← (Prod.mk.inj h).1]
  rfl

theorem writeList_endingAt (ref : Ref) (size : Nat) (xs : List α) (capacity : Nat) :
    ∀ (a : Arena α) (i : Nat), (a.endingAt capacity).writeList ref size i xs =
      (a.writeList ref size i xs).endingAt capacity := by
  induction xs with
  | nil => intro a i; rfl
  | cons x rest ih => intro a i; exact ih (a.write ref size i x) (i + 1)

/-- So does putting a record. -/
theorem put_endingAt {size : Nat} {x : α} (h : a.put size x = (some ref, b))
    (room : b.used < capacity) :
    (a.endingAt capacity).put size x = (some ref, b.endingAt capacity) := by
  simp only [put] at h
  split at h
  · rename_i ref' c alloc
    simp only [Prod.mk.injEq, Option.some.injEq] at h
    obtain ⟨rfl, rfl⟩ := h
    rw [put, allocAligned_endingAt alloc room]
    rfl
  · exact absurd h (by simp)

/-- So does putting an array. -/
theorem putArray_endingAt {size count : Nat} {fill : α}
    (h : a.putArray size count fill = (some ref, b)) (room : b.used < capacity) :
    (a.endingAt capacity).putArray size count fill = (some ref, b.endingAt capacity) := by
  simp only [putArray] at h
  split at h
  · rename_i ref' c alloc
    simp only [Prod.mk.injEq, Option.some.injEq] at h
    obtain ⟨rfl, rfl⟩ := h
    rw [used_writeList] at room
    rw [putArray, allocAligned_endingAt alloc room]
    simp only [writeList_endingAt]
  · exact absurd h (by simp)

end Arena

namespace Emit

variable {α : Type}

/-- Where the emission succeeds, it takes nothing back, and comes out the same in every arena that ends
behind what it leaves. -/
def Resizes (x : Emit α) : Prop :=
  ∀ a b y, x a = (some y, b) → a.used ≤ b.used ∧
    ∀ capacity, b.used < capacity → x (a.endingAt capacity) = (some y, b.endingAt capacity)

/-- What goes through in larger and smaller arenas alike may be done one after the other. -/
theorem resizes_composes : Compositional fun _ x => Resizes x where
  pure x := by
    intro a b y eq
    obtain ⟨rfl, rfl⟩ := pure_eq_some eq
    exact ⟨Nat.le_refl _, fun capacity _ => rfl⟩
  bind {_ _ x f} hx hf := by
    intro a c z eq
    obtain ⟨y, b, first, second⟩ := bind_eq_some eq
    obtain ⟨used, same⟩ := hx a b y first
    obtain ⟨used', same'⟩ := hf y b c z second
    refine ⟨Nat.le_trans used used', fun capacity room => ?_⟩
    rw [bind_apply, same capacity (Nat.lt_of_le_of_lt used' room)]
    exact same' capacity room

theorem resizes_put (r : Record) : Resizes (put r) := by
  intro a b ref eq
  have grows := (Arena.put_eq_some eq (Nat.le_add_right a.capacity _) r.bytes_pos).1
  exact ⟨grows.used, fun _ room => Arena.put_endingAt eq room⟩

theorem resizes_putNodes (count : Nat) : Resizes (putNodes count) := by
  intro a b nodes eq
  have grows := (Arena.putArray_eq_some eq (Nat.le_add_right a.capacity _) (by decide)).1
  exact ⟨grows.used, fun _ room => Arena.putArray_endingAt eq room⟩

theorem resizes_setNodes (nodes : Ref) (filled : List Node) : Resizes (setNodes nodes filled) := by
  rintro a b ⟨⟩ eq
  obtain rfl := (Prod.mk.inj eq).2
  refine ⟨Nat.le_of_eq (Arena.used_writeList ..).symm, fun capacity _ => ?_⟩
  rw [setNodes, Arena.writeList_endingAt]

end Emit

namespace Block

/-- Emitting a run goes through in every arena that ends behind what it took. -/
theorem resizes_emitRun (run : List Instruction) (first last : Instruction) :
    Emit.Resizes (emitRun run first last) := by
  have composes := Emit.resizes_composes
  have beside : ∀ r : Record, r.bytes ≤ 12 → Emit.Resizes (Emit.put r) := fun r _ => Emit.resizes_put r
  exact composes.bind (Emit.resizes_putNodes _) fun nodes =>
    composes.bind (composes.placeGroups beside _ (regular_groups _ 0)) fun placed =>
      composes.bind (composes.place beside _ (.full _ _ _ (Nat.le_add_left 4 8))) fun terminal =>
        composes.bind (Emit.resizes_setNodes _ _) fun _ => Emit.resizes_put _

/-- What stands in an arena does so wherever it ends. -/
theorem At.of_endingAt {a : Arena Record} {capacity : Nat} {ref : Ref} {h : Header} {steps : List Step}
    (block : At (a.endingAt capacity) ref h steps) : At a ref h steps where
  header := block.header
  len := block.len
  nodes k s hs := by
    obtain ⟨n, stands, holds⟩ := block.nodes k s hs
    exact ⟨n, stands, holds.kind, holds.pc, holds.record⟩

/-- **A block stands wherever it was emitted,** however large the arena is. -/
theorem at_of_emit_anywhere {run : List Instruction} {a b : Arena Record} {ref : Ref}
    (h : emit run a = (some ref, b)) (hn : nodeCount run < 2 ^ 16) :
    ∃ first last nodes, run.head? = some first ∧ run.getLast? = some last ∧
      Block.At b ref (headerOf nodes run first last) (steps run last) := by
  have emitted := h
  unfold emit at h
  split at h
  · rename_i first last hfirst hlast
    obtain ⟨used, -⟩ := used_of_emit hlast emitted
    have few := footprint_le_roomFor run last
    unfold roomFor at few
    have small : (a.endingAt (b.used + 1)).capacity ≤ a.used + 2 ^ 32 := by
      show b.used + 1 ≤ a.used + 2 ^ 32
      omega
    have same := (resizes_emitRun run first last a b ref h).2 (b.used + 1) (Nat.lt_succ_self _)
    obtain ⟨-, -, nodes, block, -⟩ := stands_of_emitRun same small (Nat.le_refl a.used) hn
    exact ⟨first, last, nodes, hfirst, hlast, block.of_endingAt⟩
  · exact absurd h (by simp)

/-- Until 2³² bytes are handed out, all that stood there before still does. -/
theorem grows_of_emit {run : List Instruction} {a b : Arena Record} {ref : Ref}
    (h : emit run a = (some ref, b)) (hn : nodeCount run < 2 ^ 16) (reached : b.used < 2 ^ 32) :
    a.Grows b := by
  have capacity := capacity_of_emit h
  unfold emit at h
  split at h
  · rename_i first last hfirst hlast
    have small : (a.endingAt (b.used + 1)).capacity ≤ 0 + 2 ^ 32 := by
      show b.used + 1 ≤ 0 + 2 ^ 32
      omega
    have same := (resizes_emitRun run first last a b ref h).2 (b.used + 1) (Nat.lt_succ_self _)
    obtain ⟨grown, -⟩ := stands_of_emitRun same small (Nat.zero_le _) hn
    have kept := grown.grows (Nat.le_of_lt (Nat.lt_of_le_of_lt grown.used reached))
    exact ⟨capacity, kept.generation, kept.used, kept.cells⟩
  · exact absurd h (by simp)

/-! ## What instructions take -/

/-- The bytes of some steps, that of their nodes included. -/
def stepBytes (steps : List Step) : Nat := Record.nodeBytes * steps.length + Step.footprints steps

@[simp] theorem stepBytes_append (xs ys : List Step) :
    stepBytes (xs ++ ys) = stepBytes xs + stepBytes ys := by
  simp only [stepBytes, List.length_append, Step.footprints_append, Nat.mul_add]
  omega

/-- An instruction takes at most 91 bytes: three nodes and one record. -/
theorem stepBytes_instruction_le (i : Instruction) : stepBytes i.steps ≤ 91 := by
  have record : Arena.paddedSize i.action.op.recordBytes ≤ 43 :=
    Nat.add_le_add_right i.action.op.recordBytes_le 31
  have action : Step.footprint ⟨.action, some (.action i.action), i.pipelinePc⟩ ≤ 43 := record
  have bare (kind : NodeKind) : Step.footprint ⟨kind, none, i.pipelinePc⟩ = 0 := rfl
  unfold Instruction.steps stepBytes
  split <;> split <;>
    simp only [List.nil_append, List.cons_append, List.length_cons, List.length_nil,
      Step.footprints_cons, Step.footprints_nil, bare, Record.nodeBytes] <;>
    omega

/-- So many instructions take at most so many times that. -/
theorem stepBytes_instructions_le (is : List Instruction) :
    stepBytes (is.flatMap Instruction.steps) ≤ 91 * is.length := by
  induction is with
  | nil => exact Nat.le_refl _
  | cons i rest ih =>
    have head := stepBytes_instruction_le i
    rw [List.flatMap_cons, stepBytes_append, List.length_cons]
    omega

/-- A check is made for one instruction at least. -/
theorem stepBytes_group_le (b : SubBlock) (start : Nat) :
    stepBytes (b.group start).steps ≤ 144 * b.instructions.length := by
  have body := stepBytes_instructions_le b.instructions
  have one : 1 ≤ b.instructions.length := by simp [SubBlock.instructions]
  have lead (kind : NodeKind) (r : Record) (small : r.bytes ≤ 6) (pc : Word) :
      stepBytes [⟨kind, some r, pc⟩] ≤ 53 := by
    show 16 * 1 + (r.bytes + 31 + 0) ≤ 53
    omega
  rcases b.cond_cases with always | never | checked
  · rw [SubBlock.steps_group_of_always always]
    omega
  · have pass := lead .pass (.pass (BitVec.ofNat 16 b.size)) (Nat.le_add_left 2 4) b.first.pipelinePc
    rw [SubBlock.steps_group_of_never never]
    omega
  · have check := lead .check (.check b.cond
      (BitVec.ofNat 16 (start + 1 + (b.instructions.flatMap Instruction.steps).length))
      (BitVec.ofNat 16 b.size)) (Nat.le_refl 6) b.first.pipelinePc
    rw [SubBlock.steps_group_of_checked checked, ← List.singleton_append, stepBytes_append]
    omega

/-- With the checks of sub-blocks, of which there are at most as many as instructions, it is at most 144
bytes for each. -/
theorem stepBytes_groups_le (blocks : List SubBlock) :
    ∀ start, stepBytes ((groups start blocks).flatMap StepGroup.steps) ≤
      144 * (blocks.flatMap SubBlock.instructions).length := by
  induction blocks with
  | nil => exact fun _ => Nat.le_refl _
  | cons b rest ih =>
    intro start
    have head := stepBytes_group_le b start
    have tail := ih (start + b.nodeCount)
    rw [groups, List.flatMap_cons, stepBytes_append, List.flatMap_cons, List.length_append]
    omega

/-- So many bytes for each instruction, and so many for the terminal node, the header and the padding
of the node array. -/
theorem footprint_le (run : List Instruction) (last : Instruction) :
    footprint run last ≤ 144 * run.length + 129 := by
  have inner := stepBytes_groups_le (SubBlock.partition run) 0
  have terminal : stepBytes [finishStep last] = 51 := rfl
  have all : footprint run last = stepBytes (steps run last) + 78 := by
    simp only [footprint, stepBytes, length_steps, Arena.paddedSize, Arena.alignment,
      Record.headerBytes]
    omega
  rw [SubBlock.flatMap_instructions_partition] at inner
  rw [all, steps, stepBytes_append, terminal]
  omega

end Block

end ArmBlocks
