import ArmBlocks.Proofs.OneByOne
import ArmBlocks.Decode.Arm
import ArmBlocks.Proofs.Hooks

/-!
# Emitted blocks are well formed and end

A block that was emitted has as many nodes as were counted, each of them filled in with its record
beside it, and the last one continues behind the run (`Block.WellFormed`). A check continues at the
node behind its sub-block, so every node goes on forward and inside the block or leaves it, and
`Block.run` visits no node twice.

**The fuel of a walk never runs out, and none of its other ways out is taken.** `Block.walk` answers an
exit also where it runs past the end, finds no node or finds one without its record. `Block.Visits`
has no rule for these: it is a walk in which every node is there, filled in and handed out to its end,
and the last one leaves. The main result is `Block.wellFormed_of_emit`.

Where a step stands is worked out on steps, before any of it has a place (`Block.stepAt`); the arena
comes in only with `Block.At` and `Block.Inside`.
-/

set_option autoImplicit false

namespace ArmBlocks

open Guest (exec)

variable {σ : Type}

/-! ## Nodes and their records

What a node needs is settled by its kind: a record of the right sort, or none.
-/

namespace NodeKind

/-- Whether the kind of node does without a record. -/
def isBare : NodeKind → Bool
  | .showPc | .publish | .publishIfTrapped => true
  | _ => false

/-- Whether a record is one of this kind of node. A node that is not filled in has none. -/
def takes : NodeKind → Record → Bool
  | .action, .action _ | .check, .check .. | .pass, .pass _ | .finish, .finish _ => true
  | _, _ => false

end NodeKind

/-- A node that can be executed: it needs no record, or has one of its kind that is handed out to its
end. -/
def Node.Ready (a : Arena Record) (n : Node) : Prop :=
  n.kind.isBare = true ∨
    ∃ r, Block.data? a n = some r ∧ n.kind.takes r = true ∧ n.data.offset.toNat + r.bytes ≤ a.used

/-- A step with the record that its kind takes. -/
def Step.Complete (s : Step) : Prop :=
  s.kind.isBare = true ∨ ∃ r, s.record = some r ∧ s.kind.takes r = true

/-- The steps of an instruction have the records they need, and none of them is a check or an end. -/
theorem Instruction.complete_steps (i : Instruction) :
    ∀ s ∈ i.steps, s.Complete ∧ s.kind ≠ .check ∧ s.kind ≠ .finish := by
  intro s hs
  simp only [Instruction.steps, List.mem_append, List.mem_cons, List.mem_ite_nil_right,
    List.not_mem_nil, or_false] at hs
  rcases hs with ⟨-, rfl⟩ | rfl | ⟨-, rfl⟩
  · exact ⟨.inl rfl, by simp, by simp⟩
  · exact ⟨.inr ⟨_, rfl, rfl⟩, by simp, by simp⟩
  · rcases i.op.publishKind_eq with kind | kind
    · exact ⟨.inl (by rw [kind]; rfl), by simp [kind], by simp [kind]⟩
    · exact ⟨.inl (by rw [kind]; rfl), by simp [kind], by simp [kind]⟩

/-! ## Where the steps of a run stand

The number of a step is the number of nodes in front of it. Counting them sub-block by sub-block says
where each check stands, and where it continues.
-/

namespace SubBlock

theorem nodeCounts_append (before after : List SubBlock) :
    nodeCounts (before ++ after) = nodeCounts before + nodeCounts after := by
  induction before with
  | nil => simp [nodeCounts]
  | cons b rest ih =>
    rw [List.cons_append, nodeCounts, nodeCounts, ih, Nat.add_assoc]

/-- The check in front of a sub-block that starts at node `start`. -/
def check (b : SubBlock) (start : Nat) : Step :=
  ⟨.check, some (.check b.cond (BitVec.ofNat 16 (start + b.nodeCount)) (BitVec.ofNat 16 b.size)),
    b.first.pipelinePc⟩

/-- A step of a sub-block is its check, or passes over it, or is one of an instruction. -/
theorem step_cases (b : SubBlock) {start j : Nat} {s : Step}
    (h : (b.group start).steps[j]? = some s) :
    (b.IsChecked ∧ j = 0 ∧ s = b.check start) ∨
      (s.Complete ∧ s.kind ≠ .check ∧ s.kind ≠ .finish) := by
  have body : s ∈ b.instructions.flatMap Instruction.steps →
      s.Complete ∧ s.kind ≠ .check ∧ s.kind ≠ .finish := by
    intro mem
    obtain ⟨i, -, hi⟩ := List.mem_flatMap.mp mem
    exact i.complete_steps s hi
  rcases b.cond_cases with always | never | checked
  · rw [steps_group_of_always always start] at h
    exact .inr (body (List.mem_of_getElem? h))
  · rw [steps_group_of_never never start] at h
    obtain rfl := List.mem_singleton.mp (List.mem_of_getElem? h)
    exact .inr ⟨.inr ⟨_, rfl, rfl⟩, by simp, by simp⟩
  -- a sub-block that is checked has the check in front, and its target is behind the whole group
  · have count := b.length_steps_group start
    rw [steps_group_of_checked checked start] at h count
    cases j with
    | zero =>
      refine .inl ⟨checked, rfl, ?_⟩
      rw [check, ← count, List.length_cons, Nat.add_comm _ 1, ← Nat.add_assoc]
      exact (Option.some.inj h).symm
    | succ j => exact .inr (body (List.mem_of_getElem? (by simpa using h)))

end SubBlock

namespace Block

/-- Every step of some groups is one of a sub-block. -/
theorem exists_of_groups {blocks : List SubBlock} :
    ∀ {start k : Nat} {s : Step}, ((groups start blocks).flatMap StepGroup.steps)[k]? = some s →
      ∃ before b after j, blocks = before ++ b :: after ∧ k = SubBlock.nodeCounts before + j ∧
        (b.group (start + SubBlock.nodeCounts before)).steps[j]? = some s := by
  induction blocks with
  | nil => intro start k s h; exact absurd h (by simp [groups])
  | cons b rest ih =>
    intro start k s h
    rw [groups, List.flatMap_cons] at h
    rcases Nat.lt_or_ge k (b.group start).steps.length with first | later
    · rw [List.getElem?_append_left first] at h
      exact ⟨[], b, rest, k, rfl, (Nat.zero_add k).symm, h⟩
    · rw [List.getElem?_append_right later, SubBlock.length_steps_group] at h
      rw [SubBlock.length_steps_group] at later
      obtain ⟨before, c, after, j, split, place, found⟩ := ih h
      refine ⟨b :: before, c, after, j, by rw [split]; rfl, ?_, ?_⟩
      · rw [SubBlock.nodeCounts]
        omega
      · rw [SubBlock.nodeCounts, ← Nat.add_assoc]
        exact found

/-- What may stand at a place of a run that ends with `last`. -/
inductive StepAt (run : List Instruction) (last : Instruction) : Nat → Step → Prop where
  /-- A check, in front of its sub-block. -/
  | check {before after : List SubBlock} {b : SubBlock}
    (split : SubBlock.partition run = before ++ b :: after) :
    StepAt run last (SubBlock.nodeCounts before) (b.check (SubBlock.nodeCounts before))
  /-- A step that goes on or leaves. -/
  | plain {k : Nat} {s : Step} (complete : s.Complete) (no_check : s.kind ≠ .check)
    (inner : s.kind ≠ .finish) : StepAt run last k s
  /-- The terminal step, behind all the others. -/
  | finish : StepAt run last (SubBlock.nodeCounts (SubBlock.partition run)) (finishStep last)

/-- At each place of the steps there is a check with its sub-block behind it, a step of an instruction, or
the end in the last place. -/
theorem stepAt {run : List Instruction} {last : Instruction} {k : Nat} {s : Step}
    (h : (steps run last)[k]? = some s) : StepAt run last k s := by
  have count := length_steps_groups 0 (SubBlock.partition run)
  rw [steps] at h
  rcases Nat.lt_or_ge k ((groups 0 (SubBlock.partition run)).flatMap StepGroup.steps).length with
    inner | behind
  · rw [List.getElem?_append_left inner] at h
    obtain ⟨before, b, after, j, split, rfl, found⟩ := exists_of_groups h
    rw [Nat.zero_add] at found
    rcases b.step_cases found with ⟨-, rfl, rfl⟩ | ⟨complete, check, finish⟩
    · exact .check split
    · exact .plain complete check finish
  · rw [List.getElem?_append_right behind, List.getElem?_singleton] at h
    split at h
    · obtain rfl : finishStep last = s := Option.some.inj h
      obtain rfl : k = SubBlock.nodeCounts (SubBlock.partition run) := by omega
      exact .finish
    · cases h

theorem StepAt.complete {run : List Instruction} {last : Instruction} {k : Nat} {s : Step}
    (h : StepAt run last k s) : s.Complete := by
  cases h with
  | check split => exact .inr ⟨_, rfl, rfl⟩
  | plain complete _ _ => exact complete
  | finish => exact .inr ⟨_, rfl, rfl⟩

/-! ## Well formed blocks

A block of the arena has its steps at their places, so all of it is read off the steps; only that
records were handed out to their end is a fact about the arena.
-/

/-- A node is there, filled in, and handed out to its end with its record. -/
structure Filled (a : Arena Record) (h : Header) (k : Nat) (n : Node) : Prop where
  found : node? a h.nodes k = some n
  inside : Arena.position h.nodes Record.nodeBytes (k + 1) ≤ a.used
  ready : n.Ready a

/-- A check in front of a sub-block of the run: it continues at the node behind the sub-block, which
lies further on in the block, and takes a cycle for each of its instructions. -/
structure Skips (a : Arena Record) (run : List Instruction) (k : Nat) (n : Node) (b : SubBlock) :
    Prop where
  place : ∃ before after, SubBlock.partition run = before ++ b :: after ∧
    k = SubBlock.nodeCounts before
  record : ∃ target count, data? a n = some (.check b.cond target count) ∧
    target.toNat = k + b.nodeCount ∧ k < target.toNat ∧ target.toNat < nodeCount run ∧
    count.toNat = b.size

/-- At a reference stands a block of a run that ends with `last`, and all of it is as it should be. -/
structure WellFormed (a : Arena Record) (ref : Ref) (h : Header) (run : List Instruction)
    (last : Instruction) : Prop where
  header : header? a ref = some h ∧ ref.offset.toNat + Record.headerBytes ≤ a.used
  /-- The sixteen bits of the header hold the number of nodes. -/
  count : h.len.toNat = nodeCount run
  filled : ∀ k < nodeCount run, ∃ n, Filled a h k n
  terminal : ∀ k n, k + 1 = nodeCount run → node? a h.nodes k = some n →
    n.kind = .finish ∧ data? a n = some (.finish last.next)
  inner : ∀ k n, k + 1 < nodeCount run → node? a h.nodes k = some n → n.kind ≠ .finish
  checks : ∀ k n, k < nodeCount run → node? a h.nodes k = some n → n.kind = .check →
    ∃ b, Skips a run k n b

theorem one_le_nodeCounts (is : List Instruction) : is.length ≤ Instruction.nodeCounts is := by
  induction is with
  | nil => exact Nat.le_refl _
  | cons i rest ih =>
    rw [List.length_cons, Instruction.nodeCounts, Instruction.nodeCount]
    omega

/-- Every sub-block has a node. -/
theorem nodeCount_subBlock_pos (b : SubBlock) : 0 < b.nodeCount := by
  have body := one_le_nodeCounts b.instructions
  have one : 1 ≤ b.instructions.length := by simp [SubBlock.instructions]
  unfold SubBlock.nodeCount
  split
  · omega
  · omega
  · omega

/-- No sub-block has more instructions than the run. -/
theorem size_le_of_split {run : List Instruction} {before after : List SubBlock} {b : SubBlock}
    (split : SubBlock.partition run = before ++ b :: after) : b.size ≤ run.length := by
  have all := SubBlock.flatMap_instructions_partition run
  rw [split, List.flatMap_append, List.flatMap_cons] at all
  rw [← all, List.length_append, List.length_append, SubBlock.size, SubBlock.instructions,
    List.length_cons]
  omega

section Stands

variable {a : Arena Record} {ref : Ref} {h : Header} {run : List Instruction} {last : Instruction}

/-- What stands where a step does. -/
theorem At.node {steps : List Step} (block : Block.At a ref h steps) {k : Nat} {n : Node}
    (found : node? a h.nodes k = some n) {s : Step} (hs : steps[k]? = some s) : n.Holds a s := by
  obtain ⟨n', stands, holds⟩ := block.nodes k s hs
  obtain rfl : n = n' := Option.some.inj (found.symm.trans (node?_of_has stands))
  exact holds

/-- A check that stands in front of a sub-block goes to the node behind it, for a run of at most as many
instructions as a block may have. -/
theorem skips_of_check {before after : List SubBlock} {b : SubBlock}
    (split : SubBlock.partition run = before ++ b :: after) (short : run.length ≤ Config.maxBlock)
    {n : Node} (holds : n.Holds a (b.check (SubBlock.nodeCounts before))) :
    Skips a run (SubBlock.nodeCounts before) n b := by
  have count : nodeCount run =
      SubBlock.nodeCounts before + b.nodeCount + SubBlock.nodeCounts after + 1 := by
    rw [nodeCount, split, SubBlock.nodeCounts_append, SubBlock.nodeCounts]
    omega
  have fits := nodeCount_lt short
  have pos := nodeCount_subBlock_pos b
  have size := size_le_of_split split
  -- both numbers are written in sixteen bits, which hold them as the block is no longer than it may be
  have target : (BitVec.ofNat 16 (SubBlock.nodeCounts before + b.nodeCount)).toNat =
      SubBlock.nodeCounts before + b.nodeCount := by
    rw [BitVec.toNat_ofNat]
    exact Nat.mod_eq_of_lt (by omega)
  have number : (BitVec.ofNat 16 b.size).toNat = b.size := by
    rw [BitVec.toNat_ofNat]
    unfold Config.maxBlock at short
    exact Nat.mod_eq_of_lt (by omega)
  refine ⟨⟨before, after, split, rfl⟩, _, _, data?_of_has (holds.record _ rfl), target, ?_, ?_,
    number⟩
  · omega
  · omega

/-- A run of at most as many instructions as a block may have is well formed where it stands. -/
theorem wellFormed (block : Block.At a ref h (steps run last))
    (inside : Block.Inside a ref h (steps run last)) (short : run.length ≤ Config.maxBlock) :
    WellFormed a ref h run last := by
  have length := length_steps run last
  have step : ∀ k < nodeCount run, ∃ s, (steps run last)[k]? = some s ∧ StepAt run last k s :=
    fun k hk => by
      have some := List.getElem?_eq_getElem (show k < (steps run last).length by omega)
      exact ⟨_, some, stepAt some⟩
  have kind : ∀ k n s, node? a h.nodes k = some n → (steps run last)[k]? = some s →
      n.kind = s.kind := fun k n s found hs => (block.node found hs).kind
  -- every node holds its step, and the steps are known: what is said of a node is read off its step
  refine ⟨⟨block.header?_eq, inside.header⟩, block.len.trans length, fun k hk => ?_,
    fun k n hk found => ?_, fun k n hk found => ?_, fun k n hk found check => ?_⟩
  · obtain ⟨s, hs, place⟩ := step k hk
    obtain ⟨n, stands, holds⟩ := block.nodes k s hs
    refine ⟨n, node?_of_has stands, Nat.le_trans ?_ inside.array, ?_⟩
    · exact Nat.add_le_add_left (Nat.mul_le_mul_right _ (by omega)) _
    · rw [Node.Ready, holds.kind]
      rcases place.complete with bare | ⟨r, hr, takes⟩
      · exact .inl bare
      · exact .inr ⟨r, data?_of_has (holds.record r hr), takes, inside.records k s n r hs stands hr⟩
  · have hs : (steps run last)[k]? = some (finishStep last) := by
      have behind := length_steps_groups 0 (SubBlock.partition run)
      have place : k = ((groups 0 (SubBlock.partition run)).flatMap StepGroup.steps).length := by
        rw [nodeCount] at hk
        omega
      rw [steps, place, List.getElem?_concat_length]
    have holds := block.node found hs
    exact ⟨holds.kind, data?_of_has (holds.record _ rfl)⟩
  · obtain ⟨s, hs, place⟩ := step k (by omega)
    rw [kind k n s found hs]
    cases place with
    | check split => exact fun h => by cases h
    | plain _ _ inner => exact inner
    | finish => exact absurd hk (by simp [nodeCount])
  · obtain ⟨s, hs, place⟩ := step k hk
    rw [kind k n s found hs] at check
    cases place with
    | plain _ no_check _ => exact absurd check no_check
    | finish => cases check
    | check split => exact ⟨_, skips_of_check split short (block.node found hs)⟩

end Stands

/-! ## Running a well formed block

From every node a run goes on to a later one or leaves. So the nodes that it visits are in ascending
order, and it ends before the fuel does.
-/

/-- Running a block from node `i` on: the nodes that are visited, each of them inside the block and
filled in, how the last one leaves, and the machine it leaves. -/
inductive Visits (bus : Bus σ) (a : Arena Record) (h : Header) :
    Nat → Machine σ → List Nat → Exit → Machine σ → Prop where
  | leave {i : Nat} {n : Node} {m after : Machine σ} {exit : Exit} (inside : i < h.len.toNat)
    (filled : Filled a h i n)
    (leaves : exec (executeNode bus n.kind (data? a n) n.pc) m = (.leave exit, after)) :
    Visits bus a h i m [i] exit after
  | next {i : Nat} {n : Node} {m between after : Machine σ} {visited : List Nat} {exit : Exit}
    (inside : i < h.len.toNat) (filled : Filled a h i n)
    (goes : exec (executeNode bus n.kind (data? a n) n.pc) m = (.next, between))
    (rest : Visits bus a h (i + 1) between visited exit after) :
    Visits bus a h i m (i :: visited) exit after
  | jump {i : Nat} {n : Node} {m between after : Machine σ} {target : BitVec 16}
    {visited : List Nat} {exit : Exit} (inside : i < h.len.toNat) (filled : Filled a h i n)
    (jumps : exec (executeNode bus n.kind (data? a n) n.pc) m = (.jump target, between))
    (rest : Visits bus a h target.toNat between visited exit after) :
    Visits bus a h i m (i :: visited) exit after

/-- Such a run is the walk with enough fuel for the nodes. -/
theorem Visits.exec_walk {bus : Bus σ} {a : Arena Record} {h : Header} {i : Nat}
    {m after : Machine σ} {visited : List Nat} {exit : Exit}
    (run : Visits bus a h i m visited exit after) :
    ∀ {fuel : Nat}, visited.length ≤ fuel → exec (walk bus a h fuel i) m = (exit, after) := by
  induction run with
  | leave inside filled leaves =>
    rintro (_ | fuel) enough
    · exact absurd enough (by simp)
    · rw [walk, if_pos inside]
      simp only [filled.found]
      rw [Guest.exec_bind, leaves]
      rfl
  | next inside filled goes _ ih =>
    rintro (_ | fuel) enough
    · exact absurd enough (by simp)
    · rw [walk, if_pos inside]
      simp only [filled.found]
      rw [Guest.exec_bind, goes]
      exact ih (by simpa using enough)
  | jump inside filled jumps _ ih =>
    rintro (_ | fuel) enough
    · exact absurd enough (by simp)
    · rw [walk, if_pos inside]
      simp only [filled.found]
      rw [Guest.exec_bind, jumps]
      exact ih (by simpa using enough)

/-- Only a check jumps. -/
theorem straight_executeNode (bus : Bus σ) (record : Option Record) (pc : Word) {kind : NodeKind}
    (no_check : kind ≠ .check) (m : Machine σ) :
    (exec (executeNode bus kind record pc) m).1 = .next ∨
      ∃ exit, (exec (executeNode bus kind record pc) m).1 = .leave exit := by
  have early {x : Guest σ Continuation} (h : x.Continues) :
      (exec x m).1 = .next ∨ ∃ exit, (exec x m).1 = .leave exit :=
    (h m).imp_right fun left => ⟨.early, left⟩
  have publishes : Guest.Continues (publish : Guest σ Continuation) := .bind fun _ => .leave
  cases kind with
  | blank => exact early .leave
  | check => exact absurd rfl no_check
  | showPc => exact .inl rfl
  | publish => exact early publishes
  | publishIfTrapped => exact early (Guest.Continues.bind (x := get) fun _ => .ite publishes .next)
  | action =>
    -- a node whose record is not its own leaves as well, by breaking off
    rcases record with _ | r
    · exact .inr ⟨.broken, rfl⟩
    cases r
    case action x => exact early (x.continues_execute bus pc)
    all_goals exact .inr ⟨.broken, rfl⟩
  | pass =>
    rcases record with _ | r
    · exact .inr ⟨.broken, rfl⟩
    cases r
    case pass cycles => exact .inl rfl
    all_goals exact .inr ⟨.broken, rfl⟩
  | finish =>
    rcases record with _ | r
    · exact .inr ⟨.broken, rfl⟩
    cases r
    case finish next => exact .inr ⟨.atEnd, rfl⟩
    all_goals exact .inr ⟨.broken, rfl⟩

theorem leaves_executeNode_finish (bus : Bus σ) (record : Option Record) (pc : Word) (m : Machine σ) :
    ∃ exit, (exec (executeNode bus .finish record pc) m).1 = .leave exit := by
  rcases record with _ | r
  · exact ⟨.broken, rfl⟩
  · cases r with
    | finish next => exact ⟨.atEnd, rfl⟩
    | _ => exact ⟨.broken, rfl⟩

section Forward

variable {a : Arena Record} {ref : Ref} {h : Header} {run : List Instruction} {last : Instruction}

/-- Whether a block of so many nodes goes on forward and inside behind node `k`, if it goes on. -/
def Continuation.Forward (count k : Nat) : Continuation → Prop
  | .leave _ => True
  | .next => k + 1 < count
  | .jump target => k < target.toNat ∧ target.toNat < count

/-- A node goes on forward and inside of the block, or leaves it. -/
theorem WellFormed.forward (block : WellFormed a ref h run last) (bus : Bus σ) {k : Nat} {n : Node}
    (hk : k < nodeCount run) (filled : Filled a h k n) (m : Machine σ) :
    Continuation.Forward (nodeCount run) k
      (exec (executeNode bus n.kind (data? a n) n.pc) m).1 := by
  -- only the last node is an end
  have inner : n.kind ≠ .finish → k + 1 < nodeCount run := by
    intro other
    rcases Nat.lt_or_ge (k + 1) (nodeCount run) with lt | ge
    · exact lt
    · exact absurd (block.terminal k n (by omega) filled.found).1 other
  by_cases finish : n.kind = .finish
  · obtain ⟨exit, leaves⟩ := leaves_executeNode_finish bus (data? a n) n.pc m
    rw [finish, leaves]
    trivial
  by_cases check : n.kind = .check
  · obtain ⟨b, skips⟩ := block.checks k n hk filled.found check
    obtain ⟨target, count, record, -, ahead, inside, -⟩ := skips.record
    rw [check, record, executeNode, Guest.exec_bind, Guest.exec_cpu, Guest.exec_ite]
    by_cases holds : m.cpu.satisfies b.cond = true
    · rw [if_pos holds]
      exact inner finish
    · rw [if_neg holds]
      exact ⟨ahead, inside⟩
  · rcases straight_executeNode bus (data? a n) n.pc check m with next | ⟨exit, leaves⟩
    · rw [next]
      exact inner finish
    · rw [leaves]
      trivial

/-- From every node of a well formed block the run comes to its end, and only ever moves forward. -/
theorem WellFormed.visits_from (block : WellFormed a ref h run last) (bus : Bus σ) :
    ∀ (left k : Nat), k + left = nodeCount run → 0 < left → ∀ m : Machine σ,
      ∃ visited exit after, Visits bus a h k m visited exit after ∧ visited.Pairwise (· < ·) ∧
        (∀ j ∈ visited, k ≤ j) ∧ visited.length ≤ left := by
  intro left
  induction left using Nat.strongRecOn with
  | ind left ih =>
    intro k place pos m
    obtain ⟨n, filled⟩ := block.filled k (by omega)
    have inside : k < h.len.toNat := by
      rw [block.count]
      omega
    -- what is visited from a node further on is visited behind this one
    have behind : ∀ (target : Nat), k < target → target < nodeCount run → ∀ between : Machine σ,
        ∃ visited exit after, Visits bus a h target between visited exit after ∧
          (k :: visited).Pairwise (· < ·) ∧ (∀ j ∈ k :: visited, k ≤ j) ∧
          (k :: visited).length ≤ left := by
      intro target ahead last between
      obtain ⟨visited, exit, after, visits, sorted, later, few⟩ :=
        ih (nodeCount run - target) (by omega) target (by omega) (by omega) between
      have above : ∀ j ∈ visited, k < j := fun j hj => Nat.lt_of_lt_of_le ahead (later j hj)
      refine ⟨visited, exit, after, visits, List.pairwise_cons.mpr ⟨above, sorted⟩, ?_, ?_⟩
      · intro j hj
        rcases List.mem_cons.mp hj with rfl | hj
        · exact Nat.le_refl _
        · exact Nat.le_of_lt (above j hj)
      · rw [List.length_cons]
        omega
    have forward := block.forward bus (by omega : k < nodeCount run) filled m
    rcases does : exec (executeNode bus n.kind (data? a n) n.pc) m with
      ⟨_ | target | exit, between⟩
    · rw [does] at forward
      obtain ⟨visited, exit, after, visits, rest⟩ := behind (k + 1) (by omega) forward between
      exact ⟨_, exit, after, .next inside filled does visits, rest⟩
    · rw [does] at forward
      obtain ⟨visited, exit, after, visits, rest⟩ := behind target.toNat forward.1 forward.2 between
      exact ⟨_, exit, after, .jump inside filled does visits, rest⟩
    · refine ⟨[k], exit, between, .leave inside filled does, List.pairwise_singleton .., ?_, pos⟩
      intro j hj
      exact Nat.le_of_eq (List.mem_singleton.mp hj).symm

/-- So a walk through the block ends after as many nodes as it has, or fewer, which is within the fuel. -/
theorem WellFormed.visits (block : WellFormed a ref h run last) (bus : Bus σ) (m : Machine σ) :
    ∃ visited exit after, Visits bus a h 0 m visited exit after ∧ visited.Pairwise (· < ·) ∧
      exec (Block.run bus a h) m = (exit, after) := by
  obtain ⟨visited, exit, after, visits, sorted, -, few⟩ :=
    block.visits_from bus (nodeCount run) 0 (Nat.zero_add _) (Nat.succ_pos _) m
  refine ⟨visited, exit, after, visits, sorted, visits.exec_walk ?_⟩
  rw [block.count]
  exact few

end Forward

/-- **Emitted blocks are well formed and end.** Whatever run of at most as many instructions as a block
may have is emitted, the block is as counted, and running it on any machine visits each of its nodes
once at most until one of them leaves. -/
theorem wellFormed_of_emit {run : List Instruction} (short : run.length ≤ Config.maxBlock)
    {a b : Arena Record} (addressable : a.capacity ≤ 2 ^ 32) {ref : Ref}
    (emitted : emit run a = (some ref, b)) :
    ∃ last h, run.getLast? = some last ∧ WellFormed b ref h run last ∧
      ∀ {σ : Type} (bus : Bus σ) (m : Machine σ), ∃ visited exit after,
        Visits bus b h 0 m visited exit after ∧ visited.Pairwise (· < ·) ∧
        exec (Block.run bus b h) m = (exit, after) := by
  obtain ⟨first, last, nodes, -, hlast, -, block, inside⟩ :=
    stands_of_emit emitted addressable (nodeCount_lt short)
  have whole := wellFormed block inside short
  exact ⟨last, _, hlast, whole, fun bus m => whole.visits bus m⟩

/-- The block of these two has five nodes: the check and what it guards, the branch with the node that
publishes it, and the terminal one, which would continue at address 8. -/
theorem wellFormed_moveThenLoop :
    ∃ ref b last h, emit moveThenLoop scratchArena = (some ref, b) ∧ h.len = 5 ∧ last.next = 8 ∧
      WellFormed b ref h moveThenLoop last ∧
      ∃ visited exit after,
        Visits Bus.silent b h 0 (Machine.start (CpuState.new .arm7) ()) visited exit after ∧
        visited.Pairwise (· < ·) := by
  have room : scratchArena.used + roomFor moveThenLoop < scratchArena.capacity := by decide
  obtain ⟨ref, b, emitted, -⟩ := emit_of_room (List.cons_ne_nil _ _) room
  obtain ⟨last, h, hlast, whole, ends⟩ :=
    wellFormed_of_emit (by decide) isScratch_scratchArena.2 emitted
  obtain ⟨visited, exit, after, visits, sorted, -⟩ :=
    ends Bus.silent (Machine.start (CpuState.new .arm7) ())
  obtain rfl : Arm.decode .arm7 4 0xEAFFFFFE = last := Option.some.inj hlast
  have count : h.len.toNat = 5 := whole.count
  exact ⟨ref, b, _, h, emitted, BitVec.eq_of_toNat_eq count, by decide, whole, visited, exit, after,
    visits, sorted⟩

end Block

end ArmBlocks
