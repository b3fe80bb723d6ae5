import ArmBlocks.Proofs.Exec
import ArmBlocks.Proofs.Emission

/-!
# A block without its arena

`Block.walk` follows nodes through an arena by their numbers. What it *means* needs neither: the
sub-blocks of the run one after the other, each of them its instructions under one check, until
something leaves. That is `Block.perform`, a recursion on the run, and every property of running
code is proved of it.

The bridge is `Block.run_eq_perform`: wherever a block of a run stands, walking it is performing the
run. The fuel is no concern of it, because the walk only ever moves forward; and the target of a
check is exactly the node after its sub-block, which is why a check that fails continues with the
next one (`exec_walk_groups`, by induction on the sub-blocks still ahead).
-/

set_option autoImplicit false

namespace ArmBlocks

namespace Guest

variable {σ : Type}

/-- One action after the other, until one of them leaves the block. -/
def inOrder : List (Guest σ (Option Exit)) → Guest σ (Option Exit)
  | [] => return none
  | x :: rest => do
    match ← x with
    | some exit => return some exit
    | none => inOrder rest

/-- What comes after an action, unless that left. -/
def onward {α : Type} (left : Exit → α) (r : Option Exit × Machine σ)
    (k : Machine σ → α × Machine σ) : α × Machine σ :=
  match r with
  | (some exit, m) => (left exit, m)
  | (none, m) => k m

@[simp] theorem exec_inOrder_nil (m : Machine σ) :
    exec (inOrder [] : Guest σ (Option Exit)) m = (none, m) := rfl

theorem exec_inOrder_cons (x : Guest σ (Option Exit)) (rest : List (Guest σ (Option Exit)))
    (m : Machine σ) :
    exec (inOrder (x :: rest)) m = onward some (exec x m) (exec (inOrder rest)) := by
  rw [inOrder, exec_bind]
  rcases exec x m with ⟨_ | exit, n⟩
  · rfl
  · rfl

theorem onward_onward {α : Type} (left : Exit → α) (r : Option Exit × Machine σ)
    (k : Machine σ → Option Exit × Machine σ) (l : Machine σ → α × Machine σ) :
    onward left (onward some r k) l = onward left r fun m => onward left (k m) l := by
  rcases r with ⟨_ | exit, m⟩
  · rfl
  · rfl

theorem onward_some_none (r : Option Exit × Machine σ) : onward some r (none, ·) = r := by
  rcases r with ⟨_ | exit, m⟩
  · rfl
  · rfl

/-- Going through parts and others behind them is going through the first, and then the others if none of
them left. -/
theorem exec_inOrder_append (xs ys : List (Guest σ (Option Exit))) :
    ∀ m, exec (inOrder (xs ++ ys)) m = onward some (exec (inOrder xs) m) (exec (inOrder ys)) := by
  induction xs with
  | nil => intro m; rfl
  | cons x rest ih =>
    intro m
    rw [List.cons_append, exec_inOrder_cons, exec_inOrder_cons, onward_onward]
    congr 1
    funext n
    exact ih n

/-- Groups of actions in order are the actions of all groups in order. -/
theorem exec_inOrder_flatMap {β : Type} (f : β → List (Guest σ (Option Exit))) (bs : List β) :
    ∀ m, exec (inOrder (bs.flatMap f)) m = exec (inOrder (bs.map fun b => inOrder (f b))) m := by
  induction bs with
  | nil => intro m; rfl
  | cons b rest ih =>
    intro m
    rw [List.flatMap_cons, exec_inOrder_append, List.map_cons, exec_inOrder_cons]
    congr 1
    funext n
    exact ih n

end Guest

open Guest (exec onward inOrder)

variable {σ : Type}

/-- Executes a step for which the block goes on behind it or is left. -/
def Step.perform (bus : Bus σ) (s : Step) : Guest σ (Option Exit) := do
  match ← Block.executeNode bus s.kind s.record s.pc with
  | .leave exit => return some exit
  | _ => return none

/-- Executes an instruction with what keeps r15 in step with it, whatever its condition. -/
def Instruction.perform (bus : Bus σ) (i : Instruction) : Guest σ (Option Exit) :=
  inOrder (i.steps.map (Step.perform bus))

/-- Takes the cycles of a sub-block that is passed over. -/
def SubBlock.skip (b : SubBlock) : Guest σ (Option Exit) := do
  Guest.spend ((BitVec.ofNat 16 b.size).setWidth 32)
  return none

/-- Executes the instructions of a sub-block, whatever its condition. -/
def SubBlock.body (bus : Bus σ) (b : SubBlock) : Guest σ (Option Exit) :=
  inOrder (b.instructions.map (Instruction.perform bus))

/-- Executes a sub-block, looking at its condition once. -/
def SubBlock.perform (bus : Bus σ) (b : SubBlock) : Guest σ (Option Exit) := do
  match b.cond with
  | .always => b.body bus
  | .never => b.skip
  | cond => if (← Guest.cpu).satisfies cond then b.body bus else b.skip

/-- Executes the sub-blocks of a run that ends with `last`. -/
def Block.perform (bus : Bus σ) (blocks : List SubBlock) (last : Instruction) : Guest σ Exit := do
  match ← inOrder (blocks.map (SubBlock.perform bus)) with
  | some exit => return exit
  | none =>
    Guest.modifyCpu fun s => { s with next := last.next }
    return .atEnd

namespace SubBlock

/-- Whether the condition has to be looked at. -/
def IsChecked (b : SubBlock) : Prop := b.cond ≠ .always ∧ b.cond ≠ .never

theorem cond_cases (b : SubBlock) : b.cond = .always ∨ b.cond = .never ∨ b.IsChecked := by
  by_cases always : b.cond = .always
  · exact .inl always
  · by_cases never : b.cond = .never
    · exact .inr (.inl never)
    · exact .inr (.inr ⟨always, never⟩)

/-- A run begins with a sub-block of its first instruction. That either stands alone, or it joined the
first sub-block of the rest, which has the same condition. -/
theorem partition_cons (i : Instruction) (rest : List Instruction) :
    partition (i :: rest) = ⟨i, []⟩ :: partition rest ∨
      ∃ b bs, partition rest = b :: bs ∧ b.cond = i.cond ∧
        partition (i :: rest) = ⟨i, b.instructions⟩ :: bs := by
  rw [partition]
  rcases partition rest with _ | ⟨b, bs⟩
  · exact .inl rfl
  · dsimp only
    split
    · rename_i joins
      exact .inr ⟨b, bs, rfl, joins.1, rfl⟩
    · exact .inl rfl

variable {b : SubBlock} (bus : Bus σ) (m : Machine σ)

theorem exec_perform_of_always (h : b.cond = .always) :
    exec (b.perform bus) m = exec (b.body bus) m := by
  rw [perform, h]

theorem exec_perform_of_never (h : b.cond = .never) :
    exec (b.perform bus) m = exec b.skip m := by
  rw [perform, h]

/-- A sub-block with a check is gone through or passed over. -/
theorem exec_perform_of_checked (h : b.IsChecked) :
    exec (b.perform bus) m =
      if m.cpu.satisfies b.cond then exec (b.body bus) m else exec b.skip m := by
  unfold perform
  split
  · exact absurd ‹b.cond = .always› h.1
  · exact absurd ‹b.cond = .never› h.2
  · rw [Guest.exec_bind, Guest.exec_ite, Guest.exec_cpu]

theorem steps_group_of_always (h : b.cond = .always) (start : Nat) :
    (b.group start).steps = b.instructions.flatMap Instruction.steps := by
  rw [group, h]
  rfl

theorem steps_group_of_never (h : b.cond = .never) (start : Nat) :
    (b.group start).steps =
      [⟨.pass, some (.pass (BitVec.ofNat 16 b.size)), b.first.pipelinePc⟩] := by
  rw [group, h]
  rfl

/-- The steps of a sub-block under a condition: the check, and behind it the instructions. -/
theorem steps_group_of_checked (h : b.IsChecked) (start : Nat) :
    (b.group start).steps =
      ⟨.check,
        some (.check b.cond
          (BitVec.ofNat 16 (start + 1 + (b.instructions.flatMap Instruction.steps).length))
          (BitVec.ofNat 16 b.size)),
        b.first.pipelinePc⟩ :: b.instructions.flatMap Instruction.steps := by
  unfold group
  split
  · exact absurd ‹b.cond = .always› h.1
  · exact absurd ‹b.cond = .never› h.2
  · rfl

end SubBlock

/-- The end of a block: what follows it in memory is next. -/
def Machine.finish (m : Machine σ) (last : Instruction) : Machine σ :=
  { m with cpu := { m.cpu with next := last.next } }

/-- A block is its sub-blocks, and its end if none of them leaves. -/
theorem Block.exec_perform (bus : Bus σ) (blocks : List SubBlock) (last : Instruction)
    (m : Machine σ) :
    exec (Block.perform bus blocks last) m =
      onward id (exec (inOrder (blocks.map (SubBlock.perform bus))) m)
        fun m => (.atEnd, m.finish last) := by
  rw [Block.perform, Guest.exec_bind]
  rcases exec (inOrder (blocks.map (SubBlock.perform bus))) m with ⟨_ | exit, n⟩
  · rfl
  · rfl

theorem Step.exec_perform_of_next {bus : Bus σ} {s : Step} {m : Machine σ}
    (h : (exec (Block.executeNode bus s.kind s.record s.pc) m).1 = .next) :
    exec (s.perform bus) m = (none, (exec (Block.executeNode bus s.kind s.record s.pc) m).2) := by
  rw [Step.perform, Guest.exec_bind, h]
  rfl

theorem Step.exec_perform_of_leave {bus : Bus σ} {s : Step} {m : Machine σ} {exit : Exit}
    (h : (exec (Block.executeNode bus s.kind s.record s.pc) m).1 = .leave exit) :
    exec (s.perform bus) m =
      (some exit, (exec (Block.executeNode bus s.kind s.record s.pc) m).2) := by
  rw [Step.perform, Guest.exec_bind, h]
  rfl

/-! ## One instruction

Three steps at most: r15 is shown, the action is executed, r15 is published. The first and the last
only occur where the instruction reads or writes r15.
-/

/-- The machine that the action of an instruction starts on. Where r15 is both read and written it is
brought up to date first. -/
def Machine.shown (m : Machine σ) (i : Instruction) : Machine σ :=
  if i.readsPc && i.writesPc then { m with cpu := m.cpu.setReg .pc i.pipelinePc } else m

theorem Machine.host_shown (m : Machine σ) (i : Instruction) : (m.shown i).host = m.host := by
  unfold shown
  split <;> rfl

theorem Machine.cycles_shown (m : Machine σ) (i : Instruction) : (m.shown i).cycles = m.cycles := by
  unfold shown
  split <;> rfl

theorem Machine.shown_of_stays (m : Machine σ) {i : Instruction} (stays : i.writesPc = false) :
    m.shown i = m := by
  unfold shown
  rw [stays, Bool.and_false]
  rfl

namespace Instruction

variable {bus : Bus σ} {i : Instruction} {m n : Machine σ}

/-- An instruction is its action, after its own address was shown and before it is published where it went,
if either is needed. -/
theorem exec_perform (bus : Bus σ) (i : Instruction) (m : Machine σ) :
    exec (i.perform bus) m =
      onward some (exec (Step.perform bus ⟨.action, some (.action i.action), i.pipelinePc⟩) (m.shown i))
        fun n => if i.writesPc then exec (Step.perform bus ⟨i.op.publishKind, none, i.pipelinePc⟩) n
          else (none, n) := by
  have shows : exec (inOrder ((if i.readsPc && i.writesPc then
      [(⟨.showPc, none, i.pipelinePc⟩ : Step)] else []).map (Step.perform bus))) m =
        (none, m.shown i) := by
    unfold Machine.shown
    split <;> rfl
  have publishes (n : Machine σ) : exec (inOrder ((if i.writesPc then
      [(⟨i.op.publishKind, none, i.pipelinePc⟩ : Step)] else []).map (Step.perform bus))) n =
        if i.writesPc then exec (Step.perform bus ⟨i.op.publishKind, none, i.pipelinePc⟩) n
          else (none, n) := by
    split
    · rw [List.map_singleton, Guest.exec_inOrder_cons]
      exact Guest.onward_some_none _
    · rfl
  rw [perform, steps, List.map_append, List.map_cons, Guest.exec_inOrder_append, shows, onward,
    Guest.exec_inOrder_cons]
  congr 1
  funext n
  exact publishes n

theorem exec_perform_of_leave {exit : Exit}
    (h : exec (i.action.execute bus i.pipelinePc) (m.shown i) = (.leave exit, n)) :
    exec (i.perform bus) m = (some exit, n) := by
  have step := @Step.exec_perform_of_leave _ bus ⟨.action, some (.action i.action), i.pipelinePc⟩
    (m.shown i) exit (congrArg Prod.fst h)
  rw [exec_perform, step, onward]
  exact congrArg _ (congrArg Prod.snd h)

/-- What is left once its action went on is to publish. -/
theorem exec_perform_of_next
    (h : exec (i.action.execute bus i.pipelinePc) (m.shown i) = (.next, n)) :
    exec (i.perform bus) m =
      if i.writesPc then exec (Step.perform bus ⟨i.op.publishKind, none, i.pipelinePc⟩) n
      else (none, n) := by
  have step := @Step.exec_perform_of_next _ bus ⟨.action, some (.action i.action), i.pipelinePc⟩
    (m.shown i) (congrArg Prod.fst h)
  have left : (exec (Block.executeNode bus .action (some (.action i.action)) i.pipelinePc)
      (m.shown i)).2 = n := congrArg Prod.snd h
  rw [exec_perform, step, onward, left]

/-- An instruction that leaves r15 alone is its action. -/
theorem exec_perform_of_stays (stays : i.writesPc = false)
    (h : exec (i.action.execute bus i.pipelinePc) m = (.next, n)) :
    exec (i.perform bus) m = (none, n) := by
  rw [← m.shown_of_stays stays] at h
  rw [exec_perform_of_next h, stays]
  rfl

end Instruction

/-! ## Walking a block

A walk is cut at the nodes where a sub-block begins. In between it goes straight on, so the nodes of a
sub-block are its steps in order; and a check that fails continues exactly behind them.
-/

namespace Block

/-- The record that a node holds is the one of its step, wherever a step needs a record. -/
theorem executeNode_of_holds (bus : Bus σ) {a : Arena Record} {n : Node} {s : Step}
    (h : n.Holds a s) (regular : s.Regular) :
    executeNode bus n.kind (data? a n) n.pc = executeNode bus s.kind s.record s.pc := by
  rw [h.kind, h.pc]
  cases regular with
  | full kind r pc _ =>
    rw [data?_of_has (h.record r rfl)]
  | bare kind pc bare =>
    rcases bare with rfl | rfl | rfl
    · rfl
    · rfl
    · rfl

/-- What happens at a node and after it. -/
def goOn (bus : Bus σ) (a : Arena Record) (h : Header) (fuel i : Nat)
    (r : Continuation × Machine σ) : Exit × Machine σ :=
  match r.1 with
  | .next => exec (walk bus a h fuel (i + 1)) r.2
  | .jump target => exec (walk bus a h fuel target.toNat) r.2
  | .leave exit => (exit, r.2)

section Walk

variable {bus : Bus σ} {a : Arena Record} {ref : Ref} {h : Header} {steps : List Step}
  (block : Block.At a ref h steps) (regular : ∀ s ∈ steps, s.Regular)

include block regular

/-- A walk at a node with its record beside it executes the step that was placed there. -/
theorem exec_walk_of_step {i : Nat} {s : Step} {rest : List Step} (ahead : steps.drop i = s :: rest)
    (fuel : Nat) (m : Machine σ) :
    exec (walk bus a h (fuel + 1) i) m =
      goOn bus a h fuel i (exec (executeNode bus s.kind s.record s.pc) m) := by
  have hs : steps[i]? = some s := by
    have first := congrArg (·[0]?) ahead
    simpa [List.getElem?_drop] using first
  have hi : i < h.len.toNat := by
    rw [block.len]
    exact (List.getElem?_eq_some_iff.mp hs).1
  obtain ⟨n, stands, holds⟩ := block.nodes i s hs
  -- the block has the node in its array, and nothing was written over it
  have node : node? a h.nodes i = some n := node?_of_has stands
  have same := executeNode_of_holds bus holds (regular s (List.mem_of_getElem? hs))
  rw [walk, if_pos hi]
  simp only [node, same]
  rw [Guest.exec_bind, goOn]
  rcases exec (executeNode bus s.kind s.record s.pc) m with ⟨_ | target | exit, m'⟩
  · rfl
  · rfl
  · rfl

/-- Steps that only go on or leave are walked in order. -/
theorem exec_walk_straight :
    ∀ (body post : List Step) (i fuel : Nat) (m : Machine σ), steps.drop i = body ++ post →
      (∀ s ∈ body, (executeNode bus s.kind s.record s.pc).Continues) →
      exec (walk bus a h (body.length + fuel) i) m =
        onward id (exec (inOrder (body.map (Step.perform bus))) m)
          (exec (walk bus a h fuel (i + body.length)))
  | [], post, i, fuel, m, _, _ => by
    rw [List.length_nil, Nat.zero_add]
    rfl
  | s :: rest, post, i, fuel, m, ahead, straight => by
    have ahead' : steps.drop (i + 1) = rest ++ post := by
      rw [← List.tail_drop, ahead]
      rfl
    have tail := exec_walk_straight rest post (i + 1) fuel
      (exec (executeNode bus s.kind s.record s.pc) m).2 ahead' fun t ht => straight t (by simp [ht])
    have length : (s :: rest).length + fuel = rest.length + fuel + 1 := by
      simp only [List.length_cons]
      omega
    have place : i + (s :: rest).length = i + 1 + rest.length := by
      simp only [List.length_cons]
      omega
    rw [length, place, exec_walk_of_step block regular ahead, List.map_cons,
      Guest.exec_inOrder_cons, Guest.onward_onward, goOn]
    rcases straight s (by simp) m with next | leave
    · rw [next, Step.exec_perform_of_next next]
      exact tail
    · rw [leave, Step.exec_perform_of_leave leave]
      rfl

end Walk

/-- The steps of an instruction never jump. -/
theorem continues_step (bus : Bus σ) (i : Instruction) :
    ∀ s ∈ i.steps, (executeNode bus s.kind s.record s.pc).Continues := by
  have publish : Guest.Continues (publish : Guest σ Continuation) := .bind fun _ => .leave
  intro s hs
  simp only [Instruction.steps, List.mem_append, List.mem_cons, List.mem_ite_nil_right,
    List.not_mem_nil, or_false] at hs
  rcases hs with ⟨-, rfl⟩ | rfl | ⟨-, rfl⟩
  · exact .bind fun _ => .next
  · exact i.action.continues_execute bus i.pipelinePc
  · rcases i.op.publishKind_eq with kind | kind
    · rw [kind]
      exact publish
    · rw [kind]
      exact .bind fun _ => .ite publish .next

/-- The steps of the instructions of a sub-block, in order, are its instructions in order. -/
theorem exec_inOrder_body (bus : Bus σ) (is : List Instruction) (m : Machine σ) :
    exec (inOrder ((is.flatMap Instruction.steps).map (Step.perform bus))) m =
      exec (inOrder (is.map (Instruction.perform bus))) m := by
  rw [List.map_flatMap, Guest.exec_inOrder_flatMap]
  rfl

section Groups

variable {bus : Bus σ} {a : Arena Record} {ref : Ref} {h : Header} {steps : List Step}
  (block : Block.At a ref h steps) (regular : ∀ s ∈ steps, s.Regular)
  (short : steps.length < 2 ^ 16)

include block regular

variable (bus) in
/-- The instructions of a sub-block are walked in order. -/
theorem exec_walk_body (is : List Instruction) (post : List Step) (i fuel : Nat) (m : Machine σ)
    (ahead : steps.drop i = is.flatMap Instruction.steps ++ post) :
    exec (walk bus a h ((is.flatMap Instruction.steps).length + fuel) i) m =
      onward id (exec (inOrder (is.map (Instruction.perform bus))) m)
        (exec (walk bus a h fuel (i + (is.flatMap Instruction.steps).length))) := by
  have straight : ∀ s ∈ is.flatMap Instruction.steps,
      (executeNode bus s.kind s.record s.pc).Continues := by
    intro s hs
    obtain ⟨j, -, hj⟩ := List.mem_flatMap.mp hs
    exact continues_step bus j s hj
  rw [exec_walk_straight block regular _ post i fuel m ahead straight, exec_inOrder_body]

include short

/-- Walking the nodes of a sub-block is performing it. A check that fails leaves more fuel than the
instructions would have, so what follows is given as what any fuel from `fuel` on comes to. -/
theorem exec_walk_group (b : SubBlock) (post : List Step) (start fuel : Nat) (m : Machine σ)
    (ahead : steps.drop start = (b.group start).steps ++ post) {k : Machine σ → Exit × Machine σ}
    (follow : ∀ more, fuel ≤ more → ∀ n, exec (walk bus a h more (start + b.nodeCount)) n = k n) :
    exec (walk bus a h (b.nodeCount + fuel) start) m = onward id (exec (b.perform bus) m) k := by
  have count := b.length_steps_group start
  have enough : exec (walk bus a h fuel (start + b.nodeCount)) = k :=
    funext (follow fuel (Nat.le_refl fuel))
  rcases b.cond_cases with always | never | checked
  · rw [SubBlock.steps_group_of_always always start] at ahead count
    rw [SubBlock.exec_perform_of_always bus m always, ← count,
      exec_walk_body bus block regular b.instructions post start fuel m ahead, count, enough]
    rfl
  · rw [SubBlock.steps_group_of_never never start] at ahead count
    have one : b.nodeCount = 1 := count.symm
    rw [one] at enough
    rw [SubBlock.exec_perform_of_never bus m never, one, Nat.add_comm 1 fuel,
      exec_walk_of_step block regular ahead]
    exact congrFun enough _
  · have straight := exec_walk_body bus block regular b.instructions post (start + 1) fuel m
    rw [SubBlock.steps_group_of_checked checked start] at ahead count
    rw [SubBlock.exec_perform_of_checked bus m checked, SubBlock.body]
    generalize b.instructions.flatMap Instruction.steps = body at ahead count straight
    have after : start + b.nodeCount = start + 1 + body.length := by
      simp only [List.length_cons] at count
      omega
    have inside : start + 1 + body.length < 2 ^ 16 := by
      have long := congrArg List.length ahead
      simp only [List.length_drop, List.length_append, List.length_cons] at long
      omega
    -- where a failed check goes on is written in sixteen bits, which hold every place in the block
    have target : (BitVec.ofNat 16 (start + 1 + body.length)).toNat = start + 1 + body.length := by
      rw [BitVec.toNat_ofNat]
      exact Nat.mod_eq_of_lt inside
    have ahead' : steps.drop (start + 1) = body ++ post := by
      rw [← List.tail_drop, ahead]
      rfl
    rw [after] at follow enough
    rw [← count, List.length_cons, Nat.add_right_comm, exec_walk_of_step block regular ahead,
      executeNode, Guest.exec_bind, Guest.exec_ite, Guest.exec_cpu]
    split
    · rw [← enough]
      exact straight ahead'
    · show exec (walk bus a h _ (BitVec.ofNat 16 (start + 1 + body.length)).toNat) _ = _
      rw [target]
      exact follow _ (Nat.le_add_left ..) _

/-- Walking the nodes of the sub-blocks still ahead is performing them. -/
theorem exec_walk_groups (last : Instruction) (blocks : List SubBlock) :
    ∀ (start fuel : Nat) (m : Machine σ),
      steps.drop start = (groups start blocks).flatMap StepGroup.steps ++ [finishStep last] →
      SubBlock.nodeCounts blocks + 1 ≤ fuel →
      exec (walk bus a h fuel start) m = exec (perform bus blocks last) m := by
  induction blocks with
  | nil =>
    intro start fuel m ahead enough
    obtain ⟨fuel, rfl⟩ := Nat.exists_eq_add_of_le' enough
    rw [show fuel + (SubBlock.nodeCounts [] + 1) = fuel + 1 from rfl,
      exec_walk_of_step block regular ahead]
    rfl
  | cons b rest ih =>
    intro start fuel m ahead enough
    rw [groups, List.flatMap_cons, List.append_assoc] at ahead
    rw [SubBlock.nodeCounts] at enough
    obtain ⟨more, rfl⟩ : ∃ more, fuel = b.nodeCount + more :=
      ⟨fuel - b.nodeCount, by omega⟩
    have ahead' : steps.drop (start + b.nodeCount) =
        (groups (start + b.nodeCount) rest).flatMap StepGroup.steps ++ [finishStep last] := by
      rw [← List.drop_drop, ahead, ← b.length_steps_group start, List.drop_left]
    -- a sub-block that is passed over takes less fuel, so that the rest is known for any larger amount
    have follow : ∀ fuel, more ≤ fuel → ∀ n,
        exec (walk bus a h fuel (start + b.nodeCount)) n = exec (perform bus rest last) n :=
      fun fuel le n => ih _ fuel n ahead' (by omega)
    rw [exec_walk_group block regular short b _ start more m ahead follow, exec_perform,
      List.map_cons, Guest.exec_inOrder_cons, Guest.onward_onward]
    congr 1
    funext n
    exact exec_perform bus rest last n

end Groups

/-- Wherever a block of a run stands, running it is performing the run. -/
theorem run_eq_perform {bus : Bus σ} {a : Arena Record} {ref : Ref} {h : Header}
    {run : List Instruction} {last : Instruction} (block : Block.At a ref h (steps run last))
    (m : Machine σ) :
    exec (Block.run bus a h) m = exec (perform bus (SubBlock.partition run) last) m := by
  have short : (steps run last).length < 2 ^ 16 := by
    rw [← block.len]
    exact h.len.isLt
  refine exec_walk_groups block (regular_steps run last) short last _ 0 _ m rfl ?_
  rw [block.len, length_steps]
  exact Nat.le_refl _

end Block

/-! ## How a block is left

An instruction leaves early, and the end of a block is the node behind all of them. No node that holds
its step breaks a run off.
-/

namespace Guest

/-- An action that can only leave early. -/
def LeavesEarly (x : Guest σ (Option Exit)) : Prop :=
  ∀ m, (exec x m).1 = none ∨ (exec x m).1 = some .early

/-- Parts that leave early if they leave make a whole that does. -/
theorem LeavesEarly.inOrder :
    ∀ {xs : List (Guest σ (Option Exit))}, (∀ x ∈ xs, LeavesEarly x) → LeavesEarly (inOrder xs)
  | [], _, _ => .inl rfl
  | x :: rest, hx, m => by
    rw [exec_inOrder_cons]
    have others := LeavesEarly.inOrder fun y hy => hx y (List.mem_cons_of_mem x hy)
    rcases hx x List.mem_cons_self m with next | leave
    · rcases h : exec x m with ⟨left, n⟩
      rw [h] at next
      obtain rfl : left = none := next
      exact others n
    · rcases h : exec x m with ⟨left, n⟩
      rw [h] at leave
      obtain rfl : left = some .early := leave
      exact .inr rfl

end Guest

/-- An instruction that leaves its block leaves it early. -/
theorem Instruction.leavesEarly_perform (bus : Bus σ) (i : Instruction) :
    Guest.LeavesEarly (i.perform bus) := by
  refine .inOrder fun x hx => ?_
  obtain ⟨s, hs, rfl⟩ := List.mem_map.mp hx
  intro m
  rcases Block.continues_step bus i s hs m with next | leave
  · exact .inl (congrArg Prod.fst (Step.exec_perform_of_next next))
  · exact .inr (congrArg Prod.fst (Step.exec_perform_of_leave leave))

/-- So does a sub-block. -/
theorem SubBlock.leavesEarly_perform (bus : Bus σ) (b : SubBlock) :
    Guest.LeavesEarly (b.perform bus) := by
  have whole : Guest.LeavesEarly (b.body bus) := by
    refine .inOrder fun x hx => ?_
    obtain ⟨i, -, rfl⟩ := List.mem_map.mp hx
    exact i.leavesEarly_perform bus
  intro m
  rcases b.cond_cases with always | never | checked
  · rw [exec_perform_of_always bus m always]
    exact whole m
  · rw [exec_perform_of_never bus m never]
    exact .inl rfl
  · rw [exec_perform_of_checked bus m checked]
    split
    · exact whole m
    · exact .inl rfl

namespace Block

/-- Going through a run never comes to anything that is not said. -/
theorem perform_ne_broken (bus : Bus σ) (blocks : List SubBlock) (last : Instruction)
    (m : Machine σ) : (exec (perform bus blocks last) m).1 ≠ .broken := by
  have early : Guest.LeavesEarly (inOrder (blocks.map (SubBlock.perform bus))) := by
    refine .inOrder fun x hx => ?_
    obtain ⟨b, -, rfl⟩ := List.mem_map.mp hx
    exact b.leavesEarly_perform bus
  have left := early m
  rw [exec_perform]
  rcases ran : exec (inOrder (blocks.map (SubBlock.perform bus))) m with ⟨exit?, n⟩
  rw [ran] at left
  rcases left with rfl | rfl
  · exact Exit.noConfusion
  · exact Exit.noConfusion

/-- **A block that stands is not broken.** It is left early or at its end, on every machine. -/
theorem run_ne_broken {bus : Bus σ} {a : Arena Record} {ref : Ref} {h : Header}
    {run : List Instruction} {last : Instruction} (block : Block.At a ref h (steps run last))
    (m : Machine σ) : (exec (Block.run bus a h) m).1 ≠ .broken := by
  rw [run_eq_perform block]
  exact perform_ne_broken bus _ last m

end Block

end ArmBlocks
