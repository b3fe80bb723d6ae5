import ArmBlocks.Proofs.ConditionFlags
import ArmBlocks.Proofs.OneByOne

/-!
# A condition that is looked at once

The instructions of a sub-block share one check of their condition, so it had better still hold when
the later ones of them are reached. Whether it does is decided by `partition`, which ends a sub-block
at an instruction that writes flags.

That goes by the account `Op.flagsWritten` gives, and the account leaves out writes to the top byte
of the status register. So the condition stays on all paths *if and only if* every such write that
is reached before the last instruction leaves flags under which it holds
(`conditionStays_iff`), and then one check is as good as one for each instruction
(`exec_perform_eq_each`). A run without such a write has nothing to ask for.
-/

set_option autoImplicit false

namespace ArmBlocks

open Guest (exec onward inOrder Keeps)

variable {σ : Type}

/-! ## What a sub-block is

All instructions of a sub-block have its condition, and none but the last writes a flag by its own
account.
-/

namespace SubBlock

/-- Instructions that may share a check: they have one condition, and after none but the last of
them it has to be looked at again. -/
structure Shares (cond : Condition) (is : List Instruction) : Prop where
  cond_eq : ∀ i ∈ is, i.cond = cond
  unsplit : ∀ i ∈ is.dropLast, splitsAfter i = false

theorem Shares.tail {cond : Condition} {i : Instruction} {rest : List Instruction}
    (h : Shares cond (i :: rest)) : Shares cond rest where
  cond_eq j hj := h.cond_eq j (List.mem_cons_of_mem i hj)
  unsplit j hj := by
    cases rest with
    | nil => exact absurd hj (by simp)
    | cons k more => exact h.unsplit j (List.mem_cons_of_mem i hj)

/-- The instructions of every sub-block of a run may share its check. -/
theorem shares_of_mem_partition (run : List Instruction) :
    ∀ b ∈ partition run, Shares b.cond b.instructions := by
  have single (i : Instruction) : Shares i.cond [i] :=
    ⟨fun j hj => by rw [List.mem_singleton.mp hj], fun j hj => absurd hj (by simp)⟩
  induction run with
  | nil => intro b hb; exact absurd hb (by simp [partition])
  | cons i rest ih =>
    intro b hb
    rw [partition] at hb
    -- the first instruction joins the sub-block behind it, or is one by itself
    split at hb
    · rename_i c cs eq
      have hc := ih c (by rw [eq]; exact List.mem_cons_self)
      split at hb
      · rename_i joins
        rcases List.mem_cons.mp hb with rfl | hb
        · refine ⟨fun j hj => ?_, fun j hj => ?_⟩
          · rcases List.mem_cons.mp hj with rfl | hj
            · rfl
            · exact (hc.cond_eq j hj).trans joins.1
          · rcases List.mem_cons.mp hj with rfl | hj
            · exact joins.2
            · exact hc.unsplit j hj
        · exact ih b (by rw [eq]; exact List.mem_cons_of_mem c hb)
      · rcases List.mem_cons.mp hb with rfl | hb
        · exact single i
        · exact ih b (by rw [eq]; exact hb)
    · obtain rfl := List.mem_singleton.mp hb
      exact single i

end SubBlock

namespace SubBlock

/-- The instructions of a sub-block are among those of the run. -/
theorem mem_of_mem_partition {run : List Instruction} {b : SubBlock} (cut : b ∈ partition run)
    {i : Instruction} (hi : i ∈ b.instructions) : i ∈ run := by
  rw [← flatMap_instructions_partition run]
  exact List.mem_flatMap.mpr ⟨b, cut, hi⟩

/-- A sub-block is not longer than the run. -/
theorem size_le {run : List Instruction} {b : SubBlock} (cut : b ∈ partition run) :
    b.size ≤ run.length := by
  have part := (List.sublist_flatten_of_mem (List.mem_map_of_mem (f := instructions) cut)).length_le
  rwa [← List.flatMap_def, flatMap_instructions_partition] at part

end SubBlock

/-! ## The flags after an instruction

An instruction that writes no flag by its own account keeps them all, if it goes on and is not the one
kind that the account overlooks; and that kind leaves the flags of its source.
-/

namespace Guest

variable {P : CpuState → Prop}

/-- Going through parts keeps what each of them keeps. -/
theorem Keeps.inOrder :
    ∀ {xs : List (Guest σ (Option Exit))}, (∀ x ∈ xs, Keeps P x) → Keeps P (inOrder xs)
  | [], _ => .pure
  | x :: rest, h => by
    refine .bind (h x (by simp)) fun left => ?_
    cases left with
    | some exit => exact .pure
    | none => exact Keeps.inOrder fun y hy => h y (List.mem_cons_of_mem x hy)

/-- Where the last action always leaves, so do all of them. -/
theorem inOrder_leaves (xs : List (Guest σ (Option Exit))) {x : Guest σ (Option Exit)}
    (h : ∀ m, (exec x m).1 ≠ none) (m : Machine σ) : (exec (inOrder (xs ++ [x])) m).1 ≠ none := by
  rw [exec_inOrder_append]
  rcases exec (inOrder xs) m with ⟨_ | exit, n⟩
  · have left := h n
    show (exec (inOrder [x]) n).1 ≠ none
    rw [exec_inOrder_cons]
    rcases hx : exec x n with ⟨_ | exit, k⟩
    · rw [hx] at left
      exact absurd rfl left
    · exact Option.some_ne_none exit
  · exact Option.some_ne_none exit

end Guest

theorem Step.keeps_perform {bus : Bus σ} {P : CpuState → Prop} {s : Step}
    (h : Keeps P (Block.executeNode bus s.kind s.record s.pc)) : Keeps P (s.perform bus) := by
  refine .bind h fun _ => ?_
  split
  · exact .pure
  · exact .pure

namespace Instruction

/-- An instruction that is counted as writing no flags, and does not write the top byte of the
status register, leaves them alone wherever something comes after it. -/
theorem flags_perform {bus : Bus σ} (hooks : bus.KeepsStatus) {i : Instruction}
    (unwritten : i.flagsWritten = .empty) (spared : i.op.writesFlagField = false)
    {m n : Machine σ} (h : exec (i.perform bus) m = (none, n)) : n.cpu.flags = m.cpu.flags := by
  by_cases stays : i.writesPc = false ∨ ∃ comment, i.op = .softwareInterrupt comment
  · have publish : Keeps (·.flags = m.cpu.flags) (Block.publish : Guest σ Continuation) :=
      .bind (.modifyCpu fun s hs => hs) fun _ => .pure
    have all : Keeps (·.flags = m.cpu.flags) (i.perform bus) := by
      refine .inOrder fun x hx => ?_
      obtain ⟨s, hs, rfl⟩ := List.mem_map.mp hx
      refine Step.keeps_perform ?_
      simp only [steps, List.mem_append, List.mem_cons, List.mem_ite_nil_right, List.not_mem_nil,
        or_false] at hs
      -- the counter is shown, the action done, the counter published
      rcases hs with ⟨-, rfl⟩ | rfl | ⟨-, rfl⟩
      · exact .bind (.modifyCpu fun s hs => hs) fun _ => .pure
      · exact i.action.keeps_execute hooks i.pipelinePc unwritten spared stays
      · rcases i.op.publishKind_eq with kind | kind
        · rw [kind]
          exact publish
        · rw [kind]
          exact .bind (.of_cpu_eq fun _ => rfl) fun _ => .ite (fun _ => publish) fun _ => .pure
    have kept := all m rfl
    rw [h] at kept
    exact kept
  · -- what writes the program counter and is no software interrupt never goes on
    rw [not_or] at stays
    have writes : i.writesPc = true := by simpa using stays.1
    have kind : i.op.publishKind = .publish := by
      unfold Op.publishKind
      split
      · rename_i comment hop
        exact absurd ⟨comment, hop⟩ stays.2
      · rfl
    have last : ∃ before, i.steps = before ++ [⟨.publish, none, i.pipelinePc⟩] := by
      unfold steps
      rw [if_pos writes, kind]
      exact ⟨_ ++ [_], by rw [List.append_assoc]; rfl⟩
    obtain ⟨before, eq⟩ := last
    have leaves := Guest.inOrder_leaves (before.map (Step.perform bus))
      (x := Step.perform bus ⟨.publish, none, i.pipelinePc⟩) (fun _ => Option.some_ne_none _) m
    rw [perform, eq, List.map_append] at h
    exact absurd (congrArg Prod.fst h) leaves

/-- An instruction that writes the top byte of the status register goes on, and leaves the flags of
the value it writes. -/
theorem flags_perform_writeStatus {bus : Bus σ} (hooks : bus.KeepsStatus) {i : Instruction}
    {fields : BitVec 4} {source : StatusSource} (hop : i.op = .writeStatus false fields source)
    (covered : fields.getLsbD 3 = true) (m : Machine σ) :
    ∃ n, exec (i.perform bus) m = (none, n) ∧
      n.cpu.flags = FlagSet.ofStatus (source.value m.cpu i.pipelinePc) := by
  have stays : i.writesPc = false := by
    rw [writesPc, hop]
    simp [Op.registersWritten, RegSet.has, Bits.test]
  have steps : i.steps = [⟨.action, some (.action i.action), i.pipelinePc⟩] := by
    simp [Instruction.steps, stays]
  have action : i.action.execute bus i.pipelinePc = (do
      Guest.spend i.action.cost
      Guest.writeStatus bus i.pipelinePc false fields source) := by
    unfold Action.execute
    rw [show i.action.op = _ from hop]
  have goes : (exec (i.action.execute bus i.pipelinePc) m).1 = .next := by
    rw [action]
    rfl
  have step : exec (Step.perform bus ⟨.action, some (.action i.action), i.pipelinePc⟩) m =
      (none, (exec (i.action.execute bus i.pipelinePc) m).2) := Step.exec_perform_of_next goes
  refine ⟨(exec (i.action.execute bus i.pipelinePc) m).2, ?_, ?_⟩
  · rw [perform, steps, List.map_singleton, Guest.exec_inOrder_cons, step]
    rfl
  · rw [action]
    show FlagSet.ofStatus (bus.statusChanged m.host _).1.cpsr = _
    rw [hooks.statusChanged]
    have written := m.cpu.flags_writeStatus (source.value m.cpu i.pipelinePc) fields
    rw [if_pos covered] at written
    exact written

end Instruction

/-! ## The condition on the way through a sub-block

Whether the condition still holds in front of an instruction is asked by induction on those before it:
each keeps the flags or is a write to the status register, after which the condition is that of its
source.
-/

namespace SubBlock

/-- Executing the instructions goes on, and leaves the machine as given. -/
def Reaches (bus : Bus σ) (is : List Instruction) (m n : Machine σ) : Prop :=
  exec (inOrder (is.map (Instruction.perform bus))) m = (none, n)

theorem reaches_nil (bus : Bus σ) (m n : Machine σ) : Reaches bus [] m n ↔ m = n := by
  simp [Reaches]

/-- Going through an instruction and others is going through it, and then the others. -/
theorem reaches_cons (bus : Bus σ) (i : Instruction) (is : List Instruction) (m n : Machine σ) :
    Reaches bus (i :: is) m n ↔
      ∃ k, exec (i.perform bus) m = (none, k) ∧ Reaches bus is k n := by
  unfold Reaches
  rw [List.map_cons, Guest.exec_inOrder_cons]
  rcases exec (i.perform bus) m with ⟨_ | exit, k⟩
  · simp [onward]
  · simp [onward]

/-- The condition holds before each of the instructions that is reached. -/
def ConditionStays (bus : Bus σ) (cond : Condition) (is : List Instruction) (m : Machine σ) :
    Prop :=
  ∀ (before : List Instruction) (i : Instruction) (after : List Instruction) (n : Machine σ),
    is = before ++ i :: after → Reaches bus before m n → n.cpu.satisfies cond = true

/-- Every write to the top byte of the status register that is reached, and has an instruction
behind it, writes flags under which the condition holds. -/
def WritesAgree (bus : Bus σ) (cond : Condition) (is : List Instruction) (m : Machine σ) : Prop :=
  ∀ (before : List Instruction) (i next : Instruction) (after : List Instruction) (n : Machine σ)
    (fields : BitVec 4) (source : StatusSource),
    is = before ++ i :: next :: after → Reaches bus before m n →
    i.op = .writeStatus false fields source → fields.getLsbD 3 = true →
    cond.holdsIn (FlagSet.ofStatus (source.value n.cpu i.pipelinePc)) = true

variable {bus : Bus σ} {cond : Condition} {i : Instruction} {is : List Instruction}
  {m n : Machine σ}

theorem ConditionStays.tail (h : ConditionStays bus cond (i :: is) m)
    (step : exec (i.perform bus) m = (none, n)) : ConditionStays bus cond is n := by
  intro before j after k eq reached
  refine h (i :: before) j after k (by rw [eq]; rfl) ?_
  exact (reaches_cons bus i before m k).mpr ⟨n, step, reached⟩

theorem WritesAgree.tail (h : WritesAgree bus cond (i :: is) m)
    (step : exec (i.perform bus) m = (none, n)) : WritesAgree bus cond is n := by
  intro before j next after k fields source eq reached hop covered
  refine h (i :: before) j next after k fields source (by rw [eq]; rfl) ?_ hop covered
  exact (reaches_cons bus i before m k).mpr ⟨n, step, reached⟩

/-- After an instruction that others of its sub-block follow, the condition holds as before, or
the instruction wrote the flags it holds under. -/
theorem satisfies_after {bus : Bus σ} (hooks : bus.KeepsStatus) {cond : Condition}
    (checked : cond ≠ .always) {i next : Instruction} {after : List Instruction}
    (shares : Shares cond (i :: next :: after)) {m n : Machine σ}
    (agree : WritesAgree bus cond (i :: next :: after) m) (holds : m.cpu.satisfies cond = true)
    (step : exec (i.perform bus) m = (none, n)) : n.cpu.satisfies cond = true := by
  rw [CpuState.satisfies_eq]
  -- a status write that covers the flags is the one instruction that the partition overlooks
  cases spared : i.op.writesFlagField with
  | true =>
    obtain ⟨fields, source, hop, covered⟩ : ∃ fields source,
        i.op = .writeStatus false fields source ∧ fields.getLsbD 3 = true := by
      unfold Op.writesFlagField at spared
      split at spared
      · rename_i fields source hop
        exact ⟨fields, source, hop, spared⟩
      · exact absurd spared (by simp)
    obtain ⟨k, step', flags⟩ := Instruction.flags_perform_writeStatus hooks hop covered m
    obtain rfl : k = n := congrArg Prod.snd (step'.symm.trans step)
    rw [flags]
    exact agree [] i next after m fields source rfl ((reaches_nil bus m m).mpr rfl) hop covered
  | false =>
    have unsplit := shares.unsplit i (by simp)
    have conditional : i.isUnconditional = false := by
      rw [Instruction.isUnconditional, shares.cond_eq i (by simp)]
      exact beq_eq_false_iff_ne.mpr checked
    have unwritten : i.flagsWritten = .empty := by
      rw [splitsAfter, conditional] at unsplit
      exact (FlagSet.isEmpty_iff _).mp (by simpa using unsplit)
    rw [Instruction.flags_perform hooks unwritten spared step, ← CpuState.satisfies_eq]
    exact holds

/-- The condition stays on the way through a sub-block exactly if the writes to the top byte of the
status register on that way agree with it. -/
theorem stays_iff_writesAgree (hooks : bus.KeepsStatus) (checked : cond ≠ .always) :
    ∀ {is : List Instruction} {m : Machine σ}, Shares cond is → m.cpu.satisfies cond = true →
      (ConditionStays bus cond is m ↔ WritesAgree bus cond is m) := by
  intro is m shares holds
  constructor
  -- the flags after such a write are its source, and the condition is asked next
  · intro stays before i next after n fields source eq reached hop covered
    obtain ⟨k, step, flags⟩ := Instruction.flags_perform_writeStatus hooks hop covered n
    have there : Reaches bus (before ++ [i]) m k := by
      unfold Reaches
      rw [List.map_append, Guest.exec_inOrder_append, reached]
      show exec (inOrder [i.perform bus]) n = (none, k)
      rw [Guest.exec_inOrder_cons, step]
      rfl
    have holds := stays (before ++ [i]) next after k (by rw [eq, List.append_assoc]; rfl) there
    rw [CpuState.satisfies_eq, flags] at holds
    exact holds
  · intro agree before i after n eq reached
    induction before generalizing is m with
    | nil =>
      obtain rfl := (reaches_nil bus m n).mp reached
      exact holds
    | cons j before ih =>
      obtain ⟨k, step, reached⟩ := (reaches_cons bus j before m n).mp reached
      obtain ⟨next, rest, more⟩ : ∃ next rest, before ++ i :: after = next :: rest := by
        cases before with
        | nil => exact ⟨i, after, rfl⟩
        | cons next rest => exact ⟨next, rest ++ i :: after, rfl⟩
      rw [List.cons_append, more] at eq
      subst eq
      exact ih shares.tail (satisfies_after hooks checked shares agree holds step)
        (agree.tail step) more.symm reached

end SubBlock

/-! ## One check, or one for each instruction

With the two facts together: what runs under one check runs under a check each exactly where no such
write turns the condition off.
-/

namespace SubBlock

variable {bus : Bus σ} {i : Instruction} {m : Machine σ}

/-- As long as the condition stays, looking at it before each instruction makes no difference. -/
theorem exec_performIf_of_stays {cond : Condition} (checked : cond ≠ .always ∧ cond ≠ .never) :
    ∀ {is : List Instruction} {m : Machine σ}, (∀ i ∈ is, i.cond = cond) →
      ConditionStays bus cond is m →
      exec (inOrder (is.map (Instruction.performIf bus))) m =
        exec (inOrder (is.map (Instruction.perform bus))) m := by
  intro is
  induction is with
  | nil => intro m _ _; rfl
  | cons i rest ih =>
    intro m same stays
    have here : m.cpu.satisfies i.cond = true := by
      rw [same i List.mem_cons_self]
      exact stays [] i rest m rfl ((reaches_nil bus m m).mpr rfl)
    have one : exec (i.performIf bus) m = exec (i.perform bus) m := by
      rw [exec_performIf_of_checked (by rw [same i List.mem_cons_self]; exact checked), if_pos here]
    rw [List.map_cons, List.map_cons, Guest.exec_inOrder_cons, Guest.exec_inOrder_cons, one]
    rcases step : exec (i.perform bus) m with ⟨_ | exit, n⟩
    · exact ih (fun j hj => same j (List.mem_cons_of_mem i hj)) (stays.tail step)
    · rfl

/-- **One check is enough, exactly if the writes to the flag field agree.** In a sub-block whose
condition holds when it starts, the condition still holds before each instruction that is reached if
and only if every reached write to the top byte of the status register, other than by the last
instruction, leaves flags under which it holds. Then looking at the condition once does the same as
looking at it before every instruction. -/
theorem conditionStays_iff (hooks : bus.KeepsStatus) {run : List Instruction} {b : SubBlock}
    (cut : b ∈ partition run) (checked : b.cond ≠ .always ∧ b.cond ≠ .never)
    (holds : m.cpu.satisfies b.cond = true) :
    (ConditionStays bus b.cond b.instructions m ↔ WritesAgree bus b.cond b.instructions m) ∧
      (WritesAgree bus b.cond b.instructions m →
        exec (b.perform bus) m =
          exec (inOrder (b.instructions.map (Instruction.performIf bus))) m) := by
  have shares := shares_of_mem_partition run b cut
  have exactly := stays_iff_writesAgree hooks checked.1 shares holds
  refine ⟨exactly, fun agree => ?_⟩
  rw [exec_perform_of_checked bus m checked, if_pos holds,
    exec_performIf_of_stays checked shares.cond_eq (exactly.mpr agree)]
  rfl

/-- `MSREQ CPSR_f, #0`, which clears the flag it is executed under. -/
def clearIfEqual : Instruction :=
  { cpu := .arm9, addr := 0, raw := 0x0328F000, thumb := false, cond := .equal
    op := .writeStatus false 8 (.imm 0) }

/-- `MOVEQ r0, #1` behind it. -/
def moveIfEqual : Instruction :=
  { cpu := .arm9, addr := 4, raw := 0x03A00001, thumb := false, cond := .equal
    op := .alu .mov false 0 0 (.imm 1 none) }

/-- The two share a check, and where the first is executed the condition of the second does not
hold when it is reached. -/
theorem not_conditionStays_clearIfEqual :
    ⟨clearIfEqual, [moveIfEqual]⟩ ∈ partition [clearIfEqual, moveIfEqual] ∧
      ¬ConditionStays Bus.silent .equal [clearIfEqual, moveIfEqual]
        (Machine.start { CpuState.new .arm9 with cpsr := 0x400000D3 } ()) := by
  have cut : (⟨clearIfEqual, [moveIfEqual]⟩ : SubBlock) ∈
      partition [clearIfEqual, moveIfEqual] := by decide
  refine ⟨cut, fun stays => ?_⟩
  have exactly := conditionStays_iff Bus.keepsStatus_silent cut
    (show Condition.equal ≠ .always ∧ Condition.equal ≠ .never by decide)
    (show (Machine.start { CpuState.new .arm9 with cpsr := 0x400000D3 } ()).cpu.satisfies .equal
      = true by decide)
  have agree := exactly.1.mp stays [] clearIfEqual moveIfEqual [] _ 8 (.imm 0) rfl
    ((reaches_nil Bus.silent _ _).mpr rfl) rfl rfl
  exact absurd agree (by decide)

end SubBlock

end ArmBlocks
