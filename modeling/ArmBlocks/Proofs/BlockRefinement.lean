import ArmBlocks.Proofs.Tracking
import ArmBlocks.Proofs.SubBlockCondition
import ArmBlocks.Proofs.Recording

/-!
# A block does what its instructions do one at a time

A block saves work: one check for several instructions, the next instruction written once at its
end, no look at the program counter in between. This module shows that nobody can tell. Running the
block of a run, and running each of its instructions as a block of its own until one leaves, come to
the same processor, the same host, the same cycles and the same notices
(`runsAsEach_of_emit`).

The proof goes in three steps, and each of them is about one of the savings.

1. A sub-block is its instructions under a check each (`exec_perform_eq_each`), since the condition
   stays on the way through it. This is where a conditional write to the flag field must be ruled
   out.
2. An instruction does the same in the middle of a block as at the start of its own
   (`Instruction.tracks_perform`), since it cannot see cycles and notices, and the address of the
   next instruction is written by whatever leaves.
3. The two runs go along each other, instruction by instruction (`summarizes_oneByOne`).
-/

set_option autoImplicit false

namespace ArmBlocks

open Guest (exec onward inOrder Tracks Leaving Nowhere Anywhere)

variable {σ : Type}

/-! ## An instruction in the middle of a block

An instruction behind another one finds the address of the next instruction as it was when the block
began, and run by itself it finds its own. It does not look at it before it has written it, except for
a software interrupt, which shows it to the host; that one is followed by itself.
-/

/-- The answers with which something that may leave has left. -/
def Guest.Left (r : Option Exit) : Prop := r ≠ none

open Guest (Left)

/-- Going through parts that each track goes on tracking, up to the first that leaves. -/
theorem Guest.Tracks.inOrder :
    ∀ {xs : List (Guest σ (Option Exit))}, (∀ x ∈ xs, Tracks Left x) → Tracks Left (inOrder xs)
  | [], _ => .pure fun h => h rfl
  | x :: rest, hx => by
    intro taken told before m n follows
    obtain ⟨same, follows⟩ := hx x List.mem_cons_self taken told before m n follows
    have others := Guest.Tracks.inOrder fun y hy => hx y (List.mem_cons_of_mem x hy)
    rw [Guest.exec_inOrder_cons, Guest.exec_inOrder_cons]
    rcases hm : exec x m with ⟨left, m'⟩
    rcases hn : exec x n with ⟨left', n'⟩
    rw [hm, hn] at same follows
    obtain rfl : left = left' := same
    cases left with
    | none =>
      refine others taken told before m' n' ⟨follows.cpu, follows.host, follows.cycles,
        follows.notices, fun h => follows.same (.inl h)⟩
    | some exit => exact ⟨rfl, follows⟩

/-- A step tracks as its node does, where that goes straight on or leaves. -/
theorem Step.tracks_perform {bus : Bus σ} {s : Step}
    (h : Tracks Leaving (Block.executeNode bus s.kind s.record s.pc))
    (straight : (Block.executeNode bus s.kind s.record s.pc).Continues) :
    Tracks Left (s.perform bus) := by
  intro taken told before m n follows
  obtain ⟨same, follows⟩ := h taken told before m n follows
  -- the two machines are at the same node, so they go on in the same way
  rcases straight n with next | leave
  · rw [Step.exec_perform_of_next next, Step.exec_perform_of_next (same.trans next)]
    refine ⟨rfl, follows.cpu, follows.host, follows.cycles, follows.notices, fun h => ?_⟩
    exact follows.same (.inl (h.resolve_right fun left => left rfl))
  · rw [Step.exec_perform_of_leave leave, Step.exec_perform_of_leave (same.trans leave)]
    exact ⟨rfl, follows.cpu, follows.host, follows.cycles, follows.notices,
      fun _ => follows.same (.inr leave)⟩

/-- Publishing the program counter makes it the next instruction, whatever that was before. -/
theorem Guest.tracks_setNext :
    Tracks Anywhere (Guest.modifyCpu fun s => { s with next := s.reg .pc } : Guest σ Unit) := by
  intro taken told before m n follows
  have same : ({ m.cpu with next := m.cpu.reg .pc } : CpuState) =
      { n.cpu with next := n.cpu.reg .pc } :=
    follows.cpu.eq (f := fun s : CpuState => ({ s with next := s.reg .pc } : CpuState))
      fun _ _ => rfl
  rw [Guest.exec_modifyCpu, Guest.exec_modifyCpu, same]
  exact ⟨rfl, .refl _, follows.host, follows.cycles, follows.notices, fun _ => rfl⟩

theorem Block.tracks_publish : Tracks Leaving (Block.publish : Guest σ Continuation) :=
  .bind_settled Guest.tracks_setNext fun _ => .pure id

namespace Guest

/-- A software interrupt with the node behind it: it leaves where the host did not handle it. -/
def interrupt (bus : Bus σ) (pc cost comment : Word) : Guest σ (Option Exit) := do
  let handled ← modifyGet fun m =>
    let (handled, cpu, host) := bus.softwareInterrupt m.host m.cpu comment
    (handled, { m with cpu, host })
  match handled with
  | some cycles =>
    spend (cycles.setWidth 32 + cost)
    modify fun m => { m with trapped := false }
    return none
  | none =>
    spend cost
    let s ← cpu
    enter bus .softwareInterrupt (s.addressOf pc + s.width)
    modify fun m => { m with trapped := true }
    modifyCpu fun s => { s with next := s.reg .pc }
    return some .early

/-- The hook of a software interrupt is asked with processors that differ in the next instruction only, and
it was promised not to notice. -/
theorem tracks_interrupt {bus : Bus σ} (hooks : bus.IgnoresNext) (pc cost comment : Word) :
    Tracks Left (interrupt bus pc cost comment) := by
  have remember (b : Bool) :
      Tracks Nowhere (modify fun m => { m with trapped := b } : Guest σ Unit) :=
    fun taken told before m n follows => ⟨rfl, follows.cpu, follows.host, follows.cycles,
      follows.notices, fun h => follows.same (h.resolve_right id)⟩
  refine .bind ?_ fun handled => ?_
  · intro taken told before m n follows
    obtain ⟨handled, host, cpu⟩ := hooks.softwareInterrupt m.host comment m.cpu n.cpu follows.cpu
    rw [follows.host] at handled host cpu
    rw [exec_modifyGet, exec_modifyGet, follows.host]
    refine ⟨handled, cpu, host, follows.cycles, follows.notices, fun h => ?_⟩
    show (bus.softwareInterrupt n.host m.cpu comment).2.1 = _
    rw [follows.same (h.resolve_right id)]
  · cases handled with
    | some cycles =>
      exact .bind .spend fun _ => .bind (remember false) fun _ => .pure fun h => h rfl
    | none =>
      exact .bind .spend fun _ => .look (fun _ _ => rfl) fun s =>
        .bind (tracks_enter hooks).weaken fun _ => .bind (remember true) fun _ =>
          .bind_settled tracks_setNext fun _ => .pure id

end Guest

namespace Instruction

/-- What a software interrupt comes to with the node behind it. -/
theorem exec_perform_softwareInterrupt (bus : Bus σ) {i : Instruction} {comment : Word}
    (hop : i.op = .softwareInterrupt comment) (m : Machine σ) :
    exec (i.perform bus) m =
      exec (Guest.interrupt bus i.pipelinePc i.action.cost comment) m := by
  have writes : i.writesPc = true := by
    rw [writesPc, hop, Op.registersWritten, RegSet.has_single]
    rfl
  have reads : i.readsPc = false := by
    rw [readsPc, hop]
    simp [Op.registersRead, RegSet.has, Bits.test]
  have steps : i.steps = [⟨.action, some (.action i.action), i.pipelinePc⟩,
      ⟨.publishIfTrapped, none, i.pipelinePc⟩] := by
    simp [Instruction.steps, writes, reads, hop, Op.publishKind]
  have action : i.action.execute bus i.pipelinePc =
      Guest.softwareInterrupt bus i.pipelinePc i.action.cost comment := by
    unfold Action.execute
    rw [show i.action.op = _ from hop]
  rw [perform, steps, List.map_cons, List.map_singleton, Guest.exec_inOrder_cons]
  rcases answer : bus.softwareInterrupt m.host m.cpu comment with ⟨_ | cycles, cpu, host⟩
  -- handled or not, the software interrupt itself goes on, and the node behind it decides
  all_goals
    have goes := @Step.exec_perform_of_next σ bus
      ⟨.action, some (.action i.action), i.pipelinePc⟩ m
    rw [Block.executeNode, action, Guest.softwareInterrupt, Guest.exec_bind, Guest.exec_modifyGet,
      answer] at goes
    rw [goes rfl]
    conv_rhs => rw [Guest.interrupt, Guest.exec_bind, Guest.exec_modifyGet, answer]
    rfl

/-- An instruction does the same wherever in a block it stands. -/
theorem tracks_perform {bus : Bus σ} (hooks : bus.IgnoresNext) (i : Instruction) :
    Tracks Left (i.perform bus) := by
  by_cases interrupts : ∃ comment, i.op = .softwareInterrupt comment
  · obtain ⟨comment, hop⟩ := interrupts
    rw [Guest.ext_exec (exec_perform_softwareInterrupt bus hop)]
    exact Guest.tracks_interrupt hooks _ _ comment
  · have ordinary : ∀ comment, i.action.op ≠ .softwareInterrupt comment :=
      fun comment hop => interrupts ⟨comment, hop⟩
    refine .inOrder fun x hx => ?_
    obtain ⟨s, hs, rfl⟩ := List.mem_map.mp hx
    refine Step.tracks_perform ?_ (Block.continues_step bus i s hs)
    simp only [steps, List.mem_append, List.mem_cons, List.mem_ite_nil_right, List.not_mem_nil,
      or_false] at hs
    rcases hs with ⟨-, rfl⟩ | rfl | ⟨-, rfl⟩
    · exact .bind (.modifyCpu (CpuState.blind_setReg .pc _)) fun _ => Guest.tracks_next
    · exact i.action.tracks_execute hooks i.pipelinePc ordinary
    · have kind : i.op.publishKind = .publish := by
        unfold Op.publishKind
        split
        · exact absurd ‹_› (ordinary _)
        · rfl
      rw [kind]
      exact Block.tracks_publish

/-- So does one whose condition is looked at. -/
theorem tracks_performIf {bus : Bus σ} (hooks : bus.IgnoresNext) (i : Instruction) :
    Tracks Left (i.performIf bus) := by
  have body : Tracks Left (SubBlock.body bus ⟨i, []⟩) := by
    rw [Guest.ext_exec (SubBlock.exec_body_single bus i)]
    exact i.tracks_perform hooks
  have skip : Tracks Left (SubBlock.skip ⟨i, []⟩ : Guest σ (Option Exit)) :=
    .bind .spend fun _ => .pure fun h => h rfl
  unfold performIf SubBlock.perform
  split
  · exact body
  · exact skip
  · exact .look (fun _ _ => rfl) fun _ => .ite body skip

end Instruction

/-! ## One check, or one for each instruction

A sub-block checks its condition once. That is the same as a check before each instruction where no
instruction in it changes the flags, and the partition sees to that but for one kind of operation.
-/

/-- No instruction of the run writes the top byte of the status register under a condition. -/
def Block.SparesFlagField (run : List Instruction) : Prop :=
  ∀ i ∈ run, i.cond ≠ .always → i.cond ≠ .never → i.op.writesFlagField = false

namespace SubBlock

variable {bus : Bus σ}

/-- Instructions that are all passed over take a cycle each. -/
theorem exec_performIf_of_skipped :
    ∀ {is : List Instruction} {m : Machine σ},
      (∀ i ∈ is, ∀ k, exec (i.performIf bus) (m.spend k) = (none, (m.spend k).spend 1)) →
      exec (inOrder (is.map (Instruction.performIf bus))) m =
        (none, m.spend (BitVec.ofNat 32 is.length)) := by
  intro is
  induction is with
  | nil =>
    intro m _
    rw [List.map_nil, Guest.exec_inOrder_nil, List.length_nil, Machine.spend, BitVec.add_zero]
  | cons i rest ih =>
    intro m skipped
    have first : exec (i.performIf bus) m = (none, m.spend 1) := by
      have h := skipped i List.mem_cons_self 0
      rwa [Machine.spend_zero] at h
    rw [List.map_cons, Guest.exec_inOrder_cons, first]
    show exec (inOrder (rest.map (Instruction.performIf bus))) (m.spend 1) = _
    rw [ih fun j hj k => ?_]
    · rw [Machine.spend_spend, List.length_cons, Nat.add_comm, BitVec.ofNat_add]
      rfl
    · have h := skipped j (List.mem_cons_of_mem i hj) (1 + k)
      rwa [← Machine.spend_spend] at h

/-- The cycles of a sub-block that is passed over are one for each instruction. -/
theorem exec_skip_of_short {b : SubBlock} (short : b.size < 2 ^ 16) (m : Machine σ) :
    exec b.skip m = (none, m.spend (BitVec.ofNat 32 b.instructions.length)) := by
  have count : (BitVec.ofNat 16 b.size).setWidth 32 = BitVec.ofNat 32 b.instructions.length := by
    rw [show b.instructions.length = b.size from rfl]
    apply BitVec.eq_of_toNat_eq
    simp only [BitVec.toNat_setWidth, BitVec.toNat_ofNat]
    omega
  rw [exec_skip, count]

/-- A sub-block is its instructions, each under its own check, unless one of them writes the top
byte of the status register under a condition. -/
theorem exec_perform_eq_each (hooks : bus.KeepsStatus) {run : List Instruction}
    (plain : Block.SparesFlagField run)
    {b : SubBlock} (cut : b ∈ partition run) (short : b.size < 2 ^ 16) (m : Machine σ) :
    exec (b.perform bus) m = exec (inOrder (b.instructions.map (Instruction.performIf bus))) m := by
  have shares := shares_of_mem_partition run b cut
  rcases b.cond_cases with always | never | checked
  · have each : b.instructions.map (Instruction.performIf bus) =
        b.instructions.map (Instruction.perform bus) := by
      refine List.map_congr_left fun i hi => Guest.ext_exec fun m => ?_
      exact exec_performIf_of_always ((shares.cond_eq i hi).trans always)
    rw [exec_perform_of_always bus m always, each]
    rfl
  · rw [exec_perform_of_never bus m never, exec_skip_of_short short, exec_performIf_of_skipped]
    intro i hi k
    exact exec_performIf_of_never ((shares.cond_eq i hi).trans never)
  · by_cases holds : m.cpu.satisfies b.cond = true
    · refine (conditionStays_iff hooks cut checked holds).2 ?_
      intro before i next after n fields source eq _ hop covered
      have hi : i ∈ b.instructions := by simp [eq]
      have spared := plain i (mem_of_mem_partition cut hi)
        (by rw [shares.cond_eq i hi]; exact checked.1) (by rw [shares.cond_eq i hi]; exact checked.2)
      rw [hop, Op.writesFlagField, covered] at spared
      exact absurd spared (by simp)
    · rw [exec_perform_of_checked bus m checked, if_neg holds, exec_skip_of_short short,
        exec_performIf_of_skipped]
      intro i hi k
      have cond := shares.cond_eq i hi
      rw [exec_performIf_of_checked (by rw [cond]; exact checked), cond]
      exact if_neg holds

end SubBlock

/-! ## The two runs go along each other

What a run came to is the sum of what its instructions came to: cycles and notices add up, and the
processor and the host are handed on. The induction is on the run, with the machine that the block has
reached on one side and the sum so far on the other.
-/

/-- What a machine that follows came to, against the outcome of the instructions by themselves. -/
structure Summarizes (m : Machine σ) (r : Option Exit × Machine σ) (o : Outcome σ) : Prop where
  exit : r.1.getD .atEnd = o.exit
  cpu : r.2.cpu.AgreeUpToNext o.cpu
  host : r.2.host = o.host
  cycles : r.2.cycles = m.cycles + o.cycles
  notices : r.2.notices = m.notices ++ o.notices
  same : r.1 ≠ none → r.2.cpu = o.cpu

/-- Instructions in the middle of a block come to what they come to by themselves. -/
theorem summarizes_oneByOne {bus : Bus σ} (hooks : bus.IgnoresNext) :
    ∀ (run : List Instruction) (m : Machine σ) (cpu : CpuState),
      m.cpu.AgreeUpToNext cpu →
      Summarizes m (exec (inOrder (run.map (Instruction.performIf bus))) m)
        (oneByOne bus run cpu m.host)
  | [], m, cpu, agree =>
    { exit := rfl
      cpu := agree
      host := rfl
      cycles := (BitVec.add_zero m.cycles).symm
      notices := (List.append_nil m.notices).symm
      same := fun h => absurd rfl h }
  | i :: rest, m, cpu, agree => by
    have follows : m.Follows m.cycles m.notices False (Machine.start cpu m.host) :=
      ⟨agree, rfl, (BitVec.add_zero m.cycles).symm, (List.append_nil m.notices).symm, False.elim⟩
    obtain ⟨same, follows⟩ := i.tracks_performIf hooks _ _ _ _ _ follows
    have early := i.leavesEarly_performIf bus (Machine.start cpu m.host)
    rw [List.map_cons, Guest.exec_inOrder_cons, oneByOne, Instruction.alone_eq]
    rcases hm : exec (i.performIf bus) m with ⟨left, m'⟩
    rcases hn : exec (i.performIf bus) (Machine.start cpu m.host) with ⟨left', n'⟩
    rw [hm, hn] at same follows
    rw [hn] at early
    obtain rfl : left = left' := same
    rcases early with rfl | rfl
    · have agree' : m'.cpu.AgreeUpToNext (n'.finish i).cpu := follows.cpu
      have others := summarizes_oneByOne hooks rest m' (n'.finish i).cpu agree'
      rw [show m'.host = (n'.finish i).host from follows.host] at others
      refine ⟨others.exit, others.cpu, others.host, ?_, ?_, others.same⟩
      · refine others.cycles.trans ?_
        rw [show m'.cycles = m.cycles + n'.cycles from follows.cycles, BitVec.add_assoc]
        rfl
      · refine others.notices.trans ?_
        rw [show m'.notices = m.notices ++ n'.notices from follows.notices, List.append_assoc]
        rfl
    · exact ⟨rfl, follows.cpu, follows.host, follows.cycles, follows.notices,
        fun _ => follows.same (.inr (Option.some_ne_none _))⟩

/-- Instructions that all went on leave the address behind the last of them. -/
theorem next_oneByOne (bus : Bus σ) :
    ∀ (run : List Instruction) (cpu : CpuState) (host : σ) {last : Instruction},
      run.getLast? = some last → (oneByOne bus run cpu host).exit = .atEnd →
      (oneByOne bus run cpu host).cpu.next = last.next
  | [], _, _, _, h, _ => by simp at h
  | i :: rest, cpu, host, last, h, ended => by
    have early := i.leavesEarly_performIf bus (Machine.start cpu host)
    rw [oneByOne, Instruction.alone_eq] at ended ⊢
    rcases hn : exec (i.performIf bus) (Machine.start cpu host) with ⟨left, n⟩
    rw [hn] at early ended
    rcases early with rfl | rfl
    · cases rest with
      | nil =>
        obtain rfl : i = last := by simpa using h
        rfl
      | cons j more =>
        have h' : (j :: more).getLast? = some last := by simpa using h
        exact next_oneByOne bus (j :: more) _ _ h' ended
    · cases ended

namespace Block

/-- Going through a run of sub-blocks is going through its instructions. -/
theorem exec_inOrder_partition {bus : Bus σ} (status : bus.KeepsStatus) {run : List Instruction}
    (short : run.length < 2 ^ 16) (plain : SparesFlagField run) (m : Machine σ) :
    exec (inOrder ((SubBlock.partition run).map (SubBlock.perform bus))) m =
      exec (inOrder (run.map (Instruction.performIf bus))) m := by
  have each : (SubBlock.partition run).map (SubBlock.perform bus) =
      (SubBlock.partition run).map
        fun b => inOrder (b.instructions.map (Instruction.performIf bus)) := by
    refine List.map_congr_left fun b cut => Guest.ext_exec fun m => ?_
    exact SubBlock.exec_perform_eq_each status plain cut
      (Nat.lt_of_le_of_lt (SubBlock.size_le cut) short) m
  rw [each, ← Guest.exec_inOrder_flatMap, ← List.map_flatMap,
    SubBlock.flatMap_instructions_partition]

/-- What a block came to is what its instructions came to. -/
structure ComesTo (r : Exit × Machine σ) (o : Outcome σ) : Prop where
  exit : r.1 = o.exit
  cpu : r.2.cpu = o.cpu
  host : r.2.host = o.host
  cycles : r.2.cycles = o.cycles
  notices : r.2.notices = o.notices

/-- Performing a run comes to what its instructions come to one at a time. -/
theorem comesTo_oneByOne {bus : Bus σ} (status : bus.KeepsStatus) (blind : bus.IgnoresNext)
    {run : List Instruction} (short : run.length < 2 ^ 16) (plain : SparesFlagField run)
    {last : Instruction} (hlast : run.getLast? = some last) (cpu : CpuState) (host : σ) :
    ComesTo (exec (perform bus (SubBlock.partition run) last) (Machine.start cpu host))
      (oneByOne bus run cpu host) := by
  have sums := summarizes_oneByOne blind run (Machine.start cpu host) cpu (.refl cpu)
  have next := next_oneByOne bus run cpu host hlast
  rw [exec_perform, exec_inOrder_partition status short plain]
  rcases h : exec (inOrder (run.map (Instruction.performIf bus))) (Machine.start cpu host) with
    ⟨left, n⟩
  rw [h] at sums
  have cycles : n.cycles = (oneByOne bus run cpu host).cycles :=
    sums.cycles.trans (BitVec.zero_add _)
  cases left with
  | none =>
    refine ⟨sums.exit, ?_, sums.host, cycles, sums.notices⟩
    show n.cpu.withNext last.next = _
    rw [sums.cpu.withNext last.next, ← next sums.exit.symm]
    rfl
  | some exit =>
    exact ⟨sums.exit, sums.same (Option.some_ne_none exit), sums.host, cycles, sums.notices⟩

/-! ## The emitted block -/

/-- Running the block with the given header comes to what emitting and running each instruction of
the run by itself comes to. -/
def RunsAsEach (bus : Bus σ) (arena : Arena Record) (h : Header) (scratch : Arena Record)
    (run : List Instruction) (cpu : CpuState) (host : σ) : Prop :=
  ∃ o, runEach bus scratch run cpu host = some o ∧
    ComesTo (exec (Block.run bus arena h) (Machine.start cpu host)) o

/-- **A block comes to what its instructions come to one at a time.** Wherever a run was emitted,
running its block leaves the processor, the host, the cycles, the notices and the way it ends that
running its instructions as blocks of their own leaves, up to the first that does not end in its
terminal node. So it is for the bus that logs every access and every call of a hook, so those
are the same and in the same order. -/
theorem runsAsEach_of_emit {bus : Bus σ} (status : bus.KeepsStatus) (blind : bus.IgnoresNext)
    {run : List Instruction} (bounded : run.length ≤ Config.maxBlock)
    (plain : SparesFlagField run) {a b : Arena Record} {ref : Ref}
    (emitted : emit run a = (some ref, b)) (addressable : a.capacity ≤ 2 ^ 32)
    {scratch : Arena Record} (ok : IsScratch scratch) (cpu : CpuState) (host : σ) :
    ∃ h, header? b ref = some h ∧ RunsAsEach bus b h scratch run cpu host ∧
      ∀ log, RunsAsEach (bus.recording (·.withNext 0)) b h scratch run cpu (host, log) := by
  obtain ⟨first, last, nodes, -, hlast, -, block⟩ :=
    at_of_emit emitted addressable (nodeCount_lt bounded)
  have short : run.length < 2 ^ 16 := by
    unfold Config.maxBlock at bounded
    omega
  refine ⟨_, block.header?_eq, ?_, fun log => ?_⟩
  · refine ⟨_, runEach_eq bus ok run cpu host, ?_⟩
    rw [run_eq_perform block]
    exact comesTo_oneByOne status blind short plain hlast cpu host
  · refine ⟨_, runEach_eq _ ok run cpu (host, log), ?_⟩
    rw [run_eq_perform block]
    exact comesTo_oneByOne (status.recording _) blind.recording short plain hlast cpu (host, log)

/-- Where the last result was zero, the block of a conditional move and a branch to itself moves and
branches as the two do by themselves. -/
theorem runsAsEach_moveThenLoop :
    let s := (CpuState.new .arm7).setFlag .zero true
    ∃ ref b h o, emit moveThenLoop scratchArena = (some ref, b) ∧ header? b ref = some h ∧
      runEach Bus.silent scratchArena moveThenLoop s () = some o ∧
      ComesTo (exec (Block.run Bus.silent b h) (Machine.start s ())) o ∧
      o.ran = 2 ∧ o.exit = .early ∧ o.cpu.reg 0 = 1 ∧ o.cpu.next = 4 := by
  intro s
  have room : scratchArena.used + roomFor moveThenLoop < scratchArena.capacity := by decide
  obtain ⟨ref, b, emitted, -⟩ := emit_of_room (List.cons_ne_nil _ _) room
  have plain : SparesFlagField moveThenLoop := by
    intro i hi _ _
    rcases List.mem_pair.mp hi with rfl | rfl
    · rfl
    · rfl
  obtain ⟨h, header, ⟨o, each, comes⟩, -⟩ := runsAsEach_of_emit Bus.keepsStatus_silent
    Bus.ignoresNext_silent (by decide) plain emitted isScratch_scratchArena.2 isScratch_scratchArena s ()
  obtain rfl : oneByOne Bus.silent moveThenLoop s () = o :=
    Option.some.inj ((runEach_eq Bus.silent isScratch_scratchArena moveThenLoop s ()).symm.trans each)
  exact ⟨ref, b, h, _, emitted, header, each, comes, by decide, by decide, by decide, by decide⟩

end Block

end ArmBlocks
