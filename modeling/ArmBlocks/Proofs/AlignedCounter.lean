import ArmBlocks.Proofs.AlignedTargets
import ArmBlocks.Proofs.StandingBlocks
import ArmBlocks.Proofs.WrittenOver

/-!
# The program counter stays aligned

A call of the engine that finds the next instruction aligned leaves it aligned, to the instruction set
in force afterwards (`Engine.aligns_turn`). Every instruction of a block lands where an instruction can
stand or goes on in the instruction set of the block, so what is left is the end of a block: the
address behind its last instruction, which was settled when the block was compiled.

**The cache may hold blocks that start at odd addresses.** An embedder may have asked for one, and it
stays. So nothing is said of where a block starts, only that its end is as well aligned as its start
(`CodeCache.InStep`), and a block is found by the address it starts at. Once more than 2³² bytes were
handed out in a cache, the end that is read may be that of another block. That, and a hook that moves
r15 while it shows the next instruction, is why two things are asked for (`Engine.not_aligns_turn`).
-/

set_option autoImplicit false

namespace ArmBlocks

open Guest (Ensures Arrives Follows exec inOrder)
open CodeCache (prepare)

variable {σ : Type}

/-! ## Running a block

From the single action up to the block the same is said each time: what is on course and goes on stays
on course, and what leaves is aligned. A block that goes to its end writes the address behind its last
instruction, which is where the hypothesis on standing blocks comes in (`Block.Header.InStep`).
-/

namespace Guest.Ensures

variable {P R Q : CpuState → Prop}

theorem cons {x : Guest σ (Option Exit)} {rest : List (Guest σ (Option Exit))}
    (hx : Ensures P x (Follows R)) (hrest : Ensures R (inOrder rest) (Follows Q)) :
    Ensures P (inOrder (x :: rest)) (Follows Q) := by
  refine .bind hx fun left => ?_
  cases left with
  | none => exact hrest
  | some exit => exact .pure fun _ h => h

theorem all {xs : List (Guest σ (Option Exit))} (h : ∀ x ∈ xs, Ensures P x (Follows P)) :
    Ensures P (inOrder xs) (Follows P) := by
  induction xs with
  | nil => exact .pure fun _ h => h
  | cons x rest ih =>
    exact .cons (h x List.mem_cons_self) (ih fun y hy => h y (List.mem_cons_of_mem x hy))

end Guest.Ensures

/-- What the node of a step arrives at is what the step follows with, wherever the node says to go on. -/
theorem Step.ensures_perform {bus : Bus σ} {s : Step} {P Q : CpuState → Prop}
    (h : Ensures P (Block.executeNode bus s.kind s.record s.pc) (Arrives Q)) :
    Ensures P (s.perform bus) (Follows Q) := by
  refine .bind h fun after => ?_
  cases after with
  | leave exit => exact .pure fun _ h => h
  | next => exact .pure fun _ h => h
  | jump target => exact .pure fun _ h => h

section Performing

variable {bus : Bus σ} (hooks : bus.KeepsCourse) (vectors : bus.AlignsVectors) {thumb : Bool}

include hooks vectors

/-- Where an instruction wrote r15, the node behind it publishes that. -/
theorem Instruction.ensures_perform (i : Instruction) :
    Ensures (CpuState.OnCourse thumb false) (i.perform bus)
      (Follows (CpuState.OnCourse thumb false)) := by
  by_cases interrupts : ∃ comment, i.op = .softwareInterrupt comment
  · -- published only where the guest handles it, so not by the rule of the others
    obtain ⟨comment, hop⟩ := interrupts
    rw [Guest.ext_exec (exec_perform_softwareInterrupt bus hop)]
    exact Guest.ensures_interrupt hooks vectors i.pipelinePc i.action.cost comment
  · have ordinary : ∀ comment, i.op ≠ .softwareInterrupt comment :=
      fun comment hop => interrupts ⟨comment, hop⟩
    have action : Ensures (CpuState.OnCourse thumb false)
        (Step.perform bus ⟨.action, some (.action i.action), i.pipelinePc⟩)
        (Follows (CpuState.OnCourse thumb i.writesPc)) :=
      Step.ensures_perform (i.action.ensures_execute hooks vectors i.pipelinePc ordinary)
    have done : Ensures (CpuState.OnCourse thumb false) (inOrder [] : Guest σ (Option Exit))
        (Follows (CpuState.OnCourse thumb false)) := .pure fun _ h => h
    unfold perform steps
    cases writes : i.writesPc with
    | false =>
      rw [writes] at action
      rw [Bool.and_false]
      exact action.cons done
    | true =>
      rw [writes] at action
      have kind : i.op.publishKind = .publish := by
        unfold Op.publishKind
        split
        · exact absurd ‹_› (ordinary _)
        · rfl
      have publish : Ensures (CpuState.OnCourse thumb true)
          (Step.perform bus ⟨i.op.publishKind, none, i.pipelinePc⟩)
          (Follows (CpuState.OnCourse thumb false)) := by
        rw [kind]
        exact Step.ensures_perform (.next (R := fun s => s.Aligns s.next) (.modifyCpu fun _ h => h)
          fun _ => .pure fun _ h => h)
      have rest := action.cons (publish.cons done)
      cases i.readsPc with
      | false => exact rest
      | true =>
        -- what is shown in r15 before the instruction need not be aligned, and it is not published
        refine .cons (R := CpuState.OnCourse thumb false) (Step.ensures_perform ?_) rest
        exact .next (.modifyCpu fun _ h => h) fun _ => .proceed

/-- Passing over a sub-block is staying where it is. -/
theorem SubBlock.ensures_perform (b : SubBlock) :
    Ensures (CpuState.OnCourse thumb false) (b.perform bus)
      (Follows (CpuState.OnCourse thumb false)) := by
  have body : Ensures (CpuState.OnCourse thumb false) (b.body bus)
      (Follows (CpuState.OnCourse thumb false)) := by
    refine .all fun x hx => ?_
    obtain ⟨i, -, rfl⟩ := List.mem_map.mp hx
    exact i.ensures_perform hooks vectors
  have skip : Ensures (CpuState.OnCourse thumb false) (b.skip : Guest σ (Option Exit))
      (Follows (CpuState.OnCourse thumb false)) := .next .spend fun _ => .pure fun _ h => h
  unfold perform
  split
  · exact body
  · exact skip
  · exact .glance fun _ => .ite (fun _ => body) fun _ => skip

/-- **A block is left for an aligned address,** if its end is one. -/
theorem Block.ensures_perform (blocks : List SubBlock) {last : Instruction}
    (aligned : last.next.toNat % Decode.bytes thumb = 0) :
    Ensures (CpuState.OnCourse thumb false) (Block.perform bus blocks last)
      fun _ s => s.Aligns s.next := by
  have all : Ensures (CpuState.OnCourse thumb false)
      (inOrder (blocks.map (SubBlock.perform bus))) (Follows (CpuState.OnCourse thumb false)) := by
    refine .all fun x hx => ?_
    obtain ⟨b, -, rfl⟩ := List.mem_map.mp hx
    exact b.ensures_perform hooks vectors
  refine .bind all fun left => ?_
  cases left with
  | some exit => exact .pure fun _ h => h
  | none =>
    refine .next (R := fun s => s.Aligns s.next) (.modifyCpu fun s h => ?_) fun _ => .pure fun _ h => h
    show s.Aligns last.next
    rw [CpuState.aligns_iff, h]
    exact aligned

end Performing

/-! ## A call of the engine

A block from the cache has to be one that was built, or nothing is known about where it ends. That is
what references that reach everything are needed for, and `not_aligns_turn` is what happens without
them.
-/

namespace Engine

variable {ρ : Type} {past : Bus ρ} {bus : Bus σ} {e : Engine} {s : CpuState}

section Calls

variable (hooks : bus.KeepsCourse) (vectors : bus.AlignsVectors) (aligned : s.Aligns s.next)

include hooks vectors aligned

/-- A block in step with its header ends aligned, if it was started where its header says. The only place
it goes to that no jump decides is the one behind its last instruction. -/
theorem aligns_runBlock {arena : Arena Record} {ref : Ref} {h : Block.Header}
    {run : List Instruction} {last : Instruction} (block : Block.At arena ref h (Block.steps run last))
    (step : h.InStep last) (set : h.thumb = s.thumb) (first : h.first = s.next) (host : σ) :
    (runBlock bus arena h s host).2.cpu.Aligns (runBlock bus arena h s host).2.cpu.next := by
  have ran : runBlock bus arena h s host =
      exec (Block.perform bus (SubBlock.partition run) last) (Machine.start s host) :=
    Block.run_eq_perform block (Machine.start s host)
  -- the header was made for this address and instruction set, and one instruction is as long as another
  have stop : last.next.toNat % Decode.bytes s.thumb = 0 := by
    rw [← set, step, set, first]
    exact CpuState.aligns_iff.mp aligned
  rw [ran]
  exact Block.ensures_perform hooks vectors _ stop (Machine.start s host) rfl

/-- The uncached way keeps the next instruction aligned: nothing happens, or one instruction runs as a
block of its own. -/
theorem aligns_executeUncached (sound : e.Sound) (host : σ) :
    let t := (e.executeUncached bus s host).cpu
    t.Aligns t.next := by
  have step := uncachedStep sound bus s host
  generalize e.executeUncached bus s host = t at step ⊢
  rcases t with ⟨result, e', s', host', told⟩
  dsimp only at step ⊢
  cases step with
  | idle none => exact aligned
  | unmapped seen nothing => exact aligned
  | ran i seen fetched =>
    obtain ⟨addr, set⟩ := Decode.place_of_fetch (congrArg Prod.fst fetched)
    have stop : i.next.toNat % Decode.bytes s.thumb = 0 := by
      rw [Decode.next_mod set, addr]
      exact CpuState.aligns_iff.mp aligned
    exact Block.ensures_perform hooks vectors [⟨i, []⟩] stop (Machine.start s seen) rfl

/-- An execution through the cache keeps it aligned, too, whichever way it takes. -/
theorem aligns_execute (lived : e.Lived past) (reaches : e.Reaches s.cpu) (host : σ) :
    let t := (e.execute bus s host).cpu
    t.Aligns t.next := by
  unfold execute
  cases cached : e.caches.get s.cpu with
  | none => exact aligned
  | some c =>
    -- the block that is answered was compiled for this address, and its header is the one in step
    have entry {ref : Ref} {generation : Word} {h : Block.Header}
        (outcome : (obtainBlock c bus e.config s host).outcome = .ok (.compiled ref generation))
        (found : Block.header? (obtainBlock c bus e.config s host).cache.arena ref = some h) :
        h.first = s.next ∧ ∃ run last,
          Block.At (obtainBlock c bus e.config s host).cache.arena ref h (Block.steps run last) ∧
            h.InStep last := by
      obtain ⟨h', run, last, block, step⟩ :=
        inStep_obtainBlock (lived.inStep cached) (reaches c cached) outcome
      obtain rfl : h' = h := Option.some.inj (block.header?_eq.symm.trans found)
      exact ⟨(answers_obtainBlock outcome).named h' found, run, last, block, step⟩
    obtain ⟨next, set⟩ := place_obtainBlock c bus e.config s host
    dsimp only
    generalize obtainBlock c bus e.config s host = found at entry next set ⊢
    rcases found with ⟨outcome, cache, s', host', told⟩
    dsimp only at entry next set ⊢
    have aligned' : s'.Aligns s'.next := by
      rw [next]
      exact (CpuState.aligns_congr set).mpr aligned
    -- the uncached way is taken in four places, each time with caches of its own
    have uncached (caches : PerCpu (Option CodeCache)) :
        ({ e with caches }.executeUncached bus s' host').cpu.Aligns
          ({ e with caches }.executeUncached bus s' host').cpu.next := by
      rw [(same_executeUncached (e := { e with caches }) (f := e) rfl bus s' host').cpu]
      exact aligns_executeUncached hooks vectors aligned' lived.sound host'
    cases outcome with
    | error error => exact aligned'
    | ok block =>
      cases block with
      | interpret => exact uncached _
      | compiled ref generation =>
        cases found : Block.header? cache.arena ref with
        | none =>
          simp only [blockHeader?, found]
          exact uncached _
        | some h =>
          simp only [blockHeader?, found]
          split
          · rename_i own
            obtain ⟨first, run, last, block, step⟩ := entry rfl found
            exact aligns_runBlock hooks vectors aligned' block step own (first.trans next.symm) host'
          · exact uncached _

end Calls

/-- **The program counter stays aligned.** With handlers that are aligned to words and hooks that change
neither the instruction set nor the next instruction, a processor that comes to a call at an address
where an instruction can stand leaves it at such an address, whatever code it ran, whatever the engine
had compiled before and whatever the call answers. Two things are needed for that. The hook for changes
of the status leaves r15 alone as well, where it shows the next instruction; and for a call through the
cache, references reach all that was handed out there since it was emptied. In a cache of at most 2³²
bytes they always do. -/
theorem aligns_turn (hooks : bus.KeepsPlace) (shown : bus.KeepsShown) (vectors : bus.AlignsVectors)
    (lived : e.Lived past) (cached : Bool) (reaches : cached = true → e.Reaches s.cpu)
    (aligned : s.Aligns s.next) (host : σ) :
    let t := e.turn cached bus s host
    t.broken = false ∧ t.cpu.Aligns t.cpu.next := by
  have course : bus.KeepsCourse := { hooks with shown }
  refine ⟨unbroken_turn lived reaches bus host, ?_⟩
  cases cached with
  | true => exact aligns_execute course vectors aligned lived (reaches rfl) host
  | false => exact aligns_executeUncached course vectors aligned lived.sound host

/-- A new engine in whose host every word of the code jumps to the address in the first register. -/
def interworking : Engine := ((Engine.new {}).1.init (Bus.ofInstruction 0xE12FFF10) ()).2.1

/-- The jump goes to THUMB code, which needs no more than an even address. -/
theorem aligns_interworking :
    let s := (CpuState.new .arm9).setReg 0 0x1003
    let t := interworking.turn true (Bus.ofInstruction 0xE12FFF10) s ()
    t.result = .ok 3 ∧ t.cpu.thumb = true ∧ t.cpu.next = 0x1002 ∧ t.cpu.Aligns t.cpu.next := by
  have hooks : (Bus.ofInstruction 0xE12FFF10).KeepsPlace :=
    ⟨fun _ _ => rfl, fun _ _ => rfl, fun _ _ _ => rfl⟩
  have shown : (Bus.ofInstruction 0xE12FFF10).KeepsShown := fun _ _ shows => shows
  have vectors : (Bus.ofInstruction 0xE12FFF10).AlignsVectors := fun _ _ => rfl
  have lived : interworking.Lived (Bus.ofInstruction 0xE12FFF10) := (Lived.new _).init () .usual
  have reaches : interworking.Reaches .arm9 := fun c cached => by
    have few : (interworking.caches.get .arm9).all (·.arena.used < 2 ^ 32) = true := by decide +kernel
    rw [cached] at few
    exact of_decide_eq_true few
  refine ⟨by decide +kernel, by decide +kernel, by decide +kernel, ?_⟩
  exact (aligns_turn hooks shown vectors lived true (fun _ => reaches) (by decide) ()).2

/-- A host whose first word is a software interrupt, and whose hook for changes of the status writes r15. -/
def overtaking : Bus Unit :=
  { Bus.ofInstruction 0xEF000000 with statusChanged := fun host s => (s.setReg .pc 2, host) }

/-- A new engine in that host. -/
def overtaken : Engine := ((Engine.new {}).1.init overtaking ()).2.1

/-- Neither of the two things can be left out. A hook that writes r15 while the guest's handler is entered
says where the processor goes. And in a cache that handed out more than references reach, ARM code may
run a THUMB instruction and go on behind that. -/
theorem not_aligns_turn :
    (overtaking.KeepsPlace ∧ overtaking.AlignsVectors ∧ overtaken.Lived overtaking ∧
      overtaken.Reaches .arm9 ∧
      let t := overtaken.execute overtaking (.new .arm9) ()
      t.result = .ok 3 ∧ t.cpu.thumb = false ∧ t.cpu.next = 2 ∧ ¬t.cpu.Aligns t.cpu.next) ∧
    ((Bus.filling 0x03A00001 0x2002).KeepsPlace ∧ (Bus.filling 0x03A00001 0x2002).KeepsShown ∧
      (Bus.filling 0x03A00001 0x2002).AlignsVectors ∧
      (Session.full 0x03A00001 0x2002 Session.almostAll Session.thumbState).engine.Lived
        (Bus.filling 0x03A00001 0x2002) ∧
      ((Session.full 0x03A00001 0x2002 Session.almostAll Session.thumbState).engine.execute
        (Bus.filling 0x03A00001 0x2002) (.new .arm9) ()).result = .ok 1 ∧
      ((Session.full 0x03A00001 0x2002 Session.almostAll Session.thumbState).engine.execute
        (Bus.filling 0x03A00001 0x2002) (.new .arm9) ()).cpu =
          ((CpuState.new .arm9).setReg 0 2).withNext 6) ∧
    ¬(((CpuState.new .arm9).setReg 0 2).withNext 6).Aligns 6 := by
  obtain ⟨-, b, -, -, -, -, result, left⟩ := Session.runs_other
  have reaches : overtaken.Reaches .arm9 := fun c cached => by
    have few : (overtaken.caches.get .arm9).all (·.arena.used < 2 ^ 32) = true := by decide +kernel
    rw [cached] at few
    exact of_decide_eq_true few
  have lived : (Session.full 0x03A00001 0x2002 Session.almostAll Session.thumbState).engine.Lived
      (Bus.filling 0x03A00001 0x2002) := by
    rw [Session.full, Session.roomy]
    exact Lived.calls _ () ((Lived.new _).init () .usual)
  refine ⟨⟨⟨fun _ _ => rfl, fun _ _ => rfl, fun _ _ _ => rfl⟩, fun _ _ => rfl,
    (Lived.new _).init () .usual, reaches, ?_⟩,
    ⟨⟨fun _ _ => rfl, fun _ _ => rfl, fun _ _ _ => rfl⟩, fun _ _ shows => shows, fun _ _ => rfl, lived,
      result, left⟩, by decide⟩
  decide +kernel

end Engine

end ArmBlocks
