import ArmBlocks.Proofs.EngineLife
import ArmBlocks.Proofs.OneByOne

/-!
# One instruction without the cache

Without the cache an engine fetches one instruction and runs it, and there is nothing else it can do
(`UncachedStep`, `Engine.uncachedStep`). The scratch arena has room for any instruction.
-/

set_option autoImplicit false

namespace ArmBlocks

variable {σ : Type}

namespace Decode

/-- A run of one instruction is what is fetched. -/
theorem run_one (bus : Bus σ) (cpu : Cpu) (start : Word) (thumb : Bool) (host : σ) :
    run bus cpu start thumb 1 host =
      ((fetch bus cpu thumb start host).1.toList, (fetch bus cpu thumb start host).2) := by
  show instructions bus cpu thumb 1 start host = _
  unfold instructions
  rcases fetch bus cpu thumb start host with ⟨_ | i, seen⟩
  · rfl
  · dsimp only
    split
    · rfl
    · rfl

end Decode

namespace Engine

/-- What is left of the processor and the host when an instruction was to be run without the cache, and
whether what was run was broken, which it never is. -/
inductive UncachedStep (e : Engine) (bus : Bus σ) (s : CpuState) (host : σ) :
    Except EngineError Word → CpuState → σ → Bool → Prop where
  /-- There is no arena to build it in. -/
  | idle (none : e.scratch = none) : UncachedStep e bus s host (.error .notInitialized) s host false
  /-- There is no code. -/
  | unmapped (seen : σ) (nothing : Decode.fetch bus s.cpu s.thumb s.next host = (none, seen)) :
    UncachedStep e bus s host (.error (.unmappedCode s.cpu s.next)) { s with halted := true } seen false
  /-- It was run. -/
  | ran (i : Instruction) (seen : σ)
      (fetched : Decode.fetch bus s.cpu s.thumb s.next host = (some i, seen)) :
    UncachedStep e bus s host (.ok (i.alone bus s seen).2.cycles) (i.alone bus s seen).2.cpu
      (i.alone bus s seen).2.host false

/-- Every execution of a single instruction is one of the steps. -/
theorem uncachedStep {e : Engine} (sound : e.Sound) (bus : Bus σ) (s : CpuState) (host : σ) :
    UncachedStep e bus s host (e.executeUncached bus s host).result
      (e.executeUncached bus s host).cpu (e.executeUncached bus s host).host
      (e.executeUncached bus s host).broken := by
  unfold executeUncached
  cases found : e.scratch with
  | none => exact .idle found
  | some scratch =>
    have run := Decode.run_one bus s.cpu s.next s.thumb host
    dsimp only
    rcases fetched : Decode.fetch bus s.cpu s.thumb s.next host with ⟨_ | i, seen⟩
    · rw [fetched] at run
      rw [run]
      exact .unmapped seen fetched
    · -- one instruction always fits, so the emission that could fail does not
      have size : Block.IsScratch scratch := by
        rw [Block.IsScratch, sound.scratch scratch found]
        decide
      have ran := Block.runAlone_eq bus size i s seen
      unfold Block.runAlone at ran
      have single : Decode.run bus s.cpu s.next s.thumb 1 host = ([i], seen) := by rw [run, fetched]; rfl
      rw [single]
      dsimp only
      rw [if_neg (show ¬[i].isEmpty = true from Bool.false_ne_true)]
      rcases built : Block.emit [i] scratch.reset with ⟨ref?, arena⟩
      rw [built] at ran
      dsimp only at ran ⊢
      cases header : ref?.bind (Block.header? arena) with
      | none =>
        rw [header] at ran
        cases ran
      | some h =>
        rw [header, Option.map_some, Option.some.injEq] at ran
        -- the block in scratch memory is left for good reason only, as the instruction by itself is
        have alone : runBlock bus arena h s seen = i.alone bus s seen := ran
        have whole : ((i.alone bus s seen).1 == Exit.broken) = false :=
          beq_eq_false_iff_ne.mpr (Block.perform_ne_broken bus [⟨i, []⟩] i (Machine.start s seen))
        dsimp only [finishTurn]
        rw [alone, whole]
        exact .ran i seen fetched

/-- A single instruction is built anew each time, so it is what it should be. -/
theorem unbroken_executeUncached {e : Engine} (sound : e.Sound) (bus : Bus σ) (s : CpuState) (host : σ) :
    (e.executeUncached bus s host).broken = false := by
  have step := uncachedStep sound bus s host
  generalize e.executeUncached bus s host = t at step ⊢
  rcases t with ⟨result, e', s', host', told, broken⟩
  dsimp only at step ⊢
  cases step with
  | idle _ => rfl
  | unmapped seen _ => rfl
  | ran i seen _ => rfl

end Engine

end ArmBlocks
