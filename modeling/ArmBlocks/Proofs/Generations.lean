import ArmBlocks.Proofs.Emission

/-!
# The generation of an arena is only a name

A generation is compared with another one and with nothing else. What is allocated, written and read
does not depend on it, so an arena under the name of another generation behaves the same: a run is
emitted to the same places (`Block.emit_withGeneration`) and does the same when it runs
(`Block.run_withGeneration`). Only a reset gives a new name, so emission keeps the old one
(`Block.generation_emit`), whether it succeeds or not.
-/

set_option autoImplicit false

namespace ArmBlocks

namespace Arena

variable {α : Type} (a : Arena α) (generation : Word)

/-- The arena under the name of another generation. -/
def withGeneration : Arena α := { a with generation }

theorem withGeneration_self : a.withGeneration a.generation = a := rfl

/-- Only the count of resets goes on differently. -/
theorem reset_withGeneration :
    (a.withGeneration generation).reset = a.reset.withGeneration (generation + 1) := rfl

theorem allocAligned_withGeneration (size : Nat) :
    (a.withGeneration generation).allocAligned size =
      ((a.allocAligned size).1, (a.allocAligned size).2.withGeneration generation) := by
  rcases Nat.lt_or_ge (a.used + paddedSize size) a.capacity with room | full
  · rw [allocAligned_of_lt room, allocAligned_of_lt (a := a.withGeneration generation) room]
    rfl
  · rw [allocAligned_of_le full, allocAligned_of_le (a := a.withGeneration generation) full]

theorem writeList_withGeneration (ref : Ref) (size : Nat) (xs : List α) :
    ∀ (a : Arena α) (i : Nat), (a.withGeneration generation).writeList ref size i xs =
      (a.writeList ref size i xs).withGeneration generation := by
  induction xs with
  | nil => intro a i; rfl
  | cons x rest ih => intro a i; exact ih (a.write ref size i x) (i + 1)

theorem put_withGeneration (size : Nat) (x : α) :
    (a.withGeneration generation).put size x =
      ((a.put size x).1, (a.put size x).2.withGeneration generation) := by
  rw [put, put, allocAligned_withGeneration]
  rcases a.allocAligned size with ⟨_ | ref, b⟩
  · rfl
  · rfl

/-- Where an array goes has nothing to do with the generation. -/
theorem putArray_withGeneration (size count : Nat) (fill : α) :
    (a.withGeneration generation).putArray size count fill =
      ((a.putArray size count fill).1, (a.putArray size count fill).2.withGeneration generation) := by
  rw [putArray, putArray, allocAligned_withGeneration]
  rcases a.allocAligned (size * count) with ⟨_ | ref, b⟩
  · rfl
  · dsimp only
    rw [writeList_withGeneration]

end Arena

namespace Emit

variable {α β : Type}

/-- An emission does the same under the name of any generation. -/
def Ageless (x : Emit α) : Prop :=
  ∀ (a : Arena Record) (generation : Word),
    x (a.withGeneration generation) = ((x a).1, (x a).2.withGeneration generation)

/-- What has nothing to do with the generation may be done one after the other. -/
theorem ageless_composes : Compositional fun _ x => Ageless x where
  pure _ := fun _ _ => rfl
  bind {_ _ x f} hx hf := by
    intro a generation
    rw [bind_apply, bind_apply, hx a generation]
    rcases x a with ⟨_ | y, b⟩
    · rfl
    · exact hf y b generation

theorem ageless_put (r : Record) : Ageless (put r) :=
  fun a generation => a.put_withGeneration generation r.bytes r

end Emit

namespace Block

open Emit (Ageless)

/-- Emitting a run has nothing to do with it. -/
theorem ageless_emitRun (run : List Instruction) (first last : Instruction) :
    Ageless (emitRun run first last) := by
  have composes := Emit.ageless_composes
  have beside : ∀ r : Record, r.bytes ≤ 12 → Ageless (Emit.put r) := fun r _ => Emit.ageless_put r
  refine composes.bind (fun a generation => a.putArray_withGeneration generation _ _ _) fun nodes =>
    composes.bind (composes.placeGroups beside _ (regular_groups _ 0)) fun placed =>
      composes.bind (composes.place beside _ (.full _ _ _ (Nat.le_add_left 4 8))) fun terminal =>
        composes.bind (fun a generation => ?_) fun _ => Emit.ageless_put _
  exact congrArg (Prod.mk _) (Arena.writeList_withGeneration generation nodes _ _ a 0)

/-- Nor has emitting a block, whether the run is empty or not. -/
theorem emit_withGeneration (run : List Instruction) (a : Arena Record) (generation : Word) :
    emit run (a.withGeneration generation) =
      ((emit run a).1, (emit run a).2.withGeneration generation) := by
  unfold emit
  split
  · rename_i first last _ _
    exact ageless_emitRun run first last a generation
  · rfl

theorem generation_emit (run : List Instruction) (a : Arena Record) :
    (emit run a).2.generation = a.generation := by
  have same := congrArg Prod.snd (emit_withGeneration run a a.generation)
  rw [Arena.withGeneration_self] at same
  rw [same]
  rfl

theorem generation_of_emit {run : List Instruction} {a b : Arena Record} {ref? : Option Ref}
    (emitted : emit run a = (ref?, b)) : b.generation = a.generation := by
  rw [← generation_emit run a, emitted]

/-! ## Running -/

variable {σ : Type}

/-- Nor has running one, since its records are found by their offsets. -/
theorem walk_withGeneration (bus : Bus σ) (a : Arena Record) (generation : Word) (h : Block.Header)
    (fuel : Nat) : ∀ i, walk bus (a.withGeneration generation) h fuel i = walk bus a h fuel i := by
  induction fuel with
  | zero => intro i; rfl
  | succ fuel ih =>
    intro i
    have node (n : Ref) (k : Nat) : node? (a.withGeneration generation) n k = node? a n k := rfl
    have data (n : Node) : data? (a.withGeneration generation) n = data? a n := rfl
    simp only [walk, node, data, ih]

theorem run_withGeneration (bus : Bus σ) (a : Arena Record) (generation : Word) (h : Block.Header) :
    run bus (a.withGeneration generation) h = run bus a h :=
  walk_withGeneration bus a generation h _ 0

end Block

end ArmBlocks
