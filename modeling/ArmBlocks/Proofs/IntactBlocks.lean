import ArmBlocks.Proofs.BlockOrigins

/-!
# Every block in the table is intact

What may be done with a cache is a `CacheCall`, and a `Chronicle` is a cache with its past after any
number of them. The configuration may be another one each time, and so may the host; only the
address that is compiled has to be aligned to the instruction width.

In such a chronicle the table never leads to space that was given back, reused or left half written
(`Chronicle.intact_of_reachable`): the block in a slot is the last one that was emitted for it, and its
header, its nodes and their records are read as that emission left them. That records do not overlap
is part of it (`Arena.Tidy`), since otherwise the bytes of one could be those of another.

The arena must not be larger than 2³² bytes. In a larger one an allocation may be handed out twice.
-/

set_option autoImplicit false

namespace ArmBlocks

open CodeCache (prepare)

variable {σ : Type}

/-- What may be done with a cache. -/
inductive CacheCall (σ : Type) where
  /-- Compiles the block at the next instruction of `s`, whether there is one already or not. -/
  | compile (config : Config) (s : CpuState) (host : σ)
  | invalidate (addr : Word)
  | flush
  | reset
  /-- Replaces the cache by one of the configured size, if the host grants it. -/
  | resize (config : Config) (grants : Nat → Bool)

/-- What is compiled is aligned. -/
def CacheCall.Aligned : CacheCall σ → Prop
  | .compile _ s _ => s.next.toNat % Decode.bytes s.thumb = 0
  | _ => True

instance : (next : CacheCall σ) → Decidable next.Aligned
  | .compile _ s _ => inferInstanceAs (Decidable (s.next.toNat % Decode.bytes s.thumb = 0))
  | .invalidate _ => .isTrue trivial
  | .flush => .isTrue trivial
  | .reset => .isTrue trivial
  | .resize _ _ => .isTrue trivial

/-- A cache and its past. -/
structure Chronicle where
  cache : CodeCache
  past : Past

namespace Chronicle

/-- What one call does. -/
def call (bus : Bus σ) (ch : Chronicle) : CacheCall σ → Chronicle
  | .compile config s host =>
    { cache := (ch.cache.compile bus config s host).cache
      past := ch.past.compile ch.cache bus config s host }
  | .invalidate addr =>
    { cache := (ch.cache.invalidate addr).1
      past := ch.past.invalidate ch.cache.table.layout addr }
  | .flush => { cache := ch.cache.flush, past := .none }
  | .reset => { cache := ch.cache.reset, past := .none }
  | .resize config grants =>
    match ch.cache.resized config grants with
    | .ok fresh => { cache := fresh, past := .none }
    | .error _ => ch

/-- What comes of a new cache. -/
inductive Reachable (bus : Bus σ) : Chronicle → Prop where
  | new {cpu : Cpu} {config : Config} {regions : List CodeRegion} {grants : Nat → Bool} {c : CodeCache}
    (made : CodeCache.new cpu config regions grants = .ok c) : Reachable bus { cache := c, past := .none }
  | call {ch : Chronicle} (earlier : Reachable bus ch) (next : CacheCall σ) (aligned : next.Aligned) :
    Reachable bus (ch.call bus next)

variable {bus : Bus σ} {cpu : Cpu} {layout : SlotLayout} {ch : Chronicle}

/-- Every call keeps the past on file. -/
theorem recorded_call (h : ch.cache.Recorded cpu layout ch.past) {next : CacheCall σ}
    (aligned : next.Aligned) :
    (ch.call bus next).cache.Recorded cpu layout (ch.call bus next).past := by
  cases next with
  | compile config s host => exact h.compile bus config aligned host
  | invalidate addr =>
    rw [call, h.laid]
    exact h.invalidate addr
  | flush => exact h.flush
  | reset => exact h.reset
  | resize config grants =>
    rw [call]
    cases resized : ch.cache.resized config grants with
    | ok fresh => exact h.resized resized
    | error error => exact h

/-- So every cache that can be reached is recorded by its past. -/
theorem Reachable.recorded (reachable : ch.Reachable bus) :
    ∃ cpu layout, ch.cache.Recorded cpu layout ch.past := by
  induction reachable with
  | @new cpu config regions grants c made =>
    exact ⟨cpu, CodeCache.recorded_new made⟩
  | call _ next aligned ih =>
    obtain ⟨cpu, layout, recorded⟩ := ih
    exact ⟨cpu, layout, recorded_call recorded aligned⟩

end Chronicle

/-! ## Reading a block back

What the cache reads of a block is its header, its nodes and their records. That all of it is what was
emitted is `Block.At`, for the place and the run that its origin remembers.
-/

/-- What stands at a reference is read as it was written: the header, every node, and the record of
each node that has one. All of it is handed out. -/
structure Block.ReadsBack (written now : Arena Record) (ref : Ref) (h : Block.Header)
    (steps : List Step) : Prop where
  len : h.len.toNat = steps.length
  header : Block.header? written ref = some h ∧ Block.header? now ref = some h ∧
    ref.offset.toNat + Record.headerBytes ≤ now.used
  node : ∀ (k : Nat) (s : Step), steps[k]? = some s → ∃ n : Node, n.kind = s.kind ∧ n.pc = s.pc ∧
    (Block.node? written h.nodes k = some n ∧ Block.node? now h.nodes k = some n ∧
      Arena.position h.nodes Record.nodeBytes k + Record.nodeBytes ≤ now.used) ∧
    ∀ r, s.record = some r → Block.data? written n = some r ∧ Block.data? now n = some r ∧
      n.data.offset.toNat + r.bytes ≤ now.used

/-- A block reads back as long as the arena only grows. -/
theorem Block.At.readsBack {written now : Arena Record} {ref : Ref} {h : Block.Header}
    {steps : List Step} (block : Block.At written ref h steps) (grows : written.Grows now)
    (tidy : now.Tidy) : Block.ReadsBack written now ref h steps := by
  have still := block.mono grows
  refine ⟨block.len, ⟨block.header?_eq, still.header?_eq, ?_⟩, fun k s hs => ?_⟩
  · exact tidy.inside _ _ still.header.2
  · obtain ⟨n, stands, holds⟩ := block.nodes k s hs
    have stands' := stands.mono grows
    refine ⟨n, holds.kind, holds.pc, ⟨Block.node?_of_has stands, Block.node?_of_has stands', ?_⟩,
      fun r hr => ?_⟩
    · exact tidy.inside _ _ stands'.2
    · have record := holds.record r hr
      have record' := record.mono grows
      exact ⟨Block.data?_of_has record, Block.data?_of_has record', tidy.inside _ _ record'.2⟩

namespace Chronicle

variable {bus : Bus σ} {ch : Chronicle}

/-- The entry of a slot leads to the block that was last emitted for it. -/
structure Intact (ch : Chronicle) (slot : Nat) (ref : Ref) (generation : Word) (o : Origin) : Prop where
  latest : (ch.past slot).head? = some o
  emitted : o.emission.1 = some ref
  current : generation = ch.cache.arena.generation
  block : ∃ h last, (prepare o.config o.run).getLast? = some last ∧
    Block.ReadsBack o.emission.2 ch.cache.arena ref h (Block.steps (prepare o.config o.run) last) ∧
    h.first = o.start ∧ h.thumb = o.thumb ∧ ch.cache.table.slot? h.first = some slot

/-- **Every block in the table is intact,** and the records of the arena do not overlap, whatever was
done with the cache. -/
theorem intact_of_reachable (reachable : ch.Reachable bus)
    (small : ch.cache.arena.capacity ≤ 2 ^ 32) :
    ch.cache.arena.Tidy ∧ ∀ slot ref generation,
      ch.cache.table.slots[slot]? = some (.compiled ref generation) →
        ∃ o, ch.Intact slot ref generation o := by
  obtain ⟨cpu, layout, recorded⟩ := reachable.recorded
  have tidy := recorded.tidy small
  refine ⟨tidy, fun slot ref generation held => ?_⟩
  obtain ⟨o, latest, built⟩ := recorded.blocks slot ref generation held
  have belongs := recorded.belong slot o (List.mem_of_head? latest)
  have grows := built.kept small
  -- the arena was as large when the block was emitted
  have room : o.room.capacity ≤ 2 ^ 32 := by
    rw [← o.capacity_emission, ← grows.capacity]
    exact small
  have emitted : Block.emit (prepare o.config o.run) o.room = (some ref, o.emission.2) := by
    rw [← built.emitted]
    rfl
  obtain ⟨first, last, nodes, hfirst, hlast, -, block⟩ :=
    Block.at_of_emit emitted room (Block.nodeCount_lt belongs.length_prepare_le)
  obtain ⟨first', hfirst', start, set⟩ := belongs.head?_prepare
  obtain rfl : first = first' := Option.some.inj (hfirst.symm.trans hfirst')
  refine ⟨o, latest, built.emitted, built.current, _, last, hlast, block.readsBack grows tidy, start,
    set, ?_⟩
  rw [SlotTable.slot?, recorded.laid]
  exact (congrArg layout.slot? start).trans belongs.place

/-- A cache of the flat table in which nothing was done yet. -/
def unused : CodeCache := .blank .arm9 {} [] .flat

/-- A host where every halfword is a branch to itself, and so is every word but for two moves at the
start. -/
def moves : Bus Unit :=
  .ofMemory
    (fun _ _ w addr =>
      (some (if w = .word then
          if addr = 0 then 0xE3A00001 else if addr = 4 then 0xE3A01002 else 0xEAFFFFFE
        else 0xE7FE), ()))
    (fun _ _ _ _ _ => (false, ())) (fun _ _ _ _ _ => (1, ()))

/-- The next instruction is the THUMB code at the alias of the start. -/
def atAlias : CpuState := { CpuState.new .arm9 with cpsr := 0x20, next := flatSpace }

/-- The ARM code at the start was compiled, and then the THUMB code at its alias, which has the same
slot. -/
def takenOver : Chronicle :=
  (Chronicle.call moves { cache := unused, past := .none } (.compile {} (.new .arm9) ())).call moves
    (.compile {} atAlias ())

theorem reachable_takenOver : takenOver.Reachable moves := by
  have new : CodeCache.new .arm9 {} [] = .ok unused := rfl
  exact ((Reachable.new new).call _ (by decide)).call _ (by decide)

theorem slot_takenOver :
    takenOver.cache.table.slots[0]? = some (.compiled ⟨0x1E0⟩ 0) := by
  decide +kernel

/-- The block that took the slot over is intact, behind the one that stood there before. -/
theorem intact_takenOver :
    ∃ o, takenOver.Intact 0 ⟨0x1E0⟩ 0 o ∧ o.start = flatSpace ∧ o.run.map Instruction.raw = [0xE7FE] := by
  obtain ⟨-, intact⟩ := intact_of_reachable reachable_takenOver (by decide +kernel)
  obtain ⟨o, block⟩ := intact 0 _ _ slot_takenOver
  have latest : ((takenOver.past 0).head?.map fun o => (o.start, o.run.map Instruction.raw)) =
      some (BitVec.ofNat 32 flatSpace, [0xE7FE]) := by
    decide +kernel
  rw [block.latest] at latest
  exact ⟨o, block, congrArg Prod.fst (Option.some.inj latest), congrArg Prod.snd (Option.some.inj latest)⟩

end Chronicle

end ArmBlocks
