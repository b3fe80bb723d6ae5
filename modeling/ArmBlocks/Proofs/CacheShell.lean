import ArmBlocks.CodeCache.Compile
import ArmBlocks.Proofs.DroppedBlocks

/-!
# What a cache is made of

A cache is made for one processor and its code regions, in an arena of some size. None of that
changes while it is used: compiling, invalidating and flushing only change what is in it
(`CodeCache.SameShell`). Another size takes another cache, and that one starts out empty like any new
one (`CodeCache.new_eq_ok`, `CodeCache.resized_eq_ok`).
-/

set_option autoImplicit false

namespace ArmBlocks

namespace CodeCache

variable {c d : CodeCache} {cpu : Cpu} {config : Config} {regions : List CodeRegion}
  {grants : Nat → Bool}

/-! ## Empty caches -/

/-- A cache that was just made. -/
def blank (cpu : Cpu) (config : Config) (regions : List CodeRegion) (layout : SlotLayout) : CodeCache :=
  { cpu
    regions
    arena := { capacity := config.cacheReserve, used := 0, generation := 0, cells := ∅ }
    table := { layout, slots := ∅ }
    coverage := ∅
    thrash := ∅
    blocksCompiled := 0
    resets := 0 }

/-- A cache is made if the regions are accepted and the host grants the memory. -/
theorem new_eq_ok : CodeCache.new cpu config regions grants = .ok c ↔
    ∃ layout, SlotLayout.ofRegions regions = .ok layout ∧ grants config.cacheReserve = true ∧
      c = blank cpu config regions layout := by
  unfold CodeCache.new Arena.reserve SlotTable.ofRegions
  constructor
  · intro h
    split at h
    · rename_i granted
      cases accepted : SlotLayout.ofRegions regions with
      | error error =>
        rw [accepted] at h
        cases h
      | ok layout =>
        rw [accepted] at h
        exact ⟨layout, rfl, granted, (Except.ok.inj h).symm⟩
    · cases h
  · rintro ⟨layout, accepted, granted, rfl⟩
    rw [if_pos granted, accepted]
    rfl

/-- A cache of another size has nothing of the old one but the counters. -/
theorem resized_eq_ok : c.resized config grants = .ok d ↔
    ∃ layout, SlotLayout.ofRegions c.regions = .ok layout ∧ grants config.cacheReserve = true ∧
      d = { blank c.cpu config c.regions layout with
        blocksCompiled := c.blocksCompiled
        resets := c.resets + 1 } := by
  unfold resized
  constructor
  · intro h
    cases made : CodeCache.new c.cpu config c.regions grants with
    | error error =>
      rw [made] at h
      cases h
    | ok fresh =>
      rw [made] at h
      obtain ⟨layout, accepted, granted, rfl⟩ := new_eq_ok.mp made
      exact ⟨layout, accepted, granted, (Except.ok.inj h).symm⟩
  · rintro ⟨layout, accepted, granted, rfl⟩
    rw [new_eq_ok.mpr ⟨layout, accepted, granted, rfl⟩]
    rfl

/-! ## What stays

No operation on a cache but a reset to another size replaces its regions, its processor or the layout
of its table. Emptying keeps them as well: they are the shell that the blocks come and go in.
-/

/-- The caches are of one processor and for the same regions, and they are of one size. -/
structure SameShell (c d : CodeCache) : Prop where
  cpu : d.cpu = c.cpu
  regions : d.regions = c.regions
  layout : d.table.layout = c.table.layout
  capacity : d.arena.capacity = c.arena.capacity

theorem SameShell.refl (c : CodeCache) : c.SameShell c := ⟨rfl, rfl, rfl, rfl⟩

theorem sameShell_flush (c : CodeCache) : c.SameShell c.flush := ⟨rfl, rfl, rfl, rfl⟩

theorem sameShell_reset (c : CodeCache) : c.SameShell c.reset := ⟨rfl, rfl, rfl, rfl⟩

theorem sameShell_makeRoom (c : CodeCache) (config : Config) : c.SameShell (c.makeRoom config).1 := by
  unfold makeRoom
  split
  · exact c.sameShell_flush
  · exact .refl c

/-- Dropping blocks leaves the shell of a cache alone. -/
theorem sameShell_invalidate (c : CodeCache) (addr : Word) : c.SameShell (c.invalidate addr).1 := by
  cases here : c.table.layout.slot? addr with
  | none =>
    rw [invalidate_of_unmapped here]
    exact .refl c
  | some hit =>
    have dropped := dropped_invalidate here
    exact ⟨dropped.cpu, dropped.regions, dropped.layout, congrArg Arena.capacity dropped.arena⟩

end CodeCache

end ArmBlocks
