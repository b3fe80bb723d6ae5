import ArmBlocks.CodeCache.Basic

/-!
# What dropping blocks takes away

Invalidation ends in a list of addresses whose slots are cleared, one after the other. What that
does is said once and exactly (`CodeCache.Dropped`): an entry is left if and only if none of the
addresses lies in its slot, and a thrash count moves only if a compiled block of its granule went.
Nothing else of the cache is touched.
-/

set_option autoImplicit false

namespace ArmBlocks

namespace SlotTable

variable (t : SlotTable) (start : Word)

theorem layout_invalidate : (t.invalidate start).2.layout = t.layout := by
  unfold invalidate
  split
  · split <;> rfl
  · rfl

/-- What is taken from a table is what was found there. -/
theorem fst_invalidate : (t.invalidate start).1 = t.lookup start := by
  unfold invalidate lookup
  cases t.slot? start with
  | none => rfl
  | some slot =>
    dsimp only [Option.bind_some]
    split
    · rename_i block held
      exact held.symm
    · rename_i empty
      exact empty.symm

/-- Clearing the slot of an address clears that slot and no other. -/
theorem slots_invalidate (slot : Nat) :
    (t.invalidate start).2.slots[slot]? =
      if t.layout.slot? start = some slot then none else t.slots[slot]? := by
  unfold invalidate slot?
  cases own : t.layout.slot? start with
  | none => simp
  | some cleared =>
    dsimp only
    by_cases same : cleared = slot
    · subst same
      cases held : t.slots[cleared]? with
      | none => simp [held]
      | some block => simp
    · cases held : t.slots[cleared]? with
      | none => simp [same]
      | some block => simp [Std.TreeMap.getElem?_erase, same]

/-- Every slot but that of the address keeps its entry. -/
theorem slots_invalidate_eq_some {slot : Nat} {entry : SlotEntry} :
    (t.invalidate start).2.slots[slot]? = some entry ↔
      t.slots[slot]? = some entry ∧ t.layout.slot? start ≠ some slot := by
  rw [slots_invalidate]
  split
  · rename_i own
    simp [own]
  · rename_i apart
    simp [apart]

end SlotTable

namespace CodeCache

/-- Dropping blocks changes nothing but the table and the thrash counts. What is left in the table
was there before and starts in the slot of none of the addresses; and the count of a granule in
which no compiled block is dropped stays. -/
structure Dropped (c d : CodeCache) (starts : List Word) : Prop where
  cpu : d.cpu = c.cpu
  regions : d.regions = c.regions
  arena : d.arena = c.arena
  coverage : d.coverage = c.coverage
  layout : d.table.layout = c.table.layout
  slots : ∀ slot entry, d.table.slots[slot]? = some entry ↔
    c.table.slots[slot]? = some entry ∧ ∀ start ∈ starts, c.table.layout.slot? start ≠ some slot
  thrash : ∀ granule,
    (∀ slot ref generation, slot / granuleSlots = granule →
      c.table.slots[slot]? = some (.compiled ref generation) →
        ∀ start ∈ starts, c.table.layout.slot? start ≠ some slot) →
      d.thrash[granule]? = c.thrash[granule]?

theorem thrash_countThrash (c : CodeCache) (slot granule : Nat) (apart : slot / granuleSlots ≠ granule) :
    (c.countThrash slot).thrash[granule]? = c.thrash[granule]? := by
  simp [countThrash, Std.TreeMap.getElem?_insert, apart]

/-- Dropping one block clears its slot and may count against its granule. -/
theorem dropped_dropBlock (c : CodeCache) (start : Word) :
    Dropped c (c.dropBlock start).1 [start] := by
  have layout := c.table.layout_invalidate start
  have held := c.table.fst_invalidate start
  -- this is what is common to the ways a drop can go, which differ in the counts only
  have same (thrash : Std.TreeMap Nat (BitVec 8))
      (counts : ∀ granule, (∀ slot ref generation, slot / granuleSlots = granule →
        c.table.slots[slot]? = some (.compiled ref generation) →
          ∀ other ∈ [start], c.table.layout.slot? other ≠ some slot) →
        thrash[granule]? = c.thrash[granule]?) :
      Dropped c { c with table := (c.table.invalidate start).2, thrash } [start] := by
    refine ⟨rfl, rfl, rfl, rfl, layout, fun slot entry => ?_, counts⟩
    simpa using c.table.slots_invalidate_eq_some start
  unfold dropBlock
  split
  · rename_i header generation table eq
    rw [eq] at same held layout
    dsimp only at layout ⊢
    rw [SlotTable.slot?, layout]
    cases place : c.table.layout.slot? start with
    | none => exact same c.thrash fun _ _ => rfl
    | some slot =>
      rw [SlotTable.lookup, SlotTable.slot?, place, Option.bind_some] at held
      refine same _ fun granule counts => ?_
      -- the count that moves is that of the block which goes
      refine thrash_countThrash { c with table } slot granule fun here => ?_
      exact counts slot header generation here held.symm start List.mem_cons_self place
  · rename_i found table _ eq
    rw [eq] at same
    exact same c.thrash fun _ _ => rfl

/-- Dropping several is dropping one after the other. -/
theorem dropped_dropBlocks (starts : List Word) :
    ∀ c : CodeCache, Dropped c (c.dropBlocks starts).1 starts := by
  induction starts with
  | nil =>
    intro c
    exact ⟨rfl, rfl, rfl, rfl, rfl, fun slot entry => by simp [dropBlocks], fun _ _ => rfl⟩
  | cons start rest ih =>
    intro c
    have first := dropped_dropBlock c start
    have others := ih (c.dropBlock start).1
    refine ⟨others.cpu.trans first.cpu, others.regions.trans first.regions,
      others.arena.trans first.arena, others.coverage.trans first.coverage,
      others.layout.trans first.layout, fun slot entry => ?_, fun granule counts => ?_⟩
    · refine (others.slots slot entry).trans ?_
      rw [first.slots, first.layout, and_assoc]
      simp only [List.forall_mem_cons, List.mem_singleton, forall_eq]
    -- a granule that keeps its count has to be missed by the first start as well as by the others
    · refine (others.thrash granule fun slot ref generation here held other hother => ?_).trans
        (first.thrash granule fun slot ref generation here held other hother => ?_)
      · rw [first.layout]
        exact counts slot ref generation here ((first.slots slot _).mp held).1 other
          (List.mem_cons_of_mem _ hother)
      · rw [List.mem_singleton.mp hother]
        exact counts slot ref generation here held start List.mem_cons_self

/-! ## Invalidation

The starts of the intervals that were hit are dropped one by one, and then the address itself, at
which code may be marked that was never compiled.
-/

/-- The cache without the coverage of what is found from a slot. -/
def withoutHits (c : CodeCache) (hit : Nat) : CodeCache :=
  { c with coverage := (c.coverage.hits hit).foldl CoverageMap.drop c.coverage }

theorem invalidate_of_unmapped {c : CodeCache} {addr : Word}
    (unmapped : c.table.layout.slot? addr = none) : (c.invalidate addr).1 = c := by
  rw [invalidate, SlotTable.slot?, unmapped]

/-- An invalidation drops the blocks whose coverage is found from the slot of the address, and the
one that starts there. -/
theorem dropped_invalidate {c : CodeCache} {addr : Word} {hit : Nat}
    (here : c.table.layout.slot? addr = some hit) :
    Dropped (c.withoutHits hit) (c.invalidate addr).1
      ((c.coverage.hits hit).map Coverage.start ++ [addr]) := by
  rw [invalidate, SlotTable.slot?, here]
  exact dropped_dropBlocks _ _

end CodeCache

end ArmBlocks
