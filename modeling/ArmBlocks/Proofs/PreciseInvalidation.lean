import ArmBlocks.Proofs.IntactBlocks

/-!
# How precise an invalidation is

An invalidation should drop the blocks that were built from the written halfword and leave the
others alone. It drops all of them. It also drops others: what is filed for a block stays on file
when another block takes its slot over, through a mirror, an alias of the flat table or the other
instruction set, and from then on a write that would have hit the old block takes the new one.

So a block stays if and only if neither its own origin covers the address nor an older one of its
slot does (`Chronicle.stays_iff`). Where no slot was taken over, that is precision. The thrash counts
follow: one moves only if a block starts in its granule that goes (`Chronicle.thrash_stays`).
-/

set_option autoImplicit false

namespace ArmBlocks

open CodeCache (granuleSlots)

variable {σ : Type}

namespace Chronicle

variable {bus : Bus σ} {ch : Chronicle}

/-- A thrash count only moves if a block goes that starts in the granule. -/
theorem thrash_stays {cpu : Cpu} {layout : SlotLayout} (h : ch.cache.Recorded cpu layout ch.past)
    (addr : Word) {granule : Nat}
    (apart : ∀ slot ref generation, slot / granuleSlots = granule →
      ch.cache.table.slots[slot]? = some (.compiled ref generation) →
        ∀ o ∈ ch.past slot, ¬o.Covers layout addr) :
    (ch.cache.invalidate addr).1.thrash[granule]? = ch.cache.thrash[granule]? := by
  cases here : layout.slot? addr with
  | none => rw [CodeCache.invalidate_of_unmapped (by rw [h.laid]; exact here)]
  | some hit =>
    have dropped := CodeCache.dropped_invalidate (c := ch.cache) (by rw [h.laid]; exact here)
    refine dropped.thrash granule fun slot ref generation inside held => ?_
    rw [show (ch.cache.withoutHits hit).table = ch.cache.table from rfl, h.laid]
    exact (h.apart_iff here held).mpr (apart slot ref generation inside held)

/-- **What an invalidation takes.** A block stays if and only if neither what it was emitted from
covers the address nor what stood in its slot before it, since the slot was last cleared; and the
thrash count of a granule stays if that is so of every block that starts there. -/
theorem stays_iff (reachable : ch.Reachable bus) (addr : Word) :
    (∀ slot ref generation, ch.cache.table.slots[slot]? = some (.compiled ref generation) →
      ∃ o older, ch.past slot = o :: older ∧ o.emission.1 = some ref ∧
        ((ch.call bus (.invalidate addr)).cache.table.slots[slot]? = some (.compiled ref generation) ↔
          ¬o.Covers ch.cache.table.layout addr ∧
            ∀ stale ∈ older, ¬stale.Covers ch.cache.table.layout addr)) ∧
    ∀ granule, (∀ slot ref generation, slot / granuleSlots = granule →
        ch.cache.table.slots[slot]? = some (.compiled ref generation) →
          ∀ o ∈ ch.past slot, ¬o.Covers ch.cache.table.layout addr) →
      (ch.call bus (.invalidate addr)).cache.thrash[granule]? = ch.cache.thrash[granule]? := by
  obtain ⟨cpu, layout, recorded⟩ := reachable.recorded
  rw [recorded.laid]
  refine ⟨fun slot ref generation held => ?_, fun granule apart => thrash_stays recorded addr apart⟩
  obtain ⟨o, latest, built⟩ := recorded.blocks slot ref generation held
  obtain ⟨older, past⟩ := List.head?_eq_some_iff.mp latest
  refine ⟨o, older, past, built.emitted, (recorded.slots_invalidate addr slot ref generation).trans ?_⟩
  rw [past, List.forall_mem_cons]
  exact and_iff_right held

/-- The block that took the slot over goes, although it does not reach to the written halfword. The
one that stood there before did. -/
theorem stale_takenOver :
    takenOver.cache.table.slots[0]? = some (.compiled ⟨0x1E0⟩ 0) ∧
      (∃ o older, takenOver.past 0 = o :: older ∧ o.emission.1 = some ⟨0x1E0⟩ ∧ ¬o.Covers .flat 8) ∧
        (takenOver.call moves (.invalidate 8)).cache.table.slots[0]? ≠ some (.compiled ⟨0x1E0⟩ 0) := by
  obtain ⟨blocks, -⟩ := stays_iff reachable_takenOver 8
  obtain ⟨o, older, past, emitted, stays⟩ := blocks 0 _ _ slot_takenOver
  have covers : (takenOver.past 0).map (fun o => decide (o.Covers .flat 8)) = [false, true] := by
    decide +kernel
  rw [past, List.map_cons, List.cons.injEq, decide_eq_false_iff_not] at covers
  refine ⟨slot_takenOver, ⟨o, older, past, emitted, covers.1⟩, fun kept => ?_⟩
  have apart := (stays.mp kept).2
  -- the older one is the only one, and it reaches to address 8
  obtain ⟨stale, rfl⟩ : ∃ stale, older = [stale] :=
    List.length_eq_one_iff.mp (by simpa using congrArg List.length covers.2)
  have reaches : decide (stale.Covers .flat 8) = true := by simpa using covers.2
  exact apart stale List.mem_cons_self (of_decide_eq_true reaches)

end Chronicle

end ArmBlocks
