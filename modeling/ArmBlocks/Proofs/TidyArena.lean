import ArmBlocks.Proofs.Emission

/-!
# No two records share a byte

A record stands in one cell, at its first byte, and a cell does not know how long its record is. So
that one record does not run into the next is not for granted: it has to be said (`Arena.Tidy`) and
kept. Allocations keep it in an arena of at most 2³² bytes, where each lies behind everything that
was handed out before.

The one write into old space is that of the node array, which is filled in when all the records
behind it are placed. It keeps the arena tidy because nothing but unfilled nodes stands there
(`Arena.TidyAround`), and because it is exactly as long as the nodes that go into it. What is
abandoned halfway leaves its records behind, in tidy order.
-/

set_option autoImplicit false

namespace ArmBlocks

namespace Arena

/-- Every record lies in the handed-out part, and ends before the next one starts. -/
structure Tidy (a : Arena Record) : Prop where
  inside : ∀ offset r, a.cell? offset = some r → offset + r.bytes ≤ a.used
  apart : ∀ offset r other r', a.cell? offset = some r → a.cell? other = some r' →
    offset < other → offset + r.bytes ≤ other

theorem tidy_of_no_cells {a : Arena Record} (none : ∀ offset, a.cell? offset = none) : a.Tidy where
  inside offset r h := by
    rw [none] at h
    cases h
  apart offset r other r' h := by
    rw [none] at h
    cases h

theorem tidy_reset (a : Arena Record) : a.reset.Tidy := tidy_of_no_cells a.cell?_reset

/-- In a tidy arena, an array of nodes that is handed out and in which nothing stands but nodes, each
in its place. -/
structure TidyAround (nodes : Ref) (count : Nat) (a : Arena Record) : Prop where
  tidy : a.Tidy
  whole : position nodes Record.nodeBytes count ≤ a.used
  array : ∀ offset r, a.cell? offset = some r →
    offset + r.bytes ≤ position nodes Record.nodeBytes 0 ∨
      position nodes Record.nodeBytes count ≤ offset ∨
        ∃ k < count, offset = position nodes Record.nodeBytes k ∧ r.bytes = Record.nodeBytes

/-! ## Putting a record

A record is put behind all others, so the order of those is as it was.
-/

/-- A record is put behind everything that was handed out, or nothing happens. -/
theorem cell?_put_eq {a : Arena Record} (small : a.capacity ≤ 2 ^ 32) (r : Record) :
    (a.put r.bytes r).2 = a ∨
      ∃ place, a.used ≤ place ∧ place + r.bytes ≤ (a.put r.bytes r).2.used ∧
        ∀ offset, (a.put r.bytes r).2.cell? offset =
          if place = offset then some r else a.cell? offset := by
  rw [put]
  rcases taken : a.allocAligned r.bytes with ⟨_ | ref, b⟩
  · left
    rcases Nat.lt_or_ge (a.used + paddedSize r.bytes) a.capacity with room | full
    · rw [allocAligned_of_lt room] at taken
      cases taken
    · rw [allocAligned_of_le full] at taken
      exact (Prod.mk.inj taken).2.symm
  · right
    obtain ⟨behind, fits, rfl⟩ := allocAligned_eq_some taken small
    refine ⟨ref.offset.toNat, behind, fits, fun offset => ?_⟩
    dsimp only
    rw [cell?_write, show position ref r.bytes 0 = ref.offset.toNat by simp [position]]
    rfl

/-- A record is put behind all others, so it overlaps none. -/
theorem Tidy.put {a : Arena Record} (h : a.Tidy) (small : a.capacity ≤ 2 ^ 32) (r : Record) :
    (a.put r.bytes r).2.Tidy := by
  rcases cell?_put_eq small r with same | ⟨place, behind, fits, cells⟩
  · rw [same]
    exact h
  constructor
  · intro offset found hfound
    rw [cells] at hfound
    split at hfound
    · cases hfound
      omega
    · have old := h.inside offset found hfound
      omega
  · intro offset found other found' hfound hfound' before
    rw [cells] at hfound hfound'
    split at hfound'
    · -- the record that was put is the last one
      rw [if_neg (by omega)] at hfound
      have old := h.inside offset found hfound
      omega
    · have old := h.inside other found' hfound'
      rw [if_neg (by omega)] at hfound
      exact h.apart offset found other found' hfound hfound' before

/-- So it is while there is an array of nodes still to be filled. -/
theorem TidyAround.put {nodes : Ref} {count : Nat} {a : Arena Record} (h : TidyAround nodes count a)
    (small : a.capacity ≤ 2 ^ 32) (r : Record) : TidyAround nodes count (a.put r.bytes r).2 := by
  have tidy := h.tidy.put small r
  rcases cell?_put_eq small r with same | ⟨place, behind, fits, cells⟩
  · rw [same]
    exact h
  have whole := h.whole
  refine ⟨tidy, by omega, fun offset found hfound => ?_⟩
  rw [cells] at hfound
  split at hfound
  · omega
  · exact h.array offset found hfound

/-! ## Filling in an array of nodes

From when the array is taken until it is filled in, nothing stands in it but nodes, each at its place.
Writing another node keeps that, and so does whatever is put behind the array.
-/

/-- A node that is written to the array takes the place of the one that was there. -/
theorem TidyAround.write {nodes : Ref} {count : Nat} {a : Arena Record} (h : TidyAround nodes count a)
    {k : Nat} (hk : k < count) (n : Node) :
    TidyAround nodes count (a.write nodes Record.nodeBytes k (.node n)) := by
  have size : (Record.node n).bytes = Record.nodeBytes := rfl
  have first : position nodes Record.nodeBytes 0 ≤ position nodes Record.nodeBytes k :=
    position_le (Nat.zero_le k)
  have last := position_succ nodes Record.nodeBytes k
  -- it ends where the next one begins, inside of the array
  have fits : position nodes Record.nodeBytes (k + 1) ≤ position nodes Record.nodeBytes count :=
    position_le hk
  have whole := h.whole
  refine ⟨⟨fun offset r hr => ?_, fun offset r other r' hr hr' before => ?_⟩, whole,
    fun offset r hr => ?_⟩
  · rw [cell?_write] at hr
    split at hr
    · cases hr
      rw [used_write]
      omega
    · exact h.tidy.inside offset r hr
  · rw [cell?_write] at hr hr'
    split at hr
    · cases hr
      rw [if_neg (by omega)] at hr'
      -- what starts behind a place in the array is another place or lies outside
      rcases h.array other r' hr' with below | above | ⟨j, -, rfl, -⟩
      · omega
      · omega
      · have later : position nodes Record.nodeBytes k < position nodes Record.nodeBytes j := by omega
        have apart := @position_add_le nodes Record.nodeBytes _ _ (lt_of_position_lt later)
        omega
    · split at hr'
      · rename_i place
        rcases h.array offset r hr with below | above | ⟨j, -, rfl, hbytes⟩
        · omega
        · omega
        · have later : position nodes Record.nodeBytes j < position nodes Record.nodeBytes k := by omega
          have apart := @position_add_le nodes Record.nodeBytes _ _ (lt_of_position_lt later)
          omega
      · exact h.tidy.apart offset r other r' hr hr' before
  · rw [cell?_write] at hr
    split at hr
    · rename_i place
      cases hr
      exact .inr (.inr ⟨k, hk, place.symm, size⟩)
    · exact h.array offset r hr

/-- All nodes may be written, one behind the other. -/
theorem TidyAround.writeList {nodes : Ref} {count : Nat} (all : List Node) :
    ∀ {a : Arena Record} (i : Nat), TidyAround nodes count a → i + all.length ≤ count →
      TidyAround nodes count (a.writeList nodes Record.nodeBytes i (all.map .node)) := by
  induction all with
  | nil => intro a i h _; exact h
  | cons n rest ih =>
    intro a i h fits
    rw [List.length_cons] at fits
    exact ih (i + 1) (h.write (by omega) n) (by omega)

/-- An array of nodes is put behind everything else, and its blank nodes are apart from each other. -/
theorem Tidy.putNodes {a b : Arena Record} (h : a.Tidy) (small : a.capacity ≤ 2 ^ 32) {count : Nat}
    {nodes : Ref} (made : Emit.putNodes count a = (some nodes, b)) : TidyAround nodes count b := by
  rw [Emit.putNodes, putArray] at made
  rcases taken : a.allocAligned (Record.nodeBytes * count) with ⟨_ | ref, c⟩
  · rw [taken] at made
    cases made
  · rw [taken] at made
    cases made
    obtain ⟨behind, fits, rfl⟩ := allocAligned_eq_some taken small
    have first : position nodes Record.nodeBytes 0 = nodes.offset.toNat := by simp [position]
    have empty : TidyAround nodes count
        { a with used := a.used + paddedSize (Record.nodeBytes * count) } := by
      refine ⟨⟨fun offset r hr => ?_, h.apart⟩, ?_, fun offset r hr => .inl ?_⟩
      · exact Nat.le_trans (h.inside offset r hr) (Nat.le_add_right ..)
      · rw [position, Nat.mul_comm]
        exact fits
      · rw [first]
        exact Nat.le_trans (h.inside offset r hr) behind
    have filled := empty.writeList (List.replicate count Node.blank) 0 (by simp)
    rwa [List.map_replicate] at filled

end Arena

/-! ## A whole block

The array is taken and filled within one emission, and an emission that fails in between leaves it
blank, which is tidy as well.
-/

namespace Emit

/-- An emission keeps the arena in order, whether it succeeds or not. -/
def Orderly {α : Type} (nodes : Ref) (count : Nat) (x : Emit α) : Prop :=
  ∀ a : Arena Record, a.capacity ≤ 2 ^ 32 → a.TidyAround nodes count →
    (x a).2.TidyAround nodes count ∧ (x a).2.capacity = a.capacity

/-- What keeps the arena tidy may be done one after the other. -/
theorem orderly_composes (nodes : Ref) (count : Nat) :
    Compositional fun _ x => Orderly nodes count x where
  pure _ := fun _ _ h => ⟨h, rfl⟩
  bind {_ _ x f} hx hf := by
    intro a small h
    obtain ⟨tidy, capacity⟩ := hx a small h
    rw [bind_apply]
    rcases done : x a with ⟨_ | y, b⟩
    · rw [done] at tidy capacity
      exact ⟨tidy, capacity⟩
    · rw [done] at tidy capacity
      obtain ⟨tidy', capacity'⟩ := hf y b (by rw [capacity]; exact small) tidy
      exact ⟨tidy', capacity'.trans capacity⟩

theorem orderly_put (nodes : Ref) (count : Nat) (r : Record) : Orderly nodes count (put r) :=
  fun a small h => ⟨h.put small r, Arena.capacity_put a _ r⟩

end Emit

namespace Block

open Emit (Orderly)

/-- Emitting a run leaves a tidy arena, whether it goes through or not. -/
theorem tidy_emitRun {run : List Instruction} {first last : Instruction} {a : Arena Record}
    (h : a.Tidy) (small : a.capacity ≤ 2 ^ 32) : (emitRun run first last a).2.Tidy := by
  unfold emitRun
  rw [Emit.bind_apply]
  rcases array : Emit.putNodes (nodeCount run) a with ⟨_ | nodes, b⟩
  · -- the arena is full already, and as it was
    rcases Nat.lt_or_ge (a.used + Arena.paddedSize (Record.nodeBytes * nodeCount run)) a.capacity
      with room | full
    · obtain ⟨ref, b, made, -, -⟩ := Arena.putArray_of_lt (.node .blank) room
      rw [Emit.putNodes, made] at array
      cases array
    · rw [Emit.putNodes, Arena.putArray, Arena.allocAligned_of_le full] at array
      cases array
      exact h
  have composes := Emit.orderly_composes nodes (nodeCount run)
  have beside : ∀ r : Record, r.bytes ≤ 12 → Orderly nodes (nodeCount run) (Emit.put r) :=
    fun r _ => Emit.orderly_put nodes _ r
  have around := h.putNodes small array
  have capacityB : b.capacity = a.capacity := by
    rw [← Arena.capacity_putArray a Record.nodeBytes (nodeCount run) (.node .blank)]
    exact congrArg (fun made => Arena.capacity made.2) array.symm
  have smallB : b.capacity ≤ 2 ^ 32 := by rw [capacityB]; exact small
  obtain ⟨aroundC, capacityC⟩ := composes.placeGroups beside _
    (regular_groups (SubBlock.partition run) 0) b smallB around
  dsimp only
  rw [Emit.bind_apply]
  rcases placed : StepGroup.placeAll (groups 0 (SubBlock.partition run)) b with ⟨_ | front, c⟩
  · rw [placed] at aroundC
    exact aroundC.tidy
  rw [placed] at aroundC capacityC
  have smallC : c.capacity ≤ 2 ^ 32 := by rw [capacityC]; exact smallB
  obtain ⟨aroundD, capacityD⟩ := composes.place beside (finishStep last)
    (.full _ _ _ (Nat.le_add_left 4 8)) c smallC aroundC
  dsimp only
  rw [Emit.bind_apply]
  rcases ended : (finishStep last).place c with ⟨_ | terminal, d⟩
  · rw [ended] at aroundD
    exact aroundD.tidy
  rw [ended] at aroundD capacityD
  -- as many nodes as the array was made for
  have count : (front ++ [terminal]).length = nodeCount run := by
    obtain ⟨-, held⟩ := StepGroup.emits_placeAll (Nat.zero_le b.used) _ b c front placed
      (by omega) (Nat.le_refl _)
    rw [List.length_append, held.length_eq, length_steps_groups]
    rfl
  have filled := aroundD.writeList (front ++ [terminal]) 0 (by omega)
  refine filled.tidy.put ?_ _
  rw [Arena.capacity_writeList, capacityD]
  exact smallC

/-- **Emission keeps the arena tidy,** whether the block fits or is abandoned halfway. -/
theorem tidy_emit {a : Arena Record} (h : a.Tidy) (small : a.capacity ≤ 2 ^ 32)
    (run : List Instruction) : (emit run a).2.Tidy := by
  unfold emit
  split
  · exact tidy_emitRun h small
  · exact h

end Block

end ArmBlocks
