import ArmBlocks.CodeCache.Basic

/-!
# Finding the blocks a write hits

A write to guest memory is answered by looking at one chunk of the coverage map. That finds every
block built from the written code, because of two things, and both must survive whatever is filed
and removed around a block.

* **A block is filed under every chunk it touches** (`CoverageMap.Filed`). Others may be filed on
  top. An interval is only removed together with all that start in its slot, so a block stays filed
  as long as nothing that starts in its own slot is dropped.
* **Its slots are an interval.** Slots are dense inside a page (`SlotLayout.slot?_add`), and no
  block crosses one.

An interval may outlive its block: when another mirror of the code is compiled, the block is
replaced in its slot and the interval stays. That costs a lookup and nothing else, as long as every
interval starts in the slot of its address (`CoverageMap.Anchored`).
-/

set_option autoImplicit false

namespace ArmBlocks

namespace SlotLayout

/-- Slots are dense inside a page. -/
theorem slot?_add (layout : SlotLayout) {start : Word} {slot : Nat} (h : layout.slot? start = some slot)
    (even : start.toNat % 2 = 0) {k : Nat} (inside : start.toNat % Address.page + k < Address.page) :
    layout.slot? (start + BitVec.ofNat 32 k) = some (slot + k / 2) := by
  unfold Address.page at inside
  have range := start.isLt
  have sum : (start + BitVec.ofNat 32 k).toNat = start.toNat + k := by
    rw [BitVec.toNat_add, BitVec.toNat_ofNat]
    omega
  cases layout with
  | regions pages size =>
    have page : pageOf (start + BitVec.ofNat 32 k) = pageOf start := by
      unfold pageOf regionSpace Address.page
      omega
    simp only [slot?, Option.map_eq_some_iff] at h ⊢
    obtain ⟨entry, found, rfl⟩ := h
    refine ⟨entry, by rw [page]; exact found, ?_⟩
    rw [sum]
    unfold Address.page
    omega
  | flat =>
    simp only [slot?, Option.some.injEq] at h ⊢
    rw [← h, sum]
    unfold flatSpace
    omega

end SlotLayout

namespace Coverage

theorem contains_iff {e : Coverage} {slot : Nat} :
    e.contains slot = true ↔ e.firstSlot ≤ slot ∧ slot < e.endSlot := by
  simp [contains]

/-- A slot in the interval lies in one of its chunks. -/
theorem chunk_mem_of_contains {e : Coverage} {slot : Nat} (h : e.contains slot = true) :
    slot / chunkSlots ∈ e.chunks := by
  rw [contains_iff] at h
  have low : e.firstSlot / chunkSlots ≤ slot / chunkSlots := Nat.div_le_div_right h.1
  have high : slot / chunkSlots ≤ (e.endSlot - 1) / chunkSlots :=
    Nat.div_le_div_right (by omega)
  unfold chunks
  rw [List.mem_range'_1]
  omega

/-- Of two intervals that start in one slot, the longer one touches the chunks of the other, or it
contains what the other contains. -/
theorem chunk_mem_or_contains {e other : Coverage} {slot chunk : Nat}
    (same : other.firstSlot = e.firstSlot) (inside : other.contains slot = true)
    (hc : chunk ∈ e.chunks) : chunk ∈ other.chunks ∨ e.contains slot = true := by
  rw [contains_iff] at inside ⊢
  unfold chunks chunkSlots at hc ⊢
  rw [List.mem_range'_1] at hc ⊢
  omega

end Coverage

namespace CoverageMap

variable {m : CoverageMap} {e other : Coverage}

/-- The interval is filed under every chunk it touches. -/
def Filed (m : CoverageMap) (e : Coverage) : Prop := ∀ chunk ∈ e.chunks, e ∈ m.entries chunk

/-- Every interval starts in the slot of the address it was recorded for. -/
def Anchored (m : CoverageMap) (layout : SlotLayout) : Prop :=
  ∀ chunk, ∀ e ∈ m.entries chunk, layout.slot? e.start = some e.firstSlot

theorem entries_insert (m : CoverageMap) (chunk other : Nat) (es : List Coverage) :
    CoverageMap.entries (m.insert chunk es) other =
      if chunk = other then es else m.entries other := by
  by_cases same : chunk = other <;> simp [entries, Std.TreeMap.getElem?_insert, same]

theorem entries_erase (m : CoverageMap) (chunk other : Nat) :
    CoverageMap.entries (m.erase chunk) other =
      if chunk = other then [] else m.entries other := by
  by_cases same : chunk = other <;> simp [entries, Std.TreeMap.getElem?_erase, same]

theorem entries_empty (chunk : Nat) : entries ∅ chunk = [] := rfl

theorem anchored_empty (layout : SlotLayout) : Anchored ∅ layout := by
  intro chunk e he
  rw [entries_empty] at he
  exact absurd he (by simp)

/-! ## Recording

An interval is filed under every chunk that it touches, behind what is filed there already. Nothing is
taken out, and what was filed stays filed.
-/

/-- Filing an entry under some chunks adds it to these and to no others. -/
theorem mem_entries_fileAll {chunk : Nat} (chunks : List Nat) :
    ∀ m : CoverageMap,
      other ∈ CoverageMap.entries
          (chunks.foldl (fun m chunk => m.insert chunk (m.entries chunk ++ [e])) m) chunk ↔
        other ∈ m.entries chunk ∨ (other = e ∧ chunk ∈ chunks) := by
  induction chunks with
  | nil => intro m; simp
  | cons first rest ih =>
    intro m
    rw [List.foldl_cons, ih, entries_insert]
    by_cases here : first = chunk
    · subst here
      simp only [if_true, List.mem_append, List.mem_cons, true_or, and_true]
      grind
    · rw [if_neg here]
      simp [show chunk ≠ first from fun eq => here eq.symm]

/-- Recording adds the interval to the chunks it touches and changes nothing else. -/
theorem mem_entries_record {chunk : Nat} :
    other ∈ (m.record e).entries chunk ↔
      other ∈ m.entries chunk ∨ (other = e ∧ chunk ∈ e.chunks) :=
  mem_entries_fileAll e.chunks m

theorem Filed.record (h : m.Filed other) (e : Coverage) : (m.record e).Filed other :=
  fun chunk hc => mem_entries_record.mpr (.inl (h chunk hc))

theorem filed_record (m : CoverageMap) (e : Coverage) : (m.record e).Filed e :=
  fun _ hc => mem_entries_record.mpr (.inr ⟨rfl, hc⟩)

theorem Anchored.record {layout : SlotLayout} (h : m.Anchored layout)
    (he : layout.slot? e.start = some e.firstSlot) : (m.record e).Anchored layout := by
  intro chunk other hother
  rcases mem_entries_record.mp hother with old | ⟨rfl, -⟩
  · exact h chunk other old
  · exact he

/-! ## Dropping

An interval is taken out of every chunk that it touches, and not only of the one where it was found.
With it go, from those chunks, all that start in its slot; another slot loses nothing.
-/

/-- Dropping what starts at a slot from one chunk takes from that one exactly the entries with this slot,
even where the chunk goes away because it has no more. -/
theorem mem_entries_dropFrom {first filed chunk : Nat} :
    other ∈ (m.dropFrom first filed).entries chunk ↔
      other ∈ m.entries chunk ∧ (filed = chunk → other.firstSlot ≠ first) := by
  unfold dropFrom
  by_cases here : filed = chunk
  · subst here
    dsimp only
    split
    · rename_i none
      rw [entries_erase, if_pos rfl]
      have empty := List.isEmpty_iff.mp none
      rw [List.filter_eq_nil_iff] at empty
      constructor
      · intro h
        exact absurd h (by simp)
      · rintro ⟨h, apart⟩
        exact absurd (bne_iff_ne.mpr (apart rfl)) (empty other h)
    · rw [entries_insert, if_pos rfl, List.mem_filter, bne_iff_ne]
      simp
  · dsimp only
    split
    · rw [entries_erase, if_neg here]
      simp [here]
    · rw [entries_insert, if_neg here]
      simp [here]

/-- Dropping it from some chunks takes it from these and from no others. -/
theorem mem_entries_dropAll {first chunk : Nat} (chunks : List Nat) :
    ∀ m : CoverageMap,
      other ∈ CoverageMap.entries (chunks.foldl (fun m chunk => m.dropFrom first chunk) m) chunk ↔
        other ∈ m.entries chunk ∧ (chunk ∈ chunks → other.firstSlot ≠ first) := by
  induction chunks with
  | nil => intro m; simp
  | cons head rest ih =>
    intro m
    rw [List.foldl_cons, ih, mem_entries_dropFrom, List.mem_cons]
    grind

/-- Dropping removes what starts in the same slot from the chunks the interval touches, and changes
nothing else. -/
theorem mem_entries_drop {chunk : Nat} :
    other ∈ (m.drop e).entries chunk ↔
      other ∈ m.entries chunk ∧ (chunk ∈ e.chunks → other.firstSlot ≠ e.firstSlot) :=
  mem_entries_dropAll e.chunks m

/-- The same for some intervals, dropped one after the other. -/
theorem mem_entries_drops {chunk : Nat} (hits : List Coverage) :
    ∀ m : CoverageMap,
      other ∈ CoverageMap.entries (hits.foldl CoverageMap.drop m) chunk ↔
        other ∈ m.entries chunk ∧ ∀ e ∈ hits, chunk ∈ e.chunks → other.firstSlot ≠ e.firstSlot := by
  induction hits with
  | nil => intro m; simp
  | cons e rest ih =>
    intro m
    rw [List.foldl_cons, ih, mem_entries_drop, and_assoc, List.forall_mem_cons]

theorem Filed.drops {hits : List Coverage} (apart : ∀ e ∈ hits, other.firstSlot ≠ e.firstSlot)
    (h : m.Filed other) : (hits.foldl CoverageMap.drop m).Filed other :=
  fun chunk hc => (mem_entries_drops hits m).mpr ⟨h chunk hc, fun e he _ => apart e he⟩

theorem Anchored.drops {layout : SlotLayout} (hits : List Coverage) (h : m.Anchored layout) :
    (hits.foldl CoverageMap.drop m).Anchored layout :=
  fun chunk other hother => h chunk other ((mem_entries_drops hits m).mp hother).1

/-! ## Looking up -/

/-- What is filed is found from every slot in it. -/
theorem Filed.mem_hits (h : m.Filed e) {slot : Nat} (hs : e.contains slot = true) :
    e ∈ m.hits slot :=
  List.mem_filter.mpr ⟨h _ (Coverage.chunk_mem_of_contains hs), hs⟩

theorem Anchored.of_mem_hits {layout : SlotLayout} (h : m.Anchored layout) {slot : Nat}
    (hit : e ∈ m.hits slot) : layout.slot? e.start = some e.firstSlot :=
  h _ e (List.mem_filter.mp hit).1

end CoverageMap

end ArmBlocks
