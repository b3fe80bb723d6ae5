import Mathlib.Algebra.GroupWithZero.Nat
import ArmBlocks.Arena.Basic

/-!
# An arena only grows

Between two resets an arena hands out space front to back and never takes any back, so what was
written to the handed-out part stays there. `Arena.Grows` says that of two arenas, `Arena.Has` is a
cell of the handed-out part, and `Has.mono` is what everything compiled into an arena lives on: a
block that was there stays there while others are emitted behind it.

References are words, so what lies 2³² bytes behind a record has the same references again. In an
arena of at most that size nothing does. In a larger one the last 2³² bytes still have references of
their own, which is enough for a block: `Arena.GrowsFrom` is about what was handed out from some
offset on. **The bound comes in exactly once,** where two narrowed offsets are told apart
(`narrow_apart`).
-/

set_option autoImplicit false

namespace ArmBlocks

namespace Arena

variable {α : Type}

/-- The handed-out part is as it was, and more may have been handed out behind it. -/
structure Grows (a b : Arena α) : Prop where
  capacity : b.capacity = a.capacity
  generation : b.generation = a.generation
  used : a.used ≤ b.used
  cells : ∀ offset, offset < a.used → b.cell? offset = a.cell? offset

namespace Grows

theorem refl (a : Arena α) : a.Grows a := ⟨rfl, rfl, Nat.le_refl _, fun _ _ => rfl⟩

theorem trans {a b c : Arena α} (first : a.Grows b) (second : b.Grows c) : a.Grows c where
  capacity := second.capacity.trans first.capacity
  generation := second.generation.trans first.generation
  used := Nat.le_trans first.used second.used
  cells offset h :=
    (second.cells offset (Nat.lt_of_lt_of_le h first.used)).trans (first.cells offset h)

end Grows

/-- A cell of the handed-out part. -/
def Has (a : Arena α) (offset : Nat) (x : α) : Prop := offset < a.used ∧ a.cell? offset = some x

/-- What was handed out and written stays. -/
theorem Has.mono {a b : Arena α} {offset : Nat} {x : α} (h : a.Has offset x) (grows : a.Grows b) :
    b.Has offset x :=
  ⟨Nat.lt_of_lt_of_le h.1 grows.used, (grows.cells offset h.1).trans h.2⟩

/-! ## What references tell apart

A reference is an offset cut to 32 bits. Two places that are less than 2³² bytes apart keep different
references (`narrow_apart`), so of an arena that has handed out no more since some moment, all that
was handed out from then on can be told apart. `GrowsFrom` is growth that keeps those records.
-/

/-- Two stretches that are apart and lie within 2³² bytes are apart as references tell them. -/
theorem narrow_apart {start size later more : Nat} (before : start + size ≤ later)
    (reach : later + more ≤ start + 2 ^ 32) :
    start % 2 ^ 32 + size ≤ later % 2 ^ 32 ∨ later % 2 ^ 32 + more ≤ start % 2 ^ 32 := by
  omega

/-- The place of a byte that was handed out from `low` on: so far behind a start, which a reference
tells as a word. -/
def Handed (low : Nat) (a : Arena α) (offset : Nat) : Prop :=
  ∃ start behind, low ≤ start ∧ start + behind < a.used ∧ offset = start % 2 ^ 32 + behind

/-- The reference tells the start of so many bytes that were handed out from `low` on. -/
def Gives (low : Nat) (a : Arena α) (ref : Ref) (size : Nat) : Prop :=
  ∃ start, low ≤ start ∧ start + size ≤ a.used ∧ ref.offset.toNat = start % 2 ^ 32

section

variable {low front size more offset : Nat} {a b : Arena α} {ref later : Ref}

theorem Handed.lt (h : a.Handed low offset) : offset < a.used := by
  obtain ⟨start, behind, -, inside, rfl⟩ := h
  omega

theorem Handed.mono (h : a.Handed low offset) (used : a.used ≤ b.used) : b.Handed low offset := by
  obtain ⟨start, behind, le, inside, rfl⟩ := h
  exact ⟨start, behind, le, Nat.lt_of_lt_of_le inside used, rfl⟩

/-- As far as references reach, every offset tells its own place. -/
theorem handed_of_lt (reached : a.used ≤ 2 ^ 32) (h : offset < a.used) : a.Handed 0 offset :=
  ⟨offset, 0, Nat.zero_le _, h, by omega⟩

theorem Gives.handed (h : a.Gives low ref size) {behind : Nat} (inside : behind < size) :
    a.Handed low (ref.offset.toNat + behind) := by
  obtain ⟨start, le, fits, place⟩ := h
  exact ⟨start, behind, le, by omega, by rw [place]⟩

theorem Gives.add_le (h : a.Gives low ref size) : ref.offset.toNat + size ≤ a.used := by
  obtain ⟨start, -, fits, place⟩ := h
  omega

theorem Gives.mono (h : a.Gives front ref size) (le : low ≤ front) (used : a.used ≤ b.used) :
    b.Gives low ref size := by
  obtain ⟨start, behind, fits, place⟩ := h
  exact ⟨start, Nat.le_trans le behind, Nat.le_trans fits used, place⟩

/-- What is handed out next does not touch what was, as long as it ends within 2³² bytes. -/
theorem Handed.outside (h : a.Handed low offset) (next : b.Gives a.used ref size)
    (reach : b.used ≤ low + 2 ^ 32) :
    offset < ref.offset.toNat ∨ ref.offset.toNat + size ≤ offset := by
  obtain ⟨start, behind, le, inside, rfl⟩ := h
  obtain ⟨start', le', fits, place⟩ := next
  have apart := @narrow_apart start (behind + 1) start' size (by omega) (by omega)
  omega

theorem Gives.apart (h : a.Gives low ref size) (next : b.Gives a.used later more)
    (reach : b.used ≤ low + 2 ^ 32) :
    ref.offset.toNat + size ≤ later.offset.toNat ∨ later.offset.toNat + more ≤ ref.offset.toNat := by
  obtain ⟨start, le, fits, place⟩ := h
  obtain ⟨start', le', fits', place'⟩ := next
  rw [place, place']
  exact narrow_apart (Nat.le_trans fits le') (by omega)

end

/-- What was handed out from `low` on is as it was, and more may have been handed out behind it. -/
structure GrowsFrom (low : Nat) (a b : Arena α) : Prop where
  capacity : b.capacity = a.capacity
  generation : b.generation = a.generation
  used : a.used ≤ b.used
  cells : ∀ offset, a.Handed low offset → b.cell? offset = a.cell? offset

namespace GrowsFrom

variable {low : Nat}

theorem refl (a : Arena α) : a.GrowsFrom low a := ⟨rfl, rfl, Nat.le_refl _, fun _ _ => rfl⟩

theorem trans {a b c : Arena α} (first : a.GrowsFrom low b) (second : b.GrowsFrom low c) :
    a.GrowsFrom low c where
  capacity := second.capacity.trans first.capacity
  generation := second.generation.trans first.generation
  used := Nat.le_trans first.used second.used
  cells offset h := (second.cells offset (h.mono first.used)).trans (first.cells offset h)

/-- As far as references reach, nothing is overwritten. -/
theorem grows {a b : Arena α} (h : a.GrowsFrom 0 b) (reached : a.used ≤ 2 ^ 32) : a.Grows b where
  capacity := h.capacity
  generation := h.generation
  used := h.used
  cells offset inside := h.cells offset (handed_of_lt reached inside)

end GrowsFrom

/-- A cell that was handed out from `low` on stays. -/
theorem Has.keep {low offset : Nat} {a b : Arena α} {x : α} (h : a.Has offset x)
    (handed : a.Handed low offset) (grows : a.GrowsFrom low b) : b.Has offset x :=
  ⟨Nat.lt_of_lt_of_le h.1 grows.used, (grows.cells offset handed).trans h.2⟩

/-! ## A new arena -/

theorem eq_of_reserve {capacity : Nat} {grants : Nat → Bool} {a : Arena α}
    (h : reserve capacity grants = .ok a) : a = { capacity, used := 0, generation := 0, cells := ∅ } := by
  unfold reserve at h
  split at h
  · exact (Except.ok.inj h).symm
  · cases h

theorem capacity_of_reserve {capacity : Nat} {grants : Nat → Bool} {a : Arena α}
    (h : reserve capacity grants = .ok a) :
    a.capacity = capacity := by
  rw [eq_of_reserve h]

/-! ## Allocation

An aligned allocation rounds its start up and takes the padding whether it was needed or not: it
always costs `paddedSize`, and it is refused where that reaches the capacity.
-/

theorem le_roundUp (offset : Nat) : offset ≤ roundUp offset := by
  unfold roundUp alignment
  omega

theorem roundUp_le (offset : Nat) : roundUp offset ≤ offset + (alignment - 1) := by
  unfold roundUp alignment
  omega

/-- What an aligned allocation takes, the padding included. -/
def paddedSize (size : Nat) : Nat := size + (alignment - 1)

/-- There is room, and the space is taken. -/
theorem allocAligned_of_lt {a : Arena α} {size : Nat} (h : a.used + paddedSize size < a.capacity) :
    a.allocAligned size =
      (some ⟨BitVec.ofNat 32 (roundUp a.used)⟩, { a with used := a.used + paddedSize size }) := by
  have taken : a.alloc (size + (alignment - 1)) = _ := alloc_of_lt h
  simp only [allocAligned, taken]
  rfl

/-- There is no room, and nothing is taken. -/
theorem allocAligned_of_le {a : Arena α} {size : Nat} (h : a.capacity ≤ a.used + paddedSize size) :
    a.allocAligned size = (none, a) := by
  have refused : a.alloc (size + (alignment - 1)) = _ := alloc_of_le h
  simp only [allocAligned, refused]

/-- An allocation takes what comes next. -/
theorem gives_of_allocAligned {a b : Arena α} {size : Nat} {ref : Ref}
    (h : a.allocAligned size = (some ref, b)) :
    b.Gives a.used ref size ∧ b.used < a.capacity ∧
      b = { a with used := a.used + paddedSize size } := by
  rcases Nat.lt_or_ge (a.used + paddedSize size) a.capacity with room | full
  · rw [allocAligned_of_lt room, Prod.mk.injEq, Option.some.injEq] at h
    obtain ⟨rfl, rfl⟩ := h
    have high := roundUp_le a.used
    refine ⟨⟨roundUp a.used, le_roundUp a.used, ?_, BitVec.toNat_ofNat ..⟩, room, rfl⟩
    simp only [paddedSize]
    omega
  · rw [allocAligned_of_le full] at h
    exact absurd h (by simp)

/-- In an arena of at most 2³² bytes an allocation lies behind what was handed out before. -/
theorem allocAligned_eq_some {a b : Arena α} {size : Nat} {ref : Ref}
    (h : a.allocAligned size = (some ref, b)) (hc : a.capacity ≤ 2 ^ 32) :
    a.used ≤ ref.offset.toNat ∧ ref.offset.toNat + size ≤ b.used ∧
      b = { a with used := a.used + paddedSize size } := by
  obtain ⟨⟨start, behind, fits, place⟩, room, grown⟩ := gives_of_allocAligned h
  have narrow : start % 2 ^ 32 = start := Nat.mod_eq_of_lt (by omega)
  rw [place, narrow]
  exact ⟨behind, fits, grown⟩

/-! ## Records -/

theorem cell?_write (a : Arena α) (ref : Ref) (size i offset : Nat) (x : α) :
    (a.write ref size i x).cell? offset =
      if position ref size i = offset then some x else a.cell? offset := by
  simp only [write, cell?_setCell]

/-- A record that was put is read back, however large the arena. -/
theorem get?_put {a b : Arena α} {size : Nat} {x : α} {ref : Ref} (h : a.put size x = (some ref, b)) :
    b.get? ref size 0 = some x := by
  simp only [put] at h
  split at h
  · simp only [Prod.mk.injEq, Option.some.injEq] at h
    obtain ⟨rfl, rfl⟩ := h
    simp [get?, cell?_write]
  · exact absurd h (by simp)

/-- Putting a record grows the arena by that record. -/
theorem put_eq_some {low : Nat} {a b : Arena α} {size : Nat} {x : α} {ref : Ref}
    (h : a.put size x = (some ref, b)) (hc : a.capacity ≤ low + 2 ^ 32) (hs : 0 < size) :
    a.GrowsFrom low b ∧ b.Gives a.used ref size ∧ b.used < a.capacity ∧
      b.Has ref.offset.toNat x := by
  simp only [put] at h
  split at h
  · rename_i ref' c alloc
    simp only [Prod.mk.injEq, Option.some.injEq] at h
    obtain ⟨rfl, rfl⟩ := h
    obtain ⟨gives, room, rfl⟩ := gives_of_allocAligned alloc
    have place : position ref' size 0 = ref'.offset.toNat := by simp [position]
    have fits := gives.add_le
    refine ⟨⟨rfl, rfl, Nat.le_add_right .., fun offset handed => ?_⟩, gives, room, ?_, ?_⟩
    · have outside := handed.outside gives (by omega)
      rw [cell?_write, place, if_neg (by omega)]
      rfl
    · rw [used_write]
      omega
    · rw [cell?_write, place, if_pos rfl]
  · exact absurd h (by simp)

/-- A record fits where there is room for it and its padding. -/
theorem put_of_lt {a : Arena α} {size : Nat} (x : α) (h : a.used + paddedSize size < a.capacity) :
    ∃ ref b, a.put size x = (some ref, b) ∧ b.used = a.used + paddedSize size ∧
      b.capacity = a.capacity := by
  simp only [put, allocAligned_of_lt h]
  exact ⟨_, _, rfl, rfl, rfl⟩

/-! ## Arrays

An array is written record by record, each at its position. A record that lies before the array or
behind it stays, and the one at a position is the one that was written there last.
-/

theorem position_succ (ref : Ref) (size i : Nat) :
    position ref size (i + 1) = position ref size i + size := by
  rw [position, position, Nat.succ_mul, Nat.add_assoc]

theorem position_le {ref : Ref} {size i j : Nat} (le : i ≤ j) :
    position ref size i ≤ position ref size j :=
  Nat.add_le_add_left (Nat.mul_le_mul_right size le) _

theorem lt_of_position_lt {ref : Ref} {size i j : Nat}
    (before : position ref size i < position ref size j) : i < j :=
  Nat.lt_of_not_le fun le => Nat.not_lt.mpr (position_le le) before

/-- Of two places in an array the later one starts where the earlier one has ended. -/
theorem position_add_le {ref : Ref} {size i j : Nat} (before : i < j) :
    position ref size i + size ≤ position ref size j := by
  rw [← position_succ]
  exact position_le before

theorem used_writeList (ref : Ref) (size : Nat) (xs : List α) :
    ∀ (a : Arena α) (i : Nat), (a.writeList ref size i xs).used = a.used := by
  induction xs with
  | nil => intro a i; rfl
  | cons x rest ih => intro a i; exact ih (a.write ref size i x) (i + 1)

theorem capacity_writeList (ref : Ref) (size : Nat) (xs : List α) :
    ∀ (a : Arena α) (i : Nat), (a.writeList ref size i xs).capacity = a.capacity := by
  induction xs with
  | nil => intro a i; rfl
  | cons x rest ih => intro a i; exact ih (a.write ref size i x) (i + 1)

theorem generation_writeList (ref : Ref) (size : Nat) (xs : List α) :
    ∀ (a : Arena α) (i : Nat), (a.writeList ref size i xs).generation = a.generation := by
  induction xs with
  | nil => intro a i; rfl
  | cons x rest ih => intro a i; exact ih (a.write ref size i x) (i + 1)

/-- Writing to an array leaves alone what lies outside of it. -/
theorem cell?_writeList_of_outside (ref : Ref) (size : Nat) (xs : List α) (offset : Nat) :
    ∀ (a : Arena α) (i : Nat),
      offset < position ref size i ∨ position ref size (i + xs.length) ≤ offset → 0 < size →
      (a.writeList ref size i xs).cell? offset = a.cell? offset := by
  induction xs with
  | nil => intro a i _ _; rfl
  | cons x rest ih =>
    intro a i outside hs
    have step := position_succ ref size i
    have ends : position ref size (i + 1) ≤ position ref size (i + 1 + rest.length) :=
      position_le (Nat.le_add_right ..)
    have length : i + (x :: rest).length = i + 1 + rest.length := by
      simp only [List.length_cons]
      omega
    rw [length] at outside
    have tail := ih (a.write ref size i x) (i + 1) (by omega) hs
    rw [writeList, tail, cell?_write, if_neg (by omega)]

/-- What was written to an array is read back. -/
theorem cell?_writeList (ref : Ref) (size : Nat) (hs : 0 < size) (xs : List α) :
    ∀ (a : Arena α) (i k : Nat) (x : α), xs[k]? = some x →
      (a.writeList ref size i xs).cell? (position ref size (i + k)) = some x := by
  induction xs with
  | nil => intro a i k x h; exact absurd h (by simp)
  | cons y rest ih =>
    intro a i k x h
    cases k with
    | zero =>
      obtain rfl : y = x := by simpa using h
      have before : position ref size i < position ref size (i + 1) := by
        rw [position_succ]
        exact Nat.lt_add_of_pos_right hs
      have kept := cell?_writeList_of_outside ref size rest _ (a.write ref size i y) (i + 1)
        (.inl before) hs
      rw [cell?_write, if_pos rfl] at kept
      exact kept
    | succ k =>
      have shift : i + (k + 1) = i + 1 + k := by omega
      rw [writeList, shift]
      exact ih (a.write ref size i y) (i + 1) k x (by simpa using h)

/-- An array that was handed out is read back as it was written. -/
theorem has_writeList {a : Arena α} (ref : Ref) {size : Nat} (hs : 0 < size) {xs : List α}
    (room : position ref size xs.length ≤ a.used) {k : Nat} {x : α} (h : xs[k]? = some x) :
    (a.writeList ref size 0 xs).Has (position ref size k) x := by
  refine ⟨?_, ?_⟩
  · have inside : k < xs.length := (List.getElem?_eq_some_iff.mp h).1
    rw [used_writeList]
    refine Nat.lt_of_lt_of_le ?_ room
    exact Nat.add_lt_add_left (Nat.mul_lt_mul_of_pos_right inside hs) _
  · have back := cell?_writeList ref size hs xs a 0 k x h
    rwa [Nat.zero_add] at back

/-- Writing to an array keeps what lies outside of it. -/
theorem Has.writeList {a : Arena α} {offset : Nat} {x : α} (h : a.Has offset x) {ref : Ref}
    {size : Nat} {xs : List α}
    (outside : offset < ref.offset.toNat ∨ position ref size xs.length ≤ offset) (hs : 0 < size) :
    (a.writeList ref size 0 xs).Has offset x := by
  refine ⟨?_, ?_⟩
  · rw [used_writeList]
    exact h.1
  · rw [cell?_writeList_of_outside ref size xs offset a 0 ?_ hs]
    · exact h.2
    · rw [Nat.zero_add, position, Nat.zero_mul]
      exact outside

/-- Filling in an array that was handed out since does not touch what was handed out before. -/
theorem GrowsFrom.writeList {low : Nat} {a b c : Arena α} (grows : a.GrowsFrom low c) {ref : Ref}
    {size : Nat} {xs : List α} (array : b.Gives a.used ref (size * xs.length))
    (reach : b.used ≤ low + 2 ^ 32) (hs : 0 < size) :
    a.GrowsFrom low (c.writeList ref size 0 xs) where
  capacity := by rw [capacity_writeList]; exact grows.capacity
  generation := by rw [generation_writeList]; exact grows.generation
  used := by rw [used_writeList]; exact grows.used
  cells offset handed := by
    rw [cell?_writeList_of_outside ref size xs offset c 0 ?_ hs]
    · exact grows.cells offset handed
    · rw [Nat.zero_add, position, Nat.zero_mul, position, Nat.mul_comm]
      exact handed.outside array reach

/-- An array is handed out as a whole. -/
theorem putArray_eq_some {low : Nat} {a b : Arena α} {size count : Nat} {fill : α} {ref : Ref}
    (h : a.putArray size count fill = (some ref, b)) (hc : a.capacity ≤ low + 2 ^ 32)
    (hs : 0 < size) : a.GrowsFrom low b ∧ b.Gives a.used ref (size * count) ∧ b.used < a.capacity := by
  simp only [putArray] at h
  split at h
  · rename_i ref' c alloc
    simp only [Prod.mk.injEq, Option.some.injEq] at h
    obtain ⟨rfl, rfl⟩ := h
    obtain ⟨gives, room, rfl⟩ := gives_of_allocAligned alloc
    have taken : a.GrowsFrom low { a with used := a.used + paddedSize (size * count) } :=
      ⟨rfl, rfl, Nat.le_add_right .., fun _ _ => rfl⟩
    have reach := Nat.le_trans (Nat.le_of_lt room) hc
    refine ⟨taken.writeList ?_ reach hs,
      gives.mono (Nat.le_refl _) (Nat.le_of_eq (used_writeList ..).symm), ?_⟩
    · rw [List.length_replicate]
      exact gives
    · rw [used_writeList]
      exact room
  · exact absurd h (by simp)

/-- An array fits where there is room for it and its padding. -/
theorem putArray_of_lt {a : Arena α} {size count : Nat} (fill : α)
    (h : a.used + paddedSize (size * count) < a.capacity) :
    ∃ ref b, a.putArray size count fill = (some ref, b) ∧
      b.used = a.used + paddedSize (size * count) ∧ b.capacity = a.capacity := by
  simp only [putArray, allocAligned_of_lt h]
  exact ⟨_, _, rfl, used_writeList .., capacity_writeList ..⟩

/-! ## What may have been written

Without any bound the offsets may coincide, and less is true: a record in the arena is one that was
there before, or one of those that were written. That is all that the size of a block needs.
-/

theorem cell?_allocAligned (a : Arena α) (size offset : Nat) :
    (a.allocAligned size).2.cell? offset = a.cell? offset := by
  rcases Nat.lt_or_ge (a.used + paddedSize size) a.capacity with room | full
  · rw [allocAligned_of_lt room]
    rfl
  · rw [allocAligned_of_le full]

theorem capacity_allocAligned (a : Arena α) (size : Nat) :
    (a.allocAligned size).2.capacity = a.capacity := by
  rcases Nat.lt_or_ge (a.used + paddedSize size) a.capacity with room | full
  · rw [allocAligned_of_lt room]
  · rw [allocAligned_of_le full]

/-- A record takes nothing of the capacity, whether it found room or not. -/
theorem capacity_put (a : Arena α) (size : Nat) (x : α) : (a.put size x).2.capacity = a.capacity := by
  rw [← capacity_allocAligned a size, put]
  split
  · rename_i ref b eq
    rw [eq]
    rfl
  · rename_i b eq
    rw [eq]

/-- Neither does an array of records. -/
theorem capacity_putArray (a : Arena α) (size count : Nat) (fill : α) :
    (a.putArray size count fill).2.capacity = a.capacity := by
  rw [← capacity_allocAligned a (size * count), putArray]
  split
  · rename_i ref b eq
    rw [eq]
    exact capacity_writeList _ _ _ _ _
  · rename_i b eq
    rw [eq]

/-- A cell after putting a record was there before or is that record. -/
theorem cell?_put {a : Arena α} {size offset : Nat} {x y : α}
    (h : (a.put size x).2.cell? offset = some y) : a.cell? offset = some y ∨ y = x := by
  have kept := cell?_allocAligned a size offset
  simp only [put] at h
  split at h
  · rename_i ref b eq
    rw [eq] at kept
    rw [cell?_write, kept] at h
    split at h
    · exact .inr (Option.some.inj h).symm
    · exact .inl h
  · rename_i b eq
    rw [eq] at kept
    exact .inl (kept.symm.trans h)

/-- A cell after writing to an array was there before or is one of the records. -/
theorem cell?_writeList_mem (ref : Ref) (size offset : Nat) (y : α) (xs : List α) :
    ∀ (a : Arena α) (i : Nat), (a.writeList ref size i xs).cell? offset = some y →
      a.cell? offset = some y ∨ y ∈ xs := by
  induction xs with
  | nil => intro a i h; exact .inl h
  | cons x rest ih =>
    intro a i h
    rcases ih (a.write ref size i x) (i + 1) h with h | h
    · rw [cell?_write] at h
      split at h
      · exact .inr (by simp [Option.some.inj h])
      · exact .inl h
    · exact .inr (List.mem_cons_of_mem x h)

/-- A cell after allocating an array was there before or is the fill. -/
theorem cell?_putArray {a : Arena α} {size count offset : Nat} {fill y : α}
    (h : (a.putArray size count fill).2.cell? offset = some y) :
    a.cell? offset = some y ∨ y = fill := by
  have kept := cell?_allocAligned a (size * count) offset
  simp only [putArray] at h
  split at h
  · rename_i ref b eq
    rw [eq] at kept
    rcases cell?_writeList_mem _ _ _ _ _ _ _ h with h | h
    · exact .inl (kept.symm.trans h)
    · exact .inr (List.eq_of_mem_replicate h)
  · rename_i b eq
    rw [eq] at kept
    exact .inl (kept.symm.trans h)

end Arena

end ArmBlocks
