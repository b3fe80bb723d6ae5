import ArmBlocks.Arena.Bytes
import ArmBlocks.Proofs.ArenaGrowth

/-!
# What an arena hands out is disjoint

An arena of bytes is asked for bytes in four ways, plain or aligned, and with a record or an array of them
written to the bytes or not. A `Ledger` is the arena with everything that it handed out since its last
reset. **As long as a reference reaches all of the arena, nothing that was handed out shares a byte with
anything else, so whatever was put is read back until the reset.**

The padding of an aligned allocation is paid in advance, so its start may be rounded up: it never reaches
past what was taken. But then the start is narrowed to a word. An aligned allocation that starts at 2³²
is answered as one that starts at 0, over what was put there first. For that the arena has to hold that
many bytes and one more that is not the last. So the bound is exact (`Ledger.separate_iff`): in an arena
of 2³² + 1 bytes the only allocations that are narrowed are empty, in a larger one there is a byte that
two records share.

What does not depend on the bound is that all of it lies in the arena and is aligned where that was asked
for, and that a request that is refused changes nothing.
-/

set_option autoImplicit false

namespace ArmBlocks

namespace Arena

/-! ## Bytes

Bytes that are written are read back, and others are as they were: by induction on the list that is
written, with the place moving along.
-/

section

variable (a : Arena (BitVec 8))

/-- Written bytes are found where they were written, and nothing else is changed. -/
theorem cell?_setBytes (bs : List (BitVec 8)) (offset : Nat) :
    ∀ (a : Arena (BitVec 8)) (start : Nat), (a.setBytes start bs).cell? offset =
      if start ≤ offset ∧ offset < start + bs.length then bs[offset - start]? else a.cell? offset := by
  induction bs with
  | nil =>
    intro a start
    rw [List.length_nil, if_neg (by omega)]
    rfl
  | cons b bs ih =>
    intro a start
    rw [setBytes, ih, cell?_setCell, List.length_cons]
    rcases Nat.lt_trichotomy offset start with below | rfl | above
    · rw [if_neg (by omega), if_neg (by omega), if_neg (by omega)]
    · rw [if_neg (by omega), if_pos rfl, if_pos (by omega), Nat.sub_self]
      rfl
    · obtain ⟨k, rfl⟩ : ∃ k, offset = start + 1 + k := ⟨offset - (start + 1), by omega⟩
      have shift : start + 1 + k - start = k + 1 := by omega
      rw [Nat.add_sub_cancel_left, shift, List.getElem?_cons_succ]
      by_cases inside : k < bs.length
      · rw [if_pos (by omega), if_pos (by omega)]
      · rw [if_neg (by omega), if_neg (by omega), if_neg (by omega)]

theorem used_setBytes (bs : List (BitVec 8)) :
    ∀ (a : Arena (BitVec 8)) (start : Nat), (a.setBytes start bs).used = a.used := by
  induction bs with
  | nil => intro a start; rfl
  | cons b bs ih => intro a start; exact ih (a.setCell start b) (start + 1)

theorem capacity_setBytes (bs : List (BitVec 8)) :
    ∀ (a : Arena (BitVec 8)) (start : Nat), (a.setBytes start bs).capacity = a.capacity := by
  induction bs with
  | nil => intro a start; rfl
  | cons b bs ih => intro a start; exact ih (a.setCell start b) (start + 1)

/-- Bytes may be written in two parts. -/
theorem setBytes_append (xs ys : List (BitVec 8)) :
    ∀ (a : Arena (BitVec 8)) (start : Nat), a.setBytes start (xs ++ ys) =
      (a.setBytes start xs).setBytes (start + xs.length) ys := by
  induction xs with
  | nil => intro a start; rfl
  | cons x xs ih =>
    intro a start
    rw [List.cons_append, setBytes, ih, List.length_cons, Nat.add_comm xs.length, ← Nat.add_assoc]
    rfl

theorem bytes_congr {a b : Arena (BitVec 8)} {start count : Nat}
    (same : ∀ offset, start ≤ offset → offset < start + count → b.cell? offset = a.cell? offset) :
    b.bytes start count = a.bytes start count := by
  refine List.map_congr_left fun i inside => ?_
  rw [List.mem_range] at inside
  rw [byte, byte, same (start + i) (by omega) (by omega)]

/-- What was written is read. -/
theorem bytes_setBytes (start : Nat) (bs : List (BitVec 8)) :
    (a.setBytes start bs).bytes start bs.length = bs := by
  refine List.ext_getElem (by simp [bytes]) fun i _ inside => ?_
  have here : (a.setBytes start bs).cell? (start + i) = bs[i]? := by
    rw [cell?_setBytes, if_pos (by omega), Nat.add_sub_cancel_left]
  simp [bytes, byte, here, List.getElem?_eq_getElem inside]

/-- Bytes that are not written stay as they are. -/
theorem bytes_setBytes_of_apart {place start count : Nat} {bs : List (BitVec 8)}
    (apart : ∀ x, ¬((place ≤ x ∧ x < place + bs.length) ∧ start ≤ x ∧ x < start + count)) :
    (a.setBytes place bs).bytes start count = a.bytes start count := by
  refine bytes_congr fun offset low high => ?_
  rw [cell?_setBytes, if_neg fun written => apart offset ⟨written, low, high⟩]

/-- Bytes that nobody wrote are poison. -/
theorem bytes_of_free {a : Arena (BitVec 8)} {start count : Nat}
    (free : ∀ offset, start ≤ offset → offset < start + count → a.cell? offset = none) :
    a.bytes start count = List.replicate count poison := by
  refine List.eq_replicate_iff.mpr ⟨by simp [bytes], fun x member => ?_⟩
  obtain ⟨i, inside, rfl⟩ := List.mem_map.mp member
  rw [List.mem_range] at inside
  rw [byte, free (start + i) (by omega) (by omega)]
  rfl

/-! ## Records of an array -/

/-- A record of an array is read as it was written, and the others are not touched. -/
theorem getRecord_setRecord (ref : Ref) (i j : Nat) (record : List (BitVec 8)) :
    (a.setRecord ref i record).getRecord record.length ref j =
      if i = j then record else a.getRecord record.length ref j := by
  rcases Nat.lt_trichotomy i j with before | rfl | behind
  · rw [if_neg (by omega)]
    have ends : position ref record.length i + record.length ≤ position ref record.length j :=
      position_add_le before
    exact a.bytes_setBytes_of_apart fun x both => by omega
  · rw [if_pos rfl]
    exact a.bytes_setBytes _ record
  · rw [if_neg (by omega)]
    have ends : position ref record.length j + record.length ≤ position ref record.length i :=
      position_add_le behind
    exact a.bytes_setBytes_of_apart fun x both => by omega

/-- Filling an array is writing all its bytes. -/
theorem setRecords_eq (ref : Ref) (fill : List (BitVec 8)) (count : Nat) :
    (List.range count).foldl (fun a i => a.setRecord ref i fill) a =
      a.setBytes ref.offset.toNat (List.replicate count fill).flatten := by
  induction count with
  | zero => rfl
  | succ n ih =>
    have length : (List.replicate n fill).flatten.length = n * fill.length := by simp
    rw [List.range_succ, List.foldl_append, ih, List.replicate_succ', List.flatten_append,
      setBytes_append, length, List.flatten_singleton]
    rfl

end

/-! ## Allocations

Every request is one of few: so many bytes, aligned or not, a record, or an array of records. What it
takes and where it starts depends on what is used alone, and not on what is in the arena.
-/

/-- A way to ask for bytes. -/
inductive Allocation where
  | plain (size : Nat)
  | aligned (size : Nat)
  | record (bytes : List (BitVec 8))
  | array (count : Nat) (fill : List (BitVec 8))

namespace Allocation

/-- The bytes that are asked for. -/
def size : Allocation → Nat
  | plain size | aligned size => size
  | record bytes => bytes.length
  | array count fill => fill.length * count

/-- Whether they are to start at a multiple of the alignment. -/
def isAligned : Allocation → Bool
  | plain _ => false
  | _ => true

/-- What is written to them. -/
def written : Allocation → List (BitVec 8)
  | plain _ | aligned _ => []
  | record bytes => bytes
  | array count fill => (List.replicate count fill).flatten

/-- What they hold. Bytes that were only handed out are poison. -/
def content : Allocation → List (BitVec 8)
  | plain size | aligned size => List.replicate size poison
  | record bytes => bytes
  | array count fill => (List.replicate count fill).flatten

/-- Asks an arena, which answers where the bytes start. -/
def perform (a : Arena (BitVec 8)) (x : Allocation) : Option Nat × Arena (BitVec 8) :=
  let start (r : Option Ref × Arena (BitVec 8)) := (r.1.map fun ref => ref.offset.toNat, r.2)
  match x with
  | plain size => a.alloc size
  | aligned size => start (a.allocAligned size)
  | record bytes => start (a.putRecord bytes)
  | array count fill => start (a.putRecords count fill)

/-- The bytes that are taken. -/
def cost (x : Allocation) : Nat := if x.isAligned then paddedSize x.size else x.size

/-- Where the bytes start that an arena answers. -/
def start (used : Nat) (x : Allocation) : Nat :=
  if x.isAligned then roundUp used % 2 ^ 32 else used

theorem length_content (x : Allocation) : x.content.length = x.size := by
  cases x <;> simp [content, size, Nat.mul_comm]

theorem written_cases (x : Allocation) :
    x.written = x.content ∨ x.written = [] ∧ x.content = List.replicate x.size poison := by
  cases x with
  | plain _ | aligned _ => exact .inr ⟨rfl, rfl⟩
  | record _ | array _ _ => exact .inl rfl

theorem length_written_le (x : Allocation) : x.written.length ≤ x.size := by
  rcases x.written_cases with whole | ⟨none, -⟩
  · exact Nat.le_of_eq (by rw [whole, x.length_content])
  · rw [none]
    exact Nat.zero_le _

variable {a : Arena (BitVec 8)} {x : Allocation}

/-- There is room: the bytes are taken and written. -/
theorem perform_of_lt (room : a.used + x.cost < a.capacity) :
    x.perform a = (some (x.start a.used),
      ({ a with used := a.used + x.cost } : Arena (BitVec 8)).setBytes (x.start a.used) x.written) := by
  cases x with
  | plain size => exact alloc_of_lt room
  | aligned size =>
    have taken := allocAligned_of_lt room
    simp only [perform, show a.allocAligned size = _ from taken]
    rfl
  | record bytes =>
    have taken := allocAligned_of_lt room
    simp only [perform, putRecord, show a.allocAligned bytes.length = _ from taken, setRecord, position,
      Nat.zero_mul, Nat.add_zero]
    rfl
  | array count fill =>
    have taken := allocAligned_of_lt room
    simp only [perform, putRecords, show a.allocAligned (fill.length * count) = _ from taken,
      setRecords_eq]
    rfl

/-- There is no room: nothing happens. -/
theorem perform_of_le (full : a.capacity ≤ a.used + x.cost) : x.perform a = (none, a) := by
  cases x with
  | plain size => exact alloc_of_le full
  | aligned size =>
    have refused := allocAligned_of_le full
    simp only [perform, show a.allocAligned size = _ from refused]
    rfl
  | record bytes =>
    have refused := allocAligned_of_le full
    simp only [perform, putRecord, show a.allocAligned bytes.length = _ from refused]
    rfl
  | array count fill =>
    have refused := allocAligned_of_le full
    simp only [perform, putRecords, show a.allocAligned (fill.length * count) = _ from refused]
    rfl

theorem perform_of_refused (refused : (x.perform a).1 = none) : (x.perform a).2 = a := by
  rcases Nat.lt_or_ge (a.used + x.cost) a.capacity with room | full
  · rw [perform_of_lt room] at refused
    cases refused
  · rw [perform_of_le full]

/-! ### Where the bytes lie -/

/-- They are among those that were taken, also where the start is narrowed. -/
theorem start_add_size_le (used : Nat) (x : Allocation) : x.start used + x.size ≤ used + x.cost := by
  unfold start cost
  split
  · have padded := roundUp_le used
    have narrowed := Nat.mod_le (roundUp used) (2 ^ 32)
    unfold paddedSize
    omega
  · exact Nat.le_refl _

theorem start_mod (used : Nat) (aligned : x.isAligned = true) : x.start used % alignment = 0 := by
  rw [start, if_pos aligned, Nat.mod_mod_of_dvd _ (by decide), roundUp]
  exact Nat.mul_mod_left _ _

/-- They lie behind what was handed out before, if there are any and the start is not narrowed. -/
theorem le_start {used : Nat} (reached : used + x.cost ≤ 2 ^ 32) (nonempty : x.size ≠ 0) :
    used ≤ x.start used := by
  unfold start
  split
  · rename_i aligned
    have low := le_roundUp used
    have padded := roundUp_le used
    rw [cost, if_pos aligned, paddedSize] at reached
    rw [Nat.mod_eq_of_lt (by omega)]
    exact low
  · exact Nat.le_refl _

end Allocation

/-- What an arena is asked. -/
inductive Request where
  | allocate (x : Allocation)
  | reset

/-- The bytes that a request asks for. -/
def Request.size : Request → Nat
  | allocate x => x.size
  | reset => 0

/-! ## The ledger

The arena forgets what it handed out, so a ledger keeps it beside: where each thing begins as the
caller was told, and what was put there. That no two of them share a byte is then a property of the
ledger.
-/

/-- Bytes that were handed out. -/
structure Holding where
  first : Nat
  what : Allocation

namespace Holding

/-- A byte of it. -/
def Covers (h : Holding) (offset : Nat) : Prop := h.first ≤ offset ∧ offset < h.first + h.what.size

/-- They share no byte. -/
def Apart (g h : Holding) : Prop := ∀ offset, ¬(g.Covers offset ∧ h.Covers offset)

theorem Apart.symm {g h : Holding} (apart : g.Apart h) : h.Apart g := fun offset both =>
  apart offset ⟨both.2, both.1⟩

end Holding

/-- An arena, and what it handed out since its last reset. -/
structure Ledger where
  arena : Arena (BitVec 8)
  holdings : List Holding

namespace Ledger

/-- A request is answered. -/
def serve (l : Ledger) : Request → Ledger
  | .allocate x =>
    match x.perform l.arena with
    | (some first, a) => ⟨a, ⟨first, x⟩ :: l.holdings⟩
    | (none, a) => ⟨a, l.holdings⟩
  | .reset => ⟨l.arena.reset, []⟩

/-- A new arena is asked one thing after another. -/
def run (a : Arena (BitVec 8)) (requests : List Request) : Ledger := requests.foldl serve ⟨a, []⟩

/-- All that is handed out lies in the arena and is aligned where that was asked for. -/
structure Bounded (l : Ledger) : Prop where
  used : l.arena.used ≤ l.arena.capacity
  inside : ∀ h ∈ l.holdings, h.first + h.what.size ≤ l.arena.capacity
  aligned : ∀ h ∈ l.holdings, h.what.isAligned = true → h.first % alignment = 0

/-- Writing to any of the bytes of the one leaves those of the other as they are. -/
def Spares (l : Ledger) (g h : Holding) : Prop :=
  ∀ (place : Nat) (bs : List (BitVec 8)), g.first ≤ place →
    place + bs.length ≤ g.first + g.what.size →
    (l.arena.setBytes place bs).bytes h.first h.what.size = l.arena.bytes h.first h.what.size

/-- No two things that were handed out share a byte, and each holds what was put there. -/
structure Separate (l : Ledger) : Prop where
  apart : l.holdings.Pairwise Holding.Apart
  reads : ∀ h ∈ l.holdings, l.arena.bytes h.first h.what.size = h.what.content
  spares : l.holdings.Pairwise fun g h => l.Spares g h ∧ l.Spares h g

variable {l : Ledger} {x : Allocation}

/-- The arena with the bytes of an allocation taken and written. -/
def taken (l : Ledger) (x : Allocation) : Arena (BitVec 8) :=
  ({ l.arena with used := l.arena.used + x.cost } : Arena (BitVec 8)).setBytes (x.start l.arena.used)
    x.written

theorem used_taken (l : Ledger) (x : Allocation) : (l.taken x).used = l.arena.used + x.cost :=
  used_setBytes ..

theorem capacity_taken (l : Ledger) (x : Allocation) : (l.taken x).capacity = l.arena.capacity :=
  capacity_setBytes ..

theorem serve_of_lt (room : l.arena.used + x.cost < l.arena.capacity) :
    l.serve (.allocate x) = ⟨l.taken x, ⟨x.start l.arena.used, x⟩ :: l.holdings⟩ := by
  simp only [serve, Allocation.perform_of_lt room]
  rfl

theorem serve_of_le (full : l.arena.capacity ≤ l.arena.used + x.cost) : l.serve (.allocate x) = l := by
  simp only [serve, Allocation.perform_of_le full]

theorem spares_of_apart {g h : Holding} (apart : g.Apart h) : l.Spares g h := by
  intro place bs low high
  refine bytes_setBytes_of_apart _ fun offset both => ?_
  obtain ⟨⟨above, below⟩, inside⟩ := both
  exact apart offset ⟨⟨by omega, by omega⟩, inside⟩

/-! ### Whatever the capacity -/

/-- Serving a request keeps what is handed out inside of the capacity and aligned. -/
theorem Bounded.serve (bounded : l.Bounded) (r : Request) : (l.serve r).Bounded := by
  cases r with
  | reset => exact ⟨Nat.zero_le _, nofun, nofun⟩
  | allocate x =>
    rcases Nat.lt_or_ge (l.arena.used + x.cost) l.arena.capacity with room | full
    · have reach := x.start_add_size_le l.arena.used
      rw [serve_of_lt room]
      refine ⟨?_, fun h member => ?_, fun h member aligned => ?_⟩
      · rw [used_taken, capacity_taken]
        exact Nat.le_of_lt room
      · rw [capacity_taken]
        rcases List.mem_cons.mp member with rfl | earlier
        · show x.start l.arena.used + x.size ≤ l.arena.capacity
          omega
        · exact bounded.inside h earlier
      · rcases List.mem_cons.mp member with rfl | earlier
        · exact Allocation.start_mod _ aligned
        · exact bounded.aligned h earlier aligned
    · rw [serve_of_le full]
      exact bounded

/-! ### Where references reach

An offset of less than 2³² is told as it is. What is handed out next begins where the earlier things
end, and an arena of 2³² + 1 bytes cannot hand out anything from 2³² on.
-/

/-- What keeps the bytes of an arena apart: all of them are below what is used, and nobody wrote behind. -/
structure Sound (l : Ledger) : Prop where
  reached : l.arena.capacity ≤ 2 ^ 32 + 1
  below : ∀ h ∈ l.holdings, h.first + h.what.size ≤ l.arena.used
  free : ∀ offset, l.arena.used ≤ offset → l.arena.cell? offset = none
  apart : l.holdings.Pairwise Holding.Apart
  reads : ∀ h ∈ l.holdings, l.arena.bytes h.first h.what.size = h.what.content

namespace Sound

theorem free_taken (sound : l.Sound) {offset : Nat} (unused : l.arena.used + x.cost ≤ offset) :
    (l.taken x).cell? offset = none := by
  have reach := x.start_add_size_le l.arena.used
  have few := x.length_written_le
  rw [taken, cell?_setBytes, if_neg (by omega)]
  exact sound.free offset (by omega)

section

variable (sound : l.Sound) (room : l.arena.used + x.cost < l.arena.capacity)
include sound room

/-- New bytes lie behind all that was handed out. Only those that are none may be narrowed. -/
theorem le_start (nonempty : x.size ≠ 0) : l.arena.used ≤ x.start l.arena.used := by
  have reached := sound.reached
  exact Allocation.le_start (by omega) nonempty

/-- What is handed out next lies behind all that was handed out before, so they share no byte. -/
theorem apart_taken {h : Holding} (earlier : h ∈ l.holdings) :
    Holding.Apart ⟨x.start l.arena.used, x⟩ h := by
  rintro offset ⟨⟨low, high⟩, -, high'⟩
  change x.start l.arena.used ≤ offset at low
  change offset < x.start l.arena.used + x.size at high
  have below := sound.below h earlier
  have behind := sound.le_start room (by omega)
  omega

/-- The new bytes were written, or nobody ever wrote them. -/
theorem reads_taken : (l.taken x).bytes (x.start l.arena.used) x.size = x.content := by
  rcases x.written_cases with whole | ⟨none, poisoned⟩
  · rw [taken, whole, ← x.length_content]
    exact bytes_setBytes ..
  · rw [taken, none, poisoned]
    refine bytes_of_free fun offset low high => sound.free offset ?_
    exact Nat.le_trans (sound.le_start room (by omega)) low

/-- The others are as they were. -/
theorem reads_earlier {h : Holding} (earlier : h ∈ l.holdings) :
    (l.taken x).bytes h.first h.what.size = h.what.content := by
  have few := x.length_written_le
  have kept : (l.taken x).bytes h.first h.what.size = l.arena.bytes h.first h.what.size := by
    refine bytes_setBytes_of_apart _ fun offset both => ?_
    obtain ⟨⟨low, high⟩, inside⟩ := both
    have high : offset < x.start l.arena.used + x.size := by omega
    exact sound.apart_taken room earlier offset ⟨⟨low, high⟩, inside⟩
  rw [kept]
  exact sound.reads h earlier

end

/-- Up to the bound, a request keeps the ledger sound, be it served, refused or a reset. -/
theorem serve (sound : l.Sound) (r : Request) : (l.serve r).Sound := by
  cases r with
  | reset => exact ⟨sound.reached, nofun, fun offset _ => cell?_reset _ offset, .nil, nofun⟩
  | allocate x =>
    rcases Nat.lt_or_ge (l.arena.used + x.cost) l.arena.capacity with room | full
    · rw [serve_of_lt room]
      refine ⟨?_, fun h member => ?_, fun offset unused => ?_, ?_, fun h member => ?_⟩
      · rw [capacity_taken]
        exact sound.reached
      · rw [used_taken]
        rcases List.mem_cons.mp member with rfl | earlier
        · exact x.start_add_size_le l.arena.used
        · exact Nat.le_trans (sound.below h earlier) (Nat.le_add_right ..)
      · rw [used_taken] at unused
        exact sound.free_taken unused
      · exact List.pairwise_cons.mpr ⟨fun h earlier => sound.apart_taken room earlier, sound.apart⟩
      · rcases List.mem_cons.mp member with rfl | earlier
        · exact sound.reads_taken room
        · exact sound.reads_earlier room earlier
    · rw [serve_of_le full]
      exact sound

theorem separate (sound : l.Sound) : l.Separate where
  apart := sound.apart
  reads := sound.reads
  spares := sound.apart.imp fun apart => ⟨spares_of_apart apart, spares_of_apart apart.symm⟩

end Sound

/-! ### Where they do not reach

One byte more, and the last thing is told to begin at 0, where the first one is.
-/

/-- A byte is put, then all is taken up to where the next record would start at 2³², and it is put. -/
def overrun (first last : BitVec 8) : List Request :=
  [.allocate (.record [first]), .allocate (.plain (2 ^ 32 - 63)), .allocate (.record [last])]

theorem size_overrun (first last : BitVec 8) : ∀ r ∈ overrun first last, r.size ≤ 2 ^ 32 := by
  simp [overrun, Request.size, Allocation.size]

theorem serve_eq {place used : Nat} (start : x.start l.arena.used = place)
    (taken : l.arena.used + x.cost = used) (room : used < l.arena.capacity) :
    l.serve (.allocate x) =
      ⟨({ l.arena with used } : Arena (BitVec 8)).setBytes place x.written, ⟨place, x⟩ :: l.holdings⟩ := by
  subst start taken
  exact serve_of_lt room

/-- The last byte lies over the first one. -/
theorem run_overrun {a : Arena (BitVec 8)} (empty : a.used = 0) (large : 2 ^ 32 + 2 ≤ a.capacity)
    (first last : BitVec 8) :
    (run a (overrun first last)).holdings =
        [⟨0, .record [last]⟩, ⟨32, .plain (2 ^ 32 - 63)⟩, ⟨0, .record [first]⟩] ∧
      (run a (overrun first last)).arena.bytes 0 1 = [last] := by
  -- the ledgers after each of the three requests, of which the last begins at 2³² and is told 0
  let l₁ : Ledger := ⟨({ a with used := 32 } : Arena (BitVec 8)).setBytes 0 [first],
    [⟨0, .record [first]⟩]⟩
  let l₂ : Ledger := ⟨{ l₁.arena with used := 2 ^ 32 - 31 }, ⟨32, .plain (2 ^ 32 - 63)⟩ :: l₁.holdings⟩
  let l₃ : Ledger := ⟨({ l₂.arena with used := 2 ^ 32 + 1 } : Arena (BitVec 8)).setBytes 0 [last],
    ⟨0, .record [last]⟩ :: l₂.holdings⟩
  have put : serve ⟨a, []⟩ (.allocate (.record [first])) = l₁ := by
    have nothing : (⟨a, []⟩ : Ledger).arena.used = 0 := empty
    refine serve_eq ?_ ?_ (show 32 < a.capacity by omega)
    · rw [nothing]
      rfl
    · rw [nothing]
      rfl
  have taken : l₁.serve (.allocate (.plain (2 ^ 32 - 63))) = l₂ := by
    refine serve_eq ?_ ?_ (show 2 ^ 32 - 31 < a.capacity by omega)
    · exact used_setBytes [first] _ 0
    · rw [show l₁.arena.used = 32 from used_setBytes [first] _ 0]
      show 32 + (2 ^ 32 - 63) = 2 ^ 32 - 31
      omega
  have again : l₂.serve (.allocate (.record [last])) = l₃ := by
    refine serve_eq ?_ ?_ (show 2 ^ 32 + 1 < a.capacity by omega)
    · show roundUp (2 ^ 32 - 31) % 2 ^ 32 = 0
      unfold roundUp alignment
      omega
    · show 2 ^ 32 - 31 + paddedSize 1 = 2 ^ 32 + 1
      unfold paddedSize alignment
      omega
  have ran : run a (overrun first last) = l₃ := by
    simp only [run, overrun, List.foldl_cons, List.foldl_nil, put, taken, again]
  rw [ran]
  exact ⟨rfl, bytes_setBytes _ 0 [last]⟩

/-- Beyond the bound there are requests that hand out one byte twice. -/
theorem not_separate_overrun {a : Arena (BitVec 8)} (empty : a.used = 0)
    (large : 2 ^ 32 + 2 ≤ a.capacity) (first last : BitVec 8) :
    ¬(run a (overrun first last)).Separate := by
  intro separate
  have apart := separate.apart
  rw [(run_overrun empty large first last).1] at apart
  have both := (List.pairwise_cons.mp apart).1 ⟨0, .record [first]⟩ (by simp)
  exact both 0 ⟨⟨Nat.le_refl 0, Nat.zero_lt_one⟩, Nat.le_refl 0, Nat.zero_lt_one⟩

/-! ### Any requests -/

/-- Whatever is asked for, what is handed out is inside of the capacity and aligned. -/
theorem bounded_run {a : Arena (BitVec 8)} (empty : a.used = 0) (requests : List Request) :
    (run a requests).Bounded := by
  have start : Bounded ⟨a, []⟩ := ⟨by rw [empty]; exact Nat.zero_le _, nofun, nofun⟩
  unfold run
  -- the induction is on the requests, and the ledger changes from one to the next
  generalize (⟨a, []⟩ : Ledger) = l at start ⊢
  induction requests generalizing l with
  | nil => exact start
  | cons r rest ih => exact ih (l.serve r) (start.serve r)

/-- Up to the bound a ledger is sound whatever is asked for. -/
theorem sound_run {a : Arena (BitVec 8)} (fresh : ∀ offset, a.cell? offset = none)
    (reached : a.capacity ≤ 2 ^ 32 + 1) (requests : List Request) : (run a requests).Sound := by
  have start : Sound ⟨a, []⟩ := ⟨reached, nofun, fun offset _ => fresh offset, .nil, nofun⟩
  unfold run
  generalize (⟨a, []⟩ : Ledger) = l at start ⊢
  induction requests generalizing l with
  | nil => exact start
  | cons r rest ih => exact ih (l.serve r) (start.serve r)

/-- **Allocations are disjoint as far as references reach.** However an arena is used, what it hands out
lies inside of it and is aligned, what it refuses changes nothing, and the records of one array do not
touch each other. In an arena of at most 2³² + 1 bytes nothing that is handed out shares a byte with
anything else, and each record holds what was put there whatever is written to others. In a larger one
that can fail. -/
theorem separate_iff {capacity : Nat} {a : Arena (BitVec 8)} (granted : reserve capacity = .ok a) :
    (∀ requests, (∀ r ∈ requests, r.size ≤ 2 ^ 32) → (run a requests).Bounded ∧
      ∀ x : Allocation, (x.perform (run a requests).arena).1 = none →
        (x.perform (run a requests).arena).2 = (run a requests).arena) ∧
      (∀ (b : Arena (BitVec 8)) (ref : Ref) (i j : Nat) (record : List (BitVec 8)),
        (b.setRecord ref i record).getRecord record.length ref j =
          if i = j then record else b.getRecord record.length ref j) ∧
      ((∀ requests, (∀ r ∈ requests, r.size ≤ 2 ^ 32) → (run a requests).Separate) ↔
        capacity ≤ 2 ^ 32 + 1) := by
  obtain rfl := eq_of_reserve granted
  have fresh (offset : Nat) : (⟨capacity, 0, 0, ∅⟩ : Arena (BitVec 8)).cell? offset = none := by
    simp [cell?]
  refine ⟨fun requests _ => ⟨bounded_run rfl requests, fun x => Allocation.perform_of_refused⟩,
    getRecord_setRecord, fun separate => ?_, fun reached requests _ => ?_⟩
  · refine Nat.le_of_not_lt fun large => ?_
    exact not_separate_overrun rfl (show 2 ^ 32 + 2 ≤ capacity by omega) 0 1
      (separate (overrun 0 1) (size_overrun 0 1))
  · exact (sound_run fresh reached requests).separate

/-- In an arena of two lines more than 4 GiB a record of 7 reads back as the 9 that was put last. -/
theorem separate_iff_twoLines :
    ∃ a : Arena (BitVec 8), reserve 0x100000040 = .ok a ∧ (run a (overrun 7 9)).Bounded ∧
      ⟨0, .record [7]⟩ ∈ (run a (overrun 7 9)).holdings ∧ (run a (overrun 7 9)).arena.bytes 0 1 = [9] ∧
      ¬∀ requests, (∀ r ∈ requests, r.size ≤ 2 ^ 32) → (run a requests).Separate := by
  have granted : reserve 0x100000040 = .ok (⟨0x100000040, 0, 0, ∅⟩ : Arena (BitVec 8)) :=
    if_pos (by decide)
  obtain ⟨bounded, -, reach⟩ := separate_iff granted
  obtain ⟨holdings, read⟩ := run_overrun (a := ⟨0x100000040, 0, 0, ∅⟩) rfl (by decide) 7 9
  refine ⟨_, granted, (bounded _ (size_overrun 7 9)).1, ?_, read, fun separate => ?_⟩
  · rw [holdings]
    simp
  · exact absurd (reach.mp separate) (by decide)

end Ledger

end Arena

end ArmBlocks
