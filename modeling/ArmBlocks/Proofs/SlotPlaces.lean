import Mathlib.Algebra.GroupWithZero.Nat
import Mathlib.Data.List.Induction
import ArmBlocks.SlotTable

/-!
# The slot table is a map of places

An address in executable memory names a *place*: a region and a halfword of the memory behind it.
Mirrors name one place, and where regions overlap the last one counts. The table is a finite map of
places (`SlotTable.refines_places`), whatever is installed, invalidated and reset in between.

The numbering of slots is what has to be seen to. Each region has a range of slots to itself
(`CodePlace.slot_inj`). A page of a region starts in the middle of that range if the region does not
start at a multiple of its memory's size, and the range is then entered in two parts
(`CodeRegion.pageEntry_add`). The lowest slots belong to nothing; an address without memory is
looked up there, so they have to stay empty.
-/

set_option autoImplicit false

namespace ArmBlocks

/-! ## Places

A place is a region, by its number in the list, and a halfword of the memory behind it. Its slot is
computed from the memory of the regions before it.
-/

namespace CodeRegion

/-- Whether the low 28 bits of an address lie in the region. -/
def holds (r : CodeRegion) (addr : Word) : Bool :=
  r.first.toNat ≤ addr.toNat % regionSpace && addr.toNat % regionSpace < r.last.toNat

/-- Halfwords of the memory behind the region. -/
def slotCount (r : CodeRegion) : Nat := r.mirror.toNat / 2

end CodeRegion

/-- A halfword of executable memory: the number of its region and its own in the region's memory. -/
structure CodePlace where
  region : Nat
  half : Nat
  deriving DecidableEq, Repr

namespace CodePlace

/-- The place an address names among some regions: in the last one that holds it. -/
def within? (regions : List CodeRegion) (addr : Word) : Option CodePlace :=
  (regions.zipIdx.reverse.find? fun (r, _) => r.holds addr).map fun (r, i) =>
    ⟨i, addr.toNat % regionSpace % r.mirror.toNat / 2⟩

/-- The place an address names. Without regions, all memory is one. -/
def of? (regions : List CodeRegion) (addr : Word) : Option CodePlace :=
  if regions.isEmpty then some ⟨0, addr.toNat % flatSpace / 2⟩ else within? regions addr

/-- The first slot of a region: after the unused ones and those of the regions before. -/
def firstSlot (regions : List CodeRegion) (i : Nat) : Nat :=
  pageSlots + ((regions.take i).map CodeRegion.slotCount).sum

def slot (regions : List CodeRegion) (p : CodePlace) : Nat :=
  (if regions.isEmpty then 0 else firstSlot regions p.region) + p.half

theorem of?_of_ne {regions : List CodeRegion} (nonempty : regions ≠ []) (addr : Word) :
    of? regions addr = within? regions addr := by
  simp [of?, nonempty]

theorem slot_of_ne {regions : List CodeRegion} (nonempty : regions ≠ []) (p : CodePlace) :
    p.slot regions = firstSlot regions p.region + p.half := by
  simp [slot, nonempty]

/-- A region that is added last is looked at first. -/
theorem within?_append (regions : List CodeRegion) (r : CodeRegion) (addr : Word) :
    within? (regions ++ [r]) addr =
      if r.holds addr then
        some ⟨regions.length, addr.toNat % regionSpace % r.mirror.toNat / 2⟩
      else within? regions addr := by
  unfold within?
  rw [List.zipIdx_append, List.reverse_append]
  by_cases here : r.holds addr <;> simp [here]

theorem firstSlot_append {regions : List CodeRegion} {i : Nat} (h : i ≤ regions.length)
    (more : List CodeRegion) : firstSlot (regions ++ more) i = firstSlot regions i := by
  unfold firstSlot
  rw [List.take_append_of_le_length h]

theorem firstSlot_succ {regions : List CodeRegion} {i : Nat} {r : CodeRegion}
    (h : regions[i]? = some r) :
    firstSlot regions (i + 1) = firstSlot regions i + r.slotCount := by
  unfold firstSlot
  rw [List.take_add_one, h]
  simp [Nat.add_assoc]

/-- Regions have their slots in order. -/
theorem firstSlot_mono (regions : List CodeRegion) {i j : Nat} (h : i ≤ j) :
    firstSlot regions i ≤ firstSlot regions j := by
  induction h with
  | refl => exact Nat.le_refl _
  | step _ ih =>
    refine Nat.le_trans ih ?_
    unfold firstSlot
    rw [List.take_add_one, List.map_append, List.sum_append]
    omega

/-- What belongs to a region ends before a later region begins. -/
theorem firstSlot_add_le {regions : List CodeRegion} {i j : Nat} {r : CodeRegion}
    (h : regions[i]? = some r) (later : i < j) :
    firstSlot regions i + r.slotCount ≤ firstSlot regions j := by
  rw [← firstSlot_succ h]
  exact firstSlot_mono regions later

/-- Only places that a region has are named. -/
theorem within?_bound {regions : List CodeRegion} {addr : Word} {p : CodePlace}
    (even : ∀ r ∈ regions, r.mirror.toNat % 2 = 0 ∧ 0 < r.mirror.toNat)
    (h : within? regions addr = some p) :
    ∃ r, regions[p.region]? = some r ∧ p.half < r.slotCount := by
  simp only [within?, Option.map_eq_some_iff] at h
  obtain ⟨⟨r, i⟩, found, rfl⟩ := h
  have member := List.mem_of_find?_eq_some found
  rw [List.mem_reverse, List.mem_zipIdx_iff_getElem?] at member
  obtain ⟨halves, pos⟩ := even r (List.mem_of_getElem? member)
  have low := Nat.mod_lt (addr.toNat % regionSpace) pos
  refine ⟨r, member, ?_⟩
  show addr.toNat % regionSpace % r.mirror.toNat / 2 < r.mirror.toNat / 2
  omega

end CodePlace

/-! ## Valid regions

A region that is accepted consists of whole pages, and so does the memory behind it, whose size is a
power of two. So a page of a region is a page of its memory, and its halfwords have slots one behind
the other.
-/

namespace CodeRegion

variable {r : CodeRegion}

/-- A region is accepted if it consists of whole pages within its space, and its mirror is a power of two
of at least a page. -/
theorem valid_iff : r.valid = true ↔
    r.first.toNat % Address.page = 0 ∧ r.last.toNat % Address.page = 0 ∧
      r.first.toNat < r.last.toNat ∧ r.last.toNat ≤ regionSpace ∧
      r.mirror.toNat.isPowerOfTwo ∧ Address.page ≤ r.mirror.toNat := by
  -- a word without its lowest set bit is zero exactly if it has one bit
  have power (nonzero : r.mirror ≠ 0) :
      r.mirror &&& (r.mirror - 1) = 0 ↔ r.mirror.toNat.isPowerOfTwo := by
    have positive : r.mirror.toNat ≠ 0 := fun zero => nonzero (BitVec.eq_of_toNat_eq zero)
    have less : (r.mirror - 1).toNat = r.mirror.toNat - 1 := by
      rw [BitVec.toNat_sub_of_le (by bv_omega)]
      rfl
    rw [← Nat.and_sub_one_eq_zero_iff_isPowerOfTwo positive, ← less, ← BitVec.toNat_and]
    exact ⟨fun h => by rw [h]; rfl, fun h => BitVec.eq_of_toNat_eq h⟩
  have nonzero (large : Address.page ≤ r.mirror.toNat) : r.mirror ≠ 0 := by
    rintro zero
    rw [zero] at large
    exact absurd large (by decide)
  simp only [valid, Address.startsPage, Bool.and_eq_true, beq_iff_eq, bne_iff_ne,
    decide_eq_true_eq]
  constructor
  · rintro ⟨⟨⟨⟨first, last⟩, some⟩, low⟩, ⟨one, ne⟩, large⟩
    exact ⟨first, last, some, low, (power ne).mp one, large⟩
  · rintro ⟨first, last, some, low, one, large⟩
    exact ⟨⟨⟨⟨first, last⟩, some⟩, low⟩, ⟨(power (nonzero large)).mpr one, nonzero large⟩, large⟩

/-- The memory behind a region is a whole number of pages. -/
theorem pages_of_valid (ok : r.valid = true) :
    ∃ n, 0 < n ∧ r.mirror.toNat = Address.page * n := by
  obtain ⟨-, -, -, -, ⟨k, power⟩, large⟩ := valid_iff.mp ok
  have fits : 14 ≤ k := by
    refine Nat.le_of_not_lt fun short => ?_
    have := Nat.pow_lt_pow_right (show 1 < 2 by decide) short
    unfold Address.page at large
    omega
  refine ⟨2 ^ (k - 14), Nat.two_pow_pos _, ?_⟩
  rw [power, show Address.page = 2 ^ 14 from rfl, ← Nat.pow_add]
  congr 1
  omega

theorem even_of_valid (ok : r.valid = true) : r.mirror.toNat % 2 = 0 ∧ 0 < r.mirror.toNat := by
  obtain ⟨n, pos, pages⟩ := pages_of_valid ok
  unfold Address.page at pages
  omega

/-- A valid region holds whole pages. -/
theorem holds_iff_mem_pages (ok : r.valid = true) (addr : Word) :
    r.holds addr = true ↔ SlotLayout.pageOf addr ∈ r.pages := by
  obtain ⟨first, last, nonempty, -⟩ := valid_iff.mp ok
  simp only [holds, pages, SlotLayout.pageOf, Bool.and_eq_true, decide_eq_true_eq,
    List.mem_range'_1]
  unfold Address.page at first last ⊢
  omega

/-- The pages of a region number the halfwords of its memory, wherever in it the region starts. -/
theorem pageEntry_add (ok : r.valid = true) (base : Nat) (addr : Word) :
    r.pageEntry base (SlotLayout.pageOf addr) + addr.toNat % Address.page / 2 =
      base + addr.toNat % regionSpace % r.mirror.toNat / 2 := by
  obtain ⟨n, -, pages⟩ := pages_of_valid ok
  have page : SlotLayout.pageOf addr * Address.page % r.mirror.toNat =
      Address.page * (SlotLayout.pageOf addr % n) := by
    rw [pages, Nat.mul_comm, Nat.mul_mod_mul_left]
  have whole : addr.toNat % regionSpace % r.mirror.toNat =
      addr.toNat % regionSpace % Address.page + Address.page * (SlotLayout.pageOf addr % n) := by
    rw [pages, Nat.mod_mul]
    rfl
  have low : addr.toNat % regionSpace % Address.page = addr.toNat % Address.page :=
    Nat.mod_mod_of_dvd _ (by decide)
  rw [pageEntry, page, whole, low]
  unfold Address.page
  omega

theorem mem_pages_lt (ok : r.valid = true) {page : Nat} (h : page ∈ r.pages) :
    page < regionSpace / Address.page := by
  obtain ⟨-, -, -, low, -⟩ := valid_iff.mp ok
  simp only [pages, List.mem_range'_1] at h
  unfold Address.page regionSpace at *
  omega

end CodeRegion

/-! ## The page table

The table is built region by region, and the invariant says what it is after the regions so far: each
page is entered as that of the last region that holds it.
-/

namespace SlotLayout

/-- Entering a region writes its own pages only. -/
theorem getElem?_enterRegion (r : CodeRegion) (base page : Nat) (pages : Std.TreeMap Nat Nat) :
    (enterRegion pages r base)[page]? =
      if page ∈ r.pages then some (r.pageEntry base page) else pages[page]? := by
  unfold enterRegion
  -- a page that is entered twice gets the same entry both times
  induction r.pages generalizing pages with
  | nil => simp
  | cons first rest ih =>
    rw [List.foldl_cons, ih]
    by_cases later : page ∈ rest
    · simp [later]
    · by_cases same : first = page
      · subst same
        simp [later]
      · simp [later, Std.TreeMap.getElem?_insert, same, Ne.symm same]

/-- Regions may be entered in two parts. -/
theorem addRegions_append (regions : List CodeRegion) (r : CodeRegion) :
    ∀ (pages : Std.TreeMap Nat Nat) (size : Nat),
      addRegions (regions ++ [r]) pages size =
        (addRegions regions pages size).bind fun (pages, size) => addRegions [r] pages size := by
  induction regions with
  | nil => intro pages size; rfl
  | cons first rest ih =>
    intro pages size
    simp only [List.cons_append, addRegions]
    split
    · exact ih _ _
    · rfl

/-- Regions are accepted exactly when all are valid. -/
theorem ofRegions_isOk (regions : List CodeRegion) :
    (∃ layout, ofRegions regions = .ok layout) ↔ ∀ r ∈ regions, r.valid = true := by
  have added : ∀ (rs : List CodeRegion) (pages : Std.TreeMap Nat Nat) (size : Nat),
      (∃ result, addRegions rs pages size = .ok result) ↔ ∀ r ∈ rs, r.valid = true := by
    intro rs
    induction rs with
    | nil => intro pages size; simp [addRegions]
    | cons first rest ih =>
      intro pages size
      by_cases ok : first.valid = true
      · simpa [addRegions, ok] using ih _ _
      · simp [addRegions, ok]
  cases regions with
  | nil => simp [ofRegions]
  | cons first rest =>
    rw [← added (first :: rest) ∅ pageSlots]
    simp only [ofRegions, List.isEmpty_cons]
    cases addRegions (first :: rest) ∅ pageSlots <;> simp [Except.map]

/-- The page table of some regions: the slot of an address is the slot of its place. -/
structure Describes (regions : List CodeRegion) (pages : Std.TreeMap Nat Nat) (size : Nat) :
    Prop where
  valid : ∀ r ∈ regions, r.valid = true
  size_eq : size = CodePlace.firstSlot regions regions.length
  entries : ∀ addr : Word, (pages[pageOf addr]?).map (· + addr.toNat % Address.page / 2) =
    (CodePlace.within? regions addr).map fun p => CodePlace.firstSlot regions p.region + p.half

/-- A table that describes some regions describes one more when that is entered. -/
theorem Describes.add {regions : List CodeRegion} {pages : Std.TreeMap Nat Nat} {size : Nat}
    (h : Describes regions pages size) {r : CodeRegion} (ok : r.valid = true) :
    Describes (regions ++ [r]) (enterRegion pages r size) (size + r.slotCount) where
  valid := by
    intro other member
    rcases List.mem_append.mp member with old | new
    · exact h.valid other old
    · exact List.mem_singleton.mp new ▸ ok
  size_eq := by
    rw [h.size_eq, List.length_append, List.length_singleton,
      CodePlace.firstSlot_succ (r := r) (by simp), CodePlace.firstSlot_append (Nat.le_refl _)]
  entries := by
    intro addr
    rw [getElem?_enterRegion, CodePlace.within?_append]
    -- the new region counts wherever it holds the address; elsewhere nothing was renumbered
    by_cases here : r.holds addr = true
    · rw [if_pos ((r.holds_iff_mem_pages ok addr).mp here), if_pos here]
      simp only [Option.map_some, Option.some.injEq]
      rw [r.pageEntry_add ok, CodePlace.firstSlot_append (Nat.le_refl _), h.size_eq]
    · rw [if_neg (fun page => here ((r.holds_iff_mem_pages ok addr).mpr page)), if_neg here,
        h.entries addr]
      apply Option.map_congr
      intro p named
      obtain ⟨owner, at', -⟩ :=
        CodePlace.within?_bound (fun r member => CodeRegion.even_of_valid (h.valid r member)) named
      rw [CodePlace.firstSlot_append (Nat.le_of_lt (List.getElem?_eq_some_iff.mp at').1)]

/-- A table of regions describes them. -/
theorem describes_addRegions (regions : List CodeRegion) :
    ∀ {pages : Std.TreeMap Nat Nat} {size : Nat},
      addRegions regions ∅ pageSlots = .ok (pages, size) → Describes regions pages size := by
  -- from the last region on, which is the one that overrides
  induction regions using List.reverseRecOn with
  | nil =>
    intro pages size h
    cases h
    exact ⟨by simp, rfl, by simp [CodePlace.within?]⟩
  | append_singleton regions r ih =>
    intro pages size h
    rw [addRegions_append] at h
    cases before : addRegions regions ∅ pageSlots with
    | error e => rw [before] at h; cases h
    | ok result =>
      rw [before] at h
      simp only [Except.bind, addRegions] at h
      split at h
      · next ok =>
        cases h
        exact (ih before).add ok
      · cases h

end SlotLayout

namespace SlotLayout

variable {regions : List CodeRegion} {layout : SlotLayout}

/-- The number an address is looked up at: its slot, or without memory one of the unused ones. -/
def index : SlotLayout → Word → Nat
  | .regions pages _, addr => pages[pageOf addr]?.getD 0 + addr.toNat % Address.page / 2
  | .flat, addr => addr.toNat % flatSpace / 2

theorem valid_of_ofRegions (ok : ofRegions regions = .ok layout) : ∀ r ∈ regions, r.valid = true :=
  (ofRegions_isOk regions).mp ⟨layout, ok⟩

/-- A layout that was accepted is the flat one, for no regions, or describes them. -/
theorem ofRegions_cases (ok : ofRegions regions = .ok layout) :
    regions = [] ∧ layout = .flat ∨
      regions ≠ [] ∧ ∃ pages size, layout = .regions pages size ∧ Describes regions pages size := by
  cases regions with
  | nil => exact .inl ⟨rfl, (Except.ok.inj ok).symm⟩
  | cons first rest =>
    refine .inr ⟨by simp, ?_⟩
    simp only [ofRegions, List.isEmpty_cons] at ok
    cases added : addRegions (first :: rest) ∅ pageSlots with
    | error e => rw [added] at ok; cases ok
    | ok result =>
      rw [added] at ok
      exact ⟨result.1, result.2, (Except.ok.inj ok).symm, describes_addRegions _ added⟩

/-- The slot of an address is the slot of its place. -/
theorem slot?_eq (ok : ofRegions regions = .ok layout) (addr : Word) :
    layout.slot? addr = (CodePlace.of? regions addr).map (CodePlace.slot regions) := by
  rcases ofRegions_cases ok with ⟨rfl, rfl⟩ | ⟨nonempty, pages, size, rfl, describes⟩
  · simp [slot?, CodePlace.of?, CodePlace.slot]
  · rw [CodePlace.of?_of_ne nonempty, show CodePlace.slot regions = _ from
      funext (CodePlace.slot_of_ne nonempty)]
    exact describes.entries addr

/-- Different places have different slots. -/
theorem slot_inj (ok : ofRegions regions = .ok layout) {a b : Word} {p q : CodePlace}
    (ha : CodePlace.of? regions a = some p) (hb : CodePlace.of? regions b = some q)
    (same : p.slot regions = q.slot regions) : p = q := by
  rcases ofRegions_cases ok with ⟨rfl, -⟩ | ⟨nonempty, -⟩
  · obtain rfl := Option.some.inj ha
    obtain rfl := Option.some.inj hb
    simpa [CodePlace.slot] using same
  · have even := fun r member => CodeRegion.even_of_valid (valid_of_ofRegions ok r member)
    rw [CodePlace.of?_of_ne nonempty] at ha hb
    rw [CodePlace.slot_of_ne nonempty, CodePlace.slot_of_ne nonempty] at same
    obtain ⟨r, atP, lowP⟩ := CodePlace.within?_bound even ha
    obtain ⟨s, atQ, lowQ⟩ := CodePlace.within?_bound even hb
    -- the regions lie one behind the other, so that the slot decides the region
    have region : p.region = q.region := by
      rcases Nat.lt_trichotomy p.region q.region with before | eq | after
      · have := CodePlace.firstSlot_add_le atP before
        omega
      · exact eq
      · have := CodePlace.firstSlot_add_le atQ after
        omega
    have half : p.half = q.half := by
      rw [region] at same
      exact Nat.add_left_cancel same
    cases p
    cases q
    exact congrArg₂ CodePlace.mk region half

/-- Two addresses have one slot exactly when they name one place. -/
theorem slot?_eq_iff (ok : ofRegions regions = .ok layout) (a b : Word) :
    layout.slot? a = layout.slot? b ↔ CodePlace.of? regions a = CodePlace.of? regions b := by
  rw [slot?_eq ok, slot?_eq ok]
  constructor
  · intro same
    cases ha : CodePlace.of? regions a with
    | none => rw [ha, Option.map_none, eq_comm, Option.map_eq_none_iff] at same; exact same.symm
    | some p =>
      rw [ha, Option.map_some, eq_comm, Option.map_eq_some_iff] at same
      obtain ⟨q, hb, same⟩ := same
      rw [hb, slot_inj ok hb ha same]
  · intro same
    rw [same]

/-! ## Bounds

Every slot is below the size of the table, and every halfword of a page finds its slot by adding to
the entry of the page. An address without memory comes to a slot that is never filled.
-/

/-- Every slot is inside of the table. -/
theorem slot_lt_size (ok : ofRegions regions = .ok layout) {addr : Word} {slot : Nat}
    (h : layout.slot? addr = some slot) : slot < layout.size := by
  rcases ofRegions_cases ok with ⟨rfl, rfl⟩ | ⟨nonempty, pages, size, rfl, describes⟩
  · obtain rfl := Option.some.inj h
    have := Nat.mod_lt addr.toNat (show 0 < flatSpace by decide)
    show addr.toNat % flatSpace / 2 < flatSpace / 2
    unfold flatSpace at *
    omega
  · have even := fun r member => CodeRegion.even_of_valid (valid_of_ofRegions ok r member)
    rw [slot?_eq ok, Option.map_eq_some_iff] at h
    obtain ⟨p, named, rfl⟩ := h
    rw [CodePlace.of?_of_ne nonempty] at named
    rw [CodePlace.slot_of_ne nonempty]
    obtain ⟨r, at', low⟩ := CodePlace.within?_bound even named
    have whole := CodePlace.firstSlot_add_le at' (List.getElem?_eq_some_iff.mp at').1
    show CodePlace.firstSlot regions p.region + p.half < size
    rw [describes.size_eq]
    omega

theorem pageSlots_le_size (ok : ofRegions regions = .ok layout) : pageSlots ≤ layout.size := by
  rcases ofRegions_cases ok with ⟨-, rfl⟩ | ⟨-, pages, size, rfl, describes⟩
  · decide
  · show pageSlots ≤ size
    rw [describes.size_eq]
    exact Nat.le_add_right _ _

/-- Where there is a slot, the index is that of the slot. -/
theorem index_of_slot? {addr : Word} {slot : Nat} (h : layout.slot? addr = some slot) :
    layout.index addr = slot := by
  cases layout with
  | regions pages size =>
    simp only [slot?, Option.map_eq_some_iff] at h
    obtain ⟨entry, found, rfl⟩ := h
    simp [index, found]
  | flat => exact Option.some.inj h

/-- An address without memory is looked up below all that regions have. -/
theorem index_of_unmapped {addr : Word} (h : layout.slot? addr = none) :
    layout.index addr < pageSlots := by
  cases layout with
  | regions pages size =>
    simp only [slot?, Option.map_eq_none_iff] at h
    simp only [index, h, Option.getD_none]
    unfold Address.page pageSlots
    omega
  | flat => cases h

/-- The slots of a table with regions start above the unused ones. -/
theorem pageSlots_le_slot (ok : ofRegions regions = .ok layout) (nonempty : regions ≠ [])
    {addr : Word} {slot : Nat} (h : layout.slot? addr = some slot) : pageSlots ≤ slot := by
  rw [slot?_eq ok, Option.map_eq_some_iff] at h
  obtain ⟨p, -, rfl⟩ := h
  rw [CodePlace.slot_of_ne nonempty, CodePlace.firstSlot]
  exact Nat.le_trans (Nat.le_add_right _ _) (Nat.le_add_right _ _)

theorem index_lt_size (ok : ofRegions regions = .ok layout) (addr : Word) :
    layout.index addr < layout.size := by
  cases h : layout.slot? addr with
  | none => exact Nat.lt_of_lt_of_le (index_of_unmapped h) (pageSlots_le_size ok)
  | some slot => exact index_of_slot? h ▸ slot_lt_size ok h

/-- The memory of a region has whole pages of slots, so the unused page does not carry the numbers
out of a word if the rest fits. -/
theorem size_le (ok : ofRegions regions = .ok layout)
    (fits : (regions.map CodeRegion.slotCount).sum < 2 ^ 32) : layout.size ≤ 2 ^ 32 := by
  have whole : ∀ rs : List CodeRegion, (∀ r ∈ rs, r.valid = true) →
      pageSlots ∣ (rs.map CodeRegion.slotCount).sum := by
    intro rs valid
    induction rs with
    | nil => exact Nat.dvd_zero _
    | cons r rest ih =>
      obtain ⟨n, -, pages⟩ := CodeRegion.pages_of_valid (valid r (by simp))
      rw [List.map_cons, List.sum_cons]
      refine Nat.dvd_add ⟨n, ?_⟩ (ih fun r member => valid r (by simp [member]))
      rw [CodeRegion.slotCount, pages]
      unfold Address.page pageSlots
      omega
  rcases ofRegions_cases ok with ⟨-, rfl⟩ | ⟨-, pages, size, rfl, describes⟩
  · decide
  · obtain ⟨n, total⟩ := whole regions (valid_of_ofRegions ok)
    show size ≤ 2 ^ 32
    rw [describes.size_eq, CodePlace.firstSlot, List.take_length]
    unfold pageSlots at *
    omega

end SlotLayout

/-! ## Calls

The known map is a function on places that the calls change, and the table agrees with it at every
place. By induction on the calls, with one lemma for each of them.
-/

/-- A change of the table. -/
inductive TableCall where
  | install (addr : Word) (block : SlotEntry)
  | invalidate (addr : Word)
  | reset

/-- What the calls change, as users see it: something is known about some places. -/
def Known := CodePlace → Option SlotEntry

namespace Known

def nothing : Known := fun _ => none

/-- What is known about an address that may name a place. -/
def get (known : Known) (place? : Option CodePlace) : Option SlotEntry := place?.bind known

/-- Replaces what is known about a place; no place, no change. -/
def set (known : Known) (place? : Option CodePlace) (entry : Option SlotEntry) : Known := fun p =>
  if place? = some p then entry else known p

@[simp] theorem set_none (known : Known) (entry : Option SlotEntry) :
    known.set none entry = known := by
  funext p
  simp [set]

/-- A call, where the regions say which addresses name one place. -/
def after (regions : List CodeRegion) (known : Known) : TableCall → Known
  | .install addr block => known.set (CodePlace.of? regions addr) (some block)
  | .invalidate addr => known.set (CodePlace.of? regions addr) none
  | .reset => nothing

end Known

namespace SlotTable

variable {regions : List CodeRegion} {layout : SlotLayout} {t : SlotTable} {known : Known}

def after (t : SlotTable) : TableCall → SlotTable
  | .install addr block => (t.install addr block).2.1
  | .invalidate addr => (t.invalidate addr).2
  | .reset => t.reset

/-- The slots hold what is known about the places, and nothing else. -/
structure Holds (regions : List CodeRegion) (t : SlotTable) (known : Known) : Prop where
  layout : SlotLayout.ofRegions regions = .ok t.layout
  known : ∀ addr p, CodePlace.of? regions addr = some p → t.slots[p.slot regions]? = known p
  only : ∀ slot entry, t.slots[slot]? = some entry → ∃ addr, t.slot? addr = some slot

theorem Holds.place (h : Holds regions t known) (addr : Word) :
    t.slot? addr = (CodePlace.of? regions addr).map (CodePlace.slot regions) :=
  SlotLayout.slot?_eq h.layout addr

/-- A new table holds nothing. -/
theorem holds_ofRegions (ok : SlotTable.ofRegions regions = .ok t) : Holds regions t .nothing := by
  unfold SlotTable.ofRegions at ok
  cases made : SlotLayout.ofRegions regions with
  | error e => rw [made] at ok; cases ok
  | ok layout =>
    rw [made] at ok
    cases ok
    exact ⟨made, fun addr p _ => rfl, fun slot entry found => absurd found (by simp)⟩

/-- Changing one slot changes what is known about one place. -/
theorem Holds.change (h : Holds regions t known) {addr : Word} {p : CodePlace}
    (named : CodePlace.of? regions addr = some p) {slots : Std.TreeMap Nat SlotEntry}
    {entry : Option SlotEntry}
    (one : ∀ slot, slots[slot]? = if p.slot regions = slot then entry else t.slots[slot]?) :
    Holds regions { t with slots } (known.set (some p) entry) where
  layout := h.layout
  known := by
    intro other q hq
    rw [one, Known.set]
    by_cases same : p = q
    · simp [same]
    · rw [if_neg fun slot => same (SlotLayout.slot_inj h.layout named hq slot),
        if_neg fun place => same (Option.some.inj place)]
      exact h.known other q hq
  only := by
    intro slot held found
    rw [one] at found
    split at found
    · next same => exact ⟨addr, by rw [slot?, SlotLayout.slot?_eq h.layout, named, ← same]; rfl⟩
    · exact h.only slot held found

/-- Installing a block makes it known at its place, if there is one. -/
theorem Holds.install (h : Holds regions t known) (addr : Word) (block : SlotEntry) :
    Holds regions (t.install addr block).2.1 (known.set (CodePlace.of? regions addr) (some block)) := by
  cases named : CodePlace.of? regions addr with
  | none =>
    have unmapped : t.slot? addr = none := by rw [h.place, named]; rfl
    simpa [SlotTable.install, unmapped] using h
  | some p =>
    have mapped : t.slot? addr = some (p.slot regions) := by rw [h.place, named]; rfl
    simp only [SlotTable.install, mapped]
    exact h.change named fun slot => by simp [Std.TreeMap.getElem?_insert]

/-- Invalidating an address makes nothing known at its place. -/
theorem Holds.invalidate (h : Holds regions t known) (addr : Word) :
    Holds regions (t.invalidate addr).2 (known.set (CodePlace.of? regions addr) none) := by
  cases named : CodePlace.of? regions addr with
  | none =>
    have unmapped : t.slot? addr = none := by rw [h.place, named]; rfl
    simpa [SlotTable.invalidate, unmapped] using h
  | some p =>
    have mapped : t.slot? addr = some (p.slot regions) := by rw [h.place, named]; rfl
    cases found : t.slots[p.slot regions]? with
    | some entry =>
      simp only [SlotTable.invalidate, mapped, found]
      exact h.change named fun slot => by simp [Std.TreeMap.getElem?_erase]
    | none =>
      simp only [SlotTable.invalidate, mapped, found]
      refine h.change named fun slot => ?_
      split
      · next same => rw [← same, found]
      · rfl

theorem Holds.reset (h : Holds regions t known) : Holds regions t.reset .nothing :=
  ⟨h.layout, fun addr p _ => rfl, fun slot entry found => absurd found (by simp [SlotTable.reset])⟩

theorem Holds.after (h : Holds regions t known) (call : TableCall) :
    Holds regions (t.after call) (known.after regions call) := by
  cases call with
  | install addr block => exact h.install addr block
  | invalidate addr => exact h.invalidate addr
  | reset => exact h.reset

theorem Holds.run (h : Holds regions t known) (calls : List TableCall) :
    Holds regions (calls.foldl SlotTable.after t) (calls.foldl (Known.after regions) known) := by
  induction calls generalizing t known with
  | nil => exact h
  | cons call rest ih => exact ih (h.after call)

/-- What a table answers, in terms of what is known about the places. -/
structure Refines (regions : List CodeRegion) (t : SlotTable) (known : Known) : Prop where
  lookup : ∀ addr, t.lookup addr = known.get (CodePlace.of? regions addr)
  isMapped : ∀ addr, t.isMapped addr = (CodePlace.of? regions addr).isSome
  slot : ∀ a b, t.slot? a = t.slot? b ↔ CodePlace.of? regions a = CodePlace.of? regions b
  installed : ∀ addr block, (t.install addr block).1 = (CodePlace.of? regions addr).isSome
  refused : ∀ addr block, CodePlace.of? regions addr = none → (t.install addr block).2.1 = t
  dropped : ∀ addr, (t.invalidate addr).1 = known.get (CodePlace.of? regions addr)

/-- Every number stays inside what it is an index of, and inside a word. The pages are those of the
table of pages; the slots include the unused ones, where looking up finds nothing. -/
structure InBounds (regions : List CodeRegion) (t : SlotTable) : Prop where
  entered : ∀ r ∈ regions, ∀ page ∈ r.pages, page < regionSpace / Address.page
  page : ∀ addr, SlotLayout.pageOf addr < regionSpace / Address.page
  slot : ∀ addr slot, t.slot? addr = some slot → slot < t.layout.size
  index : ∀ addr, t.layout.index addr < t.layout.size
  looked : ∀ addr, t.slots[t.layout.index addr]? = t.lookup addr
  told : regions ≠ [] → ∀ addr, t.isMapped addr = true ↔ pageSlots ≤ t.layout.index addr
  word : t.layout.size ≤ 2 ^ 32

theorem Holds.lookup (h : Holds regions t known) (addr : Word) :
    t.lookup addr = known.get (CodePlace.of? regions addr) := by
  rw [SlotTable.lookup, h.place]
  cases named : CodePlace.of? regions addr with
  | none => rfl
  | some p => exact h.known addr p named

/-- A table that holds what is known refines the map of places. -/
theorem Holds.refines (h : Holds regions t known) : Refines regions t known where
  lookup := h.lookup
  isMapped := by
    intro addr
    rw [SlotTable.isMapped, h.place, Option.isSome_map]
  slot := SlotLayout.slot?_eq_iff h.layout
  installed := by
    intro addr block
    rw [SlotTable.install, h.place]
    cases CodePlace.of? regions addr <;> rfl
  refused := by
    intro addr block named
    rw [SlotTable.install, h.place, named]
    rfl
  dropped := by
    intro addr
    rw [← h.lookup, SlotTable.invalidate, SlotTable.lookup]
    cases t.slot? addr with
    | none => rfl
    | some slot =>
      simp only [Option.bind_some]
      cases t.slots[slot]? <;> rfl

/-- Nothing is held where an address without memory is looked up. -/
theorem Holds.unused (h : Holds regions t known) {addr : Word} (unmapped : t.slot? addr = none) :
    t.slots[t.layout.index addr]? = none := by
  rcases SlotLayout.ofRegions_cases h.layout with ⟨-, flat⟩ | ⟨nonempty, -⟩
  · rw [slot?, flat] at unmapped
    cases unmapped
  · cases found : t.slots[t.layout.index addr]? with
    | none => rfl
    | some entry =>
      obtain ⟨owner, mapped⟩ := h.only _ entry found
      -- what is held is held for a mapped address, so above the unused slots
      have low := SlotLayout.index_of_unmapped unmapped
      have high := SlotLayout.pageSlots_le_slot h.layout nonempty mapped
      omega

/-- And no access of it is out of bounds, if its slots can be counted by a word. -/
theorem Holds.inBounds (h : Holds regions t known)
    (fits : (regions.map CodeRegion.slotCount).sum < 2 ^ 32) : InBounds regions t where
  entered := fun r member _ =>
    CodeRegion.mem_pages_lt (SlotLayout.valid_of_ofRegions h.layout r member)
  page := by
    intro addr
    unfold SlotLayout.pageOf regionSpace Address.page
    omega
  slot := fun addr _ => SlotLayout.slot_lt_size h.layout
  index := SlotLayout.index_lt_size h.layout
  looked := by
    intro addr
    cases at' : t.slot? addr with
    | none => rw [h.unused at', SlotTable.lookup, at']; rfl
    | some slot => rw [SlotLayout.index_of_slot? at', SlotTable.lookup, at']; rfl
  told := by
    intro nonempty addr
    rw [SlotTable.isMapped]
    cases at' : t.slot? addr with
    | none => simpa using SlotLayout.index_of_unmapped at'
    | some slot =>
      simpa [SlotLayout.index_of_slot? at'] using SlotLayout.pageSlots_le_slot h.layout nonempty at'
  word := SlotLayout.size_le h.layout fits

/-- Whatever is called, a table answers from a map of places, and no index leaves its bounds. -/
theorem refines_places (ok : SlotTable.ofRegions regions = .ok t)
    (fits : (regions.map CodeRegion.slotCount).sum < 2 ^ 32) (calls : List TableCall) :
    Refines regions (calls.foldl SlotTable.after t) (calls.foldl (Known.after regions) .nothing) ∧
      InBounds regions (calls.foldl SlotTable.after t) := by
  have held := (holds_ofRegions ok).run calls
  exact ⟨held.refines, held.inBounds fits⟩

/-- 32 KiB that are seen twice, and more of them that start with their second half and take over
the last page. -/
def overlapping : List CodeRegion :=
  [⟨0x02000000, 0x02010000, 0x8000⟩, ⟨0x0200c000, 0x02014000, 0x8000⟩]

/-- So it is for two regions that overlap, with mirrors of different sizes, after blocks were installed and
dropped through several of their addresses. -/
theorem refines_places_overlapping :
    ∃ t, SlotTable.ofRegions overlapping = .ok t ∧
      (overlapping.map CodeRegion.slotCount).sum < 2 ^ 32 ∧
      CodePlace.of? overlapping 0xf2008102 = some ⟨0, 0x81⟩ ∧
      CodePlace.of? overlapping 0x0200c102 = some ⟨1, 0x2081⟩ ∧
      let calls := [.install 0x02000100 .interpret, .install 0x02014000 .interpret,
        .install 0xf200c100 (.compiled ⟨8⟩ 0), .invalidate 0x02004100]
      Refines overlapping (calls.foldl SlotTable.after t)
          (calls.foldl (Known.after overlapping) .nothing) ∧
        InBounds overlapping (calls.foldl SlotTable.after t) := by
  obtain ⟨layout, made⟩ := (SlotLayout.ofRegions_isOk overlapping).mpr (by decide)
  have ok : SlotTable.ofRegions overlapping = .ok { layout, slots := ∅ } := by
    rw [SlotTable.ofRegions, made]
    rfl
  exact ⟨_, ok, by decide, by decide, by decide, refines_places ok (by decide) _⟩

end SlotTable

end ArmBlocks
