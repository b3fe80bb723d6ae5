import ArmBlocks.Decode.Arm
import ArmBlocks.Decode.Thumb

/-!
# What version 5 adds to the decoders

The two processors share one decoding table for each instruction set, and differ by the rows that are
reserved for version 5. **An instruction means the same to both, or it is new in version 5 and version 4
does not know it** (`decode_versions`). For ARM that leaves out the space under the condition "never",
which version 5 uses for instructions of another kind.

Without a reserved row its keys fall through to the rows behind it. That they mean nothing there is
not a fact about the row itself: the halfword multiplications lie within the space of data processing,
and an undefined row in between keeps them out of it. `Row.hides` looks for this along the table, so it
has to be checked once for each reserved row and not for each key.
-/

set_option autoImplicit false

namespace ArmBlocks

/-! ## Patterns

A pattern fixes some bits of a key. Two patterns that fix one bit differently are apart, and one that
fixes all that another one fixes, and alike, lies within it. Both are decided on the patterns, without
a key.
-/

namespace Pattern

variable {w : Nat} {p q : Pattern w} {x : BitVec w}

/-- Whether some bit has to be clear in one pattern and set in the other. -/
def isApart (p q : Pattern w) : Bool := (p.value ^^^ q.value) &&& (p.care &&& q.care) != 0

/-- Whether whatever has the pattern `p` has the pattern `q` as well. -/
def isWithin (p q : Pattern w) : Bool := q.care &&& p.care == q.care && p.value &&& q.care == q.value

/-- Patterns that are apart accept no common key, as there is a bit that both look at and want otherwise.
-/
theorem not_accepts_of_isApart (apart : p.isApart q) (hp : p.accepts x) : q.accepts x = false := by
  refine Bool.eq_false_iff.mpr fun hq => ?_
  have hp : x &&& p.care = p.value := by simpa [accepts] using hp
  have hq : x &&& q.care = q.value := by simpa [accepts] using hq
  -- where both look the key is equal to both values
  have agree : (p.value ^^^ q.value) &&& (p.care &&& q.care) = 0 := by
    rw [← hp, ← hq]
    ext i
    simp only [BitVec.getElem_and, BitVec.getElem_xor, BitVec.getElem_zero, BitVec.ofNat_eq_ofNat]
    cases x[i] <;> cases p.care[i] <;> cases q.care[i] <;> rfl
  simp [isApart, agree] at apart

theorem accepts_of_isWithin (within : p.isWithin q) (hp : p.accepts x) : q.accepts x = true := by
  have hp : x &&& p.care = p.value := by simpa [accepts] using hp
  obtain ⟨cares, values⟩ : q.care &&& p.care = q.care ∧ p.value &&& q.care = q.value := by
    simpa [isWithin] using within
  have hq : x &&& q.care = q.value := by
    rw [← values, ← hp, BitVec.and_assoc, BitVec.and_comm p.care, cares]
  simpa [accepts] using hq

end Pattern

/-! ## Tables

The first row that applies is the one that counts, and the older version passes over the rows it does
not know. So what it finds instead is in the rows behind, and a computation on the table settles it
for all keys that a new row accepts.
-/

namespace Row

variable {w : Nat} {α : Type} {rows : List (Row w α)} {otherwise : α} {key : BitVec w}

theorem applies_of_old {r : Row w α} (v5 : Bool) (old : r.v5Only = false) :
    r.applies v5 key = r.pattern.accepts key := by
  simp [applies, old]

section Hides

variable [DecidableEq α]

/-- Whether the rows of both versions make nothing of what has a pattern: each of them rejects it, or
has no meaning. Nothing is asked behind a row that accepts all of it. -/
def hides (otherwise : α) (p : Pattern w) : List (Row w α) → Bool
  | [] => true
  | r :: rest =>
    if r.v5Only || p.isApart r.pattern then hides otherwise p rest
    else r.form == otherwise && (p.isWithin r.pattern || hides otherwise p rest)

/-- If every row that could accept what the pattern accepts is for the newer processor only, the older one
finds none. -/
theorem classify_of_hides {p : Pattern w} (hp : p.accepts key) :
    ∀ {rows : List (Row w α)}, hides otherwise p rows → classify rows otherwise false key = otherwise
  | [], _ => rfl
  | r :: rest, hidden => by
    have ih : hides otherwise p rest → classify rest otherwise false key = otherwise :=
      classify_of_hides hp
    unfold hides at hidden
    -- a row is passed over for its version or for its pattern, or else it has to hide what follows
    by_cases skipped : (r.v5Only || p.isApart r.pattern) = true
    · have rejects : r.applies false key = false := by
        cases new : r.v5Only with
        | true => simp [applies, new]
        | false =>
          rw [applies_of_old false new]
          exact Pattern.not_accepts_of_isApart (by simpa [new] using skipped) hp
      rw [if_pos skipped] at hidden
      simpa [classify, List.find?_cons, rejects] using ih hidden
    · rw [if_neg skipped] at hidden
      obtain ⟨meaningless, covered⟩ : r.form = otherwise ∧
          (p.isWithin r.pattern = true ∨ hides otherwise p rest = true) := by
        simpa using hidden
      cases applied : r.applies false key with
      | true => simp [classify, applied, meaningless]
      | false =>
        have old : r.v5Only = false := by
          cases new : r.v5Only <;> simp_all
        have behind : hides otherwise p rest = true := by
          refine covered.resolve_left fun within => ?_
          rw [applies_of_old false old, Pattern.accepts_of_isWithin within hp] at applied
          exact Bool.noConfusion applied
        simpa [classify, List.find?_cons, applied] using ih behind

end Hides

/-- Whether all that a table makes of what has a pattern is as asked, in both versions. Rows that reject
it are passed over, and nothing is asked behind a row of both versions that accepts all of it. -/
def yields (asked : α → Bool) (otherwise : α) (p : Pattern w) : List (Row w α) → Bool
  | [] => asked otherwise
  | r :: rest =>
    if p.isApart r.pattern then yields asked otherwise p rest
    else asked r.form && (!r.v5Only && p.isWithin r.pattern || yields asked otherwise p rest)

/-- If every such row before a certain one has an asked form, then so has what is found. -/
theorem classify_of_yields {asked : α → Bool} {p : Pattern w} (hp : p.accepts key) (v5 : Bool) :
    ∀ {rows : List (Row w α)}, yields asked otherwise p rows →
      asked (classify rows otherwise v5 key) = true
  | [], all => all
  | r :: rest, all => by
    have ih : yields asked otherwise p rest → asked (classify rest otherwise v5 key) = true :=
      classify_of_yields hp v5
    unfold yields at all
    by_cases apart : p.isApart r.pattern = true
    · have rejects : r.applies v5 key = false := by
        simp [applies, Pattern.not_accepts_of_isApart apart hp]
      rw [if_pos apart] at all
      simpa [classify, List.find?_cons, rejects] using ih all
    · rw [if_neg apart] at all
      obtain ⟨here, behind⟩ : asked r.form = true ∧
          ((r.v5Only = false ∧ p.isWithin r.pattern = true) ∨ yields asked otherwise p rest = true) := by
        simpa using all
      cases applied : r.applies v5 key with
      | true => simpa [classify, List.find?_cons, applied] using here
      | false =>
        have behind : yields asked otherwise p rest = true := by
          refine behind.resolve_left fun ⟨old, within⟩ => ?_
          rw [applies_of_old v5 old, Pattern.accepts_of_isWithin within hp] at applied
          exact Bool.noConfusion applied
        simpa [classify, List.find?_cons, applied] using ih behind

/-- A table tells the forms of version 5 by its rows: they are those of the reserved rows, and without
these rows nothing else is made of their keys. -/
structure Reserves [DecidableEq α] (rows : List (Row w α)) (otherwise : α) (isNew : α → Bool) :
    Prop where
  reserved : ∀ r ∈ rows, r.v5Only = isNew r.form
  known : isNew otherwise = false
  hidden : ∀ r ∈ rows, r.v5Only = true → hides otherwise r.pattern rows = true

/-- Version 4 makes of a key what version 5 does, unless that is one of the new forms. -/
theorem Reserves.classify [DecidableEq α] {isNew : α → Bool} (table : Reserves rows otherwise isNew)
    (key : BitVec w) :
    classify rows otherwise false key =
      if isNew (classify rows otherwise true key) then otherwise
      else classify rows otherwise true key := by
  -- the newer version reads all rows: its answer says which of them the older one can have
  cases found : rows.find? (applies true key) with
  | none =>
    have rejected : rows.find? (applies false key) = none := by
      refine List.find?_eq_none.mpr fun r mem applied => ?_
      have rejects := List.find?_eq_none.mp found r mem
      simp_all [applies]
    simp [Row.classify, found, rejected, table.known]
  | some r =>
    obtain ⟨applied, before, after, split, rejects⟩ := List.find?_eq_some_iff_append.mp found
    have mem : r ∈ rows := List.mem_of_find?_eq_some found
    have form : Row.classify rows otherwise true key = r.form := by simp [Row.classify, found]
    rw [form, ← table.reserved r mem]
    cases new : r.v5Only with
    | true =>
      have accepts : r.pattern.accepts key = true := by simpa [applies] using applied
      exact classify_of_hides accepts (table.hidden r mem new)
    | false =>
      have first : rows.find? (applies false key) = some r := by
        refine List.find?_eq_some_iff_append.mpr
          ⟨by rwa [applies_of_old _ new] at applied ⊢, before, after, split, fun s hs => ?_⟩
        have rejects := rejects s hs
        simp_all [applies]
      simp [Row.classify, first]

end Row

/-! ## Forms

What is new in version 5 is a matter of the form in most cases. Where an old form has a new variant,
the operation that it yields says so.
-/

/-- Whether the form is reserved for version 5. -/
def ArmForm.isNew : ArmForm → Bool
  | .branchExchange true | .breakpoint | .clz | .sat | .halfMul | .double => true
  | _ => false

/-- Whether the form is reserved for version 5. -/
def ThumbForm.isNew : ThumbForm → Bool
  | .branchExchange true | .breakpoint | .linkSuffix true => true
  | _ => false

namespace Op

/-- The operations that are new to ARM in version 5: a branch with link to a register, the breakpoint,
counting zeros, the saturating sums, and multiplying halfwords and moving doublewords. -/
def isNewInArm : Op → Bool
  | .branchExchange true _ | .breakpoint | .clz .. | .sat .. | .halfMul .. => true
  | .transfer kind .. => kind.isDouble
  | _ => false

/-- The operations that are new to THUMB in version 5: a branch with link to a register, the
breakpoint, and the second half of a long branch into ARM. -/
def isNewInThumb : Op → Bool
  | .branchExchange true _ | .breakpoint | .linkSuffix _ true => true
  | _ => false

/-- What version 5 has under the condition "never": a branch with link into THUMB, a hint that does
nothing, and what has no meaning. -/
def isBranchOrHint : Op → Bool
  | .branch true true _ | .nop _ | .undefined => true
  | _ => false

end Op

theorem Arm.reserves : Row.Reserves rows .undefined ArmForm.isNew := ⟨by decide, rfl, by decide⟩

theorem Thumb.reserves : Row.Reserves rows .undefined ThumbForm.isNew := ⟨by decide, rfl, by decide⟩

namespace ArmForm

variable (raw addr : Word)

theorem op_branchExchange (link : Bool) :
    (branchExchange link).op raw addr =
      if raw.extractLsb' 8 12 = 0xFFF then .branchExchange link (Arm.field raw 0) else .undefined :=
  rfl

theorem op_double :
    double.op raw addr =
      if (Arm.field raw 12).getLsbD 0 then .undefined
      else Arm.transfer raw (if raw.getLsbD 5 then .storeDouble else .loadDouble)
        (Arm.smallOffset raw) :=
  rfl

theorem op_half :
    half.op raw addr =
      Arm.transfer raw (if raw.getLsbD 20 then .loadHalf else .storeHalf) (Arm.smallOffset raw) :=
  rfl

end ArmForm

/-- A pair that starts at an odd register is no instruction in version 5 either, and the same holds of
a branch to a register whose other bits are not all set. -/
theorem ArmForm.op_of_isNew {form : ArmForm} (new : form.isNew) (raw addr : Word) :
    (form.op raw addr).isNewInArm ∨ form.op raw addr = .undefined := by
  cases form with
  | branchExchange link =>
    cases link with
    | false => exact absurd new (by decide)
    | true =>
      rw [op_branchExchange]
      split
      · exact .inl rfl
      · exact .inr rfl
  | double =>
    rw [op_double]
    split
    · exact .inr rfl
    · left
      cases raw.getLsbD 5 <;> rfl
  | breakpoint | clz | sat | halfMul => exact .inl rfl
  | _ => exact absurd new (by simp [isNew])

theorem Arm.isDouble_wordOrByte (raw : Word) : (wordOrByte raw).isDouble = false := by
  unfold wordOrByte
  cases raw.getLsbD 20 <;> cases raw.getLsbD 22 <;> rfl

/-- A form that the older processor has decodes to no operation that only the newer one has. -/
theorem ArmForm.isNewInArm_op_of_old {form : ArmForm} (old : form.isNew = false) (raw addr : Word) :
    (form.op raw addr).isNewInArm = false := by
  cases form with
  | branchExchange link =>
    cases link with
    | false =>
      rw [op_branchExchange]
      split <;> rfl
    | true => exact absurd old (by decide)
  | transferImm | transferReg => exact Arm.isDouble_wordOrByte raw
  | half =>
    rw [op_half]
    cases raw.getLsbD 20 <;> rfl
  | breakpoint | clz | sat | halfMul | double => exact absurd old (by decide)
  | _ => rfl

/-- In THUMB code the form alone says whether an operation is new. -/
theorem ThumbForm.isNewInThumb_op (form : ThumbForm) (raw : Halfword) (addr : Word) :
    (form.op raw addr).isNewInThumb = form.isNew := by
  cases form with
  | alu =>
    simp only [op, Thumb.aluOp]
    split <;> rfl
  | branchExchange link => cases link <;> rfl
  | linkSuffix exchange => cases exchange <;> rfl
  | _ => rfl

/-! ## Decoded instructions

Two instructions agree if they have the same operation, condition and place, and so read and write the
same registers and flags.
-/

/-- Two instructions agree: in what they do, when, and in all that is worked out from these before they
execute. -/
structure Instruction.Agrees (i j : Instruction) : Prop where
  op : i.op = j.op
  cond : i.cond = j.cond
  flagsRead : i.flagsRead = j.flagsRead
  flagsWritten : i.flagsWritten = j.flagsWritten
  readsPc : i.readsPc = j.readsPc
  writesPc : i.writesPc = j.writesPc

/-- All that is known of an instruction beside its place comes from its operation and its condition. -/
theorem Instruction.agrees {i j : Instruction} (op : i.op = j.op) (cond : i.cond = j.cond) :
    i.Agrees j where
  op := op
  cond := cond
  flagsRead := by rw [Instruction.flagsRead, Instruction.flagsRead, op, cond]
  flagsWritten := by rw [Instruction.flagsWritten, Instruction.flagsWritten, op]
  readsPc := by rw [Instruction.readsPc, Instruction.readsPc, op]
  writesPc := by rw [Instruction.writesPc, Instruction.writesPc, op]

/-- What the two versions make of one encoding, if the operations that are new in version 5 are the given
ones. -/
def Instruction.Versions (isNew : Op → Bool) (old new : Instruction) : Prop :=
  if isNew new.op then old.op = .undefined ∧ old.cond = new.cond else old.Agrees new

theorem Instruction.versions {isNew : Op → Bool} {old new : Instruction} (cond : old.cond = new.cond)
    (op : old.op = if isNew new.op then .undefined else new.op) : Versions isNew old new := by
  unfold Versions
  split
  case isTrue h => exact ⟨by rw [op, if_pos h], cond⟩
  case isFalse h => exact agrees (by rw [op, if_neg h]) cond

theorem Arm.isBranchOrHint_unconditional (raw addr : Word) :
    (unconditional raw addr).isBranchOrHint = true := by
  unfold unconditional
  split <;> rfl

theorem Arm.decode_of_ne_never (cpu : Cpu) (addr : Word) {raw : Word} (h : condition raw ≠ .never) :
    decode cpu addr raw =
      { cpu, addr, raw, thumb := false, cond := condition raw,
        op := (form cpu.isV5 raw).op raw addr } :=
  if_neg fun never => h never.1

/-- The older processor decodes to what the newer one does, or to nothing where that is new. -/
theorem Arm.op_form_false (raw addr : Word) :
    (form false raw).op raw addr =
      if ((form true raw).op raw addr).isNewInArm then .undefined else (form true raw).op raw addr := by
  have forms : form false raw = if (form true raw).isNew then .undefined else form true raw :=
    reserves.classify (key raw)
  rw [forms]
  cases new : (form true raw).isNew with
  | false =>
    rw [ArmForm.isNewInArm_op_of_old new]
    rfl
  | true =>
    rw [if_pos rfl]
    -- a new form may still decode to nothing, as the branch to a register does without its ones
    rcases ArmForm.op_of_isNew new raw addr with isNew | undefined
    · rw [if_pos isNew]
      rfl
    · rw [undefined]
      rfl

/-- So it is for THUMB code. -/
theorem Thumb.op_form_false (raw : Halfword) (addr : Word) :
    (form false raw).op raw addr =
      if ((form true raw).op raw addr).isNewInThumb then .undefined
      else (form true raw).op raw addr := by
  have forms : form false raw = if (form true raw).isNew then .undefined else form true raw :=
    reserves.classify (key raw)
  rw [forms, ThumbForm.isNewInThumb_op]
  cases (form true raw).isNew <;> rfl

/-- **The decoders differ by what version 5 added, and by nothing else.** -/
theorem decode_versions (addr : Word) :
    (∀ raw, Arm.condition raw ≠ .never →
      Instruction.Versions Op.isNewInArm (Arm.decode .arm7 addr raw) (Arm.decode .arm9 addr raw)) ∧
    (∀ raw, Arm.condition raw = .never →
      (Arm.decode .arm7 addr raw).cond = .never ∧
      (Arm.decode .arm9 addr raw).cond = .always ∧
      (Arm.decode .arm9 addr raw).op.isBranchOrHint = true) ∧
    ∀ raw,
      Instruction.Versions Op.isNewInThumb (Thumb.decode .arm7 addr raw)
        (Thumb.decode .arm9 addr raw) := by
  refine ⟨fun raw conditional => ?_, fun raw never => ?_, fun raw => ?_⟩
  · rw [Arm.decode_of_ne_never .arm7 addr conditional, Arm.decode_of_ne_never .arm9 addr conditional]
    exact Instruction.versions rfl (Arm.op_form_false raw addr)
  · have old : Arm.decode .arm7 addr raw =
        { cpu := .arm7, addr, raw, thumb := false, cond := Arm.condition raw,
          op := (Arm.form false raw).op raw addr } :=
      if_neg fun h => Bool.noConfusion h.2
    have new : Arm.decode .arm9 addr raw =
        { cpu := .arm9, addr, raw, thumb := false, cond := .always,
          op := Arm.unconditional raw addr } :=
      if_pos ⟨never, rfl⟩
    rw [old, new]
    exact ⟨never, rfl, Arm.isBranchOrHint_unconditional raw addr⟩
  · exact Instruction.versions rfl (Thumb.op_form_false raw addr)

/-- `BLX r3` and `CLZ r0, r1` are unknown to version 4, `BX r3` is not, and `BLX` with an immediate is
an instruction that never executes there. -/
theorem decode_versions_at_zero :
    (Arm.decode .arm9 0 0xE12FFF33).op.isNewInArm = true ∧
    (Arm.decode .arm7 0 0xE12FFF33).op = .undefined ∧
    (Arm.decode .arm7 0 0xE16F0F11).op = .undefined ∧
    (Arm.decode .arm7 0 0xE12FFF13).Agrees (Arm.decode .arm9 0 0xE12FFF13) ∧
    (Arm.decode .arm7 0 0xFB000000).cond = .never ∧
    (Arm.decode .arm9 0 0xFB000000).cond = .always := by
  obtain ⟨conditional, never, -⟩ := decode_versions 0
  have link := conditional 0xE12FFF33 (by decide)
  have count := conditional 0xE16F0F11 (by decide)
  have exchange := conditional 0xE12FFF13 (by decide)
  have immediate := never 0xFB000000 (by decide)
  rw [Instruction.Versions, if_pos (by decide)] at link count
  rw [Instruction.Versions, if_neg (by decide)] at exchange
  exact ⟨by decide, link.1, count.1, exchange, immediate.1, immediate.2.1⟩

end ArmBlocks
