import ArmBlocks.Proofs.BranchCodes
import ArmBlocks.Proofs.Jumps

/-!
# Calls return

A call leaves in the link register where to return to, with the lowest bit set if that is THUMB code, and
goes to its target in the instruction set that is encoded or that a register selects. A branch to the
link register undoes the second half of it. **So a call and its return come to the instruction behind the
call, in the instruction set of the caller, with nothing else changed but the link register**
(`CallCode.returns`).

The return is not asked to stand at the target: it may stand anywhere, and come after anything that left
the link register as it was. That it may be the very first thing executed at the target is a case of it.

The long branch of THUMB is two instructions, and the address it is completed from passes through the
link register. Whether both halves come in one block, in two, or are taken one at a time makes no
difference (`Block.leads_of_two`): a block that ends between them writes what is next, and the second
half does not look at that.
-/

set_option autoImplicit false

namespace ArmBlocks

open Block (Leads)

variable {σ : Type}

namespace CpuState

/-- A flag that is put twice is as it was put last. -/
theorem setFlag_setFlag (s : CpuState) (f : Flag) (first last : Bool) :
    (s.setFlag f first).setFlag f last = s.setFlag f last := by
  have word : Bits.put (Bits.put s.cpsr f.bit first) f.bit last = Bits.put s.cpsr f.bit last := by
    refine BitVec.eq_of_getLsbD_eq fun i _ => ?_
    have inside := f.bit_lt
    have twice := Bits.test_put (Bits.put s.cpsr f.bit first) i last inside
    have once := Bits.test_put s.cpsr i last inside
    have before := Bits.test_put s.cpsr i first inside
    unfold Bits.test at twice once before
    rw [twice, once, before]
    split
    · rfl
    · rfl
  simp only [setFlag, word]

/-- The instruction set is put to what it is. -/
theorem setFlag_thumb {s : CpuState} {thumb : Bool} (set : s.thumb = thumb) :
    s.setFlag .thumb thumb = s := by
  rw [← set]
  exact s.setFlag_flag .thumb

end CpuState

namespace Block

variable (bus : Bus σ) {i : Instruction} {s : CpuState}

/-- A run that begins with a linking branch leads to its target, with the link in r14, if the condition of
the branch holds. -/
theorem leads_of_branch {exchange : Bool} {target link : Word} {cond : Condition}
    (hop : i.op = .branch true exchange target) (hcond : i.cond = cond) (hlink : i.link = link)
    (holds : s.satisfies cond = true) (rest : List Instruction) :
    Leads bus (i :: rest) s
      ((if exchange then (s.setReg .lr link).setFlag .thumb true else s.setReg .lr link).arrive target) := by
  subst hcond hlink
  refine leads_of_one (by rw [hop]; rfl) holds (fun m here => ?_) rest
  rw [← here]
  exact Instruction.exec_perform_branch bus hop m

/-- One that begins with a branch to a register leads to what was in the register before the link was
written. -/
theorem leads_of_branchExchange {links : Bool} {rm : Reg} {pc link : Word} {cond : Condition}
    (hop : i.op = .branchExchange links rm) (hcond : i.cond = cond) (hpc : i.pipelinePc = pc)
    (hlink : i.link = link) (holds : s.satisfies cond = true) (rest : List Instruction) :
    Leads bus (i :: rest) s
      (((s.linkIf links link).setFlag .thumb ((s.read pc rm).getLsbD 0)).arrive (s.read pc rm)) := by
  subst hcond hpc hlink
  refine leads_of_one (by rw [hop]; rfl) holds (fun m here => ?_) rest
  rw [← here]
  exact Instruction.exec_perform_branchExchange bus hop m

/-- The two halves of a long branch, the second one at any place. -/
theorem leads_of_halves {j : Instruction} {value offset : Word} {exchange : Bool}
    (first : i.op = .linkPrefix value) (second : j.op = .linkSuffix offset exchange)
    (always : i.cond = .always) (always' : j.cond = .always) (adjacent : j.addr = i.next)
    (rest : List Instruction) :
    Leads bus (i :: j :: rest) s
      ((if exchange then (s.setReg .lr j.link).setFlag .thumb false
        else s.setReg .lr j.link).arrive (value + offset)) := by
  refine leads_of_two adjacent (u := s.setReg .lr value) (by rw [first]; rfl) (by rw [second]; rfl) always
    always' (fun m here => ?_) (fun m next same => ?_) rest
  · rw [← here]
    exact Instruction.exec_perform_linkPrefix bus first m
  · -- all that may have happened in between is that what is next was written
    have here : m.cpu = (s.setReg .lr value).withNext m.cpu.next := by
      have put := congrArg (CpuState.withNext · m.cpu.next) same
      exact put
    obtain ⟨k, left, arrived⟩ := Instruction.exec_perform_linkSuffix bus second m
    refine ⟨k, left, arrived.trans ?_⟩
    have link : m.cpu.reg .lr = value := by
      rw [here]
      exact (CpuState.reg_setReg ..).trans (if_pos rfl)
    have linked : m.cpu.setReg .lr j.link = (s.setReg .lr j.link).withNext m.cpu.next := by
      rw [here]
      exact congrArg (CpuState.withNext · m.cpu.next) (s.setReg_setReg .lr value j.link)
    rw [link, linked]
    cases exchange with
    | false => exact CpuState.arrive_withNext ..
    | true => exact CpuState.arrive_withNext ((s.setReg .lr j.link).setFlag .thumb false) _ _

end Block

/-- The code of a call. -/
inductive CallCode where
  /-- The branch with link of ARM. -/
  | branch (cond : Condition) (offset : BitVec 24)
  /-- The one into THUMB. -/
  | branchThumb (half : Bool) (offset : BitVec 24)
  /-- The call of a register from ARM. -/
  | register (cond : Condition) (rm : Reg)
  /-- The call of a register from THUMB. -/
  | thumbRegister (rm : Reg)
  /-- The two halves of the long branch with link of THUMB, into ARM if `exchange` says so. -/
  | thumbLong (exchange : Bool) (offset : BitVec 22)

namespace CallCode

/-- Whether the caller is THUMB code. -/
def isThumb : CallCode → Bool
  | .branch .. | .branchThumb .. | .register .. => false
  | .thumbRegister _ | .thumbLong .. => true

/-- Whether only version 5 knows the call. -/
def isNew : CallCode → Bool
  | .branch .. => false
  | .thumbLong exchange _ => exchange
  | _ => true

/-- The condition of the call. -/
def cond : CallCode → Condition
  | .branch cond _ | .register cond _ => cond
  | _ => .always

/-- The instructions of the call, at an address. -/
def instructions (cpu : Cpu) (addr : Word) : CallCode → List Instruction
  | .branch cond offset => [Arm.decode cpu addr (Arm.branchCode cond true offset)]
  | .branchThumb half offset => [Arm.decode cpu addr (Arm.branchThumbCode half offset)]
  | .register cond rm => [Arm.decode cpu addr (Arm.exchangeCode cond true rm)]
  | .thumbRegister rm => [Thumb.decode cpu addr (Thumb.exchangeCode true rm)]
  | .thumbLong exchange offset =>
    [Thumb.decode cpu addr (Thumb.linkPrefixCode (offset.extractLsb' 11 11)),
      Thumb.decode cpu (addr + 2) (Thumb.linkSuffixCode exchange (offset.extractLsb' 0 11))]

/-- What the call names as its target: so many instructions from two behind it, or a register. -/
def goal (addr : Word) (s : CpuState) : CallCode → Word
  | .branch _ offset => addr + 8 + BitVec.ofInt 32 (4 * offset.toInt)
  | .branchThumb half offset =>
    addr + 8 + BitVec.ofInt 32 (4 * offset.toInt) + if half then 2 else 0
  | .register _ rm => s.read (addr + 8) rm
  | .thumbRegister rm => s.read (addr + 4) rm
  | .thumbLong _ offset => addr + 4 + BitVec.ofInt 32 (2 * offset.toInt)

/-- Whether THUMB code is called. Of a register the lowest bit tells. -/
def intoThumb (addr : Word) (s : CpuState) : CallCode → Bool
  | .branch .. => false
  | .branchThumb .. => true
  | .register _ rm => (s.read (addr + 8) rm).getLsbD 0
  | .thumbRegister rm => (s.read (addr + 4) rm).getLsbD 0
  | .thumbLong exchange _ => !exchange

/-- The address behind the call. -/
def behind (addr : Word) : CallCode → Word
  | .thumbRegister _ => addr + 2
  | _ => addr + 4

/-- What the call leaves in the link register. -/
def link (code : CallCode) (addr : Word) : Word :=
  if code.isThumb then code.behind addr ||| 1 else code.behind addr

/-- The processor at the target. -/
def called (code : CallCode) (addr : Word) (s : CpuState) : CpuState :=
  ((s.setReg .lr (code.link addr)).setFlag .thumb (code.intoThumb addr s)).arrive (code.goal addr s)

/-- The branch to the link register, in either instruction set. -/
def returnCode (cpu : Cpu) (thumb : Bool) (addr : Word) : Instruction :=
  if thumb then Thumb.decode cpu addr (Thumb.exchangeCode false .lr)
  else Arm.decode cpu addr (Arm.exchangeCode .always false .lr)

variable {code : CallCode} {cpu : Cpu} {addr : Word} {s : CpuState} (bus : Bus σ)

/-- The instructions of a call lead to the called processor, whatever the code is behind them. -/
theorem leads_call (known : code.isNew = true → cpu.isV5 = true) (set : s.thumb = code.isThumb)
    (holds : s.satisfies code.cond = true) (after : List Instruction) :
    Leads bus (code.instructions cpu addr ++ after) s (code.called addr s) := by
  -- one decoded instruction for the short forms, two for the long one
  cases code with
  | branch cond offset =>
    have never : cond ≠ .never := by
      rintro rfl
      cases holds
    have decoded := Arm.decode_branchCode cpu addr never true offset
    have leads := Block.leads_of_branch bus (congrArg Instruction.op decoded)
      (congrArg Instruction.cond decoded) (congrArg Instruction.link decoded) holds after
    have stays : (s.setReg .lr (addr + 4)).setFlag .thumb false = s.setReg .lr (addr + 4) :=
      CpuState.setFlag_thumb set
    show Leads bus _ s (((s.setReg .lr (addr + 4)).setFlag .thumb false).arrive _)
    rw [stays]
    exact leads
  | branchThumb half offset =>
    have decoded := Arm.decode_branchThumbCode (known rfl) addr half offset
    exact Block.leads_of_branch bus (congrArg Instruction.op decoded)
      (congrArg Instruction.cond decoded) (congrArg Instruction.link decoded) holds after
  | register cond rm =>
    have never : cond ≠ .never := by
      rintro rfl
      cases holds
    have links : true = true → cpu.isV5 = true := known
    have decoded := Arm.decode_exchangeCode addr never links rm
    exact Block.leads_of_branchExchange bus (congrArg Instruction.op decoded)
      (congrArg Instruction.cond decoded) (congrArg Instruction.pipelinePc decoded)
      (congrArg Instruction.link decoded) holds after
  | thumbRegister rm =>
    have links : true = true → cpu.isV5 = true := known
    have decoded := Thumb.decode_exchangeCode addr links rm
    exact Block.leads_of_branchExchange bus (congrArg Instruction.op decoded)
      (congrArg Instruction.cond decoded) (congrArg Instruction.pipelinePc decoded)
      (congrArg Instruction.link decoded) holds after
  | thumbLong exchange offset =>
    have exchanges : exchange = true → cpu.isV5 = true := known
    have prefixed := Thumb.decode_linkPrefixCode cpu addr (offset.extractLsb' 11 11)
    have suffixed := Thumb.decode_linkSuffixCode (addr + 2) exchanges (offset.extractLsb' 0 11)
    have leads := Block.leads_of_halves bus (s := s) (congrArg Instruction.op prefixed)
      (congrArg Instruction.op suffixed) (congrArg Instruction.cond prefixed)
      (congrArg Instruction.cond suffixed) (by rw [prefixed, suffixed]; rfl) after
    have link : (Thumb.decode cpu (addr + 2)
        (Thumb.linkSuffixCode exchange (offset.extractLsb' 0 11))).link = (addr + 4) ||| 1 := by
      rw [suffixed]
      exact congrArg (· ||| 1) (BitVec.add_assoc addr 2 2)
    -- the two halves of the offset, added one after the other, are the offset again
    have whole : (offset.extractLsb' 11 11 ++ offset.extractLsb' 0 11 : BitVec 22) = offset :=
      BitVec.extractLsb'_append_extractLsb'
    have goal : addr + (4 : Word) + ((offset.extractLsb' 11 11).signExtend 32 <<< 12) +
        ((offset.extractLsb' 0 11).setWidth 32 <<< 1) =
          addr + 4 + BitVec.ofInt 32 (2 * offset.toInt) := by
      rw [BitVec.add_assoc, offset_of_halves, whole]
    rw [link, goal] at leads
    cases exchange with
    | true => exact leads
    | false =>
      have stays : (s.setReg .lr ((addr + 4) ||| 1)).setFlag .thumb true =
          s.setReg .lr ((addr + 4) ||| 1) := CpuState.setFlag_thumb set
      show Leads bus _ s (((s.setReg .lr ((addr + 4) ||| 1)).setFlag .thumb true).arrive _)
      rw [stays]
      exact leads

/-! ## The way back

The link register has its lowest bit set for THUMB code and clear for ARM code, and a return takes the
instruction set from that bit. So the set comes back with the address, and both are those behind the
call.
-/

section

variable (aligned : addr.toNat % Decode.bytes code.isThumb = 0)
include aligned

theorem aligned_behind : (code.behind addr).toNat % Decode.bytes code.isThumb = 0 := by
  cases code with
  | branch _ _ | branchThumb _ _ | register _ _ =>
    exact Decode.aligned_add aligned (show (4 : Word).toNat % 4 = 0 by decide)
  | thumbRegister _ => exact Decode.aligned_add aligned (show (2 : Word).toNat % 2 = 0 by decide)
  | thumbLong _ _ => exact Decode.aligned_add aligned (show (4 : Word).toNat % 2 = 0 by decide)

/-- The lowest bit of the link tells the instruction set of the caller. -/
theorem getLsbD_link : (code.link addr).getLsbD 0 = code.isThumb := by
  have behind := aligned_behind aligned
  unfold link
  cases set : code.isThumb with
  | true => simp
  | false =>
    rw [set] at behind
    have even : (code.behind addr).toNat % 2 = 0 := by
      change (code.behind addr).toNat % 4 = 0 at behind
      omega
    rw [if_neg Bool.false_ne_true, BitVec.getLsbD, Nat.testBit_zero, even]
    rfl

/-- The rest of it is the address behind the call. -/
theorem align_link : Decode.align code.isThumb (code.link addr) = code.behind addr := by
  have behind := aligned_behind aligned
  unfold link
  cases set : code.isThumb with
  | true =>
    rw [set] at behind
    have clear : Decode.align true (code.behind addr) = code.behind addr := Decode.align_of_aligned behind
    have masked : Decode.align true (code.behind addr ||| 1) = Decode.align true (code.behind addr) := by
      show (code.behind addr ||| 1) &&& ~~~1#32 = code.behind addr &&& ~~~1#32
      have none : (1#32 &&& ~~~1#32) = 0#32 := by decide
      rw [BitVec.and_or_distrib_right, show (1 : Word) = 1#32 from rfl, none, BitVec.or_zero]
    exact masked.trans clear
  | false =>
    rw [set] at behind
    exact Decode.align_of_aligned behind

end

/-- A branch to r14 leads back, in either instruction set, if r14 has what the call left there. -/
theorem leads_return (aligned : addr.toNat % Decode.bytes code.isThumb = 0) {u : CpuState}
    (kept : u.reg .lr = code.link addr) (place : Word) (rest : List Instruction) :
    Leads bus (returnCode cpu u.thumb place :: rest) u
      (((u.setFlag .thumb code.isThumb).setReg .pc (code.behind addr)).withNext (code.behind addr)) := by
  have plain : false = true → cpu.isV5 = true := fun h => absurd h Bool.false_ne_true
  obtain ⟨always, exchanges⟩ : (returnCode cpu u.thumb place).cond = .always ∧
      (returnCode cpu u.thumb place).op = .branchExchange false .lr := by
    unfold returnCode
    split
    · rw [Thumb.decode_exchangeCode place plain]
      exact ⟨rfl, rfl⟩
    · rw [Arm.decode_exchangeCode place (show Condition.always ≠ .never by decide) plain]
      exact ⟨rfl, rfl⟩
  have leads := Block.leads_of_branchExchange bus (s := u) exchanges always rfl rfl rfl rest
  have read : u.read (returnCode cpu u.thumb place).pipelinePc .lr = code.link addr := kept
  have set : (u.setFlag .thumb code.isThumb).thumb = code.isThumb :=
    (CpuState.flag_setFlag ..).trans (if_pos rfl)
  rw [read, getLsbD_link aligned] at leads
  have arrived := (u.setFlag .thumb code.isThumb).arrive_eq (code.link addr)
  rw [set, align_link aligned] at arrived
  exact arrived ▸ leads

/-! ## There and back

What a call leaves is one equation (`called_eq`), from which everything said of the callee's processor
is read off. The callee may be any code, as long as it comes to its return with the link that the call
left.
-/

/-- What a call leaves: the link in r14, the instruction set of the target, and the target where an
instruction of that set can stand. -/
theorem called_eq (code : CallCode) (addr : Word) (s : CpuState) :
    let target := Decode.align (code.intoThumb addr s) (code.goal addr s)
    code.called addr s =
      (((s.setReg .lr (code.link addr)).setFlag .thumb (code.intoThumb addr s)).setReg .pc target).withNext
        target := by
  intro target
  have set : ((s.setReg .lr (code.link addr)).setFlag .thumb (code.intoThumb addr s)).thumb =
      code.intoThumb addr s := (CpuState.flag_setFlag ..).trans (if_pos rfl)
  have arrived := CpuState.arrive_eq
    ((s.setReg .lr (code.link addr)).setFlag .thumb (code.intoThumb addr s)) (code.goal addr s)
  rw [set] at arrived
  exact arrived

/-- To be back with the instruction set of the caller is to have the program status of the caller. -/
theorem setFlag_called (set : s.thumb = code.isThumb) (pc next : Word) :
    (((code.called addr s).setFlag .thumb code.isThumb).setReg .pc pc).withNext next =
      ((s.setReg .lr (code.link addr)).setReg .pc pc).withNext next := by
  have back : ((s.setReg .lr (code.link addr)).setFlag .thumb (code.intoThumb addr s)).setFlag .thumb
      code.isThumb = s.setReg .lr (code.link addr) := by
    rw [CpuState.setFlag_setFlag]
    exact CpuState.setFlag_thumb set
  have twice := CpuState.setReg_setReg (s.setReg .lr (code.link addr)) .pc
    (Decode.align (code.intoThumb addr s) (code.goal addr s)) pc
  rw [called_eq, ← twice]
  exact congrArg (fun t : CpuState => ((t.setReg .pc (Decode.align (code.intoThumb addr s)
    (code.goal addr s))).setReg .pc pc).withNext next) back

/-- **Every call returns.** The call arrives at its target, aligned to the instruction set that it goes
to, whatever comes behind it and however it is cut into blocks. From wherever the link register is as the
call left it, a branch to it comes to the instruction behind the call in the instruction set of the caller,
and changes nothing else. So a call that is followed by its return changes the link register alone. -/
theorem returns (bus : Bus σ) (code : CallCode) (cpu : Cpu) (addr : Word) (s : CpuState)
    (known : code.isNew = true → cpu.isV5 = true)
    (aligned : addr.toNat % Decode.bytes code.isThumb = 0) (set : s.thumb = code.isThumb)
    (holds : s.satisfies code.cond = true) :
    let t := code.called addr s
    let target := Decode.align (code.intoThumb addr s) (code.goal addr s)
    t.next = target ∧ t.reg .pc = target ∧ t.thumb = code.intoThumb addr s ∧
      (∀ after, Leads bus (code.instructions cpu addr ++ after) s t) ∧
      (∀ (u : CpuState) (place : Word) (rest : List Instruction), u.reg .lr = code.link addr →
        Leads bus (returnCode cpu u.thumb place :: rest) u
          (((u.setFlag .thumb code.isThumb).setReg .pc (code.behind addr)).withNext (code.behind addr))) ∧
      ∀ rest, Leads bus (returnCode cpu t.thumb target :: rest) t
        (((s.setReg .lr (code.link addr)).setReg .pc (code.behind addr)).withNext (code.behind addr)) := by
  intro t target
  -- everything that is said of the state after the call is read off this equation
  have here : t = (((s.setReg .lr (code.link addr)).setFlag .thumb (code.intoThumb addr s)).setReg .pc
      target).withNext target := code.called_eq addr s
  have counter : t.reg .pc = target := by
    rw [here]
    exact (CpuState.reg_setReg ..).trans (if_pos rfl)
  have into : t.thumb = code.intoThumb addr s := by
    rw [here]
    exact (CpuState.flag_setFlag (s.setReg .lr (code.link addr)) ..).trans (if_pos rfl)
  have kept : t.reg .lr = code.link addr := by
    rw [here]
    have other : (((s.setReg .lr (code.link addr)).setFlag .thumb (code.intoThumb addr s)).setReg .pc
        target).reg .lr = ((s.setReg .lr (code.link addr)).setFlag .thumb _).reg .lr :=
      (CpuState.reg_setReg ..).trans (if_neg (by decide))
    exact other.trans ((CpuState.reg_setReg s ..).trans (if_pos rfl))
  refine ⟨by rw [here]; rfl, counter, into, leads_call bus known set holds, fun u place rest same => ?_,
    fun rest => ?_⟩
  · exact leads_return bus aligned same place rest
  · rw [← setFlag_called set]
    exact leads_return bus aligned kept target rest

/-- A long branch into ARM that stands at 0x8006 and gives itself as its target goes to the word before,
and its return comes back behind it. Every instruction is executed by itself. -/
theorem returns_unaligned :
    let code := CallCode.thumbLong true (BitVec.ofInt 22 (-2))
    let s := (CpuState.new .arm9).setFlag .thumb true
    let one := Piece.alone Block.scratchArena
    ∃ m n : Machine Unit,
      Piece.runAll (Bus.ofInstruction 0) ((code.instructions .arm9 0x8006).map one) s () =
          some (.early, m) ∧
        m.cpu.next = 0x8004 ∧ m.cpu.thumb = false ∧
        Piece.runAll (Bus.ofInstruction 0) ([returnCode .arm9 false 0x8004].map one) m.cpu () =
          some (.early, n) ∧
        n.cpu.next = 0x800A ∧ n.cpu.thumb = true := by
  intro code s one
  obtain ⟨next, -, into, calls, -, back⟩ := returns (Bus.ofInstruction 0) code .arm9 0x8006 s
    (fun _ => rfl) (by decide) (by decide) (by decide)
  have word : Decode.align (code.intoThumb 0x8006 s) (code.goal 0x8006 s) = 0x8004 := by decide
  rw [into, word] at back
  obtain ⟨m, called, here⟩ := (calls []).alone Block.isScratch_scratchArena ()
  obtain ⟨n, returned, behind⟩ := (back []).alone Block.isScratch_scratchArena ()
  refine ⟨m, n, called, ?_, ?_, ?_, ?_, ?_⟩
  · rw [here, next, word]
  · rw [here, into]
    rfl
  · rw [here]
    exact returned
  · rw [behind]
    decide
  · rw [behind]
    decide

end CallCode

end ArmBlocks
