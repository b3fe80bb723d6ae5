import ArmBlocks.Proofs.Perform
import ArmBlocks.Proofs.Moves

/-!
# What became of the accesses of an instruction

A log of events says what a host was asked. A report says how it ended as well: what a load
answered, whether a store found memory, and which exceptions were entered. `Bus.reporting` makes
any host keep reports beside its own state, and `Instruction.reports` are those of one instruction.

Two things are read off them. Accesses are made one after the other until one finds no memory
(`Trail`, `Guest.Probes`): that one is the last, and all before it found some. And where a host has
memory (`Bus.HasMemory`), the stores in the reports are all that happened to it
(`Instruction.memory_eq`), whatever the instruction was. The second is an invariant of moves, so it
needs no look at the instructions.
-/

set_option autoImplicit false

namespace ArmBlocks

open Guest (exec onward inOrder)

variable {σ : Type}

/-- Something a host was asked, with how it ended. -/
inductive Report where
  | load (cpu : Cpu) (w : Width) (addr : Word) (answer : Option Word)
  | store (cpu : Cpu) (w : Width) (addr x : Word) (done : Bool)
  | exception (kind : Exception)
  deriving DecidableEq, Repr

namespace Report

/-- Whether it is an access that found memory. -/
def found : Report → Bool
  | .load _ _ _ answer => answer.isSome
  | .store _ _ _ _ done => done
  | .exception _ => false

/-- Whether it is an access that found no memory. -/
def missed : Report → Bool
  | .load _ _ _ answer => answer.isNone
  | .store _ _ _ _ done => !done
  | .exception _ => false

theorem not_missed_of_found {r : Report} (h : r.found = true) : r.missed = false := by
  cases r <;> simp_all [found, missed]

theorem ne_exception_of_found {r : Report} (h : r.found = true) (kind : Exception) :
    r ≠ .exception kind := by
  rintro rfl
  simp [found] at h

theorem ne_exception_of_missed {r : Report} (h : r.missed = true) (kind : Exception) :
    r ≠ .exception kind := by
  rintro rfl
  simp [missed] at h

end Report

namespace Bus

/-- The bus with a report of each access and each exception. -/
def reporting (bus : Bus σ) : Bus (σ × List Report) where
  get := fun (host, told) cpu w addr =>
    let (answer, host) := bus.get host cpu w addr
    (answer, host, told ++ [.load cpu w addr answer])
  set := fun (host, told) cpu w addr x =>
    let (done, host) := bus.set host cpu w addr x
    (done, host, told ++ [.store cpu w addr x done])
  waitTime := fun (host, told) cpu w addr access =>
    let (wait, host) := bus.waitTime host cpu w addr access
    (wait, host, told)
  codeRegions := fun (host, _) cpu => bus.codeRegions host cpu
  vectorBase := fun (host, _) cpu => bus.vectorBase host cpu
  exceptionHappened := fun (host, told) s kind =>
    let (after, host) := bus.exceptionHappened host s kind
    (after, host, told ++ [.exception kind])
  statusChanged := fun (host, told) s =>
    let (after, host) := bus.statusChanged host s
    (after, host, told)
  softwareInterrupt := fun (host, told) s comment =>
    let (handled, after, host) := bus.softwareInterrupt host s comment
    (handled, after, host, told)
  controlWrite := fun (host, told) cpu x r => (bus.controlWrite host cpu x r, told)
  controlRead := fun (host, told) cpu r =>
    let (x, host) := bus.controlRead host cpu r
    (x, host, told)

/-- Keeping reports changes nothing. -/
theorem extends_reporting (bus : Bus σ) : Bus.Extends Prod.fst bus.reporting bus where
  get _ _ _ _ := rfl
  set _ _ _ _ _ := rfl
  waitTime _ _ _ _ _ := rfl
  vectorBase _ _ := rfl
  exceptionHappened _ _ _ := rfl
  statusChanged _ _ := rfl
  softwareInterrupt _ _ _ := rfl
  controlWrite _ _ _ _ := rfl
  controlRead _ _ _ := rfl

end Bus

/-! ## Instructions on a host that keeps something beside

The reports are kept beside the host, so the instruction on the host that keeps them is the
instruction on the host.
-/

section Mirrored

variable {τ : Type} {π : τ → σ} {b : Bus τ} {a : Bus σ} (extended : b.Extends π a)

open Guest (Mirrors)

/-- Going through parts that mirror each other one by one mirrors itself. -/
theorem Guest.Mirrors.inOrder {xs : List (Guest τ (Option Exit))}
    {ys : List (Guest σ (Option Exit))} (h : List.Forall₂ (Mirrors π) xs ys) :
    Mirrors π (Guest.inOrder xs) (Guest.inOrder ys) := by
  induction h with
  | nil => exact .pure
  | cons first _ ih =>
    refine .bind first fun exit? => ?_
    cases exit? with
    | none => exact ih
    | some exit => exact .pure

include extended

theorem Step.mirrors_perform (s : Step) : Mirrors π (s.perform b) (s.perform a) := by
  refine .bind (Block.mirrors_executeNode extended _ _ _) fun after => ?_
  cases after with
  | leave exit => exact .pure
  | next => exact .pure
  | jump target => exact .pure

theorem Instruction.mirrors_perform (i : Instruction) : Mirrors π (i.perform b) (i.perform a) := by
  refine .inOrder ?_
  rw [List.forall₂_map_left_iff, List.forall₂_map_right_iff]
  exact List.forall₂_same.mpr fun s _ => s.mirrors_perform extended

end Mirrored

/-- The machine at the start of its reports. -/
def Machine.unreported (m : Machine σ) : Machine (σ × List Report) := m.mapHost fun host => (host, [])

namespace Instruction

/-- The instruction with the reports of what it asked. -/
def reported (bus : Bus σ) (i : Instruction) (m : Machine σ) :
    Option Exit × Machine (σ × List Report) :=
  exec (i.perform bus.reporting) m.unreported

/-- What an instruction has to report. -/
def reports (bus : Bus σ) (i : Instruction) (m : Machine σ) : List Report :=
  (i.reported bus m).2.host.2

/-- Apart from the reports it is the instruction. -/
theorem exec_perform_eq (bus : Bus σ) (i : Instruction) (m : Machine σ) :
    exec (i.perform bus) m =
      ((i.reported bus m).1, (i.reported bus m).2.mapHost Prod.fst) :=
  i.mirrors_perform bus.extends_reporting m.unreported

theorem exec_perform_of_reported {bus : Bus σ} {i : Instruction} {m : Machine σ} {exit? : Option Exit}
    {n : Machine (σ × List Report)} (h : i.reported bus m = (exit?, n)) :
    exec (i.perform bus) m = (exit?, n.mapHost Prod.fst) := by
  rw [exec_perform_eq, h]

end Instruction

/-! ## Memory

Where a host has memory, only a store that found some changes it, and as the report of it says. It is
an invariant of moves.
-/

section Memory

variable {μ : Type}

/-- Memory in a host: a view of it that only stores change, where they find it. -/
structure Bus.HasMemory (bus : Bus σ) (view : σ → μ) (put : Cpu → Width → Word → Word → μ → μ) :
    Prop where
  get : ∀ host cpu w addr, view (bus.get host cpu w addr).2 = view host
  set : ∀ host cpu w addr x, view (bus.set host cpu w addr x).2 =
    if (bus.set host cpu w addr x).1 then put cpu w addr x (view host) else view host
  waitTime : ∀ host cpu w addr access, view (bus.waitTime host cpu w addr access).2 = view host
  exceptionHappened : ∀ host s kind, view (bus.exceptionHappened host s kind).2 = view host
  statusChanged : ∀ host s, view (bus.statusChanged host s).2 = view host
  softwareInterrupt : ∀ host s comment,
    view (bus.softwareInterrupt host s comment).2.2 = view host
  controlWrite : ∀ host cpu x r, view (bus.controlWrite host cpu x r) = view host
  controlRead : ∀ host cpu r, view (bus.controlRead host cpu r).2 = view host

/-- What a report says of memory, which `put` stores to. -/
def Report.change (put : Cpu → Width → Word → Word → μ → μ) (memory : μ) : Report → μ
  | .store cpu w addr x true => put cpu w addr x memory
  | _ => memory

/-- Memory is what the reports made of what it was. -/
def Accounted (view : σ → μ) (put : Cpu → Width → Word → Word → μ → μ) (memory : μ)
    (a : CpuState × σ × List Report) : Prop :=
  view a.2.1 = a.2.2.foldl (Report.change put) memory

variable {bus : Bus σ} {view : σ → μ} {put : Cpu → Width → Word → Word → μ → μ}
  (has : bus.HasMemory view put) {memory : μ}

include has

/-- Whatever is asked of the host, its memory is what the log makes of it. -/
theorem accounted_of_asks {a b : σ × List Report} (asks : bus.reporting.Asks a b) {s t : CpuState}
    (h : Accounted view put memory (s, a)) : Accounted view put memory (t, b) := by
  induction asks with
  | refl => exact h
  | @tail c _ _ ask ih =>
    unfold Accounted at ih ⊢
    cases ask with
    | get cpu w addr => simp [Bus.reporting, has.get, Report.change, ih]
    | set cpu w addr x =>
      simp only [Bus.reporting, has.set, List.foldl_append, List.foldl_cons, List.foldl_nil]
      cases (bus.set c.1 cpu w addr x).1 <;> simp [Report.change, ih]
    | waitTime cpu w addr access => simp [Bus.reporting, has.waitTime, ih]
    | controlWrite cpu x r => simp [Bus.reporting, has.controlWrite, ih]
    | controlRead cpu r => simp [Bus.reporting, has.controlRead, ih]

/-- So it is whatever move is made. -/
theorem Move.accounted {a b : CpuState × σ × List Report} (move : Move bus.reporting a b)
    (h : Accounted view put memory a) : Accounted view put memory b := by
  cases move with
  | work work => exact accounted_of_asks has work.host h
  | writeStatus s host x mask => exact (has.statusChanged _ _).trans h
  | restoreStatus s host => exact (has.statusChanged _ _).trans h
  | writeSaved s host x mask => exact h
  | trap s host comment => exact (has.softwareInterrupt _ _ _).trans h
  | enter s host kind lr =>
    unfold Accounted at h ⊢
    simp [CpuState.enterException, Bus.reporting, has.exceptionHappened, has.statusChanged,
      Report.change, h]
  | borrow work => exact accounted_of_asks has work.host h

end Memory

/-- A host that is nothing but words of memory up to an address. -/
def Bus.words (limit : Word) : Bus (Word → Word) :=
  Bus.ofMemory
    (fun host _ w addr => (if w = .word ∧ addr < limit then some (host addr) else none, host))
    (fun host _ w addr x =>
      if w = .word ∧ addr < limit then (true, Function.update host addr x) else (false, host))
    fun host _ _ _ _ => (1, host)

/-- A host of words has a memory, in which only stores change anything. -/
theorem Bus.hasMemory_words (limit : Word) :
    (Bus.words limit).HasMemory id fun _ _ addr x memory => Function.update memory addr x where
  get _ _ _ _ := rfl
  set host cpu w addr x := by
    unfold Bus.words Bus.ofMemory
    dsimp only
    split <;> rfl
  waitTime _ _ _ _ _ := rfl
  exceptionHappened _ _ _ := rfl
  statusChanged _ _ := rfl
  softwareInterrupt _ _ _ := rfl
  controlWrite _ _ _ _ := rfl
  controlRead _ _ _ := rfl

section Moved

variable {bus : Bus σ} {o : CpuState × σ}

open Guest (Goes)

/-- Going through parts makes the moves of the parts. -/
theorem Guest.goes_inOrder {xs : List (Guest σ (Option Exit))} (h : ∀ x ∈ xs, Goes bus o x) :
    Goes bus o (inOrder xs) := by
  induction xs with
  | nil => exact .pure
  | cons x rest ih =>
    refine .bind (h x (by simp)) fun exit? => ?_
    cases exit? with
    | none => exact ih fun y hy => h y (by simp [hy])
    | some exit => exact .pure

/-- An instruction makes the moves of its nodes. -/
theorem Instruction.goes_perform (i : Instruction) : Goes bus o (i.perform bus) := by
  refine Guest.goes_inOrder fun x hx => ?_
  obtain ⟨s, -, rfl⟩ := List.mem_map.mp hx
  refine .bind (Block.goes_executeNode _ _ _) fun after => ?_
  cases after with
  | leave exit => exact .pure
  | next => exact .pure
  | jump target => exact .pure

end Moved

/-- **The stores that are reported are all that happens to memory.** -/
theorem Instruction.memory_eq {μ : Type} {bus : Bus σ} {view : σ → μ}
    {put : Cpu → Width → Word → Word → μ → μ} (has : bus.HasMemory view put) (i : Instruction)
    (m : Machine σ) :
    view (exec (i.perform bus) m).2.host =
      (i.reports bus m).foldl (Report.change put) (view m.host) := by
  have goes : Guest.Goes bus.reporting m.unreported.sight (i.perform bus.reporting) := i.goes_perform
  have start : Accounted view put (view m.host) m.unreported.sight := rfl
  have accounted := (goes m.unreported .refl).preserve (Move.accounted has) start
  rw [i.exec_perform_eq]
  exact accounted

/-! ## Accesses one after the other

A trail is a list of reports of which only the last may have missed, and it says whether it has.
Sequencing stops at a miss, as the instructions do.
-/

/-- The reports of accesses that are made in order until one finds no memory. -/
inductive Trail : Bool → List Report → Prop
  /-- All of them found some. -/
  | whole (reports : List Report) (found : ∀ r ∈ reports, r.found = true) : Trail true reports
  /-- All but the last found some. -/
  | cut (before : List Report) (last : Report) (found : ∀ r ∈ before, r.found = true)
    (missed : last.missed = true) : Trail false (before ++ [last])

namespace Trail

theorem nil : Trail true [] := .whole [] (by simp)

/-- Accesses that went well may come first. -/
theorem append {first rest : List Report} {b : Bool} (found : ∀ r ∈ first, r.found = true)
    (h : Trail b rest) : Trail b (first ++ rest) := by
  cases h with
  | whole _ others =>
    refine .whole _ fun r hr => ?_
    rcases List.mem_append.mp hr with early | late
    · exact found r early
    · exact others r late
  | cut before last others missed =>
    rw [← List.append_assoc]
    refine .cut _ last (fun r hr => ?_) missed
    rcases List.mem_append.mp hr with early | late
    · exact found r early
    · exact others r late

theorem found {reports : List Report} (h : Trail true reports) : ∀ r ∈ reports, r.found = true := by
  cases h with
  | whole _ found => exact found

/-- An access that found memory, or one that did not. -/
theorem single {r : Report} {b : Bool} (h : if b then r.found = true else r.missed = true) :
    Trail b [r] := by
  cases b with
  | true => exact .whole [r] (by simpa using h)
  | false => exact .cut [] r (by simp) (by simpa using h)

end Trail

namespace Guest

variable {α β : Type} {bus : Bus σ}

/-- Accesses that answer nothing as soon as one of them finds no memory. All they do is to ask the
host and to report that. -/
def Probes (x : Guest (σ × List Report) (Option α)) : Prop :=
  ∀ m, ∃ host reports, (exec x m).2 = { m with host := (host, m.host.2 ++ reports) } ∧
    Trail (exec x m).1.isSome reports

namespace Probes

theorem pure {a : α} : Probes (Pure.pure (some a) : Guest (σ × List Report) (Option α)) :=
  fun m => ⟨m.host.1, [], by simp, .nil⟩

/-- A probe and another one behind it are a probe, if the second is not made where the first missed. -/
theorem bind {x : Guest (σ × List Report) (Option α)}
    {f : Option α → Guest (σ × List Report) (Option β)} (hx : Probes x)
    (missed : f none = Pure.pure none) (hf : ∀ a, Probes (f (some a))) : Probes (x >>= f) := by
  intro m
  obtain ⟨host, first, left, trail⟩ := hx m
  rw [exec_bind, left]
  cases answer : (exec x m).1 with
  | none =>
    rw [answer] at trail
    rw [missed]
    exact ⟨host, first, rfl, trail⟩
  | some a =>
    rw [answer] at trail
    obtain ⟨host', rest, left', trail'⟩ := hf a { m with host := (host, m.host.2 ++ first) }
    exact ⟨host', first ++ rest, by rw [left', List.append_assoc], trail'.append trail.found⟩

theorem look {f : CpuState → Guest (σ × List Report) (Option α)} (hf : ∀ s, Probes (f s)) :
    Probes (cpu >>= f) :=
  fun m => hf m.cpu m

/-- A load probes one address. -/
theorem load {w : Width} {addr : Word} {access : Access} :
    Probes (Guest.load bus.reporting w addr access) := by
  intro m
  unfold Guest.load Bus.read
  rw [exec_modifyGet]
  simp only [Bus.reporting]
  cases (bus.get m.host.1 m.cpu.cpu w (Address.align addr (BitVec.ofNat 32 w.bytes))).1 with
  | none => exact ⟨_, _, rfl, .single rfl⟩
  | some x => exact ⟨_, _, rfl, .single rfl⟩

/-- So does a store. -/
theorem store {w : Width} {addr x : Word} {access : Access} :
    Probes (Guest.store bus.reporting w addr x access) := by
  intro m
  unfold Guest.store Bus.write
  rw [exec_modifyGet]
  simp only [Bus.reporting]
  cases (bus.set m.host.1 m.cpu.cpu w (Address.align addr (BitVec.ofNat 32 w.bytes)) (w.cut x)).1 with
  | false => exact ⟨_, _, rfl, .single rfl⟩
  | true => exact ⟨_, _, rfl, .single rfl⟩

theorem loadOne {kind : TransferKind} {addr : Word} :
    Probes (Guest.loadOne bus.reporting kind addr) :=
  look fun _ => bind load rfl fun _ => pure

theorem loadPair {addr : Word} : Probes (Guest.loadPair bus.reporting addr) :=
  bind load rfl fun _ => bind load rfl fun _ => pure

/-- A store of one value or a pair is a probe, which ends at the first miss. -/
theorem storeOne {kind : TransferKind} {addr low high : Word} :
    Probes (Guest.storeOne bus.reporting kind addr low high) := by
  unfold Guest.storeOne
  split
  · exact store
  · exact store
  · exact bind store rfl fun _ => bind store rfl fun _ => pure
  · exact store

theorem loadWords :
    ∀ {count : Nat} {addr : Word} {access : Access},
      Probes (Guest.loadWords bus.reporting count addr access)
  | 0, _, _ => pure
  | _ + 1, _, _ => bind load rfl fun _ => bind loadWords rfl fun _ => pure

theorem storeWords :
    ∀ {values : List Word} {addr : Word} {access : Access},
      Probes (Guest.storeWords bus.reporting values addr access)
  | [], _, _ => pure
  | _ :: _, _, _ => bind store rfl fun _ => bind storeWords rfl fun _ => pure

end Probes

end Guest

end ArmBlocks
