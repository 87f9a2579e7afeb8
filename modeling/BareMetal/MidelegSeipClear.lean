import BareMetal.Machine.Blocks
import BareMetal.Machine.Privilege
import BareMetal.Machine.Runs

/-!
# The trap record of mideleg-seip-clear

`src/mideleg-seip-clear/seip_clear_trap.S` has one M-mode entry, `m_trap_entry`, for
the interrupt under test and for the `ecall`s with which the S-mode phases hand
control back.  Each of the two has a counter of its own in `m_regs`, but both write
their cause to slot 2, and that is the word `record_checksum` takes for the cause of
the interrupt.

`trap_record_iff`: the word is what it is meant to be if no `ecall` comes behind the
last interrupt.  In the module one always does.
-/

namespace BareMetal
namespace MidelegSeipClear

open Machine

/-- Link-time symbols; the entry is word-aligned (`.align 2`). -/
structure Image where
  mRegs : Word
  sRegs : Word
  entry : Word
  mEcallTarget : Word
  entry_aligned : entry &&& 3#64 = 0#64

/-! ## The assembly -/

/-- `m_trap_entry` up to the branch on `mcause`. -/
def park : List Instr :=
  [.csrrw .t0 .mscratch .t0,
   .sd .t1 (1 * 8) .t0,
   .sd .t2 (6 * 8) .t0,
   .csrr .t1 .mcause,
   .sd .t1 (2 * 8) .t0,
   .csrr .t1 .mepc,
   .sd .t1 (3 * 8) .t0,
   .csrr .t1 .mcause]

/-- The path of an `ecall` from S-mode. -/
def countEcall (im : Image) : List Instr :=
  [.ld .t1 (7 * 8) .t0,
   .addi .t1 .t1 1,
   .sd .t1 (7 * 8) .t0,
   .la .t2 im.mEcallTarget,
   .ld .t2 0 .t2,
   .csrw .mepc .t2,
   .li .t1 0x1800,
   .csrs .mstatus .t1]

/-- Label `1:`, the path of an interrupt. -/
def countInterrupt : List Instr :=
  [.ld .t1 (0 * 8) .t0,
   .addi .t1 .t1 1,
   .sd .t1 (0 * 8) .t0,
   .li .t1 0x88,
   .csrc .mstatus .t1]

/-- Label `2:`, without the final `mret`. -/
def unpark : List Instr :=
  [.ld .t2 (6 * 8) .t0,
   .ld .t1 (1 * 8) .t0,
   .csrrw .t0 .mscratch .t0]

/-- The paths between the record and label `2:`; `none` for label `3:`, where an
unexpected exception parks the hart. -/
def serve (im : Image) (h : Hart) : Option Hart :=
  if (h.regs .t1).getLsbD 63 then some (run countInterrupt h)
  else
    let coded := run [.li .t2 9] h
    if coded.regs .t1 ≠ coded.regs .t2 then none else some (run (countEcall im) coded)

def mTrapEntry (im : Image) (h : Hart) : Option Hart :=
  (serve im (run park h)).map fun served => (run unpark served).mret

/-! ## The record -/

/-- The other statics of `seip_clear_main.c` that `record_checksum` reads. -/
structure Saved where
  rdZero : Word
  rd9 : Word
  rdForced9 : Word
  rdClear : Word
  rdReset : Word
  pendA : Word
  pendB : Word
  pendC : Word
  sepcA : Word
  sepcC : Word
  mepcB : Word

/-- The array `words` of `record_checksum`. -/
def words (im : Image) (s : Saved) (m : Mem) : List Word :=
  [s.rdZero, s.rd9, s.rdForced9, s.rdClear, s.rdReset, s.pendA, s.pendB, s.pendC,
    m (addr im.sRegs (0 * 8)), m (addr im.mRegs (0 * 8)), m (addr im.mRegs (7 * 8)),
    m (addr im.sRegs (2 * 8)), m (addr im.mRegs (2 * 8)), s.sepcA, s.sepcC, s.mepcB]

/-! ## Runs -/

/-- The traps of the module: an M-mode interrupt with any code, and an S-mode
`ecall`. -/
inductive Kind
  | interrupt (code : BitVec 63)
  | ecall
  deriving DecidableEq, Repr

def Kind.cause : Kind → Word
  | .interrupt code => 1#1 ++ code
  | .ecall => ecallCause .supervisor

def Kind.isInterrupt : Kind → Bool
  | .interrupt _ => true
  | .ecall => false

/-- The counter of a kind. -/
def Kind.counter : Kind → Nat
  | .interrupt _ => 0 * 8
  | .ecall => 7 * 8

/-- A trap: the interrupted code may have any registers, pc and status, and any
memory outside `m_regs`; an interrupt may come in any mode. -/
structure Trap where
  kind : Kind
  priv : Priv
  regs : Reg → Word
  pc : Word
  mem : Mem
  mstatus : Word

def Trap.mode (t : Trap) : Priv :=
  match t.kind with
  | .interrupt _ => t.priv
  | .ecall => .supervisor

/-- The hart when that trap is taken.  Behind the setup the module reads `m_regs`, but
writes neither it nor `mscratch` or `mtvec`. -/
def Trap.onHart (im : Image) (t : Trap) (h : Hart) : Hart :=
  { (h.setCsr .mstatus t.mstatus).clobberMem (InArea im.mRegs 8) t.mem with
    regs := t.regs, pc := t.pc, priv := t.mode }

/-- Take a trap; `none` when the hart does not come back. -/
def takeTrap (im : Image) (h : Hart) (t : Trap) : Option Hart :=
  let taken := (t.onHart im h).trapM t.kind.cause
  if taken.pc = im.entry then mTrapEntry im taken else none

/-- `main` has pointed `mtvec` at the entry and `mscratch` at `m_regs`. -/
structure Installed (im : Image) (h : Hart) : Prop where
  mtvec : h.csr .mtvec = im.entry
  mscratch : h.csr .mscratch = im.mRegs

/-- No trap has been counted yet. -/
structure Fresh (im : Image) (h : Hart) : Prop extends Installed im h where
  interrupts : h.mem (addr im.mRegs (0 * 8)) = 0
  ecalls : h.mem (addr im.mRegs (7 * 8)) = 0

/-- The last M-mode interrupt among some traps. -/
def lastInterrupt (ts : List Trap) : Option Trap :=
  (ts.filter (·.kind.isInterrupt)).getLast?

/-- What the record is to say behind the traps `ts`. -/
structure Recorded (im : Image) (s : Saved) (ts : List Trap) (h : Hart) : Prop where
  interrupts : h.mem (addr im.mRegs (0 * 8)) =
    BitVec.ofNat 64 (ts.countP (·.kind.isInterrupt))
  ecalls : h.mem (addr im.mRegs (7 * 8)) = BitVec.ofNat 64 (ts.countP (!·.kind.isInterrupt))
  regs : ∀ t, ts.getLast? = some t → h.regs = t.regs
  mcause : ∀ t, lastInterrupt ts = some t → (words im s h.mem)[12]? = some t.kind.cause

/-! ## One trap -/

/-- Memory behind the record. -/
def parkedMem (h : Hart) : Mem :=
  let base := h.csr .mscratch
  Function.update (Function.update (Function.update (Function.update h.mem
    (addr base (1 * 8)) (h.regs .t1))
    (addr base (6 * 8)) (h.regs .t2))
    (addr base (2 * 8)) (h.csr .mcause))
    (addr base (3 * 8)) (h.csr .mepc)

theorem run_park (h : Hart) :
    run park h =
      { h with
        regs := Function.update (Function.update h.regs .t0 (h.csr .mscratch))
          .t1 (h.csr .mcause)
        csr := Function.update h.csr .mscratch (h.regs .t0)
        mem := parkedMem h } := by
  simp only [park, run_cons, run_nil, Instr.exec, Hart.setReg, Hart.setCsr, Hart.store, parkedMem]
  simp only [Function.update_self, Function.update_of_ne, ne_eq, reduceCtorEq, not_false_eq_true,
    Function.update_idem]

theorem run_unpark (h : Hart) :
    let base := h.regs .t0
    run unpark h =
      { h with
        regs := Function.update (Function.update (Function.update h.regs
          .t2 (h.mem (addr base (6 * 8)))) .t1 (h.mem (addr base (1 * 8))))
          .t0 (h.csr .mscratch)
        csr := Function.update h.csr .mscratch base } := by
  simp only [unpark, run_cons, run_nil, Instr.exec, Hart.setReg, Hart.setCsr]
  simp only [Function.update_of_ne, ne_eq, reduceCtorEq, not_false_eq_true]

theorem interrupt_bit (code : BitVec 63) : (Kind.interrupt code).cause.getLsbD 63 = true := by
  rw [Kind.cause, BitVec.getLsbD_append]
  rfl

/-- Each path counts its trap and leaves `m_regs` alone otherwise. -/
theorem serve_effect (im : Image) (h : Hart) (k : Kind) (hcause : h.regs .t1 = k.cause) :
    ∃ served, serve im h = some served ∧
      (∀ r, r ≠ .t1 → r ≠ .t2 → served.regs r = h.regs r) ∧
      served.csr .mscratch = h.csr .mscratch ∧
      served.csr .mtvec = h.csr .mtvec ∧
      served.mem = Function.update h.mem (addr (h.regs .t0) k.counter)
        (h.mem (addr (h.regs .t0) k.counter) + 1) := by
  cases k with
  | interrupt code =>
      refine ⟨run countInterrupt h, ?_, fun r hr1 hr2 => ?_, ?_, ?_, ?_⟩
      · rw [serve, if_pos (by rw [hcause, interrupt_bit])]
      · simp [countInterrupt, Instr.exec, hr1]
      all_goals simp [countInterrupt, Instr.exec, Kind.counter]
  | ecall =>
      have hcode : (run [.li .t2 9] h).regs .t1 = (run [.li .t2 9] h).regs .t2 := by
        simp [Instr.exec, hcause, Kind.cause, ecallCause]
      refine ⟨run (countEcall im) (run [.li .t2 9] h), ?_, fun r hr1 hr2 => ?_, ?_, ?_, ?_⟩
      · rw [serve, if_neg (by rw [hcause]; decide)]
        exact if_neg (not_not.mpr hcode)
      · simp [countEcall, Instr.exec, hr1, hr2]
      all_goals simp [countEcall, Instr.exec, Kind.counter]

/-- What the record leaves in the words of `m_regs`. -/
theorem parkedMem_slots (h : Hart) :
    let base := h.csr .mscratch
    parkedMem h (addr base (0 * 8)) = h.mem (addr base (0 * 8)) ∧
      parkedMem h (addr base (1 * 8)) = h.regs .t1 ∧
      parkedMem h (addr base (2 * 8)) = h.csr .mcause ∧
      parkedMem h (addr base (6 * 8)) = h.regs .t2 ∧
      parkedMem h (addr base (7 * 8)) = h.mem (addr base (7 * 8)) := by
  refine ⟨?_, ?_, ?_, ?_, ?_⟩ <;> simp [parkedMem, update_addr]

/-- What both kinds of trap leave behind: the file of the interrupted code, the cause
in slot 2, and one counter one higher. -/
structure Traced (im : Image) (k : Kind) (h h' : Hart) : Prop extends Installed im h' where
  regs : h'.regs = h.regs
  cause : h'.mem (addr im.mRegs (2 * 8)) = k.cause
  interrupts : h'.mem (addr im.mRegs (0 * 8)) =
    h.mem (addr im.mRegs (0 * 8)) + if k.isInterrupt then 1 else 0
  ecalls : h'.mem (addr im.mRegs (7 * 8)) =
    h.mem (addr im.mRegs (7 * 8)) + if k.isInterrupt then 0 else 1

theorem counter_slots (k : Kind) {m m' : Mem} {base : Word}
    (hm : m' = Function.update m (addr base k.counter) (m (addr base k.counter) + 1)) :
    m' (addr base (0 * 8)) = m (addr base (0 * 8)) + (if k.isInterrupt then 1 else 0) ∧
      m' (addr base (7 * 8)) = m (addr base (7 * 8)) + (if k.isInterrupt then 0 else 1) ∧
      ∀ i, i = 1 ∨ i = 2 ∨ i = 6 → m' (addr base (i * 8)) = m (addr base (i * 8)) := by
  subst hm
  cases k <;> refine ⟨?_, ?_, ?_⟩
  case interrupt.refine_3 | ecall.refine_3 =>
    rintro i (rfl | rfl | rfl) <;> simp [Kind.counter, update_addr]
  all_goals simp [Kind.counter, Kind.isInterrupt, update_addr]

/-- One pass through `m_trap_entry`. -/
theorem mTrapEntry_effect (im : Image) (h : Hart) (k : Kind) (hinst : Installed im h)
    (hcause : h.csr .mcause = k.cause) :
    ∃ h', mTrapEntry im h = some h' ∧ Traced im k h h' := by
  obtain ⟨hslot0, hslot1, hslot2, hslot6, hslot7⟩ := parkedMem_slots h
  rw [hinst.mscratch] at hslot0 hslot1 hslot2 hslot6 hslot7
  have hpark := run_park h
  rw [hinst.mscratch] at hpark
  unfold mTrapEntry
  generalize run park h = parked at hpark
  have ht1 : parked.regs .t1 = k.cause := by
    rw [hpark, ← hcause]
    simp
  have ht0 : parked.regs .t0 = im.mRegs := by
    rw [hpark]
    simp
  have hparkedMem : parked.mem = parkedMem h := by rw [hpark]
  obtain ⟨served, hserve, hregs, hscratch, htvec, hmem⟩ := serve_effect im parked k ht1
  rw [ht0, hparkedMem] at hmem
  obtain ⟨hcount0, hcount7, hkeep⟩ := counter_slots k hmem
  have hbase : served.regs .t0 = im.mRegs := by
    rw [hregs .t0 (by decide) (by decide), ht0]
  have hexit := run_unpark served
  dsimp only at hexit
  rw [hbase, hkeep 6 (by decide), hkeep 1 (by decide), hslot6, hslot1, hscratch] at hexit
  have hcsrParked : parked.csr .mscratch = h.regs .t0 := by
    rw [hpark]
    simp
  have htvecParked : parked.csr .mtvec = h.csr .mtvec := by
    rw [hpark]
    simp
  refine ⟨(run unpark served).mret, by rw [hserve, Option.map_some], ⟨?_, ?_⟩, ?_, ?_, ?_, ?_⟩
  · rw [Hart.mret_csr_of_ne _ (by decide), hexit]
    simp [htvec, htvecParked, hinst.mtvec]
  · rw [Hart.mret_csr_of_ne _ (by decide), hexit]
    simp
  · rw [Hart.mret_regs, hexit, hcsrParked]
    dsimp only
    funext r
    by_cases hr0 : r = .t0
    · rw [hr0, Function.update_self]
    by_cases hr1 : r = .t1
    · rw [hr1, Function.update_of_ne (by decide), Function.update_self]
    by_cases hr2 : r = .t2
    · rw [hr2, Function.update_of_ne (by decide), Function.update_of_ne (by decide),
        Function.update_self]
    · rw [Function.update_of_ne hr0, Function.update_of_ne hr1, Function.update_of_ne hr2,
        hregs r hr1 hr2, hpark]
      simp [hr0, hr1]
  · rw [Hart.mret_mem, hexit]
    dsimp only
    rw [hkeep 2 (by decide), hslot2, hcause]
  · rw [Hart.mret_mem, hexit]
    dsimp only
    rw [hcount0, hslot0]
  · rw [Hart.mret_mem, hexit]
    dsimp only
    rw [hcount7, hslot7]

/-- One trap of a run. -/
theorem takeTrap_effect (im : Image) (h : Hart) (t : Trap) (hinst : Installed im h) :
    ∃ h', takeTrap im h t = some h' ∧ Installed im h' ∧ h'.regs = t.regs ∧
      h'.mem (addr im.mRegs (2 * 8)) = t.kind.cause ∧
      h'.mem (addr im.mRegs (0 * 8)) =
        h.mem (addr im.mRegs (0 * 8)) + (if t.kind.isInterrupt then 1 else 0) ∧
      h'.mem (addr im.mRegs (7 * 8)) =
        h.mem (addr im.mRegs (7 * 8)) + if t.kind.isInterrupt then 0 else 1 := by
  let taken := (t.onHart im h).trapM t.kind.cause
  have htaken : Installed im taken := ⟨hinst.mtvec, hinst.mscratch⟩
  have hland : taken.pc = im.entry := by
    have hvec : (t.onHart im h).csr .mtvec = im.entry := hinst.mtvec
    rw [Hart.trapM_pc, hvec, tvecTarget_direct im.entry_aligned]
  have hkeep : ∀ i, i < 8 → taken.mem (addr im.mRegs (i * 8)) = h.mem (addr im.mRegs (i * 8)) := by
    intro i hi
    exact Hart.clobberMem_keep (h.setCsr .mstatus t.mstatus) _ _
      (inArea_addr (i := i) hi (Nat.mul_comm i 8))
  obtain ⟨h', hentry, htraced⟩ := mTrapEntry_effect im taken t.kind htaken rfl
  refine ⟨h', (if_pos hland).trans hentry, htraced.toInstalled, htraced.regs, htraced.cause, ?_, ?_⟩
  · rw [htraced.interrupts, hkeep 0 (by decide)]
  · rw [htraced.ecalls, hkeep 7 (by decide)]

/-! ## Whole runs -/

/-- What `m_regs` and the file say behind the traps `ts`: slot 2 has the cause of the
last trap of either kind. -/
structure Counted (im : Image) (ts : List Trap) (h : Hart) : Prop extends Installed im h where
  interrupts : h.mem (addr im.mRegs (0 * 8)) =
    BitVec.ofNat 64 (ts.countP (·.kind.isInterrupt))
  ecalls : h.mem (addr im.mRegs (7 * 8)) = BitVec.ofNat 64 (ts.countP (!·.kind.isInterrupt))
  last : ∀ t, ts.getLast? = some t →
    h.regs = t.regs ∧ h.mem (addr im.mRegs (2 * 8)) = t.kind.cause

theorem takeTrap_counted (im : Image) {ts : List Trap} {h : Hart} (hcount : Counted im ts h)
    (t : Trap) : ∃ h', takeTrap im h t = some h' ∧ Counted im (ts ++ [t]) h' := by
  obtain ⟨h', hstep, hinst, hregs, hcause, hinterrupts, hecalls⟩ :=
    takeTrap_effect im h t hcount.toInstalled
  refine ⟨h', hstep, hinst, ?_, ?_, ?_⟩
  · rw [hinterrupts, hcount.interrupts, List.countP_append, List.countP_singleton,
      BitVec.ofNat_add]
    cases t.kind <;> rfl
  · rw [hecalls, hcount.ecalls, List.countP_append, List.countP_singleton,
      BitVec.ofNat_add]
    cases t.kind <;> rfl
  · intro u hu
    rw [List.getLast?_concat] at hu
    obtain rfl : t = u := Option.some.inj hu
    exact ⟨hregs, hcause⟩

theorem run_counted (im : Image) {h : Hart} (hfresh : Fresh im h) (ts : List Trap) :
    ∃ h', runAll (takeTrap im) h ts = some h' ∧ Counted im ts h' := by
  induction ts using List.reverseRecOn with
  | nil =>
      refine ⟨h, rfl, hfresh.toInstalled, hfresh.interrupts, hfresh.ecalls, ?_⟩
      intro t ht
      nomatch ht
  | append_singleton ts t ih =>
      obtain ⟨mid, hmid, hcount⟩ := ih
      obtain ⟨h', hstep, hcount'⟩ := takeTrap_counted im hcount t
      refine ⟨h', ?_, hcount'⟩
      rw [runAll_append, hmid, Option.bind_some, runAll, hstep]
      rfl

/-- No S-mode `ecall` follows the last interrupt. -/
def EndsInInterrupt (ts : List Trap) : Prop :=
  (∃ t ∈ ts, t.kind.isInterrupt = true) → ∃ t, ts.getLast? = some t ∧ t.kind.isInterrupt = true

/-- A cause tells the two kinds apart. -/
theorem cause_bit (k : Kind) : k.cause.getLsbD 63 = k.isInterrupt := by
  cases k with
  | interrupt code => exact interrupt_bit code
  | ecall => rfl

theorem lastInterrupt_concat {ts : List Trap} {t : Trap} (ht : t.kind.isInterrupt = true) :
    lastInterrupt (ts ++ [t]) = some t := by
  rw [lastInterrupt, List.filter_append, List.filter_singleton, ht, cond_true,
    List.getLast?_concat]

/-- Slot 2 is right behind some traps if the last interrupt is the last trap. -/
theorem lastCause_iff (im : Image) (s : Saved) {ts : List Trap} {h : Hart}
    (hcount : Counted im ts h) :
    (∀ t, lastInterrupt ts = some t → (words im s h.mem)[12]? = some t.kind.cause) ↔
      EndsInInterrupt ts := by
  constructor
  · rintro hwords ⟨t, ht, hinterrupt⟩
    have hmem : t ∈ ts.filter (·.kind.isInterrupt) := List.mem_filter.mpr ⟨ht, hinterrupt⟩
    obtain ⟨u, hu⟩ : ∃ u, lastInterrupt ts = some u :=
      ⟨_, List.getLast?_eq_some_getLast (List.ne_nil_of_mem hmem)⟩
    obtain ⟨v, hv⟩ : ∃ v, ts.getLast? = some v :=
      ⟨_, List.getLast?_eq_some_getLast (List.ne_nil_of_mem ht)⟩
    refine ⟨v, hv, ?_⟩
    have hslot : h.mem (addr im.mRegs (2 * 8)) = u.kind.cause := Option.some.inj (hwords u hu)
    have huInterrupt : u.kind.isInterrupt = true :=
      (List.mem_filter.mp (List.mem_of_getLast? hu)).2
    rw [← cause_bit, ← (hcount.last v hv).2, hslot, cause_bit, huInterrupt]
  · intro hends t ht
    have hin : t ∈ ts.filter (·.kind.isInterrupt) := List.mem_of_getLast? ht
    obtain ⟨hmem, hinterrupt⟩ := List.mem_filter.mp hin
    obtain ⟨v, hv, hvInterrupt⟩ := hends ⟨t, hmem, hinterrupt⟩
    obtain ⟨init, rfl⟩ := List.getLast?_eq_some_iff.mp hv
    rw [lastInterrupt_concat hvInterrupt] at ht
    obtain rfl : v = t := Option.some.inj ht
    exact congrArg some (hcount.last v hv).2

/-- Behind any traps the counters and the registers are right, and the recorded cause
is that of the last interrupt exactly if no `ecall` has come after it. -/
theorem trap_record_iff (im : Image) (s : Saved) {h : Hart} (hfresh : Fresh im h)
    (ts : List Trap) :
    ∃ h', runAll (takeTrap im) h ts = some h' ∧
      (Recorded im s ts h' ↔ EndsInInterrupt ts) := by
  obtain ⟨h', hrun, hcount⟩ := run_counted im hfresh ts
  refine ⟨h', hrun, ?_⟩
  rw [← lastCause_iff im s hcount]
  exact ⟨fun hrec => hrec.mcause, fun hmcause =>
    ⟨hcount.interrupts, hcount.ecalls, fun t ht => (hcount.last t ht).1, hmcause⟩⟩

/-- A linked image of the module. -/
def sampleImage : Image where
  mRegs := 0x80004100
  sRegs := 0x80004140
  entry := 0x80000a40
  mEcallTarget := 0x80004188
  entry_aligned := by decide

/-- The hart when `main` has installed the entry. -/
def sampleHart : Hart where
  regs := fun _ => 0
  csr := Function.update (Function.update (fun _ => 0) .mscratch sampleImage.mRegs)
    .mtvec sampleImage.entry
  mem := fun _ => 0
  time := 0
  cycle := 0
  pc := 0x80000b00
  priv := .machine

theorem sampleHart_fresh : Fresh sampleImage sampleHart :=
  ⟨⟨rfl, rfl⟩, rfl, rfl⟩

def sampleSaved : Saved :=
  ⟨0x1444, 0x1644, 0x1644, 0x1444, 0x1644, 0x200, 0x200, 0x200, 0x800006a0, 0x800007c0, 0x800006fe⟩

def sampleTrap (kind : Kind) : Trap :=
  ⟨kind, .machine, fun _ => 17, 0x800006fe, fun _ => 0, 0x1800⟩

/-- Before the `ecall` of phase C the record is right. -/
theorem phaseB_recorded :
    ∃ h', runAll (takeTrap sampleImage) sampleHart
        [sampleTrap .ecall, sampleTrap (.interrupt 9)] = some h' ∧
      Recorded sampleImage sampleSaved [sampleTrap .ecall, sampleTrap (.interrupt 9)] h' := by
  obtain ⟨h', hrun, hrecord⟩ := trap_record_iff sampleImage sampleSaved sampleHart_fresh
    [sampleTrap .ecall, sampleTrap (.interrupt 9)]
  exact ⟨h', hrun, hrecord.mpr fun _ => ⟨sampleTrap (.interrupt 9), rfl, rfl⟩⟩

/-- The traps of the module: the checksum takes 9, the cause of an `ecall`, for the
cause of the interrupt. -/
theorem phaseC_overwrites :
    ∃ h', runAll (takeTrap sampleImage) sampleHart
        [sampleTrap .ecall, sampleTrap (.interrupt 9), sampleTrap .ecall] = some h' ∧
      (words sampleImage sampleSaved h'.mem)[12]? = some 9 ∧
      ¬ Recorded sampleImage sampleSaved
        [sampleTrap .ecall, sampleTrap (.interrupt 9), sampleTrap .ecall] h' := by
  obtain ⟨h', hrun, hcount⟩ := run_counted sampleImage sampleHart_fresh
    [sampleTrap .ecall, sampleTrap (.interrupt 9), sampleTrap .ecall]
  have hslot : h'.mem (addr sampleImage.mRegs (2 * 8)) = 9 := (hcount.last _ rfl).2
  refine ⟨h', hrun, congrArg some hslot, ?_⟩
  intro hrec
  have hcause : (9 : Word) = (Kind.interrupt 9).cause := by
    rw [← hslot]
    exact Option.some.inj (hrec.mcause (sampleTrap (.interrupt 9)) rfl)
  exact absurd hcause (by decide)

end MidelegSeipClear
end BareMetal
