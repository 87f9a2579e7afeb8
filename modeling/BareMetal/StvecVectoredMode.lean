import BareMetal.Machine.Blocks
import BareMetal.Machine.Privilege
import BareMetal.Machine.Runs

/-!
# The two-slot S-mode vector table

`src/stvec-vectored-mode/stvm_trap.S`: `stvec` is in vectored mode over a
table of two `jal t0, stvm_s_entry`.  An illegal instruction enters at slot 0
and the supervisor software interrupt at slot 1; the common recorder takes the
landing address from the link in `t0`, and holds the base of `s_regs` in `t2`.

The link is written before anything has been parked, so the interrupted `t0`
is gone when the recorder starts, and the exit leaves `&s_done` in its place.
`table_trap_faithful_iff` says so for any number of traps.
-/

namespace BareMetal
namespace StvecVectoredMode

open Machine

/-- Link-time symbols.  The table is word-aligned (`.align 2`), and `s_done` is
an object of its own, outside `s_regs`. -/
structure Image where
  table : Word
  sRegs : Word
  sDone : Word
  table_aligned : table &&& 3#64 = 0#64
  sDone_outside : ¬ InArea sRegs 8 sDone

/-- `stvec` as `main` programs it. -/
def Image.stvec (im : Image) : Word :=
  im.table ||| 1#64

/-! ## The assembly -/

/-- Slot `n` of `stvm_table`, entered at the hart's pc: `jal t0, stvm_s_entry`
links to the instruction behind itself. -/
def tableStub (h : Hart) : Hart :=
  h.setReg .t0 (h.pc + 4)

/-- The immediate `-4` that takes a link back to its `jal`. -/
def linkBack : Word := -4

/-- `stvm_s_entry`: `t2` and `t1` are parked, and the link becomes the landing
address. -/
def park : List Instr :=
  [.csrrw .t2 .sscratch .t2,
   .sd .t1 (1 * 8) .t2,
   .addi .t0 .t0 linkBack,
   .sd .t0 (7 * 8) .t2]

/-- The trap counter. -/
def bump : List Instr :=
  [.ld .t0 (0 * 8) .t2,
   .addi .t0 .t0 1,
   .sd .t0 (0 * 8) .t2]

/-- The trap registers, up to the branch on `scause`. -/
def note : List Instr :=
  [.csrr .t0 .scause,
   .sd .t0 (2 * 8) .t2,
   .csrr .t0 .sepc,
   .sd .t0 (3 * 8) .t2,
   .csrr .t0 .sip,
   .sd .t0 (4 * 8) .t2,
   .csrr .t0 .scause]

/-- The exception path up to its test for code 2. -/
def codeTest : List Instr :=
  [.slli .t0 .t0 1,
   .srli .t0 .t0 1,
   .li .t1 2]

/-- The illegal instruction is skipped. -/
def skipWord : List Instr :=
  [.csrr .t0 .sepc,
   .addi .t0 .t0 4,
   .csrw .sepc .t0]

/-- Label `1:`, the interrupt path. -/
def clearSsip : List Instr :=
  [.li .t0 2,
   .csrc .sip .t0]

/-- Label `3:`, any other exception. -/
def unexpected : List Instr :=
  [.li .t0 0xbad,
   .sd .t0 (6 * 8) .t2]

/-- Label `2:`, the common exit, without the final `sret`. -/
def raiseDone : List Instr :=
  -- from here on `t0` is `&s_done`, and nothing restores it
  [.ld .t0 (5 * 8) .t2,
   .li .t1 1,
   .sd .t1 0 .t0,
   .ld .t1 (1 * 8) .t2,
   .csrrw .t2 .sscratch .t2]

/-- The three paths between the record and label `2:`; `bltz` takes the
interrupt path, `bne` the one of an unexpected code. -/
def serve (h : Hart) : Hart :=
  -- `t0` holds `scause`; its top bit marks an interrupt
  if (h.regs .t0).getLsbD 63 then run clearSsip h
  else
    let coded := run codeTest h
    if coded.regs .t0 ≠ coded.regs .t1 then run unexpected coded else run skipWord coded

/-- `stvm_s_entry`. -/
def sEntry (h : Hart) : Hart :=
  (run raiseDone (serve (run (park ++ (bump ++ note)) h))).sret

/-! ## Runs -/

def SCAUSE_ILLEGAL_INST : Word := 0x2
def SCAUSE_S_SOFT : Word := 0x8000000000000001

/-- The two traps of the module. -/
inductive Kind
  | software | illegal
  deriving DecidableEq, Repr

def Kind.cause : Kind → Word
  | .software => SCAUSE_S_SOFT
  | .illegal => SCAUSE_ILLEGAL_INST

/-- The slot of the table the trap enters at. -/
def Kind.slot : Kind → Nat
  | .software => 1
  | .illegal => 0

/-- Where the interrupted code is to go on. -/
def Kind.resume : Kind → Word → Word
  | .software, pc => pc
  | .illegal, pc => pc + 4

/-- A trap: the interrupted S-mode code may have any registers, pc, status and
pending interrupts, and any memory outside `s_regs`. -/
structure Trap where
  kind : Kind
  regs : Reg → Word
  pc : Word
  mem : Mem
  mstatus : Word
  sip : Word

/-- The hart when that trap is taken.  Once it runs in S-mode the module reads
`s_regs`, but writes neither it nor `sscratch` or `stvec`. -/
def Trap.onHart (im : Image) (t : Trap) (h : Hart) : Hart :=
  { ((h.setCsr .mstatus t.mstatus).setCsr .sip t.sip).clobberMem (InArea im.sRegs 8) t.mem with
    regs := t.regs, pc := t.pc, priv := .supervisor }

/-- Take a trap; `none` when the hart lands outside the table. -/
def takeTrap (im : Image) (h : Hart) (t : Trap) : Option Hart :=
  let taken := (t.onHart im h).trapS t.kind.cause
  if taken.pc = im.table ∨ taken.pc = im.table + 4 then some (sEntry (tableStub taken)) else none

/-- `main` has pointed `stvec` at the table and `sscratch` at `s_regs`, and has
left the address of `s_done` in word 5. -/
structure Installed (im : Image) (h : Hart) : Prop where
  stvec : h.csr .stvec = im.stvec
  sscratch : h.csr .sscratch = im.sRegs
  done : h.mem (addr im.sRegs (5 * 8)) = im.sDone

/-- The trap from `h` to `h'` is as the header says: the interrupted code goes
on where it should with all its registers, the entry is ready for the next
trap, the counter is one higher and the landing address is noted. -/
structure Resumed (im : Image) (t : Trap) (h h' : Hart) : Prop where
  pc : h'.pc = t.kind.resume t.pc
  regs : h'.regs = t.regs
  sscratch : h'.csr .sscratch = im.sRegs
  count : h'.mem (addr im.sRegs (0 * 8)) = h.mem (addr im.sRegs (0 * 8)) + 1
  landing : h'.mem (addr im.sRegs (7 * 8)) = im.table + BitVec.ofNat 64 (4 * t.kind.slot)

/-- After the earlier traps the trap `t` is taken, returns, and is as the
header says. -/
def Faithful (im : Image) (h : Hart) (earlier : List Trap) (t : Trap) : Prop :=
  ∃ h₁ h₂, runAll (takeTrap im) h earlier = some h₁ ∧ takeTrap im h₁ t = some h₂ ∧
    Resumed im t h₁ h₂

/-! ## The recorder -/

/-- Memory behind the record. -/
def recordedMem (h : Hart) : Mem :=
  let base := h.csr .sscratch
  Function.update (Function.update (Function.update (Function.update (Function.update
    (Function.update h.mem
      (addr base (1 * 8)) (h.regs .t1))
      (addr base (7 * 8)) (h.regs .t0 + linkBack))
      (addr base (0 * 8)) (h.mem (addr base (0 * 8)) + 1))
      (addr base (2 * 8)) (h.csr .scause))
      (addr base (3 * 8)) (h.csr .sepc))
      (addr base (4 * 8)) (h.csr .sip)

section Record

variable (h : Hart)

theorem run_park :
    run park h =
      { h with
        regs := Function.update (Function.update h.regs .t2 (h.csr .sscratch))
          .t0 (h.regs .t0 + linkBack)
        csr := Function.update h.csr .sscratch (h.regs .t2)
        mem := Function.update (Function.update h.mem
          (addr (h.csr .sscratch) (1 * 8)) (h.regs .t1))
          (addr (h.csr .sscratch) (7 * 8)) (h.regs .t0 + linkBack) } := by
  simp only [park, run_cons, run_nil, Instr.exec, Hart.setReg, Hart.setCsr, Hart.store]
  simp only [Function.update_self, Function.update_of_ne, ne_eq, reduceCtorEq, not_false_eq_true]

theorem run_bump :
    run bump h =
      { h with
        regs := Function.update h.regs .t0 (h.mem (addr (h.regs .t2) (0 * 8)) + 1)
        mem := Function.update h.mem (addr (h.regs .t2) (0 * 8))
          (h.mem (addr (h.regs .t2) (0 * 8)) + 1) } := by
  simp only [bump, run_cons, run_nil, Instr.exec, Hart.setReg, Hart.store]
  simp only [Function.update_self, Function.update_of_ne, ne_eq, reduceCtorEq, not_false_eq_true,
    Function.update_idem]

theorem run_note :
    run note h =
      { h with
        regs := Function.update h.regs .t0 (h.csr .scause)
        mem := Function.update (Function.update (Function.update h.mem
          (addr (h.regs .t2) (2 * 8)) (h.csr .scause))
          (addr (h.regs .t2) (3 * 8)) (h.csr .sepc))
          (addr (h.regs .t2) (4 * 8)) (h.csr .sip) } := by
  simp only [note, run_cons, run_nil, Instr.exec, Hart.setReg, Hart.store]
  simp only [Function.update_self, Function.update_of_ne, ne_eq, reduceCtorEq, not_false_eq_true,
    Function.update_idem]

/-- The recorder up to its branch: the base is in `t2`, the interrupted `t2` in
`sscratch`, the cause in `t0`. -/
theorem run_record :
    run (park ++ (bump ++ note)) h =
      { h with
        regs := Function.update (Function.update h.regs .t2 (h.csr .sscratch))
          .t0 (h.csr .scause)
        csr := Function.update h.csr .sscratch (h.regs .t2)
        mem := recordedMem h } := by
  have ht2 : ∀ v, Function.update (Function.update h.regs .t2 (h.csr .sscratch)) .t0 v .t2 =
      h.csr .sscratch := by
    intro v
    rw [Function.update_of_ne (by decide), Function.update_self]
  -- the counter is read through the two stores before it
  have hcount : ∀ base x y, Function.update (Function.update h.mem (addr base (1 * 8)) x)
      (addr base (7 * 8)) y (addr base (0 * 8)) = h.mem (addr base (0 * 8)) := by
    intro base x y
    rw [update_addr _ _ _ (by decide) (by decide), if_neg (by decide),
      update_addr _ _ _ (by decide) (by decide), if_neg (by decide)]
  rw [run_append, run_append, run_park, run_bump, run_note]
  simp only [ht2, hcount, Function.update_idem, recordedMem]
  rfl

end Record

/-! ## The three paths and the exit -/

/-- Both expected traps take their own path: only the scratch registers, `sip`
and, for the illegal instruction, `sepc` change. -/
theorem serve_effect (h : Hart) (k : Kind) (hcause : h.regs .t0 = k.cause) :
    (∀ r, r ≠ .t0 → r ≠ .t1 → (serve h).regs r = h.regs r) ∧
      (serve h).csr .sepc = k.resume (h.csr .sepc) ∧
      (serve h).csr .sscratch = h.csr .sscratch ∧
      (serve h).csr .stvec = h.csr .stvec ∧
      (serve h).mem = h.mem := by
  cases k with
  -- bit 63 of the cause decides between the two paths
  | software =>
      have hpath : serve h = run clearSsip h := by
        rw [serve, if_pos (by rw [hcause]; decide)]
      rw [hpath]
      refine ⟨fun r hr0 hr1 => ?_, ?_, ?_, ?_, ?_⟩
      · simp [clearSsip, Instr.exec, hr0]
      all_goals simp [clearSsip, Instr.exec, Kind.resume]
  | illegal =>
      -- the two shifts clear bit 63, which is clear already
      have hcode : (run codeTest h).regs .t0 = (run codeTest h).regs .t1 := by
        have hshift : (run codeTest h).regs .t0 = h.regs .t0 <<< 1 >>> 1 := by
          simp [codeTest, Instr.exec]
        have hli : (run codeTest h).regs .t1 = 2 := by
          simp [codeTest, Instr.exec]
        rw [hshift, hli, hcause]
        decide
      have hpath : serve h = run skipWord (run codeTest h) := by
        rw [serve, if_neg (by rw [hcause]; decide)]
        exact if_neg (not_not.mpr hcode)
      rw [hpath]
      refine ⟨fun r hr0 hr1 => ?_, ?_, ?_, ?_, ?_⟩
      · simp [skipWord, codeTest, Instr.exec, hr0, hr1]
      all_goals simp [skipWord, codeTest, Instr.exec, Kind.resume]

/-- The exit: `t1` comes from word 1, `t2` from `sscratch`, and `t0` is left
with the word 5 through which the flag was raised. -/
theorem run_raiseDone (h : Hart) :
    let base := h.regs .t2
    let flag := h.mem (addr base (5 * 8))
    let mem := Function.update h.mem flag 1
    run raiseDone h =
      { h with
        regs := Function.update (Function.update (Function.update h.regs .t0 flag)
          .t1 (mem (addr base (1 * 8)))) .t2 (h.csr .sscratch)
        csr := Function.update h.csr .sscratch base
        mem := mem } := by
  simp only [raiseDone, run_cons, run_nil, Instr.exec, Hart.setReg, Hart.setCsr, Hart.store]
  simp only [Function.update_self, Function.update_of_ne, ne_eq, reduceCtorEq, not_false_eq_true,
    Function.update_idem, addr_zero]

/-- What the recorder leaves in the words of `s_regs` that matter later. -/
theorem recordedMem_slots (h : Hart) :
    let base := h.csr .sscratch
    recordedMem h (addr base (0 * 8)) = h.mem (addr base (0 * 8)) + 1 ∧
      recordedMem h (addr base (1 * 8)) = h.regs .t1 ∧
      recordedMem h (addr base (5 * 8)) = h.mem (addr base (5 * 8)) ∧
      recordedMem h (addr base (7 * 8)) = h.regs .t0 + linkBack := by
  refine ⟨?_, ?_, ?_, ?_⟩ <;> simp [recordedMem, update_addr]

/-- The hart in front of the exit: the base is in `t2`, the interrupted `t2` in
`sscratch`, and `s_regs` is as the recorder left it. -/
theorem served_effect (im : Image) (h : Hart) (k : Kind) (hcause : h.csr .scause = k.cause)
    (hscratch : h.csr .sscratch = im.sRegs) :
    let served := serve (run (park ++ (bump ++ note)) h)
    served.regs .t2 = im.sRegs ∧
      (∀ r, r ≠ .t0 → r ≠ .t1 → r ≠ .t2 → served.regs r = h.regs r) ∧
      served.csr .sscratch = h.regs .t2 ∧
      served.csr .sepc = k.resume (h.csr .sepc) ∧
      served.csr .stvec = h.csr .stvec ∧
      served.mem = recordedMem h := by
  have hrecord := run_record h
  rw [hscratch] at hrecord
  generalize run (park ++ (bump ++ note)) h = recorded at hrecord
  have ht0 : recorded.regs .t0 = k.cause := by
    rw [hrecord, ← hcause]
    simp
  obtain ⟨hregs, hepc, hparked, htvec, hmem⟩ := serve_effect recorded k ht0
  refine ⟨?_, fun r hr0 hr1 hr2 => ?_, ?_, ?_, ?_, ?_⟩
  · rw [hregs .t2 (by decide) (by decide), hrecord]
    simp
  · rw [hregs r hr0 hr1, hrecord]
    simp [hr0, hr2]
  · rw [hparked, hrecord]
    simp
  · rw [hepc, hrecord]
    simp
  · rw [htvec, hrecord]
    simp
  · rw [hmem, hrecord]

/-- One pass through `stvm_s_entry`.  Every register but `t0` survives; `t0`
becomes the address of `s_done`. -/
theorem sEntry_effect (im : Image) (h : Hart) (k : Kind) (hcause : h.csr .scause = k.cause)
    (hscratch : h.csr .sscratch = im.sRegs) (hdone : h.mem (addr im.sRegs (5 * 8)) = im.sDone) :
    (sEntry h).regs = Function.update h.regs .t0 im.sDone ∧
      (sEntry h).pc = k.resume (h.csr .sepc) ∧
      (sEntry h).csr .sscratch = im.sRegs ∧
      (sEntry h).csr .stvec = h.csr .stvec ∧
      (sEntry h).mem (addr im.sRegs (0 * 8)) = h.mem (addr im.sRegs (0 * 8)) + 1 ∧
      (sEntry h).mem (addr im.sRegs (5 * 8)) = im.sDone ∧
      (sEntry h).mem (addr im.sRegs (7 * 8)) = h.regs .t0 + linkBack := by
  obtain ⟨hslot0, hslot1, hslot5, hslot7⟩ := recordedMem_slots h
  rw [hscratch] at hslot0 hslot1 hslot5 hslot7
  rw [hdone] at hslot5
  obtain ⟨hbase, hregs, hparked, hepc, htvec, hmem⟩ := served_effect im h k hcause hscratch
  unfold sEntry
  generalize serve (run (park ++ (bump ++ note)) h) = served at *
  have hexit := run_raiseDone served
  rw [hbase, hmem] at hexit
  dsimp only at hexit
  rw [hslot5, hparked] at hexit
  -- the flag is outside `s_regs`, so raising it changes none of its words
  have hkeep : ∀ i, i < 8 → Function.update (recordedMem h) im.sDone 1 (addr im.sRegs (i * 8)) =
      recordedMem h (addr im.sRegs (i * 8)) := by
    intro i hi
    apply Function.update_of_ne
    exact (ne_addr_of_not_inArea im.sDone_outside hi (Nat.mul_comm i 8)).symm
  rw [hexit]
  refine ⟨?_, by simpa using hepc, by simp, by simpa using htvec,
    (hkeep 0 (by decide)).trans hslot0, (hkeep 5 (by decide)).trans hslot5,
    (hkeep 7 (by decide)).trans hslot7⟩
  rw [Hart.sret_regs]
  dsimp only
  funext r
  by_cases hr0 : r = .t0
  · rw [hr0]
    simp
  by_cases hr1 : r = .t1
  · rw [hr1, Function.update_of_ne (by decide), Function.update_self, hkeep 1 (by decide),
      hslot1, Function.update_of_ne (by decide)]
  by_cases hr2 : r = .t2
  · rw [hr2]
    simp
  · rw [Function.update_of_ne hr2, Function.update_of_ne hr1, Function.update_of_ne hr0,
      hregs r hr0 hr1 hr2, Function.update_of_ne hr0]

/-! ## One trap -/

/-- Both traps enter at their slot of the table. -/
theorem tvecTarget_kind (im : Image) (k : Kind) :
    tvecTarget im.stvec k.cause = im.table + BitVec.ofNat 64 (4 * k.slot) := by
  rw [Image.stvec, tvecTarget_vectored im.table_aligned]
  cases k with
  | software =>
      rw [if_pos (by decide)]
      exact congrArg (im.table + ·) (by decide)
  | illegal =>
      rw [if_neg (by decide)]
      simp [Kind.slot]

/-- One trap of a run: everything the header says, except that `t0` is left
with the address of `s_done`. -/
theorem takeTrap_effect (im : Image) (h : Hart) (t : Trap) (hinst : Installed im h) :
    ∃ h', takeTrap im h t = some h' ∧ Installed im h' ∧
      h'.pc = t.kind.resume t.pc ∧
      h'.regs = Function.update t.regs .t0 im.sDone ∧
      h'.mem (addr im.sRegs (0 * 8)) = h.mem (addr im.sRegs (0 * 8)) + 1 ∧
      h'.mem (addr im.sRegs (7 * 8)) = im.table + BitVec.ofNat 64 (4 * t.kind.slot) := by
  let taken := (t.onHart im h).trapS t.kind.cause
  have hpc : taken.pc = im.table + BitVec.ofNat 64 (4 * t.kind.slot) := by
    have htvec : (t.onHart im h).csr .stvec = im.stvec := hinst.stvec
    rw [Hart.trapS_pc, htvec, tvecTarget_kind]
  have hland : taken.pc = im.table ∨ taken.pc = im.table + 4 := by
    rw [hpc]
    cases t.kind with
    | software => exact .inr rfl
    | illegal => exact .inl (BitVec.add_zero _)
  have hkept : ∀ i, i < 8 → taken.mem (addr im.sRegs (i * 8)) = h.mem (addr im.sRegs (i * 8)) := by
    intro i hi
    exact Hart.clobberMem_keep _ _ _ (inArea_addr hi (Nat.mul_comm i 8))
  -- the recorder starts behind the stub, with the link already in `t0`
  obtain ⟨hregs, hresume, hscratch, htvec, hcount, hdone, hlanding⟩ :=
    sEntry_effect im (tableStub taken) t.kind rfl hinst.sscratch
      ((hkept 5 (by decide)).trans hinst.done)
  refine ⟨sEntry (tableStub taken), if_pos hland, ⟨htvec.trans hinst.stvec, hscratch, hdone⟩,
    hresume, ?_, hcount.trans (congrArg (· + 1) (hkept 0 (by decide))), ?_⟩
  · rw [hregs]
    exact Function.update_idem _ _ _
  · have hlink : (tableStub taken).regs .t0 = taken.pc + 4 := by simp [tableStub]
    rw [hlanding, hlink, hpc, BitVec.add_assoc _ 4, show (4 : Word) + linkBack = 0 by decide]
    simp

/-! ## Whole runs -/

/-- Any number of traps returns with the entry still installed, and has been
counted in word 0. -/
theorem run_counts (im : Image) (h : Hart) (hinst : Installed im h) (ts : List Trap) :
    ∃ h', runAll (takeTrap im) h ts = some h' ∧ Installed im h' ∧
      h'.mem (addr im.sRegs (0 * 8)) =
        h.mem (addr im.sRegs (0 * 8)) + BitVec.ofNat 64 ts.length := by
  induction ts generalizing h with
  | nil => exact ⟨h, rfl, hinst, by simp⟩
  | cons t ts ih =>
      obtain ⟨mid, hstep, hmid, -, -, hcount, -⟩ := takeTrap_effect im h t hinst
      obtain ⟨h', hrun, hinst', hcounts⟩ := ih mid hmid
      refine ⟨h', runAll_cons_eq_some.mpr ⟨mid, hstep, hrun⟩, hinst', ?_⟩
      rw [hcounts, hcount, List.length_cons, BitVec.add_assoc, BitVec.add_comm 1]
      simp [BitVec.ofNat_add]

theorem run_installed (im : Image) (h : Hart) (hinst : Installed im h) (ts : List Trap) :
    ∃ h', runAll (takeTrap im) h ts = some h' ∧ Installed im h' := by
  obtain ⟨h', hrun, hinst', -⟩ := run_counts im h hinst ts
  exact ⟨h', hrun, hinst'⟩

/-- A trap returns, and is as the header says exactly when the interrupted `t0`
is the word the exit leaves there. -/
theorem takeTrap_resumed_iff (im : Image) (h : Hart) (t : Trap) (hinst : Installed im h) :
    ∃ h', takeTrap im h t = some h' ∧ (Resumed im t h h' ↔ t.regs .t0 = im.sDone) := by
  obtain ⟨h', hstep, hinst', hpc, hregs, hcount, hlanding⟩ := takeTrap_effect im h t hinst
  refine ⟨h', hstep, fun hresumed => ?_, fun ht0 =>
    ⟨hpc, ?_, hinst'.sscratch, hcount, hlanding⟩⟩
  · have ht0 := congrFun (hregs.symm.trans hresumed.regs) .t0
    rw [Function.update_self] at ht0
    exact ht0.symm
  · rw [hregs, ← ht0, Function.update_eq_self]

/-- After any number of earlier traps, a trap is as the header says exactly
when the interrupted code happened to have the address of `s_done` in `t0`. -/
theorem table_trap_faithful_iff (im : Image) (h : Hart) (hinst : Installed im h)
    (earlier : List Trap) (t : Trap) : Faithful im h earlier t ↔ t.regs .t0 = im.sDone :=
  runAll_next_iff (run_installed im h hinst earlier) fun hinst' =>
    takeTrap_resumed_iff im _ t hinst'

/-- A linked image of the module. -/
def sampleImage : Image where
  table := 0x80000304
  sRegs := 0x80002000
  sDone := 0x80003000
  table_aligned := by decide
  sDone_outside := by decide

/-- The hart when `main` has installed the table. -/
def sampleHart : Hart where
  regs := fun _ => 0
  csr := Function.update (Function.update (fun _ => 0) .sscratch sampleImage.sRegs)
    .stvec sampleImage.stvec
  mem := Function.update (fun _ => 0) (addr sampleImage.sRegs (5 * 8)) sampleImage.sDone
  time := 0
  cycle := 0
  pc := 0x80000800
  priv := .supervisor

theorem sampleHart_installed : Installed sampleImage sampleHart :=
  ⟨rfl, rfl, by simp [sampleHart]⟩

/-- A trap of the given kind in code with the given word in `t0`. -/
def sampleTrap (kind : Kind) (t0 : Word) : Trap where
  kind := kind
  regs := Function.update (fun _ => 0) .t0 t0
  pc := 0x80000900
  mem := fun _ => 0
  mstatus := 0
  sip := 2

/-- The software interrupt that `smode_main` pends behind its illegal
instruction takes a live `t0` away. -/
theorem software_loses_t0 :
    ¬ Faithful sampleImage sampleHart [sampleTrap .illegal 0] (sampleTrap .software 1234) := by
  intro hfaithful
  have ht0 : (1234 : Word) = sampleImage.sDone :=
    (runAll_next_iff (run_installed sampleImage sampleHart sampleHart_installed _) fun hinst =>
      takeTrap_resumed_iff sampleImage _ (sampleTrap .software 1234) hinst).mp hfaithful
  exact absurd ht0 (by decide)

/-- Code that has the address of `s_done` in `t0` does not notice it. -/
theorem software_keeps_done_address :
    Faithful sampleImage sampleHart [sampleTrap .illegal 0] (sampleTrap .software 0x80003000) :=
  (table_trap_faithful_iff sampleImage sampleHart sampleHart_installed [sampleTrap .illegal 0]
    (sampleTrap .software 0x80003000)).mpr rfl

end StvecVectoredMode
end BareMetal
