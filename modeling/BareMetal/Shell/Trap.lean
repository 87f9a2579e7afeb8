import BareMetal.Machine.Blocks
import BareMetal.Machine.Privilege

/-!
# The register snapshot of the UART shell

`src/shell/trap.S` saves the whole register file into `trap_bank` on an
M-mode `ecall` and resumes behind it; `cmd_regs` prints the bank.  A session
is any number of such `ecall`s with arbitrary C code in between.

The entry swaps `t0` with `mscratch`, but the exit reloads `t0` from the bank
instead of swapping back, and `t1`, `t2` are used as scratch and never
reloaded.  `trapEntry_effect` says exactly what one trap leaves behind, and
`session_faithful_iff` which register files come through a whole session
unharmed.
-/

namespace BareMetal
namespace Shell

open Machine

/-- Byte offset of a register in `trap_bank`: `x1` is word 0. -/
def bankOff (r : Reg) : Nat :=
  8 * (r.num - 1)

/-- Bank offsets of `mepc`, `mstatus` and `mcause`. -/
def bankMepc : Nat := 31 * 8
@[inherit_doc bankMepc] def bankMstatus : Nat := 32 * 8
@[inherit_doc bankMepc] def bankMcause : Nat := 33 * 8

/-- The registers stored straight from the file, `sd x1` to `sd x31` without
`x5`, with their offsets. -/
def savedPairs : List (Reg × Nat) :=
  [(.ra, 0 * 8), (.sp, 1 * 8), (.gp, 2 * 8), (.tp, 3 * 8),
   (.t1, 5 * 8), (.t2, 6 * 8), (.s0, 7 * 8), (.s1, 8 * 8),
   (.a0, 9 * 8), (.a1, 10 * 8), (.a2, 11 * 8), (.a3, 12 * 8),
   (.a4, 13 * 8), (.a5, 14 * 8), (.a6, 15 * 8), (.a7, 16 * 8),
   (.s2, 17 * 8), (.s3, 18 * 8), (.s4, 19 * 8), (.s5, 20 * 8),
   (.s6, 21 * 8), (.s7, 22 * 8), (.s8, 23 * 8), (.s9, 24 * 8),
   (.s10, 25 * 8), (.s11, 26 * 8), (.t3, 27 * 8), (.t4, 28 * 8),
   (.t5, 29 * 8), (.t6, 30 * 8)]

/-- `trap_entry` up to the cause test. -/
def trapSave : List Instr :=
  [.csrrw .t0 .mscratch .t0] ++
  (sdAll .t0 savedPairs ++
  [.csrr .t1 .mscratch,
   .sd .t1 (4 * 8) .t0,
   .csrr .t1 .mepc,
   .sd .t1 bankMepc .t0,
   .csrr .t1 .mstatus,
   .sd .t1 bankMstatus .t0,
   .csrr .t1 .mcause,
   .sd .t1 bankMcause .t0,
   .li .t2 11])

/-- `trap_entry` behind the cause test, without the final `mret`. -/
def trapResume : List Instr :=
  [.csrr .t1 .mepc,
   .addi .t1 .t1 4,
   .csrw .mepc .t1,
   .ld .t0 (4 * 8) .t0]

/-- `trap_entry`; `none` is the parked hart of `trap_halt`. -/
def trapEntry (h : Hart) : Option Hart :=
  let saved := run trapSave h
  if saved.regs .t1 ≠ saved.regs .t2 then none
  else some (run trapResume saved).mret

/-- The machine at one `ecall` of `snapshot_regs`: whatever the C code has
made of registers, memory and status by then. -/
structure Ecall where
  regs : Reg → Word
  pc : Word
  mem : Mem
  mstatus : Word

/-- The hart at that `ecall`.  C code between two traps does not touch
`mscratch` or the privilege mode. -/
def Ecall.onHart (e : Ecall) (h : Hart) : Hart :=
  { h.setCsr .mstatus e.mstatus with regs := e.regs, pc := e.pc, mem := e.mem }

/-- `snapshot_regs`: trap into `trap_entry` and come back. -/
def snapshotRegs (h : Hart) (e : Ecall) : Option Hart :=
  trapEntry ((e.onHart h).trapM (ecallCause h.priv))

/-- `install_trap_handler` of `sh_main.c` on a hart in M-mode. -/
def installTrapHandler (h : Hart) (trapBank entry : Word) : Hart :=
  (h.setCsr .mscratch trapBank).setCsr .mtvec entry

/-! ## What one trap does -/

theorem bankOff_injective : Function.Injective bankOff := by
  intro r r' h
  have hr := r.num_pos
  have hr' := r'.num_pos
  apply Reg.num_injective
  unfold bankOff at h
  omega

theorem bankOff_lt (r : Reg) : bankOff r < 31 * 8 := by
  have hr := r.num_lt
  have hpos := r.num_pos
  unfold bankOff
  omega

/-- The registers of `savedPairs`. -/
def savedRegs : List Reg :=
  savedPairs.map Prod.fst

theorem savedPairs_eq_table : savedPairs = table bankOff savedRegs := by
  decide

theorem mem_savedRegs {r : Reg} : r ∈ savedRegs ↔ r ≠ .t0 := by
  cases r <;> decide

/-- The machine after the save half, as one expression. -/
theorem run_trapSave (h : Hart) :
    let bank := h.csr .mscratch
    let swapped := Function.update h.regs .t0 bank
    run trapSave h =
      { h with
        regs := Function.update (Function.update swapped .t1 (h.csr .mcause)) .t2 11
        csr := Function.update h.csr .mscratch (h.regs .t0)
        mem := Function.update (Function.update (Function.update (Function.update
          (storeAll swapped bank savedPairs h.mem)
          (addr bank (4 * 8)) (h.regs .t0))
          (addr bank bankMepc) (h.csr .mepc))
          (addr bank bankMstatus) (h.csr .mstatus))
          (addr bank bankMcause) (h.csr .mcause) } := by
  simp [trapSave, run_append, run_sdAll, Instr.exec, Hart.setReg, Hart.setCsr, Hart.store]

/-- The bank after the save half: every register of the trapped file, `t0`
included, and the three trap registers.  Nothing outside the bank changes. -/
theorem trapSave_mem (h : Hart) :
    let bank := h.csr .mscratch
    let mem := (run trapSave h).mem
    (∀ r, mem (addr bank (bankOff r)) = h.regs r) ∧
      mem (addr bank bankMepc) = h.csr .mepc ∧
      mem (addr bank bankMstatus) = h.csr .mstatus ∧
      mem (addr bank bankMcause) = h.csr .mcause ∧
      ∀ a, ¬ InArea bank 34 a → mem a = h.mem a := by
  rw [run_trapSave]
  dsimp only
  have hmepc : bankMepc = 248 := rfl
  have hmstatus : bankMstatus = 256 := rfl
  have hmcause : bankMcause = 264 := rfl
  refine ⟨fun r => ?_, ?_, ?_, ?_, fun a ha => ?_⟩
  · -- the four later stores hit the slot of `t0` and the words behind the registers
    have hr := bankOff_lt r
    rw [update_addr _ _ _ (by omega) (by omega), if_neg (by omega),
      update_addr _ _ _ (by omega) (by omega), if_neg (by omega),
      update_addr _ _ _ (by omega) (by omega), if_neg (by omega),
      update_addr _ _ _ (by omega) (by omega)]
    by_cases ht0 : r = .t0
    · subst ht0
      rfl
    · have hoff : bankOff r ≠ 4 * 8 := fun hoff => ht0 (@bankOff_injective r .t0 hoff)
      rw [if_neg hoff, savedPairs_eq_table,
        storeAll_table _ _ _ (mem_savedRegs.mpr ht0) (fun q _ hq => bankOff_injective hq)
          (fun q _ => by have := bankOff_lt q; omega), Function.update_of_ne ht0]
  · rw [update_addr _ _ _ (by omega) (by omega), if_neg (by omega),
      update_addr _ _ _ (by omega) (by omega), if_neg (by omega), Function.update_self]
  · rw [update_addr _ _ _ (by omega) (by omega), if_neg (by omega), Function.update_self]
  · rw [Function.update_self]
  · rw [update_of_not_inArea ha _ _ (by omega), update_of_not_inArea ha _ _ (by omega),
      update_of_not_inArea ha _ _ (by omega), update_of_not_inArea ha _ _ (by omega),
      savedPairs_eq_table, storeAll_table_of_ne]
    intro r _
    have hr := r.num_lt
    exact ne_addr_of_not_inArea ha (i := r.num - 1) (by omega) rfl

/-- The machine before the final `mret`, as one expression. -/
theorem run_trapResume (h : Hart) :
    run trapResume h =
      { h with
        regs := Function.update (Function.update h.regs .t1 (h.csr .mepc + 4)) .t0
          (h.mem (addr (h.regs .t0) (4 * 8)))
        csr := Function.update h.csr .mepc (h.csr .mepc + 4) } := by
  simp [trapResume, Instr.exec, Hart.setReg, Hart.setCsr]

/-- On cause 11 the handler returns.  Memory is the saved one, `t0` is back,
but `t1` and `t2` hold the scratch values `mepc + 4` and `11`, and `mscratch`
still holds the interrupted `t0`. -/
theorem trapEntry_effect (h : Hart) (hcause : h.csr .mcause = 11) :
    ∃ h', trapEntry h = some h' ∧
      h'.mem = (run trapSave h).mem ∧
      h'.csr .mscratch = h.regs .t0 ∧
      h'.pc = h.csr .mepc + 4 ∧
      h'.priv = mpp (h.csr .mstatus) ∧
      h'.regs = Function.update (Function.update h.regs .t1 (h.csr .mepc + 4)) .t2 11 := by
  have hslot : (run trapSave h).mem (addr (h.csr .mscratch) (4 * 8)) = h.regs .t0 :=
    (trapSave_mem h).1 .t0
  have hsaved := run_trapSave h
  unfold trapEntry
  generalize run trapSave h = saved at hslot hsaved
  have hregs : saved.regs = Function.update (Function.update
      (Function.update h.regs .t0 (h.csr .mscratch)) .t1 (h.csr .mcause)) .t2 11 := by
    rw [hsaved]
  have hcsr : saved.csr = Function.update h.csr .mscratch (h.regs .t0) := by
    rw [hsaved]
  have htest : ¬ saved.regs .t1 ≠ saved.regs .t2 := by
    simp [hregs, hcause]
  refine ⟨(run trapResume saved).mret, if_neg htest, ?_⟩
  rw [run_trapResume]
  refine ⟨rfl, by simp [hcsr], by simp [hcsr], by simp [hcsr], ?_⟩
  have hbase : saved.regs .t0 = h.csr .mscratch := by simp [hregs]
  have hmepc : saved.csr .mepc = h.csr .mepc := by simp [hcsr]
  rw [Hart.mret_regs, hbase, hslot, hmepc]
  funext r
  by_cases hr0 : r = .t0
  · subst hr0
    simp
  by_cases hr1 : r = .t1
  · subst hr1
    simp
  by_cases hr2 : r = .t2
  · subst hr2
    simp [hregs]
  · simp [hregs, hr0, hr1, hr2]

/-! ## Sessions -/

/-- What the snapshot promises about one `ecall`: the bank holds exactly the
trapped state, no other memory is written, the hart is ready for the next
trap, and the C code goes on behind the `ecall` with its registers intact. -/
structure Faithful (bank : Word) (e : Ecall) (h' : Hart) : Prop where
  saved : ∀ r, h'.mem (addr bank (bankOff r)) = e.regs r
  mepc : h'.mem (addr bank bankMepc) = e.pc
  mstatus : h'.mem (addr bank bankMstatus) = enterM .machine e.mstatus
  mcause : h'.mem (addr bank bankMcause) = 11
  frame : ∀ a, ¬ InArea bank 34 a → h'.mem a = e.mem a
  mscratch : h'.csr .mscratch = bank
  resume : h'.pc = e.pc + 4
  regs : h'.regs = e.regs

/-- Every trap of the session comes back and is faithful. -/
def SessionFaithful (bank : Word) : Hart → List Ecall → Prop
  | _, [] => True
  | h, e :: es => ∃ h', snapshotRegs h e = some h' ∧ Faithful bank e h' ∧
      SessionFaithful bank h' es

/-- The whole effect of one `snapshot_regs` on a hart whose `mscratch` points
at the bank. -/
theorem snapshotRegs_effect (h : Hart) (e : Ecall) (bank : Word)
    (hbank : h.csr .mscratch = bank) (hpriv : h.priv = .machine) :
    ∃ h', snapshotRegs h e = some h' ∧
      ((∀ r, h'.mem (addr bank (bankOff r)) = e.regs r) ∧
        h'.mem (addr bank bankMepc) = e.pc ∧
        h'.mem (addr bank bankMstatus) = enterM .machine e.mstatus ∧
        h'.mem (addr bank bankMcause) = 11 ∧
        ∀ a, ¬ InArea bank 34 a → h'.mem a = e.mem a) ∧
      h'.csr .mscratch = e.regs .t0 ∧
      h'.pc = e.pc + 4 ∧
      h'.priv = .machine ∧
      h'.regs = Function.update (Function.update e.regs .t1 (e.pc + 4)) .t2 11 := by
  obtain ⟨trapped, htrapped⟩ :
      ∃ trapped, trapped = (e.onHart h).trapM (ecallCause h.priv) := ⟨_, rfl⟩
  have hscratch : trapped.csr .mscratch = bank := by
    rw [htrapped]
    exact hbank
  have hcause : trapped.csr .mcause = 11 := by
    rw [htrapped, hpriv]
    rfl
  have hstatus : trapped.csr .mstatus = enterM .machine e.mstatus := by
    rw [htrapped, Hart.trapM_mstatus, ← hpriv]
    rfl
  have hepc : trapped.csr .mepc = e.pc := by
    rw [htrapped]
    rfl
  have hregs : trapped.regs = e.regs := by
    rw [htrapped]
    rfl
  have hmem : trapped.mem = e.mem := by
    rw [htrapped]
    rfl
  obtain ⟨h', hrun, hmem', hscratch', hpc', hpriv', hregs'⟩ := trapEntry_effect trapped hcause
  refine ⟨h', by rw [snapshotRegs, ← htrapped, hrun], ?_, ?_, ?_, ?_, ?_⟩
  · have hbankMem := trapSave_mem trapped
    rw [hscratch, hcause, hstatus, hepc, hregs, hmem] at hbankMem
    rw [hmem']
    exact hbankMem
  · rw [hscratch', hregs]
  · rw [hpc', hepc]
  · rw [hpriv', hstatus, mpp_enterM]
  · rw [hregs', hregs, hepc]

/-- The register files the snapshot leaves intact: the three registers the
handler overwrites already hold what it leaves in them. -/
def Ecall.Survives (bank : Word) (e : Ecall) : Prop :=
  e.regs .t0 = bank ∧ e.regs .t1 = e.pc + 4 ∧ e.regs .t2 = 11

instance (bank : Word) (e : Ecall) : Decidable (e.Survives bank) :=
  inferInstanceAs (Decidable (_ ∧ _ ∧ _))

/-- One trap from a bank-pointing `mscratch` is faithful exactly when its
register file survives. -/
theorem faithful_iff_survives (h : Hart) (e : Ecall) (bank : Word)
    (hbank : h.csr .mscratch = bank) (hpriv : h.priv = .machine) :
    ∃ h', snapshotRegs h e = some h' ∧ h'.priv = .machine ∧
      (Faithful bank e h' ↔ e.Survives bank) := by
  obtain ⟨h', hrun, ⟨hsaved, hmepc, hmstatus, hmcause, hframe⟩, hscratch, hpc, hpriv', hregs⟩ :=
    snapshotRegs_effect h e bank hbank hpriv
  refine ⟨h', hrun, hpriv', ?_, ?_⟩
  · intro hfaithful
    have hkept := hfaithful.regs
    rw [hregs] at hkept
    have ht1 := congrFun hkept .t1
    have ht2 := congrFun hkept .t2
    refine ⟨hscratch.symm.trans hfaithful.mscratch, ?_, ?_⟩
    · simpa using ht1.symm
    · simpa using ht2.symm
  · rintro ⟨ht0, ht1, ht2⟩
    refine ⟨hsaved, hmepc, hmstatus, hmcause, hframe, hscratch.trans ht0, hpc, ?_⟩
    rw [hregs, ← ht1, Function.update_eq_self, ← ht2, Function.update_eq_self]

/-- A whole session is faithful exactly when, at every one of its `ecall`s,
`t0` already points at the bank, `t1` already holds the resume address and
`t2` already holds 11. -/
theorem session_faithful_iff (h : Hart) (bank entry : Word) (hpriv : h.priv = .machine)
    (es : List Ecall) :
    SessionFaithful bank (installTrapHandler h bank entry) es ↔
      ∀ e ∈ es, e.Survives bank := by
  have hbank : (installTrapHandler h bank entry).csr .mscratch = bank := rfl
  have hmode : (installTrapHandler h bank entry).priv = .machine := hpriv
  generalize installTrapHandler h bank entry = s at hbank hmode
  -- the invariant along the session: `mscratch` points at the bank, in M-mode
  induction es generalizing s with
  | nil => simp [SessionFaithful]
  | cons e es ih =>
      obtain ⟨s', hrun, hmode', hiff⟩ := faithful_iff_survives s e bank hbank hmode
      constructor
      · rintro ⟨s'', hrun', hfaithful, hrest⟩
        obtain rfl : s' = s'' := Option.some.inj (hrun.symm.trans hrun')
        have hall := (ih s' hfaithful.mscratch hmode').mp hrest
        simpa using ⟨hiff.mp hfaithful, hall⟩
      · intro hall
        have hfaithful : Faithful bank e s' := hiff.mpr (hall e (by simp))
        exact ⟨s', hrun, hfaithful, (ih s' hfaithful.mscratch hmode').mpr
          fun q hq => hall q (by simp [hq])⟩

/-- A hart as `main` of the shell has it: all registers zero, in M-mode. -/
def bootHart : Hart where
  regs := fun _ => 0
  csr := fun _ => 0
  mem := fun _ => 0
  time := 0
  cycle := 0
  pc := 0x80000000
  priv := .machine

/-- A `regs` command whose `ecall` finds 7 in `t0`. -/
def regsCommand : Ecall where
  regs := Function.update (fun _ => 0) .t0 7
  pc := 0x80000100
  mem := fun _ => 0
  mstatus := 0x1800

/-- The very first `regs` command of a session already loses `mscratch`. -/
theorem first_regs_command_not_faithful :
    ¬ SessionFaithful 0x80002000 (installTrapHandler bootHart 0x80002000 0x80000040)
      [regsCommand] := by
  rintro ⟨h', hrun, hfaithful, -⟩
  obtain ⟨h'', hrun', -, hscratch, -⟩ :=
    snapshotRegs_effect (installTrapHandler bootHart 0x80002000 0x80000040) regsCommand
      0x80002000 rfl rfl
  obtain rfl : h' = h'' := Option.some.inj (hrun.symm.trans hrun')
  have hlost : (7 : Word) = 0x80002000 := hscratch.symm.trans hfaithful.mscratch
  exact absurd hlost (by decide)

/-- A session of two `ecall`s with a surviving register file. -/
theorem surviving_session_faithful :
    SessionFaithful 0x80002000 (installTrapHandler bootHart 0x80002000 0x80000040)
      (List.replicate 2
        { regsCommand with
          regs := fun r => if r = .t0 then 0x80002000 else if r = .t1 then 0x80000104 else 11 }) :=
  (session_faithful_iff bootHart 0x80002000 0x80000040 rfl _).mpr (by
    intro e he
    rw [List.eq_of_mem_replicate he]
    decide)

end Shell
end BareMetal
