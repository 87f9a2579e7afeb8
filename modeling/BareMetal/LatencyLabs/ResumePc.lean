import BareMetal.Machine.Blocks
import BareMetal.Machine.Privilege
import BareMetal.Machine.Runs

/-!
# The trap entry of the resume-pc lab

`src/wfi-resume-pc/rpc_trap.S` is a handler without a C call.  It saves the whole
register file in `rpc_save`, publishes the cause and the pc, clears `msip`, and
returns behind the interrupted `wfi`.

`Interruption` and the notions around it are shared with the other latency labs,
whose entries save the whole file too but call C.
-/

namespace BareMetal
namespace LatencyLabs

open Machine

/-- A trap: the interrupted code may have any registers, memory, pc, mode and status,
and the clocks any reading. -/
structure Interruption where
  cause : Word
  regs : Reg → Word
  pc : Word
  mem : Mem
  mstatus : Word
  priv : Priv
  time : Word
  cycle : Word

/-- The hart behind that trap.  Only `main` writes `mscratch` and `mtvec`, once. -/
def Interruption.takenOn (t : Interruption) (h : Hart) : Hart :=
  { (h.setCsr .mstatus t.mstatus).stamp t.time t.cycle with
    regs := t.regs, pc := t.pc, mem := t.mem, priv := t.priv }.trapM t.cause

/-- A trap entry (`.align 2`) and its save area. -/
structure EntryPoint where
  entry : Word
  save : Word
  entry_aligned : entry &&& 3#64 = 0#64

/-- `main` has pointed `mtvec` at the entry and `mscratch` at the save area. -/
structure Installed (e : EntryPoint) (h : Hart) : Prop where
  mtvec : h.csr .mtvec = e.entry
  mscratch : h.csr .mscratch = e.save

/-- Take a trap; `none` when the hart does not land at the entry. -/
def enter (e : EntryPoint) (body : Hart → Hart) (h : Hart) (t : Interruption) : Option Hart :=
  if (t.takenOn h).pc = e.entry then some (body (t.takenOn h)) else none

/-- The interrupted code goes on at `resume` with all its registers, and the entry is
ready for the next trap. -/
structure Resumed (e : EntryPoint) (resume : Word) (t : Interruption) (h' : Hart) : Prop where
  pc : h'.pc = resume
  regs : h'.regs = t.regs
  mscratch : h'.csr .mscratch = e.save

theorem Installed.takenOn {e : EntryPoint} {h : Hart} (hinst : Installed e h) (t : Interruption) :
    Installed e (t.takenOn h) :=
  ⟨hinst.mtvec, hinst.mscratch⟩

theorem enter_eq {e : EntryPoint} {h : Hart} (hinst : Installed e h) (body : Hart → Hart)
    (t : Interruption) : enter e body h t = some (body (t.takenOn h)) := by
  have hland : (t.takenOn h).pc = e.entry := by
    have hvec : (t.takenOn h).pc = tvecTarget (h.csr .mtvec) t.cause := rfl
    rw [hvec, hinst.mtvec, tvecTarget_direct e.entry_aligned]
  exact if_pos hland

namespace ResumePc

/-! ## The assembly -/

/-- Doublewords of `rpc_save`. -/
def SAVE_WORDS : Nat := 34

/-- `msip` of hart 0. -/
def MSIP : Word := 0x02000000

/-- Link-time symbols.  The published words and `msip` are outside `rpc_save`, which is
the save area of the entry. -/
structure Image extends EntryPoint where
  rpcMcause : Word
  rpcMepc : Word
  rpcTraps : Word
  rpcMcause_outside : ¬ InArea save SAVE_WORDS rpcMcause
  rpcMepc_outside : ¬ InArea save SAVE_WORDS rpcMepc
  rpcTraps_outside : ¬ InArea save SAVE_WORDS rpcTraps
  msip_outside : ¬ InArea save SAVE_WORDS MSIP

/-- `x1`-`x31` without `x5`. -/
def savedPairs : List (Reg × Nat) :=
  [(.ra, 1 * 8), (.sp, 2 * 8), (.gp, 3 * 8), (.tp, 4 * 8), (.t1, 6 * 8), (.t2, 7 * 8),
   (.s0, 8 * 8), (.s1, 9 * 8), (.a0, 10 * 8), (.a1, 11 * 8), (.a2, 12 * 8), (.a3, 13 * 8),
   (.a4, 14 * 8), (.a5, 15 * 8), (.a6, 16 * 8), (.a7, 17 * 8), (.s2, 18 * 8), (.s3, 19 * 8),
   (.s4, 20 * 8), (.s5, 21 * 8), (.s6, 22 * 8), (.s7, 23 * 8), (.s8, 24 * 8), (.s9, 25 * 8),
   (.s10, 26 * 8), (.s11, 27 * 8), (.t3, 28 * 8), (.t4, 29 * 8), (.t5, 30 * 8), (.t6, 31 * 8)]

def trapSave : List Instr :=
  [.csrrw .t0 .mscratch .t0] ++
  (sdAll .t0 savedPairs ++
  [.csrr .t1 .mscratch,
   .sd .t1 (5 * 8) .t0,
   .csrr .t1 .mcause,
   .sd .t1 (32 * 8) .t0,
   .csrr .t1 .mepc,
   .sd .t1 (33 * 8) .t0])

/-- The record for the C side, up to the address of `msip`. -/
def publish (im : Image) : List Instr :=
  [.la .t1 im.rpcMcause,
   .ld .t2 (32 * 8) .t0,
   .sd .t2 0 .t1,
   .la .t1 im.rpcMepc,
   .ld .t2 (33 * 8) .t0,
   .sd .t2 0 .t1,
   .li .t1 MSIP]

/-- `sw zero, 0(t1)`: the low half of the doubleword. -/
def clearMsip (h : Hart) : Hart :=
  h.store (h.regs .t1) (h.mem (h.regs .t1) &&& 0xffffffff00000000)

/-- The saved pc moves behind the `wfi`, and the trap is counted. -/
def advance (im : Image) : List Instr :=
  [.ld .t2 (33 * 8) .t0,
   .addi .t2 .t2 4,
   .sd .t2 (33 * 8) .t0,
   .la .t1 im.rpcTraps,
   .ld .t2 0 .t1,
   .addi .t2 .t2 1,
   .sd .t2 0 .t1]

/-- The exit, without the final `mret`. -/
def trapRestore : List Instr :=
  [.ld .t1 (33 * 8) .t0,
   .csrw .mepc .t1] ++
  (ldAll .t0 savedPairs ++
  [.csrrw .t0 .mscratch .t0])

def rpcTrapEntry (im : Image) (h : Hart) : Hart :=
  (run trapRestore (run (advance im) (clearMsip (run (publish im) (run trapSave h))))).mret

/-! ## One trap -/

/-- The registers of `savedPairs`. -/
def savedRegs : List Reg :=
  savedPairs.map Prod.fst

theorem savedPairs_eq_table : savedPairs = table numOff savedRegs := by
  decide

theorem mem_savedRegs {r : Reg} : r ∈ savedRegs ↔ r ≠ .t0 := by
  cases r <;> decide

/-- The hart between entry and exit: `rpc_save` holds the file `v` and the pc to resume
at. -/
structure Parked (im : Image) (v : Reg → Word) (pc : Word) (h : Hart) : Prop where
  base : h.regs .t0 = im.save
  t0 : h.csr .mscratch = v .t0
  mtvec : h.csr .mtvec = im.entry
  file : ∀ r, r ≠ .t0 → h.mem (addr im.save (numOff r)) = v r
  pc : h.mem (addr im.save (33 * 8)) = pc

/-- A store outside the area. -/
theorem update_outside {base a : Word} (ha : ¬ InArea base SAVE_WORDS a) (m : Mem) (v : Word)
    {i : Nat} (hi : i < SAVE_WORDS) :
    Function.update m a v (addr base (8 * i)) = m (addr base (8 * i)) :=
  Function.update_of_ne (ne_addr_of_not_inArea ha hi rfl).symm _ _

theorem Parked.of_outside {im : Image} {v : Reg → Word} {pc : Word} {h h' : Hart}
    (hp : Parked im v pc h) (hbase : h'.regs .t0 = h.regs .t0) (hcsr : h'.csr = h.csr)
    (hmem : ∀ i < SAVE_WORDS, h'.mem (addr im.save (8 * i)) = h.mem (addr im.save (8 * i))) :
    Parked im v pc h' where
  base := hbase.trans hp.base
  t0 := by rw [hcsr, hp.t0]
  mtvec := by rw [hcsr, hp.mtvec]
  file := by
    intro r hr
    have hnum : r.num < SAVE_WORDS := Nat.lt_trans r.num_lt (by decide)
    rw [numOff, hmem r.num hnum]
    exact hp.file r hr
  pc := (hmem 33 (by decide)).trans hp.pc

theorem run_trapSave (h : Hart) :
    let base := h.csr .mscratch
    let swapped := Function.update h.regs .t0 base
    run trapSave h =
      { h with
        regs := Function.update swapped .t1 (h.csr .mepc)
        csr := Function.update h.csr .mscratch (h.regs .t0)
        mem := Function.update (Function.update (Function.update
          (storeAll swapped base savedPairs h.mem)
          (addr base (5 * 8)) (h.regs .t0))
          (addr base (32 * 8)) (h.csr .mcause))
          (addr base (33 * 8)) (h.csr .mepc) } := by
  simp [trapSave, run_append, run_sdAll, Instr.exec, Hart.setReg, Hart.setCsr, Hart.store]

theorem parked_trapSave (im : Image) {h : Hart} (hinst : Installed im.toEntryPoint h) :
    Parked im h.regs (h.csr .mepc) (run trapSave h) := by
  rw [run_trapSave, hinst.mscratch]
  refine ⟨by simp, by simp, ?_, ?_, by simp⟩
  · dsimp only
    rw [Function.update_of_ne (by decide), hinst.mtvec]
  · intro r hr
    have hlt := numOff_lt r
    have hoff : numOff r ≠ 5 * 8 := fun hoff => hr (@numOff_injective r .t0 hoff)
    dsimp only
    rw [update_addr _ _ _ (by omega) (by omega), if_neg (by omega),
      update_addr _ _ _ (by omega) (by omega), if_neg (by omega),
      update_addr _ _ _ (by omega) (by omega), if_neg hoff, savedPairs_eq_table,
      storeAll_table _ _ _ (mem_savedRegs.mpr hr) (fun q _ hq => numOff_injective hq)
        (fun q _ => by have := numOff_lt q; omega), Function.update_of_ne hr]

theorem parked_publish {im : Image} {v : Reg → Word} {pc : Word} {h : Hart}
    (hp : Parked im v pc h) :
    Parked im v pc (run (publish im) h) ∧ (run (publish im) h).regs .t1 = MSIP := by
  refine ⟨hp.of_outside ?_ ?_ ?_, ?_⟩
  · simp [publish, Instr.exec]
  · simp [publish, Instr.exec]
  · intro i hi
    simp only [publish, run_cons, run_nil, Instr.exec, Hart.setReg, Hart.store,
      Function.update_self, addr_zero, Function.update_of_ne, ne_eq, reduceCtorEq,
      not_false_eq_true]
    rw [update_outside im.rpcMepc_outside _ _ hi, update_outside im.rpcMcause_outside _ _ hi]
  · simp [publish, Instr.exec]

theorem parked_clearMsip {im : Image} {v : Reg → Word} {pc : Word} {h : Hart}
    (hp : Parked im v pc h) (ht1 : h.regs .t1 = MSIP) : Parked im v pc (clearMsip h) := by
  refine hp.of_outside rfl rfl ?_
  intro i hi
  rw [clearMsip, Hart.store_mem, ht1]
  exact update_outside im.msip_outside _ _ hi

/-- Only the pc of the record changes, and by 4. -/
theorem parked_advance {im : Image} {v : Reg → Word} {pc : Word} {h : Hart}
    (hp : Parked im v pc h) : Parked im v (pc + 4) (run (advance im) h) := by
  let stepped := Function.update h.mem (addr im.save (33 * 8)) (pc + 4)
  have hmem : (run (advance im) h).mem =
      Function.update stepped im.rpcTraps (stepped im.rpcTraps + 1) := by
    simp only [advance, run_cons, run_nil, Instr.exec, Hart.setReg, Hart.store,
      Function.update_self, addr_zero, Function.update_of_ne, ne_eq, reduceCtorEq,
      not_false_eq_true, hp.base, hp.pc, stepped]
  have hkeep : ∀ i < SAVE_WORDS, (run (advance im) h).mem (addr im.save (8 * i)) =
      stepped (addr im.save (8 * i)) := by
    intro i hi
    rw [hmem]
    exact update_outside im.rpcTraps_outside _ _ hi
  refine ⟨?_, ?_, ?_, ?_, ?_⟩
  · rw [← hp.base]
    simp [advance, Instr.exec]
  · rw [← hp.t0]
    simp [advance, Instr.exec]
  · rw [← hp.mtvec]
    simp [advance, Instr.exec]
  · intro r hr
    have hlt := numOff_lt r
    have hnum : r.num < SAVE_WORDS := Nat.lt_trans r.num_lt (by decide)
    rw [numOff, hkeep r.num hnum, ← numOff]
    show Function.update h.mem (addr im.save (33 * 8)) (pc + 4) (addr im.save (numOff r)) = v r
    rw [update_addr _ _ _ (by omega) (by omega), if_neg (by omega), hp.file r hr]
  · exact (hkeep 33 (by decide)).trans (Function.update_self ..)

theorem run_trapRestore (h : Hart) :
    let base := h.regs .t0
    let resume := h.mem (addr base (33 * 8))
    run trapRestore h =
      { h with
        regs := Function.update (loadAll h.mem base savedPairs (Function.update h.regs .t1 resume))
          .t0 (h.csr .mscratch)
        csr := Function.update (Function.update h.csr .mepc resume) .mscratch base } := by
  have hpairs : ∀ p ∈ savedPairs, p.1 ≠ Reg.t0 := by decide
  have hbase : ∀ m base regs, loadAll m base savedPairs regs .t0 = regs .t0 := by
    intro m base regs
    rw [savedPairs_eq_table, loadAll_table, if_neg (by decide)]
  simp [trapRestore, run_append, run_ldAll _ _ _ hpairs, hbase, Instr.exec, Hart.setReg,
    Hart.setCsr]

theorem parked_restore {im : Image} {v : Reg → Word} {pc : Word} {h : Hart}
    (hp : Parked im v pc h) :
    (run trapRestore h).regs = v ∧ (run trapRestore h).csr .mepc = pc ∧
      Installed im.toEntryPoint (run trapRestore h) := by
  rw [run_trapRestore, hp.base, hp.t0, hp.pc]
  refine ⟨?_, by simp, ⟨?_, by simp⟩⟩
  · dsimp only
    funext r
    by_cases hr : r = .t0
    · rw [hr, Function.update_self]
    · rw [Function.update_of_ne hr, savedPairs_eq_table, loadAll_table,
        if_pos (mem_savedRegs.mpr hr), hp.file r hr]
  · dsimp only
    rw [Function.update_of_ne (by decide), Function.update_of_ne (by decide), hp.mtvec]

/-- One pass through the entry. -/
theorem rpcTrapEntry_effect (im : Image) {h : Hart} (hinst : Installed im.toEntryPoint h) :
    (rpcTrapEntry im h).pc = h.csr .mepc + 4 ∧ (rpcTrapEntry im h).regs = h.regs ∧
      Installed im.toEntryPoint (rpcTrapEntry im h) := by
  obtain ⟨hpublished, ht1⟩ := parked_publish (parked_trapSave im hinst)
  obtain ⟨hregs, hepc, hinst'⟩ := parked_restore (parked_advance (parked_clearMsip hpublished ht1))
  rw [rpcTrapEntry]
  refine ⟨hepc, hregs, ?_, ?_⟩
  · rw [Hart.mret_csr_of_ne _ (by decide), hinst'.mtvec]
  · rw [Hart.mret_csr_of_ne _ (by decide), hinst'.mscratch]

/-! ## Runs -/

def takeTrap (im : Image) : Hart → Interruption → Option Hart :=
  enter im.toEntryPoint (rpcTrapEntry im)

/-- After the earlier traps the trap `t` is taken and resumes behind the interrupted
instruction with all registers. -/
def Faithful (im : Image) (h : Hart) (earlier : List Interruption) (t : Interruption) : Prop :=
  ∃ h₁ h₂, runAll (takeTrap im) h earlier = some h₁ ∧ takeTrap im h₁ t = some h₂ ∧
    Resumed im.toEntryPoint (t.pc + 4) t h₂

theorem takeTrap_effect (im : Image) {h : Hart} (hinst : Installed im.toEntryPoint h)
    (t : Interruption) :
    ∃ h', takeTrap im h t = some h' ∧ Installed im.toEntryPoint h' ∧
      Resumed im.toEntryPoint (t.pc + 4) t h' := by
  obtain ⟨hpc, hregs, hinst'⟩ := rpcTrapEntry_effect im (hinst.takenOn t)
  exact ⟨_, enter_eq hinst _ t, hinst', hpc, hregs, hinst'.mscratch⟩

theorem run_installed (im : Image) {h : Hart} (hinst : Installed im.toEntryPoint h)
    (ts : List Interruption) :
    ∃ h', runAll (takeTrap im) h ts = some h' ∧ Installed im.toEntryPoint h' := by
  refine runAll_completes ?_ ts hinst
  intro s t hs
  obtain ⟨s', hstep, hs', -⟩ := takeTrap_effect im hs t
  exact ⟨s', hstep, hs'⟩

theorem run_faithful (im : Image) {h : Hart} (hinst : Installed im.toEntryPoint h)
    (earlier : List Interruption) (t : Interruption) : Faithful im h earlier t := by
  obtain ⟨h₁, hrun, hinst₁⟩ := run_installed im hinst earlier
  obtain ⟨h₂, hstep, -, hresumed⟩ := takeTrap_effect im hinst₁ t
  exact ⟨h₁, h₂, hrun, hstep, hresumed⟩

end ResumePc
end LatencyLabs
end BareMetal
