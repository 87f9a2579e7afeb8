import BareMetal.LatencyLabs.ResumePc

/-!
# The trap entries that save the whole file and call C

`wfi_trap.S`, `mt_trap.S` and `os_trap.S` have one layout: `t0`, `t1`, the cause and the pc,
two clock stamps, and the other 29 registers.  `os_trap.S` makes no stamps, and the C record
`os_save_t` has no fields for them, but its registers are stored at the same offsets.  So the
entry stores `t5` and `t6` behind the record.

`registers_return_iff`: the handlers of the other labs cannot make the entries lose a
register; that of the one-shot lab can, by a store to what the linker puts behind `os_save`.
-/

namespace BareMetal
namespace LatencyLabs

open Machine

namespace FullSave

/-! ## The assembly -/

/-- Offsets of the saved registers. -/
def slot : Reg → Nat
  | .t0 => 0 | .t1 => 8
  | .ra => 48 | .sp => 56 | .gp => 64 | .tp => 72 | .t2 => 80 | .s0 => 88 | .s1 => 96
  | .a0 => 104 | .a1 => 112 | .a2 => 120 | .a3 => 128 | .a4 => 136 | .a5 => 144 | .a6 => 152
  | .a7 => 160
  | .s2 => 168 | .s3 => 176 | .s4 => 184 | .s5 => 192 | .s6 => 200 | .s7 => 208 | .s8 => 216
  | .s9 => 224 | .s10 => 232 | .s11 => 240
  | .t3 => 248 | .t4 => 256 | .t5 => 264 | .t6 => 272

/-- The registers of the bulk save: all but `t0` and `t1`. -/
def bulkRegs : List Reg :=
  [.ra, .sp, .gp, .tp, .t2, .s0, .s1, .a0, .a1, .a2, .a3, .a4, .a5, .a6, .a7, .s2, .s3, .s4,
   .s5, .s6, .s7, .s8, .s9, .s10, .s11, .t3, .t4, .t5, .t6]

/-- The clock stamps of `wfi_trap.S` and `mt_trap.S`. -/
def clockStamps : List Instr :=
  [.rdtime .t1,
   .sd .t1 32 .t0,
   .rdcycle .t1,
   .sd .t1 40 .t0]

/-- The entry up to the call. -/
def trapSave (stamps : List Instr) (stackTop : Word) : List Instr :=
  [.csrrw .t0 .mscratch .t0,
   .sd .t1 8 .t0] ++
  (stamps ++
  (sdAll .t0 (table slot bulkRegs) ++
  [.csrr .t1 .mscratch,
   .sd .t1 0 .t0,
   .csrr .t1 .mcause,
   .sd .t1 16 .t0,
   .csrr .t1 .mepc,
   .sd .t1 24 .t0,
   .la .sp stackTop,
   .mv .a0 .t0]))

/-- The entry behind the call, without the final `mret`. -/
def trapRestore (save : Word) : List Instr :=
  [.la .t0 save,
   .ld .t1 24 .t0,
   .csrw .mepc .t1] ++
  (ldAll .t0 (table slot bulkRegs) ++
  [.la .t1 save,
   .csrw .mscratch .t1,
   .ld .t1 8 .t0,
   .ld .t0 0 .t0])

/-- Link-time symbols: the save area of the entry is the record the C handler gets. -/
structure Image extends EntryPoint where
  stackTop : Word

/-- Doublewords of `wfi_save_t` and `mt_save_t`: four fields, two stamps and `gpr[29]`. -/
def STAMPED_WORDS : Nat := 4 + 2 + 29

/-- Doublewords of `os_save_t`: four fields and `gpr[29]`. -/
def OS_WORDS : Nat := 4 + 29

/-- What the handler may not change: the record but for its field `mepc`. -/
def Kept (save : Word) (words : Nat) (a : Word) : Prop :=
  InArea save words a ∧ a ≠ addr save 24

instance (save : Word) (words : Nat) : DecidablePred (Kept save words) :=
  fun _ => inferInstanceAs (Decidable (_ ∧ _))

/-- What a C handler leaves behind: the caller-saved registers, and the memory wherever it
may write. -/
structure Leftover where
  regs : Reg → Word
  mem : Mem

/-- The entry, with a handler in the middle that obeys the calling convention. -/
def trapEntry (stamps : List Instr) (words : Nat) (im : Image) (left : Leftover) (h : Hart) :
    Hart :=
  let saved := run (trapSave stamps im.stackTop) h
  let returned := (saved.clobberMem (Kept im.save words) left.mem).callC left.regs
    (left.regs .a0)
  (run (trapRestore im.save) returned).mret

def wfiTrapEntry : Image → Leftover → Hart → Hart :=
  trapEntry clockStamps STAMPED_WORDS

def mtTrapEntry : Image → Leftover → Hart → Hart :=
  trapEntry clockStamps STAMPED_WORDS

def osTrapEntry : Image → Leftover → Hart → Hart :=
  trapEntry [] OS_WORDS

/-! ## The layout -/

theorem mem_bulkRegs {r : Reg} : r ∈ bulkRegs ↔ r ≠ .t0 ∧ r ≠ .t1 := by
  cases r <;> decide

theorem slot_injective : Function.Injective slot := by
  decide +kernel

theorem slot_lt (r : Reg) : slot r < 8 * STAMPED_WORDS := by
  cases r <;> decide

theorem slot_words (r : Reg) : slot r = 8 * (slot r / 8) := by
  cases r <;> rfl

/-- The slots of the registers leave the fields of the cause, the pc and the stamps free. -/
theorem slot_free (r : Reg) : slot r ≤ 8 ∨ 48 ≤ slot r := by
  cases r <;> decide

/-- Two registers are behind a record without stamps. -/
theorem behind_osSave_iff (r : Reg) : 8 * OS_WORDS ≤ slot r ↔ r = .t5 ∨ r = .t6 := by
  cases r <;> decide

theorem kept_slot_iff (save : Word) {words : Nat} (hwords : words ≤ STAMPED_WORDS) (r : Reg) :
    Kept save words (addr save (slot r)) ↔ slot r < 8 * words := by
  have hlt := slot_lt r
  have hfree := slot_free r
  unfold STAMPED_WORDS at hlt hwords
  constructor
  · rintro ⟨⟨i, hi, haddr⟩, -⟩
    rw [addr_inj (by omega) (by omega)] at haddr
    omega
  · intro hr
    refine ⟨inArea_addr (i := slot r / 8) (by omega) (slot_words r), ?_⟩
    intro haddr
    rw [addr_inj (by omega) (by omega)] at haddr
    omega

/-! ## The save half -/

/-- Stamps go through `t1`, which is parked already, to fields that belong to no
register. -/
def Stamping (stamps : List Instr) : Prop :=
  ∀ h : Hart, ∃ v m,
    run stamps h = { h with regs := Function.update h.regs .t1 v, mem := m } ∧
      ∀ r, m (addr (h.regs .t0) (slot r)) = h.mem (addr (h.regs .t0) (slot r))

theorem stamping_nil : Stamping [] := by
  intro h
  refine ⟨h.regs .t1, h.mem, ?_, fun _ => rfl⟩
  rw [run_nil, Function.update_eq_self]

theorem stamping_clockStamps : Stamping clockStamps := by
  intro h
  refine ⟨h.cycle, Function.update (Function.update h.mem (addr (h.regs .t0) 32) h.time)
    (addr (h.regs .t0) 40) h.cycle, ?_, ?_⟩
  · simp [clockStamps, Instr.exec, Hart.setReg, Hart.store]
  · intro r
    have hlt := slot_lt r
    have hfree := slot_free r
    unfold STAMPED_WORDS at hlt
    rw [update_addr _ _ _ (by omega) (by omega), if_neg (by omega),
      update_addr _ _ _ (by omega) (by omega), if_neg (by omega)]

theorem run_trapSave {stamps : List Instr} (hstamps : Stamping stamps) (stackTop : Word)
    (h : Hart) :
    let base := h.csr .mscratch
    let swapped := Function.update h.regs .t0 base
    ∃ v m,
      run (trapSave stamps stackTop) h =
        { h with
          regs := Function.update (Function.update (Function.update
            (Function.update swapped .t1 v) .t1 (h.csr .mepc)) .sp stackTop) .a0 base
          csr := Function.update h.csr .mscratch (h.regs .t0)
          mem := Function.update (Function.update (Function.update
            (storeAll (Function.update swapped .t1 v) base (table slot bulkRegs) m)
            (addr base 0) (h.regs .t0))
            (addr base 16) (h.csr .mcause))
            (addr base 24) (h.csr .mepc) } ∧
        ∀ r, m (addr base (slot r)) =
          Function.update h.mem (addr base 8) (h.regs .t1) (addr base (slot r)) := by
  intro base swapped
  let parked : Hart :=
    { h with
      regs := swapped
      csr := Function.update h.csr .mscratch (h.regs .t0)
      mem := Function.update h.mem (addr base 8) (h.regs .t1) }
  have hpark : run [.csrrw .t0 .mscratch .t0, .sd .t1 8 .t0] h = parked := by
    simp [Instr.exec, Hart.setReg, Hart.setCsr, Hart.store, parked, swapped, base]
  have hbase : parked.regs .t0 = base := by simp [parked, swapped]
  obtain ⟨v, m, hrun, hm⟩ := hstamps parked
  rw [hbase] at hm
  refine ⟨v, m, ?_, hm⟩
  rw [trapSave, run_append, hpark, run_append, hrun, run_append, run_sdAll]
  simp [Instr.exec, Hart.setReg, Hart.store, parked, swapped]

/-- At the call every register is at its slot, and the handler gets the record. -/
theorem trapSave_effect {stamps : List Instr} (hstamps : Stamping stamps) (stackTop : Word)
    (h : Hart) :
    (∀ r, (run (trapSave stamps stackTop) h).mem (addr (h.csr .mscratch) (slot r)) = h.regs r) ∧
      (run (trapSave stamps stackTop) h).regs .a0 = h.csr .mscratch ∧
      (run (trapSave stamps stackTop) h).csr .mtvec = h.csr .mtvec := by
  obtain ⟨v, m, hrun, hm⟩ := run_trapSave hstamps stackTop h
  rw [hrun]
  refine ⟨?_, by simp, by simp⟩
  intro r
  have hbound : ∀ q, slot q < 2 ^ 64 := fun q => (slot_lt q).trans (by decide)
  have hfree := slot_free r
  dsimp only
  rw [update_addr _ _ _ (by decide) (hbound r), if_neg (by omega),
    update_addr _ _ _ (by decide) (hbound r), if_neg (by omega),
    update_addr _ _ _ (by decide) (hbound r)]
  by_cases h0 : r = .t0
  · rw [h0, if_pos (by rfl)]
  have hoff : slot r ≠ 0 := fun hoff => h0 (@slot_injective r .t0 hoff)
  rw [if_neg hoff]
  by_cases h1 : r = .t1
  -- `t1` was parked before the stamps, and is not in the bulk save
  · rw [h1, storeAll_table_of_ne, hm .t1]
    · exact Function.update_self ..
    · intro q hq haddr
      rw [addr_inj (hbound .t1) (hbound q)] at haddr
      exact (mem_bulkRegs.mp hq).2 (slot_injective haddr.symm)
  · rw [storeAll_table _ _ _ (mem_bulkRegs.mpr ⟨h0, h1⟩) (fun q _ hq => slot_injective hq)
      (fun q _ => hbound q), Function.update_of_ne h1, Function.update_of_ne h0]

/-! ## The restore half -/

/-- Every register comes from its slot, the pc from the field `mepc`. -/
theorem run_trapRestore (save : Word) (h : Hart) :
    run (trapRestore save) h =
      { h with
        regs := fun r => h.mem (addr save (slot r))
        csr := Function.update (Function.update h.csr .mepc (h.mem (addr save 24))) .mscratch
          save } := by
  have hbulk : ∀ p ∈ table slot bulkRegs, p.1 ≠ Reg.t0 := by decide
  have hbase : ∀ regs, loadAll h.mem save (table slot bulkRegs) regs .t0 = regs .t0 := by
    intro regs
    rw [loadAll_table, if_neg (by decide)]
  have hregs : ∀ regs, Function.update (Function.update
      (loadAll h.mem save (table slot bulkRegs) regs) .t1 (h.mem (addr save 8)))
      .t0 (h.mem (addr save 0)) = fun r => h.mem (addr save (slot r)) := by
    intro regs
    funext r
    by_cases h0 : r = .t0
    · rw [h0, Function.update_self]
      rfl
    rw [Function.update_of_ne h0]
    by_cases h1 : r = .t1
    · rw [h1, Function.update_self]
      rfl
    · rw [Function.update_of_ne h1, loadAll_table, if_pos (mem_bulkRegs.mpr ⟨h0, h1⟩)]
  simp [trapRestore, run_append, run_ldAll _ _ _ hbulk, hbase, hregs, Instr.exec, Hart.setReg,
    Hart.setCsr]

/-! ## One trap -/

/-- A register comes back if its slot is in the record, else as the handler left the
doubleword behind the record. -/
theorem trapEntry_effect {stamps : List Instr} (hstamps : Stamping stamps) {words : Nat}
    (hwords : words ≤ STAMPED_WORDS) {im : Image} (left : Leftover) {h : Hart}
    (hinst : Installed im.toEntryPoint h) :
    let h' := trapEntry stamps words im left h
    h'.pc = left.mem (addr im.save 24) ∧
      (∀ r, h'.regs r =
        if slot r < 8 * words then h.regs r else left.mem (addr im.save (slot r))) ∧
      Installed im.toEntryPoint h' := by
  obtain ⟨hslots, -, hvec⟩ := trapSave_effect hstamps im.stackTop h
  rw [hinst.mscratch] at hslots
  dsimp only [trapEntry]
  rw [run_trapRestore]
  have hepc : ¬ Kept im.save words (addr im.save 24) := fun hkept => hkept.2 rfl
  refine ⟨?_, ?_, ?_, ?_⟩
  · simp [Hart.clobberMem, hepc]
  · intro r
    rw [Hart.mret_regs]
    dsimp only [Hart.callC_mem, Hart.clobberMem]
    simp only [kept_slot_iff im.save hwords r, hslots r]
  · rw [Hart.mret_csr_of_ne _ (by decide)]
    simp [hvec, hinst.mtvec]
  · rw [Hart.mret_csr_of_ne _ (by decide)]
    simp

/-! ## Runs -/

/-- A trap together with what its handler leaves. -/
structure Trap extends Interruption where
  left : Leftover

def takeTrap (entry : Image → Leftover → Hart → Hart) (im : Image) (h : Hart) (t : Trap) :
    Option Hart :=
  enter im.toEntryPoint (entry im t.left) h t.toInterruption

/-- After the earlier traps the trap `t` is taken and resumes where the handler wants, with
all registers. -/
def Faithful (entry : Image → Leftover → Hart → Hart) (im : Image) (h : Hart)
    (earlier : List Trap) (t : Trap) : Prop :=
  ∃ h₁ h₂, runAll (takeTrap entry im) h earlier = some h₁ ∧ takeTrap entry im h₁ t = some h₂ ∧
    Resumed im.toEntryPoint (t.left.mem (addr im.save 24)) t.toInterruption h₂

/-- The handler has left the doublewords behind `os_save` as the entry stored them. -/
def TailKept (im : Image) (t : Trap) : Prop :=
  t.left.mem (addr im.save 264) = t.regs .t5 ∧ t.left.mem (addr im.save 272) = t.regs .t6

section Runs

variable {stamps : List Instr} {words : Nat} {im : Image}

theorem takeTrap_effect (hstamps : Stamping stamps) (hwords : words ≤ STAMPED_WORDS) {h : Hart}
    (hinst : Installed im.toEntryPoint h) (t : Trap) :
    ∃ h', takeTrap (trapEntry stamps words) im h t = some h' ∧
      Installed im.toEntryPoint h' ∧
      (Resumed im.toEntryPoint (t.left.mem (addr im.save 24)) t.toInterruption h' ↔
        ∀ r, 8 * words ≤ slot r → t.left.mem (addr im.save (slot r)) = t.regs r) := by
  obtain ⟨hpc, hregs, hinst'⟩ := trapEntry_effect hstamps hwords t.left
    (hinst.takenOn t.toInterruption)
  have hfile : (t.toInterruption.takenOn h).regs = t.regs := rfl
  rw [hfile] at hregs
  refine ⟨_, enter_eq hinst _ t.toInterruption, hinst', ?_⟩
  constructor
  · intro hres r hr
    have hback := hregs r
    rw [if_neg (by omega), hres.regs] at hback
    exact hback.symm
  · intro htail
    refine ⟨hpc, ?_, hinst'.mscratch⟩
    funext r
    rw [hregs r]
    by_cases hr : slot r < 8 * words
    · rw [if_pos hr]
    · rw [if_neg hr]
      exact htail r (by omega)

theorem run_installed (hstamps : Stamping stamps) (hwords : words ≤ STAMPED_WORDS) {h : Hart}
    (hinst : Installed im.toEntryPoint h) (ts : List Trap) :
    ∃ h', runAll (takeTrap (trapEntry stamps words) im) h ts = some h' ∧
      Installed im.toEntryPoint h' := by
  refine runAll_completes ?_ ts hinst
  intro s t hs
  obtain ⟨s', hstep, hs', -⟩ := takeTrap_effect hstamps hwords hs t
  exact ⟨s', hstep, hs'⟩

/-- After any traps, a trap is faithful iff the handler has left the slots behind the record
alone. -/
theorem faithful_iff (hstamps : Stamping stamps) (hwords : words ≤ STAMPED_WORDS) {h : Hart}
    (hinst : Installed im.toEntryPoint h) (earlier : List Trap) (t : Trap) :
    Faithful (trapEntry stamps words) im h earlier t ↔
      ∀ r, 8 * words ≤ slot r → t.left.mem (addr im.save (slot r)) = t.regs r := by
  refine runAll_next_iff (run_installed hstamps hwords hinst earlier) ?_
  intro s hs
  obtain ⟨s', hstep, -, hiff⟩ := takeTrap_effect hstamps hwords hs t
  exact ⟨s', hstep, hiff⟩

/-- A record with fields for the stamps has all slots. -/
theorem faithful_stamped {h : Hart} (hinst : Installed im.toEntryPoint h)
    (earlier : List Trap) (t : Trap) :
    Faithful (trapEntry clockStamps STAMPED_WORDS) im h earlier t := by
  rw [faithful_iff stamping_clockStamps le_rfl hinst]
  intro r hr
  have hlt := slot_lt r
  omega

theorem faithful_os_iff {h : Hart} (hinst : Installed im.toEntryPoint h) (earlier : List Trap)
    (t : Trap) : Faithful osTrapEntry im h earlier t ↔ TailKept im t := by
  rw [osTrapEntry, faithful_iff stamping_nil (by decide) hinst]
  simp only [behind_osSave_iff, forall_eq_or_imp, forall_eq]
  rfl

end Runs

/-- The entries with a record for all of the slots, and the one without a C call, give every
interrupted register back.  `os_trap_entry` does so iff its handler leaves the two
doublewords behind `os_save` alone. -/
theorem registers_return_iff {wfi mt os : Image} {rpc : ResumePc.Image}
    {wfiHart mtHart osHart rpcHart : Hart} (hwfi : Installed wfi.toEntryPoint wfiHart)
    (hmt : Installed mt.toEntryPoint mtHart) (hos : Installed os.toEntryPoint osHart)
    (hrpc : Installed rpc.toEntryPoint rpcHart) :
    (∀ earlier t, Faithful wfiTrapEntry wfi wfiHart earlier t) ∧
      (∀ earlier t, Faithful mtTrapEntry mt mtHart earlier t) ∧
      (∀ earlier t, ResumePc.Faithful rpc rpcHart earlier t) ∧
      ∀ earlier t, Faithful osTrapEntry os osHart earlier t ↔ TailKept os t :=
  ⟨faithful_stamped hwfi, faithful_stamped hmt, ResumePc.run_faithful rpc hrpc,
    faithful_os_iff hos⟩

/-- A hart as `main` leaves it. -/
def bootedAt (e : EntryPoint) : Hart where
  regs := fun _ => 0
  csr := fun c => if c = .mtvec then e.entry else if c = .mscratch then e.save else 0
  mem := fun _ => 0
  time := 0
  cycle := 0
  pc := e.entry
  priv := .machine

theorem installed_bootedAt (e : EntryPoint) : Installed e (bootedAt e) :=
  ⟨rfl, rfl⟩

/-- A lab of each kind. -/
def labImage : Image where
  entry := 0x80000a94
  save := 0x80012c40
  entry_aligned := by decide
  stackTop := 0x80015b00

@[inherit_doc labImage] def resumeImage : ResumePc.Image where
  entry := 0x80000b5c
  save := 0x80013a00
  entry_aligned := by decide
  rpcMcause := 0x80013b20
  rpcMepc := 0x80013b28
  rpcTraps := 0x80013b30
  rpcMcause_outside := by decide
  rpcMepc_outside := by decide
  rpcTraps_outside := by decide
  msip_outside := by decide

/-- The timer interrupts the spin loop. -/
def spinTrap : Interruption where
  cause := 0x8000000000000007
  regs := fun r => BitVec.ofNat 64 (17 * r.num)
  pc := 0x80000c38
  mem := fun _ => 0
  mstatus := 8
  priv := .machine
  time := 4100
  cycle := 90233

/-- A handler that keeps to the record and resumes 12 bytes further on. -/
def spinTrapLeft : Trap where
  toInterruption := spinTrap
  left :=
    { regs := fun _ => 0
      mem := fun a =>
        if a = addr labImage.save 24 then 0x80000c44
        else if a = addr labImage.save 264 then 510
        else if a = addr labImage.save 272 then 527
        else 0 }

theorem spinTrap_returns :
    Faithful wfiTrapEntry labImage (bootedAt labImage.toEntryPoint) [spinTrapLeft]
        spinTrapLeft ∧
      Faithful mtTrapEntry labImage (bootedAt labImage.toEntryPoint) [spinTrapLeft]
        spinTrapLeft ∧
      ResumePc.Faithful resumeImage (bootedAt resumeImage.toEntryPoint) [spinTrap] spinTrap ∧
      Faithful osTrapEntry labImage (bootedAt labImage.toEntryPoint) [spinTrapLeft]
        spinTrapLeft := by
  obtain ⟨hwfi, hmt, hrpc, hos⟩ := registers_return_iff
    (installed_bootedAt labImage.toEntryPoint) (installed_bootedAt labImage.toEntryPoint)
    (installed_bootedAt labImage.toEntryPoint) (installed_bootedAt resumeImage.toEntryPoint)
  have htail : TailKept labImage spinTrapLeft := ⟨by decide, by decide⟩
  exact ⟨hwfi _ _, hmt _ _, hrpc _ _, (hos _ _).mpr htail⟩

/-! ## The handler of the one-shot lab -/

/-- Addresses of the globals that `os_trap_handler` writes. -/
structure OsGlobals where
  trapCount : Word
  flag : Word
  mcause : Word
  mepc : Word
  mipAfterDisarm : Word
  badSeen : Word
  badMcause : Word
  badMepc : Word

/-- `mtimecmp` of hart 0. -/
def MTIMECMP : Word := 0x02004000

/-- Memory behind `os_trap_handler`, which reads `mip` after disarming the timer. -/
def osTrapHandler (g : OsGlobals) (mip : Word) (h : Hart) : Mem :=
  let s := h.regs .a0
  let m := h.mem
  let m :=
    if m g.trapCount = 0 then
      let m := Function.update m g.mcause (m (addr s 16))
      let m := Function.update m g.mepc (m (addr s 24))
      let m := Function.update m MTIMECMP (-1)
      Function.update m g.mipAfterDisarm mip
    else
      let m := Function.update m g.badSeen 1
      let m := Function.update m g.badMcause (m (addr s 16))
      Function.update m g.badMepc (m (addr s 24))
  let m := Function.update m g.trapCount (m g.trapCount + 1)
  Function.update m g.flag 1

/-- The counter is a global of its own. -/
def OsGlobals.CountApart (g : OsGlobals) : Prop :=
  ∀ a ∈ [g.flag, g.mcause, g.mepc, g.mipAfterDisarm, g.badSeen, g.badMcause, g.badMepc,
    MTIMECMP], g.trapCount ≠ a

/-- Every trap counts, whichever branch it takes. -/
theorem osTrapHandler_counts {g : OsGlobals} (hapart : g.CountApart) (mip : Word) (h : Hart) :
    osTrapHandler g mip h g.trapCount = h.mem g.trapCount + 1 := by
  simp only [OsGlobals.CountApart, List.forall_mem_cons] at hapart
  obtain ⟨hflag, hcause, hepc, hmip, hseen, hbadCause, hbadEpc, hcmp, -⟩ := hapart
  dsimp only [osTrapHandler]
  rw [Function.update_of_ne hflag, Function.update_self]
  split_ifs with hfirst
  · rw [Function.update_of_ne hmip, Function.update_of_ne hcmp, Function.update_of_ne hepc,
      Function.update_of_ne hcause]
  · rw [Function.update_of_ne hbadEpc, Function.update_of_ne hbadCause,
      Function.update_of_ne hseen]

/-- The trap `t` with that handler. -/
def handled (im : Image) (g : OsGlobals) (mip : Word) (h : Hart) (t : Interruption) : Trap :=
  { t with
    left :=
      { regs := t.regs
        mem := osTrapHandler g mip (run (trapSave [] im.stackTop) (t.takenOn h)) } }

/-- With the counter behind `os_save`, every trap hands back `t5` one too large: the entry
stores `t5` over the counter, the handler counts, the exit reloads. -/
theorem not_faithful_of_count_behind {im : Image} {g : OsGlobals}
    (hcount : g.trapCount = addr im.save 264) (hapart : g.CountApart) {h : Hart}
    (hinst : Installed im.toEntryPoint h) (mip : Word) (t : Interruption) :
    ¬ Faithful osTrapEntry im h [] (handled im g mip h t) := by
  rw [faithful_os_iff hinst]
  rintro ⟨ht5, -⟩
  obtain ⟨hslots, -⟩ := trapSave_effect stamping_nil im.stackTop (t.takenOn h)
  have hstored : (run (trapSave [] im.stackTop) (t.takenOn h)).mem g.trapCount = t.regs .t5 := by
    rw [hcount, ← (hinst.takenOn t).mscratch]
    exact hslots .t5
  have hreloaded : osTrapHandler g mip (run (trapSave [] im.stackTop) (t.takenOn h)) g.trapCount =
      t.regs .t5 := by
    rw [hcount]
    exact ht5
  rw [osTrapHandler_counts hapart, hstored] at hreloaded
  simp at hreloaded

/-- The globals in the order of their declarations, right behind the 264 bytes of
`os_save`. -/
def declaredGlobals : OsGlobals where
  trapCount := addr labImage.save 264
  flag := addr labImage.save 272
  mcause := addr labImage.save 280
  mepc := addr labImage.save 288
  mipAfterDisarm := addr labImage.save 296
  badSeen := addr labImage.save 304
  badMcause := addr labImage.save 312
  badMepc := addr labImage.save 320

theorem declaredGlobals_lose_t5 :
    ¬ Faithful osTrapEntry labImage (bootedAt labImage.toEntryPoint) []
      (handled labImage declaredGlobals 0 (bootedAt labImage.toEntryPoint) spinTrap) := by
  have hapart : declaredGlobals.CountApart := by
    simp [OsGlobals.CountApart, declaredGlobals, labImage, addr, MTIMECMP]
  exact not_faithful_of_count_behind rfl hapart (installed_bootedAt _) 0 spinTrap

end FullSave
end LatencyLabs
end BareMetal
