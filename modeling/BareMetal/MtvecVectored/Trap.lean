import BareMetal.Machine.CallFrame
import BareMetal.Machine.Runs

/-!
# The vectored trap table and its common handler

`src/mtvec-vectored/mtv_trap.S`: sixteen one-instruction table entries jump to
stubs that record which entry ran, and one common handler saves the
caller-saved registers, calls `mtv_c_handle` of `mtv_main.c`, restores them
and returns.  The C handler steers the exit through `mtv_regs[20]` (the resume
address) and the global `mtv_return_m` (resume in M-mode at `mtv_m_resume`).

This module is the embedding and the effect of one trap; `MtvecVectored.Runs`
follows whole sequences of traps.
-/

namespace BareMetal
namespace MtvecVectored

open Machine

/-- Link-time symbols.  The table is 256-byte aligned (`.align 8`), and
`mtv_return_m` is an object of its own, outside `mtv_regs`. -/
structure Image where
  table : Word
  mtvRegs : Word
  returnM : Word
  mResume : Word
  payload : Word
  table_aligned : table &&& 0xFF#64 = 0#64
  returnM_outside : ¬ InArea mtvRegs 24 returnM

/-- The address of `mtv_vec<n>`. -/
def Image.vec (im : Image) (n : Nat) : Word :=
  addr im.table (4 * n)

/-! ## The C handler -/

def MCAUSE_ECALL_U : Word := 8
def MCAUSE_MTI : Word := 0x8000000000000007

/-- The counters and records of `mtv_main.c` that the handler updates, and the
CLINT compare register it disarms. -/
structure Globals where
  ecallCount : Word
  timerCount : Word
  unexpectedCount : Word
  unexpectedMcause : Word
  ecallLanding : Word
  ecallMcause : Word
  ecall2Landing : Word
  ecall2Mcause : Word
  timerLanding : Word
  timerMcause : Word
  mtimecmp : Word

/-- Byte offset of `mtv_regs[20]`, the resume address. -/
def resumeOff : Nat := 20 * 8

/-- `mtv_c_handle`: the new globals and the new memory. -/
def mtvCHandle (im : Image) (g : Globals) (m : Mem) : Globals × Mem :=
  let landing := m (addr im.mtvRegs (0 * 8))
  let mcause := m (addr im.mtvRegs (2 * 8))
  let mepc := m (addr im.mtvRegs (3 * 8))
  if mcause = MCAUSE_ECALL_U then
    let g := { g with ecallCount := g.ecallCount + 1 }
    if g.ecallCount = 1 then
      ({ g with ecallLanding := landing, ecallMcause := mcause },
        Function.update m (addr im.mtvRegs resumeOff) (mepc + 4))
    else if g.ecallCount = 2 then
      ({ g with ecall2Landing := landing, ecall2Mcause := mcause },
        Function.update (Function.update m im.returnM 1) (addr im.mtvRegs resumeOff) (mepc + 4))
    else
      ({ g with unexpectedCount := g.unexpectedCount + 1, unexpectedMcause := mcause },
        Function.update m (addr im.mtvRegs resumeOff) mepc)
  else if mcause = MCAUSE_MTI then
    ({ g with
        timerCount := g.timerCount + 1, timerLanding := landing, timerMcause := mcause
        mtimecmp := ~~~ 0 },
      Function.update m (addr im.mtvRegs resumeOff) mepc)
  else
    ({ g with unexpectedCount := g.unexpectedCount + 1, unexpectedMcause := mcause },
      Function.update m (addr im.mtvRegs resumeOff) mepc)

/-! ## The assembly -/

/-- `(3 << 11)`: both bits of `mstatus.MPP`. -/
def mppMask : Word :=
  BitVec.ofNat 64 (3 <<< 11)

/-- `mtv_stub_<n>`. -/
def stub (im : Image) (n : Nat) : List Instr :=
  [.csrrw .t0 .mscratch .t0,
   .sd .t1 (6 * 8) .t0,
   .la .t1 (im.vec n),
   .sd .t1 (0 * 8) .t0,
   .li .t1 (BitVec.ofNat 64 n),
   .sd .t1 (1 * 8) .t0]

/-- The caller-saved registers the common handler saves and reloads itself;
`t1` is saved by the stub, `t0` rides in `mscratch`. -/
def callerPairs : List (Reg × Nat) :=
  [(.ra, 5 * 8), (.t2, 7 * 8), (.t3, 8 * 8), (.t4, 9 * 8), (.t5, 10 * 8), (.t6, 11 * 8),
   (.a0, 12 * 8), (.a1, 13 * 8), (.a2, 14 * 8), (.a3, 15 * 8), (.a4, 16 * 8),
   (.a5, 17 * 8), (.a6, 18 * 8), (.a7, 19 * 8)]

/-- `mtv_common` up to the call. -/
def commonSave : List Instr :=
  [.csrr .t1 .mcause,
   .sd .t1 (2 * 8) .t0,
   .csrr .t1 .mepc,
   .sd .t1 (3 * 8) .t0,
   .rdcycle .t1,
   .sd .t1 (4 * 8) .t0] ++
  (sdAll .t0 callerPairs ++
  [.csrrw .t0 .mscratch .t0])

/-- `mtv_common` from the call to `beqz`. -/
def commonFlag (im : Image) : List Instr :=
  [.csrrw .t0 .mscratch .t0,
   .la .t1 im.returnM,
   .ld .t1 0 .t1]

/-- The branch taken when the C handler asked for M-mode. -/
def commonReturnM (im : Image) : List Instr :=
  [.li .t1 mppMask,
   .csrs .mstatus .t1,
   .la .t1 im.mResume,
   .sd .t1 resumeOff .t0]

/-- `mtv_common` from label `1:` on, without the final `mret`. -/
def commonRestore : List Instr :=
  ldAll .t0 callerPairs ++
  [.ld .t1 resumeOff .t0,
   .csrw .mepc .t1,
   .ld .t1 (6 * 8) .t0,
   .csrrw .t0 .mscratch .t0]

/-- What the compiled C handler leaves in the registers it may change and in
memory outside the objects of this handler. -/
structure Leftover where
  regs : Reg → Word
  mem : Mem

/-- The addresses that compiled C code outside its own source statements never
writes: `mtv_regs` and `mtv_return_m`. -/
def Owned (im : Image) (a : Word) : Prop :=
  InArea im.mtvRegs 24 a ∨ a = im.returnM

instance (im : Image) : DecidablePred (Owned im) :=
  fun a => inferInstanceAs (Decidable (InArea im.mtvRegs 24 a ∨ a = im.returnM))

/-- From the call to label `1:`; `beqz` skips the M-mode branch. -/
def steer (im : Image) (h : Hart) : Hart :=
  let flagged := run (commonFlag im) h
  if flagged.regs .t1 = 0 then flagged else run (commonReturnM im) flagged

/-- The exit half: everything behind the C call. -/
def leave (im : Image) (h : Hart) : Hart :=
  (run commonRestore (steer im h)).mret

/-- Stub `n` and the common handler, with the C handler called in between. -/
def handle (im : Image) (n : Nat) (g : Globals) (h : Hart) (left : Leftover) : Globals × Hart :=
  let saved := run (stub im n ++ commonSave) h
  let out := mtvCHandle im g saved.mem
  let returned := ({ saved with mem := out.2 }.clobberMem (Owned im) left.mem).callC
    left.regs (left.regs .a0)
  (out.1, leave im returned)

/-- The table entry at `pc`, if there is one. -/
def entryAt (im : Image) (pc : Word) : Option Nat :=
  (List.range 16).find? fun n => pc = im.vec n

/-- Take a trap through `mtv_table`; `none` when the hart lands outside it. -/
def trap (im : Image) (g : Globals) (h : Hart) (cause : Word) (left : Leftover) :
    Option (Globals × Hart) :=
  let taken := h.trapM cause
  (entryAt im taken.pc).map fun n => handle im n g taken left

/-! ## Landing in the table -/

/-- `mtvec` as `main` programs it: the table in vectored mode. -/
def Image.mtvec (im : Image) : Word :=
  im.table ||| 1#64

/-- A table entry is found at its own address. -/
theorem entryAt_vec (im : Image) {n : Nat} (hn : n < 16) : entryAt im (im.vec n) = some n :=
  find?_entry im.table hn (by decide)

/-- A machine timer interrupt enters at entry 7. -/
theorem tvecTarget_timer (im : Image) : tvecTarget im.mtvec MCAUSE_MTI = im.vec 7 := by
  rw [Image.mtvec, tvecTarget_vectored (mode_of_aligned im.table_aligned), if_pos (by decide)]
  exact congrArg (im.table + ·) (by decide)

/-- A U-mode `ecall` is synchronous and enters at the base, entry 0. -/
theorem tvecTarget_ecall (im : Image) : tvecTarget im.mtvec MCAUSE_ECALL_U = im.vec 0 := by
  rw [Image.mtvec, tvecTarget_vectored (mode_of_aligned im.table_aligned), if_neg (by decide)]
  exact (addr_zero im.table).symm

/-! ## The save half -/

/-- The slot of each register in `callerPairs`. -/
def callerSlot : Reg → Nat
  | .ra => 40 | .t2 => 56 | .t3 => 64 | .t4 => 72 | .t5 => 80 | .t6 => 88
  | .a0 => 96 | .a1 => 104 | .a2 => 112 | .a3 => 120 | .a4 => 128 | .a5 => 136
  | .a6 => 144 | .a7 => 152
  | _ => 0

/-- The registers of `callerPairs`. -/
def callerRegs : List Reg :=
  callerPairs.map Prod.fst

theorem callerRegs_eq : callerRegs = callerSaved := by
  decide

/-- The layout of `mtv_regs` as a frame. -/
def frame : CallFrame where
  words := 24
  slot := callerSlot
  t1Off := 6 * 8
  resumeOff := resumeOff
  words_le := by decide
  slot_inside := by decide
  slot_inj := by decide
  slot_ne := by decide
  t1Off_inside := by decide
  resumeOff_inside := by decide
  t1Off_ne := by decide

@[simp] theorem frame_resumeOff : frame.resumeOff = resumeOff := rfl

theorem callerPairs_eq_pairs : callerPairs = frame.pairs := by
  have htable : callerPairs = table callerSlot callerRegs := by decide
  rw [htable, callerRegs_eq]
  rfl

theorem commonRestore_eq : commonRestore = frame.restore := by
  rw [commonRestore, callerPairs_eq_pairs]
  rfl

/-- Memory while the C handler runs: the stub's record, the trap registers,
and the caller-saved registers, all relative to the area `base`. -/
def savedMem (im : Image) (n : Nat) (h : Hart) : Mem :=
  let base := h.csr .mscratch
  storeAll (Function.update (Function.update h.regs .t0 base) .t1 h.cycle) base callerPairs
    (Function.update (Function.update (Function.update (Function.update (Function.update
      (Function.update h.mem
        (addr base (6 * 8)) (h.regs .t1))
        (addr base (0 * 8)) (im.vec n))
        (addr base (1 * 8)) (BitVec.ofNat 64 n))
        (addr base (2 * 8)) (h.csr .mcause))
        (addr base (3 * 8)) (h.csr .mepc))
        (addr base (4 * 8)) h.cycle)

/-- The save half: `t1` is scratch, `t0` and `mscratch` have been swapped
twice, and memory is `savedMem`. -/
theorem run_save (im : Image) (n : Nat) (h : Hart) :
    (run (stub im n ++ commonSave) h).mem = savedMem im n h ∧
      (run (stub im n ++ commonSave) h).csr = h.csr ∧
      ∀ r, r ≠ .t1 → (run (stub im n ++ commonSave) h).regs r = h.regs r := by
  have hbase : run (stub im n ++ commonSave) h =
      { h with
        regs := Function.update (Function.update (Function.update h.regs .t0 (h.csr .mscratch))
          .t1 h.cycle) .t0 (h.regs .t0)
        csr := Function.update (Function.update h.csr .mscratch (h.regs .t0)) .mscratch
          (h.csr .mscratch)
        mem := savedMem im n h } := by
    simp [stub, commonSave, savedMem, run_append, run_sdAll, Instr.exec, Hart.setReg,
      Hart.setCsr, Hart.store]
  refine ⟨by rw [hbase], by rw [hbase]; simp, ?_⟩
  intro r hr1
  rw [hbase]
  by_cases hr0 : r = .t0
  · subst hr0
    simp
  · simp [hr0, hr1]

/-- The array while the C handler runs: the landing address, the trap registers,
and the frame of the interrupted file. -/
theorem savedMem_slots (im : Image) (n : Nat) (h : Hart) :
    let base := h.csr .mscratch
    savedMem im n h (addr base (0 * 8)) = im.vec n ∧
      savedMem im n h (addr base (2 * 8)) = h.csr .mcause ∧
      savedMem im n h (addr base (3 * 8)) = h.csr .mepc ∧
      frame.Holds (savedMem im n h) base h.regs ∧
      ∀ a, ¬ InArea base 24 a → savedMem im n h a = h.mem a := by
  refine ⟨?_, ?_, ?_, ?_, fun a ha => ?_⟩
  · rw [savedMem, callerPairs_eq_pairs, frame.storeAll_pairs_of_ne _ _ _ (by omega) (by decide)]
    simp [update_addr]
  · rw [savedMem, callerPairs_eq_pairs, frame.storeAll_pairs_of_ne _ _ _ (by omega) (by decide)]
    simp [update_addr]
  · rw [savedMem, callerPairs_eq_pairs, frame.storeAll_pairs_of_ne _ _ _ (by omega) (by decide)]
    simp [update_addr]
  · rw [savedMem, callerPairs_eq_pairs]
    apply frame.holds_storeAll
    · intro r hr
      have hr0 : r ≠ .t0 := by rintro rfl; exact absurd hr (by decide)
      have hr1 : r ≠ .t1 := by rintro rfl; exact absurd hr (by decide)
      rw [Function.update_of_ne hr1, Function.update_of_ne hr0]
    · simp [frame, update_addr]
  · rw [savedMem, callerPairs_eq_pairs, frame.storeAll_pairs_outside _ _ _ ha,
      update_of_not_inArea ha _ _ (by omega), update_of_not_inArea ha _ _ (by omega),
      update_of_not_inArea ha _ _ (by omega), update_of_not_inArea ha _ _ (by omega),
      update_of_not_inArea ha _ _ (by omega), update_of_not_inArea ha _ _ (by omega)]

/-! ## The exit half -/

/-- Setting both `MPP` bits asks for M-mode. -/
theorem mpp_or_machine (status : Word) : mpp (status ||| mppMask) = .machine := by
  have hbit : (status ||| mppMask).getLsbD 12 = true := by
    rw [BitVec.getLsbD_or, show mppMask.getLsbD 12 = true by decide, Bool.or_true]
  rw [mpp, if_pos hbit]

/-- The code between the call and label `1:`, entered with `mscratch` at the
area: it recovers the base, parks `t0` as the C handler left it, and lets the
flag `mtv_return_m` overwrite the resume address and `MPP`. -/
theorem steer_effect (im : Image) (h : Hart) (hbase : h.csr .mscratch = im.mtvRegs) :
    (steer im h).regs .t0 = im.mtvRegs ∧
      (∀ r, r.calleeSaved = true → (steer im h).regs r = h.regs r) ∧
      (steer im h).csr .mscratch = h.regs .t0 ∧
      (steer im h).csr .mtvec = h.csr .mtvec ∧
      (∀ a, a ≠ addr im.mtvRegs resumeOff → (steer im h).mem a = h.mem a) ∧
      (h.mem im.returnM = 0 →
        (steer im h).mem (addr im.mtvRegs resumeOff) = h.mem (addr im.mtvRegs resumeOff) ∧
        (steer im h).csr .mstatus = h.csr .mstatus) ∧
      (h.mem im.returnM ≠ 0 →
        (steer im h).mem (addr im.mtvRegs resumeOff) = im.mResume ∧
        (steer im h).csr .mstatus = h.csr .mstatus ||| mppMask) := by
  have hkeep : ∀ r : Reg, r.calleeSaved = true → r ≠ .t0 ∧ r ≠ .t1 := by
    intro r hr
    constructor <;> (rintro rfl; exact absurd hr (by decide))
  have hflag : (run (commonFlag im) h).regs .t1 = h.mem im.returnM := by
    simp [commonFlag, Instr.exec, addr_zero]
  by_cases hzero : h.mem im.returnM = 0
  -- flag clear: `beqz` skips the M-mode return
  · have hsteer : steer im h = run (commonFlag im) h := if_pos (hflag.trans hzero)
    rw [hsteer]
    refine ⟨?_, fun r hr => ?_, ?_, ?_, fun a _ => ?_, fun _ => ⟨?_, ?_⟩,
      fun hne => absurd hzero hne⟩
    · simp [commonFlag, Instr.exec, hbase]
    · simp [commonFlag, Instr.exec, hkeep r hr]
    all_goals simp [commonFlag, Instr.exec]
  -- flag set: the resume slot and `MPP` are overwritten
  · have hsteer : steer im h = run (commonReturnM im) (run (commonFlag im) h) :=
      if_neg (fun heq => hzero (hflag.symm.trans heq))
    rw [hsteer]
    refine ⟨?_, fun r hr => ?_, ?_, ?_, fun a ha => ?_, fun heq => absurd heq hzero,
      fun _ => ⟨?_, ?_⟩⟩
    · simp [commonFlag, commonReturnM, Instr.exec, hbase]
    · simp [commonFlag, commonReturnM, Instr.exec, hkeep r hr]
    · simp [commonFlag, commonReturnM, Instr.exec]
    · simp [commonFlag, commonReturnM, Instr.exec]
    · simp [commonFlag, commonReturnM, Instr.exec, hbase, ha]
    · simp [commonFlag, commonReturnM, Instr.exec, hbase]
    · simp [commonFlag, commonReturnM, Instr.exec]

/-- The whole exit half, entered with `mscratch` at the area.  The flag alone
decides between the resume address the C handler wrote and `mtv_m_resume` in
M-mode; `t0` comes back as the C handler left it. -/
theorem leave_effect (im : Image) (h : Hart) (v : Reg → Word)
    (hbase : h.csr .mscratch = im.mtvRegs) (hframe : frame.Holds h.mem im.mtvRegs v)
    (hcallee : ∀ r, r.calleeSaved = true → h.regs r = v r) :
    (leave im h).regs = Function.update v .t0 (h.regs .t0) ∧
      (leave im h).csr .mscratch = im.mtvRegs ∧
      (leave im h).csr .mtvec = h.csr .mtvec ∧
      (leave im h).mem im.returnM = h.mem im.returnM ∧
      (h.mem im.returnM = 0 →
        (leave im h).pc = h.mem (addr im.mtvRegs resumeOff) ∧
        (leave im h).priv = mpp (h.csr .mstatus)) ∧
      (h.mem im.returnM ≠ 0 → (leave im h).pc = im.mResume ∧ (leave im h).priv = .machine) := by
  obtain ⟨ht0, hcallee', hscratch, htvec, hmem, hclear, hset⟩ := steer_effect im h hbase
  rw [leave, commonRestore_eq]
  generalize steer im h = s at ht0 hcallee' hscratch htvec hmem hclear hset
  have hregs : (run frame.restore s).regs = Function.update v .t0 (h.regs .t0) := by
    rw [← hscratch]
    apply frame.restore_regs
    · rw [ht0]
      exact hframe.of_agree fun a _ ha => hmem a ha
    · intro r hr
      rw [hcallee' r hr, hcallee r hr]
  have hflagMem : s.mem im.returnM = h.mem im.returnM :=
    hmem _ (ne_addr_of_not_inArea im.returnM_outside (i := 20) (by decide) rfl)
  have hrun := frame.run_restore s
  rw [ht0] at hrun
  refine ⟨hregs, ?_, ?_, ?_, fun hzero => ?_, fun hne => ?_⟩
  · rw [hrun, Hart.mret_csr_of_ne _ (by decide)]
    simp
  · rw [hrun, Hart.mret_csr_of_ne _ (by decide)]
    simpa using htvec
  · rw [hrun]
    exact hflagMem
  · obtain ⟨hresume, hstatus⟩ := hclear hzero
    rw [hrun]
    constructor
    · simpa using hresume
    · simp [hstatus]
  · obtain ⟨hresume, hstatus⟩ := hset hne
    rw [hrun]
    constructor
    · simpa using hresume
    · simp [hstatus, mpp_or_machine]

/-! ## One trap -/

/-- The C handler stores to `mtv_regs[20]` and `mtv_return_m` only. -/
theorem mtvCHandle_frame (im : Image) (g : Globals) (m : Mem) {a : Word}
    (hresume : a ≠ addr im.mtvRegs resumeOff) (hflag : a ≠ im.returnM) :
    (mtvCHandle im g m).2 a = m a := by
  unfold mtvCHandle
  dsimp only
  split_ifs <;> simp [Function.update_of_ne, hresume, hflag]

/-- One pass through stub `n` and the common handler with `mscratch` at the
area.  Every register but `t0` survives; `t0` is what the compiled C handler
left there. -/
theorem handle_effect (im : Image) (n : Nat) (g : Globals) (h : Hart) (left : Leftover)
    (hbase : h.csr .mscratch = im.mtvRegs) :
    let out := mtvCHandle im g (savedMem im n h)
    let h' := (handle im n g h left).2
    (handle im n g h left).1 = out.1 ∧
      h'.regs = Function.update h.regs .t0 (left.regs .t0) ∧
      h'.csr .mscratch = im.mtvRegs ∧
      h'.csr .mtvec = h.csr .mtvec ∧
      h'.mem im.returnM = out.2 im.returnM ∧
      (out.2 im.returnM = 0 →
        h'.pc = out.2 (addr im.mtvRegs resumeOff) ∧ h'.priv = mpp (h.csr .mstatus)) ∧
      (out.2 im.returnM ≠ 0 → h'.pc = im.mResume ∧ h'.priv = .machine) := by
  obtain ⟨hmem, hcsr, hregs⟩ := run_save im n h
  obtain ⟨-, -, -, hframe, -⟩ := savedMem_slots im n h
  rw [hbase, ← hmem] at hframe
  unfold handle
  generalize run (stub im n ++ commonSave) h = saved at hmem hcsr hregs hframe
  dsimp only
  rw [hmem]
  -- of the area the C handler writes the resume slot only
  have hC : ∀ a, InArea im.mtvRegs 24 a → a ≠ addr im.mtvRegs resumeOff →
      (mtvCHandle im g (savedMem im n h)).2 a = saved.mem a := by
    intro a ha hresume
    rw [mtvCHandle_frame im g _ hresume, hmem]
    rintro rfl
    exact im.returnM_outside ha
  generalize mtvCHandle im g (savedMem im n h) = out at hC
  have hretFrame := hframe.callC hC (Owned im) (fun _ ha => .inl ha) left.mem left.regs
    (left.regs .a0)
  -- what the compiled C handler returns with: it may have used every
  -- caller-saved register and all memory but the area and the flag
  generalize hret : ({ saved with mem := out.2 }.clobberMem (Owned im) left.mem).callC
    left.regs (left.regs .a0) = returned at hretFrame
  have hretMem : ∀ a, Owned im a → returned.mem a = out.2 a := by
    intro a ha
    rw [← hret]
    exact Hart.clobberMem_keep _ _ _ ha
  have hcallee : ∀ r : Reg, r.calleeSaved = true → returned.regs r = h.regs r := by
    intro r hr
    have hr1 : r ≠ .t1 := by rintro rfl; exact absurd hr (by decide)
    rw [← hret, Hart.callC_calleeSaved _ _ _ hr, ← hregs r hr1]
    rfl
  have hscratch : returned.csr .mscratch = im.mtvRegs := by
    rw [← hret, ← hbase, ← hcsr]
    rfl
  obtain ⟨hregs', hscratch', htvec', hflag', hclear, hset⟩ :=
    leave_effect im returned h.regs hscratch hretFrame hcallee
  have ht0 : returned.regs .t0 = left.regs .t0 := by rw [← hret]; rfl
  have htvec : returned.csr .mtvec = h.csr .mtvec := by rw [← hret, ← hcsr]; rfl
  have hstatus : returned.csr .mstatus = h.csr .mstatus := by rw [← hret, ← hcsr]; rfl
  have hflag : returned.mem im.returnM = out.2 im.returnM := hretMem _ (.inr rfl)
  have hresume : returned.mem (addr im.mtvRegs resumeOff) = out.2 (addr im.mtvRegs resumeOff) :=
    hretMem _ (.inl (inArea_addr (i := 20) (by decide) rfl))
  rw [hflag] at hflag' hclear hset
  rw [hresume, hstatus] at hclear
  rw [ht0] at hregs'
  exact ⟨rfl, hregs', hscratch', htvec'.trans htvec, hflag', hclear, hset⟩

end MtvecVectored
end BareMetal
