import BareMetal.Machine.Blocks
import BareMetal.Machine.Privilege

/-!
# The two trap entries of the mstatus.SIE lab

`src/mstatus-sie-toggle/msg_trap.S` has one trap entry for each mode.
`msg_m_trap_entry` pushes a frame on the interrupted stack and calls
`msg_m_handler`; `msg_s_trap_entry` swaps `t0` with `sscratch`, saves into
`msg_save`, and calls `msg_s_handler` on a stack of its own.  On the way out
the interrupted `t0` comes from `sscratch` and everything else from the save
area.

The effect of each entry is stated once: every register and the pc come back,
and the control registers move as the C handler says.
-/

namespace BareMetal
namespace MstatusSieToggle

open Machine

/-! ## The C handlers -/

/-- The supervisor software interrupt in `mip`, `mie` and `mideleg`. -/
def SSI : Word := BitVec.twoPow 64 1

/-- `3UL << 11`. -/
def MPP_FIELD : Word := 0x1800

/-- The globals of `msg_main.c` that the trap code reads or writes.  They are
accessed by name only, also by the assembly. -/
structure Statics where
  mTraps : Word
  mCause : Word
  mEpc : Word
  sTraps : Word
  sCause : Word
  sEpc : Word
  sTrapCycle : Word
  resumePc : Word
  expectEcall : BitVec 32

/-- `msg_m_handler`: the new globals, and the hart unless it is parked. -/
def msgMHandler (g : Statics) (h : Hart) : Statics × Option Hart :=
  let cause := h.csr .mcause
  let epc := h.csr .mepc
  let g := { g with mTraps := g.mTraps + 1, mCause := cause, mEpc := epc }
  if cause = 9 ∧ g.expectEcall ≠ 0 then
    let ms := (h.csr .mstatus &&& ~~~ MPP_FIELD) ||| MPP_FIELD
    ({ g with expectEcall := 0 }, some ((h.setCsr .mstatus ms).setCsr .mepc g.resumePc))
  else (g, none)

/-- `msg_s_handler`, with the cycle count it reads.  `sip` shows and writes
only the delegated bits of `mip`. -/
def msgSHandler (g : Statics) (h : Hart) (cycle : Word) : Statics × Hart :=
  let s := h.regs .a0
  ({ g with
      sCause := h.mem (addr s 16)
      sEpc := h.mem (addr s 24)
      sTraps := g.sTraps + 1
      sTrapCycle := cycle },
    h.setCsr .mip (h.csr .mip &&& ~~~ (SSI &&& h.csr .mideleg)))

/-- What a compiled handler leaves behind besides its C effects: the
caller-saved registers, the memory outside the caller's save area, and the
cycle count it read. -/
structure Leftover where
  regs : Reg → Word
  mem : Mem
  cycle : Word

/-! ## `msg_m_trap_entry` -/

/-- The registers of the M-mode frame, all but `sp`. -/
def mPairs : List (Reg × Nat) :=
  [(.ra, 0), (.gp, 8), (.tp, 16), (.t0, 24), (.t1, 32), (.t2, 40), (.s0, 48), (.s1, 56),
   (.a0, 64), (.a1, 72), (.a2, 80), (.a3, 88), (.a4, 96), (.a5, 104), (.a6, 112), (.a7, 120),
   (.s2, 128), (.s3, 136), (.s4, 144), (.s5, 152), (.s6, 160), (.s7, 168), (.s8, 176),
   (.s9, 184), (.s10, 192), (.s11, 200), (.t3, 208), (.t4, 216), (.t5, 224), (.t6, 232)]

def mTrapSave : List Instr :=
  .addi .sp .sp (-256) :: sdAll .sp mPairs

def mTrapRestore : List Instr :=
  ldAll .sp mPairs ++ [.addi .sp .sp 256]

/-- `msg_m_trap_entry` with the handler called in the middle. -/
def mTrapEntry (g : Statics) (h : Hart) (left : Leftover) : Statics × Option Hart :=
  let saved := run mTrapSave h
  let out := msgMHandler g saved
  (out.1, out.2.map fun called =>
    let returned := (called.clobberMem (InArea (saved.regs .sp) 32) left.mem).callC left.regs
      (left.regs .a0)
    (run mTrapRestore returned).mret)

/-! ## `msg_s_trap_entry` -/

/-- The registers saved and reloaded together, all but `t0` and `t1`. -/
def sPairs : List (Reg × Nat) :=
  [(.ra, 32), (.sp, 40), (.gp, 48), (.tp, 56), (.t2, 64), (.s0, 72), (.s1, 80),
   (.a0, 88), (.a1, 96), (.a2, 104), (.a3, 112), (.a4, 120), (.a5, 128), (.a6, 136),
   (.a7, 144), (.s2, 152), (.s3, 160), (.s4, 168), (.s5, 176), (.s6, 184), (.s7, 192),
   (.s8, 200), (.s9, 208), (.s10, 216), (.s11, 224), (.t3, 232), (.t4, 240), (.t5, 248),
   (.t6, 256)]

/-- Doublewords of `msg_save`. -/
def SAVE_WORDS : Nat := 33

def sTrapSave (stackTop : Word) : List Instr :=
  [.csrrw .t0 .sscratch .t0,
   .sd .t1 8 .t0] ++
  (sdAll .t0 sPairs ++
  [.csrr .t1 .sscratch,
   .sd .t1 0 .t0,
   .csrr .t1 .scause,
   .sd .t1 16 .t0,
   .csrr .t1 .sepc,
   .sd .t1 24 .t0,
   .la .sp stackTop,
   .mv .a0 .t0])

def sTrapRestore (msgSave : Word) : List Instr :=
  [.la .t0 msgSave,
   .ld .t1 24 .t0,
   .csrw .sepc .t1] ++
  (ldAll .t0 sPairs ++
  [.ld .t1 8 .t0,
   .csrrw .t0 .sscratch .t0])

/-- `msg_s_trap_entry` up to its `sret`, with the handler called in the middle. -/
def sTrapBody (msgSave stackTop : Word) (g : Statics) (h : Hart) (left : Leftover) :
    Statics × Hart :=
  let saved := run (sTrapSave stackTop) h
  let out := msgSHandler g saved left.cycle
  let returned := (out.2.clobberMem (InArea msgSave SAVE_WORDS) left.mem).callC left.regs
    (left.regs .a0)
  (out.1, run (sTrapRestore msgSave) returned)

/-- `msg_s_trap_entry`, where its `sret` is legal. -/
def sTrapEntry (msgSave stackTop : Word) (g : Statics) (h : Hart) (left : Leftover) :
    Statics × Hart :=
  let body := sTrapBody msgSave stackTop g h left
  (body.1, body.2.sret)

/-! ## The slots -/

/-- Byte offset of a register in the M-mode frame. -/
def mOff : Reg → Nat
  | .ra => 0
  | r => 8 * (r.num - 2)

/-- Byte offset of a register in `msg_save`. -/
def sOff (r : Reg) : Nat :=
  if r.num ≤ 4 then 8 * r.num + 24 else 8 * r.num + 8

def mRegs : List Reg := mPairs.map Prod.fst
def sRegs : List Reg := sPairs.map Prod.fst

theorem mPairs_eq_table : mPairs = table mOff mRegs := by
  decide

theorem sPairs_eq_table : sPairs = table sOff sRegs := by
  decide

theorem mem_mRegs {r : Reg} : r ∈ mRegs ↔ r ≠ .sp := by
  cases r <;> decide

theorem mem_sRegs {r : Reg} : r ∈ sRegs ↔ r ≠ .t0 ∧ r ≠ .t1 := by
  cases r <;> decide

theorem mOff_inj {q r : Reg} (hq : q ≠ .sp) (hr : r ≠ .sp) (h : mOff q = mOff r) : q = r := by
  have hboth : ∀ q r : Reg, q ≠ .sp → r ≠ .sp → mOff q = mOff r → q = r := by decide
  exact hboth q r hq hr h

theorem mOff_lt (r : Reg) : mOff r < 240 := by
  cases r <;> decide

theorem mOff_inArea (base : Word) (r : Reg) : InArea base 32 (addr base (mOff r)) := by
  have hslot : ∀ r : Reg, mOff r = 8 * (mOff r / 8) := by decide
  have hlt := mOff_lt r
  exact inArea_addr (i := mOff r / 8) (by omega) (hslot r)

theorem sOff_inj {q r : Reg} (hq : q ≠ .t0 ∧ q ≠ .t1) (hr : r ≠ .t0 ∧ r ≠ .t1)
    (h : sOff q = sOff r) : q = r := by
  have hboth : ∀ q r : Reg, (q ≠ .t0 ∧ q ≠ .t1) → (r ≠ .t0 ∧ r ≠ .t1) →
      sOff q = sOff r → q = r := by decide
  exact hboth q r hq hr h

theorem sOff_bounds (r : Reg) : 32 ≤ sOff r ∧ sOff r < 264 := by
  cases r <;> decide

theorem sOff_inArea (base : Word) (r : Reg) :
    InArea base SAVE_WORDS (addr base (sOff r)) := by
  have hslot : ∀ r : Reg, sOff r = 8 * (sOff r / 8) := by decide
  have hlt := (sOff_bounds r).2
  have hwords : SAVE_WORDS = 33 := rfl
  exact inArea_addr (i := sOff r / 8) (by omega) (hslot r)

/-! ## The effect of `msg_m_trap_entry` -/

theorem run_mTrapSave (h : Hart) :
    let base := h.regs .sp + (-256)
    let pushed := Function.update h.regs .sp base
    run mTrapSave h =
      { h with regs := pushed, mem := storeAll pushed base mPairs h.mem } := by
  simp only [mTrapSave, run_cons, Instr.exec, run_sdAll, Hart.setReg, Function.update_self]

/-- The frame holds every register but `sp`. -/
theorem mTrapSave_mem (h : Hart) {r : Reg} (hr : r ≠ .sp) :
    (run mTrapSave h).mem (addr (h.regs .sp + (-256)) (mOff r)) = h.regs r := by
  rw [run_mTrapSave]
  dsimp only
  rw [mPairs_eq_table, storeAll_table _ _ _ (mem_mRegs.mpr hr)
    (fun q hq hoff => mOff_inj (mem_mRegs.mp hq) hr hoff)
    (fun q _ => by have := mOff_lt q; omega), Function.update_of_ne hr]

theorem run_mTrapRestore (h : Hart) :
    let loaded := loadAll h.mem (h.regs .sp) mPairs h.regs
    run mTrapRestore h = { h with regs := Function.update loaded .sp (h.regs .sp + 256) } := by
  have hpairs : ∀ p ∈ mPairs, p.1 ≠ Reg.sp := by decide
  have hsp : loadAll h.mem (h.regs .sp) mPairs h.regs .sp = h.regs .sp := by
    rw [mPairs_eq_table, loadAll_table, if_neg (by decide)]
  rw [mTrapRestore, run_append, run_ldAll _ _ _ hpairs]
  simp only [run_cons, run_nil, Instr.exec, Hart.setReg, hsp]

/-- Raising `MPP` makes the return go to M-mode. -/
theorem mpp_raised (status : Word) :
    mpp ((status &&& ~~~ MPP_FIELD) ||| MPP_FIELD) = .machine := by
  have hbit : ((status &&& ~~~ MPP_FIELD) ||| MPP_FIELD).getLsbD 12 = true := by
    rw [BitVec.getLsbD_or]
    have hfield : MPP_FIELD.getLsbD 12 = true := by decide
    rw [hfield, Bool.or_true]
  rw [mpp, if_pos hbit]

/-- The expected `ecall`: every register comes back, and the hart goes on at
the registered resume address in M-mode. -/
theorem mTrapEntry_expected (g : Statics) (h : Hart) (left : Leftover)
    (hcause : h.csr .mcause = 9) (hexpect : g.expectEcall ≠ 0) :
    ∃ h', mTrapEntry g h left =
        ({ g with
            mTraps := g.mTraps + 1, mCause := 9, mEpc := h.csr .mepc, expectEcall := 0 },
          some h') ∧
      h'.regs = h.regs ∧ h'.pc = g.resumePc ∧ h'.priv = .machine ∧
      h'.csr .mip = h.csr .mip ∧
      h'.csr .mstatus = leaveM ((h.csr .mstatus &&& ~~~ MPP_FIELD) ||| MPP_FIELD) := by
  have hframe : ∀ {r : Reg}, r ≠ .sp → _ := fun {r} hr => mTrapSave_mem h (r := r) hr
  have hsaved := run_mTrapSave h
  unfold mTrapEntry
  generalize run mTrapSave h = saved at hframe hsaved
  have hregs : saved.regs = Function.update h.regs .sp (h.regs .sp + (-256)) := by
    rw [hsaved]
  have hsp : saved.regs .sp = h.regs .sp + (-256) := by
    rw [hregs, Function.update_self]
  have hcsr : saved.csr = h.csr := by rw [hsaved]
  have hhandler : msgMHandler g saved =
      ({ g with
          mTraps := g.mTraps + 1, mCause := 9, mEpc := h.csr .mepc, expectEcall := 0 },
        some ((saved.setCsr .mstatus
          ((h.csr .mstatus &&& ~~~ MPP_FIELD) ||| MPP_FIELD)).setCsr .mepc g.resumePc)) := by
    rw [msgMHandler]
    dsimp only
    rw [hcsr, hcause, if_pos ⟨rfl, hexpect⟩]
  dsimp only
  rw [hhandler]
  dsimp only
  refine ⟨_, rfl, ?_, rfl, ?_, ?_, ?_⟩
  · -- the frame is the caller's, so the handler has not written to it
    rw [Hart.mret_regs, run_mTrapRestore]
    funext r
    have hcallee : ∀ (k : Hart) (clobber : Reg → Word) (res : Word),
        (k.callC clobber res).regs .sp = k.regs .sp := fun _ _ _ => rfl
    dsimp only
    rw [hcallee]
    show Function.update (loadAll _ (saved.regs .sp) mPairs _) .sp (saved.regs .sp + 256) r = _
    by_cases hr : r = .sp
    · rw [hr, Function.update_self, hsp, add_assoc]
      exact add_zero _
    · rw [Function.update_of_ne hr, mPairs_eq_table, loadAll_table, if_pos (mem_mRegs.mpr hr),
        Hart.callC_mem, Hart.clobberMem_keep _ _ _ (mOff_inArea (saved.regs .sp) r), hsp]
      exact hframe hr
  · rw [Hart.mret_priv, run_mTrapRestore]
    exact mpp_raised (h.csr .mstatus)
  · rw [Hart.mret_csr_of_ne _ (by decide), run_mTrapRestore]
    exact congrFun hcsr .mip
  · rw [Hart.mret_mstatus, run_mTrapRestore]
    rfl

/-- Any other cause parks the hart in the handler. -/
theorem mTrapEntry_parks (g : Statics) (h : Hart) (left : Leftover) (hcause : h.csr .mcause ≠ 9) :
    (mTrapEntry g h left).2 = none ∧ (mTrapEntry g h left).1.sTraps = g.sTraps := by
  have hcsr : (run mTrapSave h).csr = h.csr := by rw [run_mTrapSave]
  have hhandler : msgMHandler g (run mTrapSave h) =
      ({ g with mTraps := g.mTraps + 1, mCause := h.csr .mcause, mEpc := h.csr .mepc },
        none) := by
    rw [msgMHandler]
    dsimp only
    rw [hcsr, if_neg (fun hboth => hcause hboth.1)]
  unfold mTrapEntry
  dsimp only
  rw [hhandler]
  exact ⟨rfl, rfl⟩

/-! ## The effect of `msg_s_trap_entry` -/

theorem run_sTrapSave (stackTop : Word) (h : Hart) :
    let base := h.csr .sscratch
    let swapped := Function.update h.regs .t0 base
    (run (sTrapSave stackTop) h).mem =
        Function.update (Function.update (Function.update
          (storeAll swapped base sPairs (Function.update h.mem (addr base 8) (h.regs .t1)))
          (addr base 0) (h.regs .t0)) (addr base 16) (h.csr .scause))
          (addr base 24) (h.csr .sepc) ∧
      (run (sTrapSave stackTop) h).regs .a0 = base ∧
      (run (sTrapSave stackTop) h).csr = Function.update h.csr .sscratch (h.regs .t0) := by
  refine ⟨?_, ?_, ?_⟩ <;>
    simp [sTrapSave, run_append, run_sdAll, Instr.exec, Hart.setReg, Hart.setCsr, Hart.store]

/-- The save area holds every register but `t0`, the cause and the pc. -/
theorem sTrapSave_mem (stackTop : Word) (h : Hart) :
    let base := h.csr .sscratch
    let m := (run (sTrapSave stackTop) h).mem
    (∀ r, r ≠ .t0 ∧ r ≠ .t1 → m (addr base (sOff r)) = h.regs r) ∧
      m (addr base 8) = h.regs .t1 ∧ m (addr base 16) = h.csr .scause ∧
      m (addr base 24) = h.csr .sepc := by
  obtain ⟨hmem, -, -⟩ := run_sTrapSave stackTop h
  dsimp only at hmem ⊢
  generalize (run (sTrapSave stackTop) h).mem = m at hmem
  generalize h.csr .sscratch = base at hmem
  subst hmem
  refine ⟨fun r hr => ?_, ?_, ?_, ?_⟩
  · have hoff := sOff_bounds r
    rw [update_addr _ _ _ (by omega) (by omega), if_neg (by omega),
      update_addr _ _ _ (by omega) (by omega), if_neg (by omega),
      update_addr _ _ _ (by omega) (by omega), if_neg (by omega), sPairs_eq_table,
      storeAll_table _ _ _ (mem_sRegs.mpr hr)
        (fun q hq heq => sOff_inj (mem_sRegs.mp hq) hr heq)
        (fun q _ => by have := (sOff_bounds q).2; omega), Function.update_of_ne hr.1]
  · rw [update_addr _ _ _ (by omega) (by omega), if_neg (by omega),
      update_addr _ _ _ (by omega) (by omega), if_neg (by omega),
      update_addr _ _ _ (by omega) (by omega), if_neg (by omega), sPairs_eq_table,
      storeAll_table_of_ne, Function.update_self]
    intro r _ heq
    have hoff := sOff_bounds r
    rw [addr_inj (by omega) (by omega)] at heq
    omega
  · rw [update_addr _ _ _ (by omega) (by omega), if_neg (by omega), Function.update_self]
  · rw [Function.update_self]

theorem run_sTrapRestore (msgSave : Word) (h : Hart) :
    ∃ scratch : Reg → Word,
      (run (sTrapRestore msgSave) h).regs =
          Function.update (Function.update (loadAll h.mem msgSave sPairs scratch) .t1
            (h.mem (addr msgSave 8))) .t0 (h.csr .sscratch) ∧
      (run (sTrapRestore msgSave) h).csr =
        Function.update (Function.update h.csr .sepc (h.mem (addr msgSave 24)))
          .sscratch msgSave := by
  have hpairs : ∀ p ∈ sPairs, p.1 ≠ Reg.t0 := by decide
  have ht0 : ∀ regs : Reg → Word, loadAll h.mem msgSave sPairs regs .t0 = regs .t0 := by
    intro regs
    rw [sPairs_eq_table, loadAll_table, if_neg (by decide)]
  refine ⟨Function.update (Function.update h.regs .t0 msgSave) .t1 (h.mem (addr msgSave 24)),
    ?_, ?_⟩ <;>
    simp [sTrapRestore, run_append, run_ldAll _ _ _ hpairs, ht0, Instr.exec, Hart.setReg,
      Hart.setCsr]

/-- Up to the `sret` the trap has been counted, and the mode and the status are as
the trap set them. -/
theorem sTrapBody_status (msgSave stackTop : Word) (g : Statics) (h : Hart) (left : Leftover) :
    let body := sTrapBody msgSave stackTop g h left
    body.1.sTraps = g.sTraps + 1 ∧ body.2.priv = h.priv ∧
      body.2.csr .mstatus = h.csr .mstatus := by
  obtain ⟨-, -, hcsr⟩ := run_sTrapSave stackTop h
  have hpriv := run_priv (sTrapSave stackTop) h
  unfold sTrapBody
  dsimp only at hcsr ⊢
  generalize run (sTrapSave stackTop) h = saved at hcsr hpriv
  generalize hreturned : ((msgSHandler g saved left.cycle).2.clobberMem
    (InArea msgSave SAVE_WORDS) left.mem).callC left.regs (left.regs .a0) = returned
  have hkept : returned.priv = saved.priv ∧ returned.csr .mstatus = saved.csr .mstatus := by
    rw [← hreturned]
    exact ⟨rfl, rfl⟩
  obtain ⟨scratch, -, hrestored⟩ := run_sTrapRestore msgSave returned
  refine ⟨rfl, ?_, ?_⟩
  · rw [run_priv, hkept.1, hpriv]
  · rw [hrestored, Function.update_of_ne (by decide), Function.update_of_ne (by decide), hkept.2,
      hcsr, Function.update_of_ne (by decide)]

/-- What an S-mode trap leaves behind. -/
structure Serviced (msgSave : Word) (g : Statics) (h : Hart) (left : Leftover)
    (out : Statics × Hart) : Prop where
  regs : out.2.regs = h.regs
  pc : out.2.pc = h.csr .sepc
  priv : out.2.priv = spp (h.csr .mstatus)
  mstatus : out.2.csr .mstatus = leaveS (h.csr .mstatus)
  mip : out.2.csr .mip = h.csr .mip &&& ~~~ (SSI &&& h.csr .mideleg)
  sscratch : out.2.csr .sscratch = msgSave
  csr : ∀ k, k ≠ .mstatus → k ≠ .mip → k ≠ .sscratch → k ≠ .sepc → out.2.csr k = h.csr k
  statics : out.1 =
    { g with
      sCause := h.csr .scause, sEpc := h.csr .sepc, sTraps := g.sTraps + 1,
      sTrapCycle := left.cycle }

/-- With `sscratch` at the save area, the entry gives every register back, `t0`
through `sscratch` and the others through the area. -/
theorem sTrapEntry_serviced (msgSave stackTop : Word) (g : Statics) (h : Hart) (left : Leftover)
    (hscratch : h.csr .sscratch = msgSave) :
    Serviced msgSave g h left (sTrapEntry msgSave stackTop g h left) := by
  obtain ⟨-, ha0, hcsr⟩ := run_sTrapSave stackTop h
  obtain ⟨hwords, hword8, hword16, hword24⟩ := sTrapSave_mem stackTop h
  have hpriv := run_priv (sTrapSave stackTop) h
  unfold sTrapEntry sTrapBody
  dsimp only at ha0 hcsr hwords hword8 hword16 hword24 ⊢
  generalize run (sTrapSave stackTop) h = saved at *
  rw [hscratch] at ha0 hwords hword8 hword16 hword24
  generalize hreturned : ((msgSHandler g saved left.cycle).2.clobberMem
    (InArea msgSave SAVE_WORDS) left.mem).callC left.regs (left.regs .a0) = returned
  -- the save area is the caller's, so the handler has not written to it
  have hkept : ∀ {off}, InArea msgSave SAVE_WORDS (addr msgSave off) →
      returned.mem (addr msgSave off) = saved.mem (addr msgSave off) := by
    intro off hin
    rw [← hreturned]
    exact Hart.clobberMem_keep (msgSHandler g saved left.cycle).2 _ left.mem hin
  have hreturnedCsr : returned.csr = Function.update saved.csr .mip
      (saved.csr .mip &&& ~~~ (SSI &&& saved.csr .mideleg)) := by
    rw [← hreturned]
    rfl
  obtain ⟨scratch, hregs, hcsr'⟩ := run_sTrapRestore msgSave returned
  have hwhole : ∀ k, k ≠ .sepc → k ≠ .sscratch → k ≠ .mip →
      (run (sTrapRestore msgSave) returned).csr k = h.csr k := by
    intro k hsepc hscr hmip
    rw [hcsr', Function.update_of_ne hscr, Function.update_of_ne hsepc, hreturnedCsr,
      Function.update_of_ne hmip, hcsr, Function.update_of_ne hscr]
  refine ⟨?_, ?_, ?_, ?_, ?_, ?_, fun k h₁ h₂ h₃ h₄ => ?_, ?_⟩
  · rw [Hart.sret_regs, hregs]
    funext r
    by_cases hr0 : r = .t0
    · rw [hr0, Function.update_self, hreturnedCsr, Function.update_of_ne (by decide), hcsr,
        Function.update_self]
    rw [Function.update_of_ne hr0]
    by_cases hr1 : r = .t1
    · rw [hr1, Function.update_self, hkept (inArea_addr (i := 1) (by decide) rfl)]
      exact hword8
    · rw [Function.update_of_ne hr1, sPairs_eq_table, loadAll_table,
        if_pos (mem_sRegs.mpr ⟨hr0, hr1⟩), hkept (sOff_inArea msgSave r)]
      exact hwords r ⟨hr0, hr1⟩
  · rw [Hart.sret_pc, hcsr', Function.update_of_ne (by decide), Function.update_self,
      hkept (inArea_addr (i := 3) (by decide) rfl)]
    exact hword24
  · show spp ((run (sTrapRestore msgSave) returned).csr .mstatus) = _
    rw [hwhole .mstatus (by decide) (by decide) (by decide)]
  · show leaveS ((run (sTrapRestore msgSave) returned).csr .mstatus) = _
    rw [hwhole .mstatus (by decide) (by decide) (by decide)]
  · rw [Hart.sret_csr_of_ne _ (by decide), hcsr', Function.update_of_ne (by decide),
      Function.update_of_ne (by decide), hreturnedCsr, Function.update_self, hcsr,
      Function.update_of_ne (by decide), Function.update_of_ne (by decide)]
  · rw [Hart.sret_csr_of_ne _ (by decide), hcsr', Function.update_self]
  · rw [Hart.sret_csr_of_ne _ h₁, hwhole k h₄ h₃ h₂]
  · show ({ g with
        sCause := saved.mem (addr (saved.regs .a0) 16)
        sEpc := saved.mem (addr (saved.regs .a0) 24)
        sTraps := g.sTraps + 1
        sTrapCycle := left.cycle } : Statics) = _
    rw [ha0, hword16, hword24]

end MstatusSieToggle
end BareMetal
