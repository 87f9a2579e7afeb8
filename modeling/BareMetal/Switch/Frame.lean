import BareMetal.Machine.Blocks
import BareMetal.Machine.Privilege

/-!
# Trapframes and the full-context switch

`src/preempt/trap.S` and `src/smode/strap.S` contain the same code, once for
the M-mode and once for the S-mode trap registers.  The code is embedded here
once, with the registers and symbols it names as parameters (`SwitchCode`).

A trapframe is 35 doublewords: `regs[0..31]`, the exception pc and the two
entry stamps.  The entry half fills the frame `*scratch` points at; the exit
half restores a context from the frame in `a0`.  The stamps are read into `t1`
*before* the register stores, so the frame's word for `t1` receives the cycle
stamp and not the interrupted `t1`; `entry_effect` says exactly that.
-/

namespace BareMetal
namespace Switch

open Machine

/-! ## Layout -/

/-- Byte offsets of the frame words behind the registers. -/
def TF_EPC : Nat := 256
@[inherit_doc TF_EPC] def TF_MTIME : Nat := 264
@[inherit_doc TF_EPC] def TF_CYCLE : Nat := 272

/-- Doublewords in a trapframe. -/
def TF_WORDS : Nat := 35

/-- A context at the moment it is interrupted or resumed. -/
structure Snap where
  regs : Reg → Word
  pc : Word

/-- The frame at `f` holds the context `s`. -/
structure FrameHolds (m : Mem) (f : Word) (s : Snap) : Prop where
  regs : ∀ r, m (addr f (numOff r)) = s.regs r
  epc : m (addr f TF_EPC) = s.pc

/-- A frame keeps its context when none of its words changes. -/
theorem FrameHolds.congr {m m' : Mem} {f : Word} {s : Snap} (hf : FrameHolds m f s)
    (hsame : ∀ a, InArea f TF_WORDS a → m' a = m a) : FrameHolds m' f s where
  regs := fun r => by rw [hsame _ (inArea_numOff f (by decide) r), hf.regs r]
  epc := (hsame _ (inArea_addr (i := 32) (by decide) rfl)).trans hf.epc

/-! ## The code -/

/-- The trap registers and the symbols the switch code names. -/
structure SwitchCode where
  scratch : Csr
  epc : Csr
  stackTop : Word
  exitCycles : Word
  exitMtime : Word
  scratch_ne_epc : scratch ≠ epc

/-- The register stores of the entry half.  `t0` is stored separately. -/
def savePairs : List (Reg × Nat) :=
  [(.ra, 8), (.sp, 16), (.gp, 24), (.tp, 32), (.t1, 48), (.t2, 56), (.s0, 64), (.s1, 72),
   (.a0, 80), (.a1, 88), (.a2, 96), (.a3, 104), (.a4, 112), (.a5, 120), (.a6, 128),
   (.a7, 136), (.s2, 144), (.s3, 152), (.s4, 160), (.s5, 168), (.s6, 176), (.s7, 184),
   (.s8, 192), (.s9, 200), (.s10, 208), (.s11, 216), (.t3, 224), (.t4, 232), (.t5, 240),
   (.t6, 248)]

/-- The entry half, up to the call of the C handler. -/
def SwitchCode.entry (c : SwitchCode) : List Instr :=
  [.csrrw .t0 c.scratch .t0,
   .rdtime .t1,
   .sd .t1 TF_MTIME .t0,
   .rdcycle .t1,
   .sd .t1 TF_CYCLE .t0] ++
  (sdAll .t0 savePairs ++
  [.csrr .t1 c.scratch,
   .sd .t1 40 .t0,
   .csrr .t1 c.epc,
   .sd .t1 TF_EPC .t0,
   .la .sp c.stackTop,
   .mv .a0 .t0])

/-- The register loads of the exit half.  `t0` and `t1` come last. -/
def loadPairs : List (Reg × Nat) :=
  [(.ra, 8), (.sp, 16), (.gp, 24), (.tp, 32), (.t2, 56), (.s0, 64), (.s1, 72),
   (.a0, 80), (.a1, 88), (.a2, 96), (.a3, 104), (.a4, 112), (.a5, 120), (.a6, 128),
   (.a7, 136), (.s2, 144), (.s3, 152), (.s4, 160), (.s5, 168), (.s6, 176), (.s7, 184),
   (.s8, 192), (.s9, 200), (.s10, 208), (.s11, 216), (.t3, 224), (.t4, 232), (.t5, 240),
   (.t6, 248)]

/-- The exit half, from the return of the C handler to the trap return. -/
def SwitchCode.exit (c : SwitchCode) : List Instr :=
  [.rdcycle .t1,
   .la .t2 c.exitCycles,
   .sd .t1 0 .t2,
   .rdtime .t1,
   .la .t2 c.exitMtime,
   .sd .t1 0 .t2,
   .mv .t1 .a0,
   .ld .t2 TF_EPC .t1,
   .csrw c.epc .t2] ++
  (ldAll .t1 loadPairs ++
  [.ld .t0 40 .t1,
   .csrw c.scratch .t1,
   .ld .t1 48 .t1])

/-! ## The entry half -/

/-- The registers of `savePairs` and `loadPairs`. -/
def saveRegs : List Reg := savePairs.map Prod.fst
@[inherit_doc saveRegs] def loadRegs : List Reg := loadPairs.map Prod.fst

theorem savePairs_eq_table : savePairs = table numOff saveRegs := by
  decide

theorem loadPairs_eq_table : loadPairs = table numOff loadRegs := by
  decide

theorem mem_saveRegs {r : Reg} : r ∈ saveRegs ↔ r ≠ .t0 := by
  cases r <;> decide

theorem mem_loadRegs {r : Reg} : r ∈ loadRegs ↔ r ≠ .t0 ∧ r ≠ .t1 := by
  cases r <;> decide

theorem run_entry (c : SwitchCode) (h : Hart) :
    let f := h.csr c.scratch
    let stamped := Function.update (Function.update (Function.update h.regs .t0 f)
      .t1 h.time) .t1 h.cycle
    (run c.entry h).mem =
        Function.update (Function.update
          (storeAll stamped f savePairs
            (Function.update (Function.update h.mem (addr f TF_MTIME) h.time)
              (addr f TF_CYCLE) h.cycle))
          (addr f 40) (h.regs .t0)) (addr f TF_EPC) (h.csr c.epc) ∧
      (run c.entry h).regs .a0 = f ∧
      (run c.entry h).csr = Function.update h.csr c.scratch (h.regs .t0) := by
  have hepc : c.epc ≠ c.scratch := c.scratch_ne_epc.symm
  refine ⟨?_, ?_, ?_⟩ <;>
    simp [SwitchCode.entry, run_append, run_sdAll, Instr.exec, Hart.setReg, Hart.setCsr,
      Hart.store, hepc]

/-- What the entry half leaves behind.  The frame holds the interrupted
context, except that the word of `t1` holds the cycle stamp; the stamps and
the exception pc are in their words; no other memory changes; and the handler
is called on the frame. -/
theorem entry_effect (c : SwitchCode) (h : Hart) :
    let f := h.csr c.scratch
    let h' := run c.entry h
    FrameHolds h'.mem f ⟨Function.update h.regs .t1 h.cycle, h.csr c.epc⟩ ∧
      h'.mem (addr f TF_MTIME) = h.time ∧
      h'.mem (addr f TF_CYCLE) = h.cycle ∧
      (∀ a, ¬ InArea f TF_WORDS a → h'.mem a = h.mem a) ∧
      h'.regs .a0 = f ∧
      ∀ k, k ≠ c.scratch → h'.csr k = h.csr k := by
  obtain ⟨hmem, ha0, hcsr⟩ := run_entry c h
  dsimp only at hmem ⊢
  generalize run c.entry h = h' at hmem ha0 hcsr
  generalize h.csr c.scratch = f at hmem ha0 ⊢
  have hepc : TF_EPC = 256 := rfl
  have hmtime : TF_MTIME = 264 := rfl
  have hcycle : TF_CYCLE = 272 := rfl
  have hwords : TF_WORDS = 35 := rfl
  -- words behind the registers are not touched by the register stores
  have hbehind : ∀ off, 256 ≤ off → off < 280 → ∀ (regs : Reg → Word) (m : Mem),
      storeAll regs f savePairs m (addr f off) = m (addr f off) := by
    intro off hlow hhigh regs m
    rw [savePairs_eq_table, storeAll_table_of_ne]
    intro r _ heq
    have hr := numOff_lt r
    have hoff := (addr_inj (by omega) (by omega)).mp heq
    omega
  refine ⟨⟨fun r => ?_, ?_⟩, ?_, ?_, fun a ha => ?_, ha0, fun k hk => ?_⟩
  · show h'.mem (addr f (numOff r)) = Function.update h.regs .t1 h.cycle r
    have hr := numOff_lt r
    rw [hmem, update_addr _ _ _ (by omega) (by omega), if_neg (by omega),
      update_addr _ _ _ (by omega) (by omega)]
    by_cases hr0 : r = .t0
    · subst hr0
      rfl
    · have hoff : numOff r ≠ 40 := fun hoff => hr0 (@numOff_injective r .t0 hoff)
      rw [if_neg hoff, savePairs_eq_table, storeAll_table _ _ _ (mem_saveRegs.mpr hr0)
        (fun q _ hq => numOff_injective hq) (fun q _ => by have := numOff_lt q; omega)]
      by_cases hr1 : r = .t1
      · rw [hr1, Function.update_self, Function.update_self]
      · rw [Function.update_of_ne hr1, Function.update_of_ne hr1, Function.update_of_ne hr0,
          Function.update_of_ne hr1]
  · rw [hmem, Function.update_self]
  · rw [hmem, update_addr _ _ _ (by omega) (by omega), if_neg (by omega),
      update_addr _ _ _ (by omega) (by omega), if_neg (by omega),
      hbehind _ (by omega) (by omega), update_addr _ _ _ (by omega) (by omega),
      if_neg (by omega), Function.update_self]
  · rw [hmem, update_addr _ _ _ (by omega) (by omega), if_neg (by omega),
      update_addr _ _ _ (by omega) (by omega), if_neg (by omega),
      hbehind _ (by omega) (by omega), Function.update_self]
  · rw [hmem, update_of_not_inArea ha _ _ (by omega), update_of_not_inArea ha _ _ (by omega),
      savePairs_eq_table, storeAll_table_of_ne, update_of_not_inArea ha _ _ (by omega),
      update_of_not_inArea ha _ _ (by omega)]
    intro r _
    have hr := r.num_lt
    exact ne_addr_of_not_inArea ha (i := r.num) (by omega) rfl
  · rw [hcsr, Function.update_of_ne hk]

/-! ## The exit half -/

/-- The register loads keep their base register. -/
theorem loadAll_loadPairs_t1 (m : Mem) (base : Word) (regs : Reg → Word) :
    loadAll m base loadPairs regs .t1 = regs .t1 := by
  rw [loadPairs_eq_table, loadAll_table, if_neg (by decide)]

/-- Memory after the exit stamps. -/
def stampedMem (c : SwitchCode) (h : Hart) : Mem :=
  Function.update (Function.update h.mem c.exitCycles h.cycle) c.exitMtime h.time

theorem run_exit (c : SwitchCode) (h : Hart) :
    let f := h.regs .a0
    let m := stampedMem c h
    (run c.exit h).mem = m ∧
      (run c.exit h).csr =
        Function.update (Function.update h.csr c.epc (m (addr f TF_EPC))) c.scratch f ∧
      ∃ regs : Reg → Word, (run c.exit h).regs =
        Function.update (Function.update (loadAll m f loadPairs regs) .t0 (m (addr f 40)))
          .t1 (m (addr f 48)) := by
  have hpairs : ∀ p ∈ loadPairs, p.1 ≠ Reg.t1 := by decide
  refine ⟨?_, ?_, Function.update (Function.update (Function.update (Function.update
    (Function.update (Function.update h.regs .t1 h.cycle) .t2 c.exitCycles)
    .t1 h.time) .t2 c.exitMtime) .t1 (h.regs .a0))
    .t2 (stampedMem c h (addr (h.regs .a0) TF_EPC)), ?_⟩ <;>
  simp [SwitchCode.exit, run_append, run_ldAll _ _ _ hpairs, loadAll_loadPairs_t1, Instr.exec,
    stampedMem, addr_zero, Hart.setReg, Hart.setCsr, Hart.store]

/-- What the exit half does with the frame in `a0`: it restores exactly the
context the frame holds, points `*scratch` at that frame, and stores nothing
but the two exit stamps. -/
theorem exit_effect (c : SwitchCode) (h : Hart) (s : Snap)
    (hframe : FrameHolds h.mem (h.regs .a0) s)
    (hcycles : ¬ InArea (h.regs .a0) TF_WORDS c.exitCycles)
    (hmtime : ¬ InArea (h.regs .a0) TF_WORDS c.exitMtime) :
    let h' := run c.exit h
    h'.regs = s.regs ∧ h'.csr c.scratch = h.regs .a0 ∧ h'.csr c.epc = s.pc ∧
      (∀ k, k ≠ c.scratch → k ≠ c.epc → h'.csr k = h.csr k) ∧
      h'.mem = stampedMem c h := by
  obtain ⟨hmem, hcsr, regs, hregs⟩ := run_exit c h
  dsimp only
  generalize run c.exit h = h' at hmem hcsr hregs
  have hkept : FrameHolds (stampedMem c h) (h.regs .a0) s := by
    refine hframe.congr fun a ha => ?_
    have hne₁ : a ≠ c.exitMtime := by rintro rfl; exact hmtime ha
    have hne₂ : a ≠ c.exitCycles := by rintro rfl; exact hcycles ha
    rw [stampedMem, Function.update_of_ne hne₁, Function.update_of_ne hne₂]
  refine ⟨?_, ?_, ?_, fun k hk₁ hk₂ => ?_, hmem⟩
  · rw [hregs]
    funext r
    by_cases hr1 : r = .t1
    · rw [hr1, Function.update_self]
      exact hkept.regs .t1
    rw [Function.update_of_ne hr1]
    by_cases hr0 : r = .t0
    · rw [hr0, Function.update_self]
      exact hkept.regs .t0
    · rw [Function.update_of_ne hr0, loadPairs_eq_table, loadAll_table,
        if_pos (mem_loadRegs.mpr ⟨hr0, hr1⟩), hkept.regs r]
  · rw [hcsr, Function.update_self]
  · rw [hcsr, Function.update_of_ne c.scratch_ne_epc.symm, Function.update_self, hkept.epc]
  · rw [hcsr, Function.update_of_ne hk₁, Function.update_of_ne hk₂]

end Switch
end BareMetal
