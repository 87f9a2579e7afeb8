import BareMetal.Machine.Blocks
import BareMetal.Machine.Privilege
import BareMetal.Machine.Runs

/-!
# The ecall ABI lab: trap entry and dispatcher

`src/ecall/ecall_trap.S` saves `x1`-`x31` into `ecall_regs`, calls the C
dispatcher `ecall_handle` of `src/ecall/ecall_main.c`, and restores every
register.  The interrupted `t0` rides in `mscratch`, the save-area base in
the callee-saved `s0`, and the resume pc goes through the unused word 0 of the
save area.

This module holds the embedding and the effect of one trap; the results about
sequences of traps are in `Ecall.RoundTrip`.
-/

namespace BareMetal
namespace Ecall

open Machine

/-! ## The dispatcher -/

/-- Rows of `ecall_log`. -/
def ELOG_N : Word := 4

def SVC_XOR_ARGS : Word := 1
def SVC_EXIT_MMODE : Word := 0xE11

/-- The word of an `ecall` instruction. -/
def ecallWord : BitVec 32 := 0x00000073

/-- Register numbers of `t0`-`t6`, in order. -/
def tno : List Nat := [5, 6, 7, 28, 29, 30, 31]

/-- The globals of `ecall_main.c` that the dispatcher reads and writes.
`log n` is row `n` of `ecall_log`, column by column. -/
structure Globals where
  log : Nat → Nat → Word
  ncalls : Word
  unexpected : Word
  exitResumePc : Word

/-- What the service part of `ecall_handle` decides: the result it logs, the
resume pc, the new `ecall_unexpected` and the new contents of memory. -/
structure Service where
  res : Word
  resume : Word
  unexpected : Word
  mem : Mem

/-- The service part of `ecall_handle`; `r` points at the save area. -/
def serve (g : Globals) (mem : Mem) (r mcause mepc : Word) (insn : BitVec 32) : Service :=
  let arg := fun k => mem (addr r (8 * k))
  let svc := arg 17
  if mcause = 9 ∧ insn = ecallWord then
    if svc = SVC_XOR_ARGS then
      let res := arg 10 ^^^ arg 11 ^^^ arg 12 ^^^ arg 13 ^^^ arg 14 ^^^ arg 15
      ⟨res, mepc + 4, g.unexpected, Function.update mem (addr r (8 * 10)) res⟩
    else if svc = SVC_EXIT_MMODE then
      ⟨0, g.exitResumePc, g.unexpected, mem⟩
    else
      ⟨0, mepc + 4, 1, mem⟩
  else
    ⟨0, mepc + 4, 1, mem⟩

/-- Row `n` of the log after the dispatcher's stores to it. -/
def logRow (mem : Mem) (r mcause mepc : Word) (insn : BitVec 32) (res resume : Word)
    (old : Nat → Word) : Nat → Word := fun j =>
  if j = 0 then mcause
  else if j = 1 then mepc
  else if j = 2 then insn.setWidth 64
  else if j < 3 + 8 then mem (addr r (8 * (10 + (j - 3))))
  else if j < 11 + 7 then mem (addr r (8 * tno.getD (j - 11) 0))
  else if j = 18 then res
  else if j = 19 then resume
  else old j

/-- `ecall_handle(r)`: the new globals, the new memory and the returned resume
pc.  `code` is the program text; `none` is the `wfi` loop of a full log. -/
def ecallHandle (code : Word → BitVec 32) (g : Globals) (h : Hart) (r : Word) :
    Option (Globals × Mem × Word) :=
  let mcause := h.csr .mcause
  let mepc := h.csr .mepc
  let insn := code mepc
  let n := g.ncalls
  if ELOG_N ≤ n then none
  else
    let s := serve g h.mem r mcause mepc insn
    let row := logRow h.mem r mcause mepc insn s.res s.resume (g.log n.toNat)
    some ({ g with
        log := Function.update g.log n.toNat row
        ncalls := n + 1
        unexpected := s.unexpected }, s.mem, s.resume)

/-! ## The trap entry -/

/-- The registers stored and reloaded at their own word of the save area:
`x1`-`x31` without `x5`. -/
def areaPairs : List (Reg × Nat) :=
  [(.ra, 1 * 8), (.sp, 2 * 8), (.gp, 3 * 8), (.tp, 4 * 8),
   (.t1, 6 * 8), (.t2, 7 * 8), (.s0, 8 * 8), (.s1, 9 * 8),
   (.a0, 10 * 8), (.a1, 11 * 8), (.a2, 12 * 8), (.a3, 13 * 8),
   (.a4, 14 * 8), (.a5, 15 * 8), (.a6, 16 * 8), (.a7, 17 * 8),
   (.s2, 18 * 8), (.s3, 19 * 8), (.s4, 20 * 8), (.s5, 21 * 8),
   (.s6, 22 * 8), (.s7, 23 * 8), (.s8, 24 * 8), (.s9, 25 * 8),
   (.s10, 26 * 8), (.s11, 27 * 8), (.t3, 28 * 8), (.t4, 29 * 8),
   (.t5, 30 * 8), (.t6, 31 * 8)]

/-- `ecall_trap_entry` up to the call. -/
def trapSave : List Instr :=
  [.csrrw .t0 .mscratch .t0] ++
  (sdAll .t0 areaPairs ++
  [.csrr .t1 .mscratch,
   .sd .t1 (5 * 8) .t0,
   .mv .s0 .t0,
   .mv .a0 .t0])

/-- `ecall_trap_entry` behind the call, without the final `mret`. -/
def trapRestore : List Instr :=
  [.mv .t0 .s0,
   .sd .a0 (0 * 8) .t0] ++
  (ldAll .t0 areaPairs ++
  [.ld .t1 (0 * 8) .t0,
   .csrw .mepc .t1,
   .ld .t1 (6 * 8) .t0,
   .csrrw .t0 .mscratch .t0])

/-- What the compiled dispatcher leaves behind besides its C effects: the
caller-saved registers and the memory outside the save area. -/
structure Leftover where
  regs : Reg → Word
  mem : Mem

/-- `ecall_trap_entry` with the dispatcher called in the middle. -/
def trapEntry (code : Word → BitVec 32) (ecallRegs : Word) (g : Globals) (h : Hart)
    (left : Leftover) : Option (Globals × Hart) :=
  let saved := run trapSave h
  (ecallHandle code g saved (saved.regs .a0)).map fun out =>
    let returned := ({ saved with mem := out.2.1 }.clobberMem
      (InArea ecallRegs 32) left.mem).callC left.regs out.2.2
    (out.1, (run trapRestore returned).mret)

/-! ## The effect of one trap -/

/-- The registers of `areaPairs`. -/
def areaRegs : List Reg :=
  areaPairs.map Prod.fst

theorem areaPairs_eq_table : areaPairs = table numOff areaRegs := by
  decide

theorem mem_areaRegs {r : Reg} : r ∈ areaRegs ↔ r ≠ .t0 := by
  cases r <;> decide

theorem run_trapSave (h : Hart) :
    let base := h.csr .mscratch
    let swapped := Function.update h.regs .t0 base
    run trapSave h =
      { h with
        regs := Function.update (Function.update
          (Function.update swapped .t1 (h.regs .t0)) .s0 base) .a0 base
        csr := Function.update h.csr .mscratch (h.regs .t0)
        mem := Function.update (storeAll swapped base areaPairs h.mem)
          (addr base (5 * 8)) (h.regs .t0) } := by
  simp [trapSave, run_append, run_sdAll, Instr.exec, Hart.setReg, Hart.setCsr, Hart.store]

/-- After the save half every register is at its own word of the area. -/
theorem trapSave_mem (h : Hart) (r : Reg) :
    (run trapSave h).mem (addr (h.csr .mscratch) (numOff r)) = h.regs r := by
  rw [run_trapSave]
  dsimp only
  have hr := numOff_lt r
  rw [update_addr _ _ _ (by omega) (by omega)]
  by_cases ht0 : r = .t0
  · subst ht0
    rfl
  · have hoff : numOff r ≠ 5 * 8 := fun hoff => ht0 (@numOff_injective r .t0 hoff)
    rw [if_neg hoff, areaPairs_eq_table,
      storeAll_table _ _ _ (mem_areaRegs.mpr ht0) (fun q _ hq => numOff_injective hq)
        (fun q _ => by have := numOff_lt q; omega), Function.update_of_ne ht0]

/-- The reload of the area keeps its base register. -/
theorem loadAll_areaPairs_t0 (m : Mem) (base : Word) (regs : Reg → Word) :
    loadAll m base areaPairs regs .t0 = regs .t0 := by
  rw [areaPairs_eq_table, loadAll_table, if_neg (by decide)]

theorem run_trapRestore (h : Hart) :
    let base := h.regs .s0
    let mem := Function.update h.mem (addr base (0 * 8)) (h.regs .a0)
    let loaded := loadAll mem base areaPairs (Function.update h.regs .t0 base)
    run trapRestore h =
      { h with
        regs := Function.update (Function.update (Function.update loaded .t1 (h.regs .a0))
          .t1 (mem (addr base (6 * 8)))) .t0 (h.csr .mscratch)
        csr := Function.update (Function.update h.csr .mepc (h.regs .a0)) .mscratch base
        mem := mem } := by
  have hpairs : ∀ p ∈ areaPairs, p.1 ≠ Reg.t0 := by decide
  simp [trapRestore, run_append, run_ldAll _ _ _ hpairs, loadAll_areaPairs_t0,
    Instr.exec, Hart.setReg, Hart.setCsr, Hart.store]

/-- The restore half, entered with the area base in `s0` and the area words of
all registers but `t0` given by `v`, puts `v` back: `t0` comes from
`mscratch`, and the resume pc from `a0`. -/
theorem trapRestore_effect (h : Hart) (v : Reg → Word)
    (hv : ∀ r, r ≠ .t0 → h.mem (addr (h.regs .s0) (numOff r)) = v r)
    (ht0 : h.csr .mscratch = v .t0) :
    (run trapRestore h).regs = v ∧
      (run trapRestore h).csr .mepc = h.regs .a0 ∧
      (run trapRestore h).csr .mscratch = h.regs .s0 ∧
      (run trapRestore h).csr .mstatus = h.csr .mstatus := by
  rw [run_trapRestore]
  refine ⟨?_, by simp, by simp, by simp⟩
  -- word 0 of the area, used to stash the resume pc, belongs to no register
  have hstash : ∀ r, r ≠ .t0 →
      Function.update h.mem (addr (h.regs .s0) (0 * 8)) (h.regs .a0)
        (addr (h.regs .s0) (numOff r)) = v r := by
    intro r hr
    have hlow := numOff_pos r
    have hhigh := numOff_lt r
    rw [update_addr _ _ _ (by omega) (by omega), if_neg (by omega), hv r hr]
  dsimp only
  funext r
  by_cases hr0 : r = .t0
  · rw [hr0, Function.update_self, ht0]
  rw [Function.update_of_ne hr0]
  by_cases hr1 : r = .t1
  · rw [hr1, Function.update_self]
    exact hstash .t1 (by decide)
  · rw [Function.update_of_ne hr1, Function.update_of_ne hr1, areaPairs_eq_table,
      loadAll_table, if_pos (mem_areaRegs.mpr hr0), hstash r hr0]

/-- One trap through `ecall_trap_entry` with `mscratch` at the save area and
room in the log.  The dispatcher sees exactly the trapped registers; on return
every register is what the service left in its word of the area, and `t0` is
the interrupted one. -/
theorem trapEntry_effect (code : Word → BitVec 32) (ecallRegs : Word) (g : Globals) (h : Hart)
    (left : Leftover) (hscratch : h.csr .mscratch = ecallRegs) (hroom : g.ncalls < ELOG_N) :
    ∃ (mem : Mem) (g' : Globals) (h' : Hart),
      (∀ r, mem (addr ecallRegs (numOff r)) = h.regs r) ∧
      trapEntry code ecallRegs g h left = some (g', h') ∧
      (let insn := code (h.csr .mepc)
        let s := serve g mem ecallRegs (h.csr .mcause) (h.csr .mepc) insn
        g' = { g with
          log := Function.update g.log g.ncalls.toNat (logRow mem ecallRegs (h.csr .mcause)
            (h.csr .mepc) insn s.res s.resume (g.log g.ncalls.toNat))
          ncalls := g.ncalls + 1
          unexpected := s.unexpected } ∧
        h'.pc = s.resume ∧
        (∀ r, r ≠ .t0 → h'.regs r = s.mem (addr ecallRegs (numOff r))) ∧
        h'.regs .t0 = h.regs .t0 ∧
        h'.csr .mscratch = ecallRegs ∧
        h'.priv = mpp (h.csr .mstatus)) := by
  have hwords := trapSave_mem h
  have hsaved := run_trapSave h
  rw [hscratch] at hwords
  unfold trapEntry
  generalize run trapSave h = saved at hwords hsaved
  have ha0 : saved.regs .a0 = ecallRegs := by simp [hsaved, hscratch]
  have hs0 : saved.regs .s0 = ecallRegs := by simp [hsaved, hscratch]
  have hcause : saved.csr .mcause = h.csr .mcause := by simp [hsaved]
  have hepc : saved.csr .mepc = h.csr .mepc := by simp [hsaved]
  have hstatus : saved.csr .mstatus = h.csr .mstatus := by simp [hsaved]
  have ht0 : saved.csr .mscratch = h.regs .t0 := by simp [hsaved]
  have hfull : ¬ ELOG_N ≤ g.ncalls := BitVec.not_le.mpr hroom
  have hhandle := ecallHandle.eq_1 code g saved ecallRegs
  simp only [if_neg hfull, hcause, hepc] at hhandle
  dsimp only
  rw [ha0, hhandle]
  generalize hserve : serve g saved.mem ecallRegs (h.csr .mcause) (h.csr .mepc)
    (code (h.csr .mepc)) = s
  -- the C dispatcher returns the resume address in `a0`; of memory only the save
  -- area is known to be its own
  let returned := ({ saved with mem := s.mem }.clobberMem
    (InArea ecallRegs 32) left.mem).callC left.regs s.resume
  have hbase : returned.regs .s0 = ecallRegs := hs0
  -- the exit half reloads the area through `s0`, which a C call preserves
  have hkeep : ∀ r, r ≠ .t0 → returned.mem (addr (returned.regs .s0) (numOff r)) =
      Function.update (fun q => s.mem (addr ecallRegs (numOff q))) .t0 (h.regs .t0) r := by
    intro r hr
    rw [hbase, Function.update_of_ne hr]
    exact Hart.clobberMem_keep _ _ _ (inArea_numOff ecallRegs (le_refl 32) r)
  obtain ⟨hregs, hmepc, hmscratch, hmstatus⟩ := trapRestore_effect returned
    (Function.update (fun q => s.mem (addr ecallRegs (numOff q))) .t0 (h.regs .t0)) hkeep
    (by rw [Function.update_self]; exact ht0)
  refine ⟨saved.mem, _, (run trapRestore returned).mret, hwords, rfl, ?_⟩
  rw [hserve]
  refine ⟨rfl, hmepc, fun r hr => ?_, ?_, ?_, ?_⟩
  · rw [Hart.mret_regs, hregs, Function.update_of_ne hr]
  · rw [Hart.mret_regs, hregs, Function.update_self]
  · rw [Hart.mret_csr_of_ne _ (by decide), hmscratch, hbase]
  · rw [Hart.mret_priv, hmstatus]
    exact congrArg mpp hstatus

end Ecall
end BareMetal
