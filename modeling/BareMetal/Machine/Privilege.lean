import BareMetal.Machine.Hart

/-!
# Traps, trap returns and calls into C

The privileged-architecture contract of a trap and of `mret`/`sret`, on the
fields of `mstatus` it moves, and the calling convention's contract of a call
into compiled C code.

Resume addresses are addresses of instructions, hence even, so the write mask
of `mepc` and `sepc` is the identity on every value that reaches them and is
not modelled.
-/

namespace BareMetal
namespace Machine

/-! ## Fields of `mstatus` -/

/-- `w` with bit `i` set to `b`. -/
def setBit (w : Word) (i : Nat) (b : Bool) : Word :=
  if b then w ||| BitVec.twoPow 64 i else w &&& ~~~ BitVec.twoPow 64 i

theorem getLsbD_setBit (w : Word) {i : Nat} (hi : i < 64) (b : Bool) (j : Nat) :
    (setBit w i b).getLsbD j = if j = i then b else w.getLsbD j := by
  by_cases hji : j = i
  · subst hji
    cases b <;> simp [setBit, hi]
  · by_cases hj : j < 64
    · cases b <;> simp [setBit, hji, hj]
    · have hw : w.getLsbD j = false := BitVec.getLsbD_of_ge _ _ (by omega)
      cases b <;> simp [setBit, hji, hj, hw, Ne.symm hji]

/-- Bit positions of the `mstatus` fields moved by traps and returns. -/
def bitSIE : Nat := 1
@[inherit_doc bitSIE] def bitMIE : Nat := 3
@[inherit_doc bitSIE] def bitSPIE : Nat := 5
@[inherit_doc bitSIE] def bitMPIE : Nat := 7
@[inherit_doc bitSIE] def bitSPP : Nat := 8
@[inherit_doc bitSIE] def bitMPRV : Nat := 17

/-- The bit that makes `sret` an illegal instruction in S-mode. -/
def bitTSR : Nat := 22

/-- The cause of an illegal instruction. -/
def ILLEGAL_INSTRUCTION : Word := 2

/-- The mode held in `mstatus.MPP` (bits 12:11). -/
def mpp (status : Word) : Priv :=
  if status.getLsbD 12 then .machine
  else if status.getLsbD 11 then .supervisor
  else .user

/-- `status` with `MPP` holding the given mode. -/
def setMpp (status : Word) (p : Priv) : Word :=
  setBit (setBit status 11 (p ≠ .user)) 12 (p = .machine)

@[simp] theorem mpp_setMpp (status : Word) (p : Priv) : mpp (setMpp status p) = p := by
  have hhigh : (setMpp status p).getLsbD 12 = decide (p = .machine) := by
    rw [setMpp, getLsbD_setBit _ (by decide), if_pos rfl]
  have hlow : (setMpp status p).getLsbD 11 = decide (p ≠ .user) := by
    rw [setMpp, getLsbD_setBit _ (by decide), if_neg (by decide),
      getLsbD_setBit _ (by decide), if_pos rfl]
  rw [mpp, hhigh, hlow]
  cases p <;> rfl

/-- The mode held in `mstatus.SPP`. -/
def spp (status : Word) : Priv :=
  if status.getLsbD bitSPP then .supervisor else .user

/-- Trap into M-mode from mode `p`: `MPIE := MIE`, `MIE := 0`, `MPP := p`. -/
def enterM (p : Priv) (status : Word) : Word :=
  setMpp (setBit (setBit status bitMPIE (status.getLsbD bitMIE)) bitMIE false) p

@[simp] theorem mpp_enterM (p : Priv) (status : Word) : mpp (enterM p status) = p := by
  simp [enterM]

/-- `mret`: `MIE := MPIE`, `MPIE := 1`, `MPP := U`, and `MPRV := 0` when the
new mode is not M. -/
def leaveM (status : Word) : Word :=
  let moved := setBit (setBit status bitMIE (status.getLsbD bitMPIE)) bitMPIE true
  let kept := if mpp status = .machine then moved else setBit moved bitMPRV false
  setMpp kept .user

/-- Trap into S-mode from mode `p`: `SPIE := SIE`, `SIE := 0`, `SPP := p`. -/
def enterS (p : Priv) (status : Word) : Word :=
  setBit (setBit (setBit status bitSPIE (status.getLsbD bitSIE)) bitSIE false)
    bitSPP (p = .supervisor)

/-- `sret`: `SIE := SPIE`, `SPIE := 1`, `SPP := U`, `MPRV := 0`. -/
def leaveS (status : Word) : Word :=
  setBit (setBit (setBit (setBit status bitSIE (status.getLsbD bitSPIE))
    bitSPIE true) bitSPP false) bitMPRV false

section Fields

variable (p : Priv) (status : Word)

/-- `MPP` is two bits of its own. -/
theorem getLsbD_setMpp {i : Nat} (hlow : i ≠ 11) (hhigh : i ≠ 12) :
    (setMpp status p).getLsbD i = status.getLsbD i := by
  rw [setMpp, getLsbD_setBit _ (by decide), if_neg hhigh, getLsbD_setBit _ (by decide),
    if_neg hlow]

theorem enterM_mpie : (enterM p status).getLsbD bitMPIE = status.getLsbD bitMIE := by
  rw [enterM, getLsbD_setMpp _ _ (by decide) (by decide), getLsbD_setBit _ (by decide),
    if_neg (by decide), getLsbD_setBit _ (by decide), if_pos rfl]

theorem leaveM_mie : (leaveM status).getLsbD bitMIE = status.getLsbD bitMPIE := by
  have hmoved : (setBit (setBit status bitMIE (status.getLsbD bitMPIE)) bitMPIE true).getLsbD
      bitMIE = status.getLsbD bitMPIE := by
    rw [getLsbD_setBit _ (by decide), if_neg (by decide), getLsbD_setBit _ (by decide),
      if_pos rfl]
  rw [leaveM, getLsbD_setMpp _ _ (by decide) (by decide)]
  split
  · exact hmoved
  · rw [getLsbD_setBit _ (by decide), if_neg (by decide)]
    exact hmoved

/-- A trap into M-mode and back leaves interrupts enabled as they were. -/
theorem leaveM_enterM_mie :
    (leaveM (enterM p status)).getLsbD bitMIE = status.getLsbD bitMIE := by
  rw [leaveM_mie, enterM_mpie]

/-- Every bit of the status behind a trap into S-mode. -/
theorem getLsbD_enterS (i : Nat) :
    (enterS p status).getLsbD i =
      if i = bitSPP then decide (p = .supervisor)
      else if i = bitSIE then false
      else if i = bitSPIE then status.getLsbD bitSIE
      else status.getLsbD i := by
  rw [enterS, getLsbD_setBit _ (by decide), getLsbD_setBit _ (by decide),
    getLsbD_setBit _ (by decide)]

/-- Every bit of the status behind `sret`. -/
theorem getLsbD_leaveS (i : Nat) :
    (leaveS status).getLsbD i =
      if i = bitMPRV then false
      else if i = bitSPP then false
      else if i = bitSPIE then true
      else if i = bitSIE then status.getLsbD bitSPIE
      else status.getLsbD i := by
  rw [leaveS, getLsbD_setBit _ (by decide), getLsbD_setBit _ (by decide),
    getLsbD_setBit _ (by decide), getLsbD_setBit _ (by decide)]

/-- A trap into S-mode and back changes `SPIE`, `SPP` and `MPRV` alone. -/
theorem getLsbD_leaveS_enterS {i : Nat} (hspie : i ≠ bitSPIE) (hspp : i ≠ bitSPP)
    (hmprv : i ≠ bitMPRV) :
    (leaveS (enterS p status)).getLsbD i = status.getLsbD i := by
  rw [getLsbD_leaveS, if_neg hmprv, if_neg hspp, if_neg hspie]
  split
  next hsie =>
    rw [hsie, getLsbD_enterS, if_neg (by decide), if_neg (by decide), if_pos rfl]
  next hsie => rw [getLsbD_enterS, if_neg hspp, if_neg hsie, if_neg hspie]

end Fields

/-! ## Traps and trap returns -/

/-- Where a trap with the given cause enters: in vectored mode an interrupt
enters at `BASE + 4 * code`, everything else at `BASE`. -/
def tvecTarget (tvec cause : Word) : Word :=
  let base := tvec &&& ~~~ 3#64
  if tvec &&& 3#64 = 1#64 ∧ cause.getLsbD 63 then
    base + 4#64 * (cause &&& ~~~ BitVec.twoPow 64 63)
  else base

/-- In direct mode every trap enters at the vector itself. -/
theorem tvecTarget_direct {tvec : Word} (h : tvec &&& 3#64 = 0#64) (cause : Word) :
    tvecTarget tvec cause = tvec := by
  have hmode : tvec &&& 3#64 ≠ 1#64 := by
    rw [h]
    decide
  rw [tvecTarget, if_neg (fun hc => hmode hc.1)]
  calc tvec &&& ~~~ 3#64 = (tvec &&& 3#64) ||| (tvec &&& ~~~ 3#64) := by rw [h, BitVec.zero_or]
    _ = tvec := by rw [← BitVec.and_or_distrib_left, BitVec.or_not_self, BitVec.and_allOnes]

/-- In vectored mode an interrupt enters at its own slot of the table, and every
exception at the first. -/
theorem tvecTarget_vectored {base : Word} (h : base &&& 3#64 = 0#64) (cause : Word) :
    tvecTarget (base ||| 1#64) cause =
      if cause.getLsbD 63 then base + 4#64 * (cause &&& ~~~ BitVec.twoPow 64 63) else base := by
  have hmode : (base ||| 1#64) &&& 3#64 = 1#64 := by
    rw [BitVec.and_or_distrib_right, h]
    decide
  have hbase : (base ||| 1#64) &&& ~~~ 3#64 = base := by
    calc
      (base ||| 1#64) &&& ~~~ 3#64 = base &&& ~~~ 3#64 := by
        rw [BitVec.and_or_distrib_right, show 1#64 &&& ~~~ 3#64 = 0#64 by decide, BitVec.or_zero]
      _ = (base &&& 3#64) ||| (base &&& ~~~ 3#64) := by rw [h, BitVec.zero_or]
      _ = base := by rw [← BitVec.and_or_distrib_left, BitVec.or_not_self, BitVec.and_allOnes]
  rw [tvecTarget, hbase, hmode]
  simp only [true_and]

/-- A 256-byte aligned table leaves the mode bits free. -/
theorem mode_of_aligned {table : Word} (h : table &&& 0xFF#64 = 0#64) : table &&& 3#64 = 0#64 := by
  calc
    table &&& 3#64 = table &&& 0xFF#64 &&& 3#64 := by
      rw [BitVec.and_assoc, show 0xFF#64 &&& 3#64 = 3#64 by decide]
    _ = 0#64 := by rw [h, BitVec.zero_and]

/-- Looking up a table entry by its address finds its index. -/
theorem find?_entry (table : Word) {k n : Nat} (hn : n < k) (hk : k ≤ 2 ^ 32) :
    (List.range k).find? (fun i => addr table (4 * n) = addr table (4 * i)) = some n := by
  rw [List.find?_range_eq_some]
  refine ⟨by simp, by simpa using hn, fun i hi => ?_⟩
  have hne : addr table (4 * n) ≠ addr table (4 * i) := by
    intro heq
    have := (addr_inj (by omega) (by omega)).mp heq
    omega
  simpa using hne

/-- The cause of an `ecall` executed in the given mode. -/
def ecallCause : Priv → Word
  | .user => 8
  | .supervisor => 9
  | .machine => 11

namespace Hart

/-- A trap taken into M-mode at the current pc. -/
def trapM (h : Hart) (cause : Word) : Hart :=
  { (((h.setCsr .mepc h.pc).setCsr .mcause cause).setCsr .mstatus
      (enterM h.priv (h.csr .mstatus))) with
    priv := .machine, pc := tvecTarget (h.csr .mtvec) cause }

/-- Return from an M-mode trap. -/
def mret (h : Hart) : Hart :=
  { h.setCsr .mstatus (leaveM (h.csr .mstatus)) with
    pc := h.csr .mepc, priv := mpp (h.csr .mstatus) }

/-- A trap taken into S-mode at the current pc. -/
def trapS (h : Hart) (cause : Word) : Hart :=
  { (((h.setCsr .sepc h.pc).setCsr .scause cause).setCsr .mstatus
      (enterS h.priv (h.csr .mstatus))) with
    priv := .supervisor, pc := tvecTarget (h.csr .stvec) cause }

/-- `sret` is an illegal instruction here. -/
def sretIllegal (h : Hart) : Bool :=
  h.priv = .user || h.priv = .supervisor && (h.csr .mstatus).getLsbD bitTSR

/-- Return from an S-mode trap, where `sret` is legal. -/
def sret (h : Hart) : Hart :=
  { h.setCsr .mstatus (leaveS (h.csr .mstatus)) with
    pc := h.csr .sepc, priv := spp (h.csr .mstatus) }

section Projections

variable (h : Hart) (cause : Word)

@[simp] theorem trapM_regs : (h.trapM cause).regs = h.regs := rfl
@[simp] theorem trapM_mem : (h.trapM cause).mem = h.mem := rfl
@[simp] theorem trapM_time : (h.trapM cause).time = h.time := rfl
@[simp] theorem trapM_cycle : (h.trapM cause).cycle = h.cycle := rfl
@[simp] theorem trapM_priv : (h.trapM cause).priv = .machine := rfl
@[simp] theorem trapM_pc : (h.trapM cause).pc = tvecTarget (h.csr .mtvec) cause := rfl
@[simp] theorem trapM_mepc : (h.trapM cause).csr .mepc = h.pc := rfl
@[simp] theorem trapM_mcause : (h.trapM cause).csr .mcause = cause := rfl
@[simp] theorem trapM_mstatus :
    (h.trapM cause).csr .mstatus = enterM h.priv (h.csr .mstatus) := rfl

/-- A trap into M-mode writes `mepc`, `mcause` and `mstatus` only. -/
theorem trapM_csr_of_ne {c : Csr} (hepc : c ≠ .mepc) (hcause : c ≠ .mcause)
    (hstatus : c ≠ .mstatus) : (h.trapM cause).csr c = h.csr c := by
  simp [trapM, Function.update_of_ne, hepc, hcause, hstatus]

@[simp] theorem trapM_mscratch : (h.trapM cause).csr .mscratch = h.csr .mscratch := rfl
@[simp] theorem trapM_mtvec : (h.trapM cause).csr .mtvec = h.csr .mtvec := rfl

@[simp] theorem mret_regs : h.mret.regs = h.regs := rfl
@[simp] theorem mret_mem : h.mret.mem = h.mem := rfl
@[simp] theorem mret_time : h.mret.time = h.time := rfl
@[simp] theorem mret_cycle : h.mret.cycle = h.cycle := rfl
@[simp] theorem mret_pc : h.mret.pc = h.csr .mepc := rfl
@[simp] theorem mret_priv : h.mret.priv = mpp (h.csr .mstatus) := rfl
@[simp] theorem mret_mstatus : h.mret.csr .mstatus = leaveM (h.csr .mstatus) := rfl

/-- `mret` writes `mstatus` only. -/
@[simp] theorem mret_csr_of_ne {c : Csr} (hc : c ≠ .mstatus) :
    h.mret.csr c = h.csr c := by
  simp [mret, Function.update_of_ne, hc]

@[simp] theorem trapS_regs : (h.trapS cause).regs = h.regs := rfl
@[simp] theorem trapS_mem : (h.trapS cause).mem = h.mem := rfl
@[simp] theorem trapS_time : (h.trapS cause).time = h.time := rfl
@[simp] theorem trapS_cycle : (h.trapS cause).cycle = h.cycle := rfl
@[simp] theorem trapS_pc : (h.trapS cause).pc = tvecTarget (h.csr .stvec) cause := rfl
@[simp] theorem trapS_sepc : (h.trapS cause).csr .sepc = h.pc := rfl
@[simp] theorem trapS_scause : (h.trapS cause).csr .scause = cause := rfl

/-- A trap into S-mode writes `sepc`, `scause` and the shared status only. -/
theorem trapS_csr_of_ne {c : Csr} (hepc : c ≠ .sepc) (hcause : c ≠ .scause)
    (hstatus : c ≠ .mstatus) : (h.trapS cause).csr c = h.csr c := by
  simp [trapS, Function.update_of_ne, hepc, hcause, hstatus]

@[simp] theorem sret_regs : h.sret.regs = h.regs := rfl
@[simp] theorem sret_mem : h.sret.mem = h.mem := rfl
@[simp] theorem sret_pc : h.sret.pc = h.csr .sepc := rfl

/-- `sret` writes the shared status only. -/
@[simp] theorem sret_csr_of_ne {c : Csr} (hc : c ≠ .mstatus) :
    h.sret.csr c = h.csr c := by
  simp [sret, Function.update_of_ne, hc]

end Projections

/-! ## Calls into C -/

/-- Return from a call into compiled C: the result is in `a0`, callee-saved
registers are as before, and every other register holds whatever the compiled
body left there (`clobber`). -/
def callC (h : Hart) (clobber : Reg → Word) (result : Word) : Hart :=
  { h with regs := fun r =>
      if r = .a0 then result
      else if r.calleeSaved then h.regs r
      else clobber r }

/-- Memory after code that may store anywhere except at the addresses `keep`
selects; `other` is what it leaves elsewhere. -/
def clobberMem (h : Hart) (keep : Word → Prop) [DecidablePred keep] (other : Mem) : Hart :=
  { h with mem := fun a => if keep a then h.mem a else other a }

section Projections

variable (h : Hart) (clobber : Reg → Word) (result : Word)
variable (keep : Word → Prop) [DecidablePred keep] (other : Mem)

@[simp] theorem callC_csr : (h.callC clobber result).csr = h.csr := rfl
@[simp] theorem callC_mem : (h.callC clobber result).mem = h.mem := rfl
@[simp] theorem callC_time : (h.callC clobber result).time = h.time := rfl
@[simp] theorem callC_cycle : (h.callC clobber result).cycle = h.cycle := rfl
@[simp] theorem callC_priv : (h.callC clobber result).priv = h.priv := rfl
@[simp] theorem callC_a0 : (h.callC clobber result).regs .a0 = result := rfl

theorem callC_calleeSaved {r : Reg} (hr : r.calleeSaved = true) :
    (h.callC clobber result).regs r = h.regs r := by
  have ha0 : r ≠ .a0 := by
    rintro rfl
    exact absurd hr (by decide)
  simp [callC, ha0, hr]

@[simp] theorem clobberMem_regs : (h.clobberMem keep other).regs = h.regs := rfl
@[simp] theorem clobberMem_csr : (h.clobberMem keep other).csr = h.csr := rfl
@[simp] theorem clobberMem_time : (h.clobberMem keep other).time = h.time := rfl
@[simp] theorem clobberMem_cycle : (h.clobberMem keep other).cycle = h.cycle := rfl
@[simp] theorem clobberMem_priv : (h.clobberMem keep other).priv = h.priv := rfl

theorem clobberMem_keep {a : Word} (ha : keep a) :
    (h.clobberMem keep other).mem a = h.mem a := by
  simp [clobberMem, ha]

/-- Code that leaves every word as it was leaves the memory as it was. -/
theorem clobberMem_self : (h.clobberMem keep h.mem).mem = h.mem := by
  funext a
  exact ite_self (h.mem a)

end Projections

end Hart

end Machine
end BareMetal
