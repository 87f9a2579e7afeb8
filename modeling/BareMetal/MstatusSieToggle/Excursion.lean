import BareMetal.MstatusSieToggle.Trap
import BareMetal.Machine.Runs

/-!
# An excursion into S-mode

`msg_phase1` and `msg_phase2` point `sepc` at the landing pad, set `SPP`
through `sstatus` and `sret`.  The pad spins on the cycle counter and then
calls back with an `ecall`, whose handler returns to the driver's resume label.

The pad is executed one instruction at a time.  At every instruction boundary
an interrupt that is pending, enabled and not masked may be taken; a hart may
put it off, but not beyond the `ecall`.  `msg_s_trap_entry` and
`msg_m_trap_entry` run with interrupts masked and are one step each.  Where
`TSR` forbids the `sret` at the end of `msg_s_trap_entry`, that step ends in
the M-mode trap of an illegal instruction.
-/

namespace BareMetal
namespace MstatusSieToggle

open Machine

/-! ## The code -/

/-- The two drivers.  They differ in their resume label and in the value they
leave in `msg_expect_ecall`. -/
inductive Phase
  | one | two
  deriving DecidableEq, Repr

def Phase.expect : Phase → Word
  | .one => 1
  | .two => 2

/-- The instructions of `smode_landing`; `li t2, 200000` is two of them. -/
inductive SpinPc
  | first | keep | lui | addiw | poll | diff | branch | call
  deriving DecidableEq, Repr

/-- Addresses as the linker chose them. -/
structure Symbols where
  mTrapEntry : Word
  sTrapEntry : Word
  sTrapSret : Word
  msgSave : Word
  msgResumePc : Word
  msgExpectEcall : Word
  stackTop : Word
  resume : Phase → Word
  spinAt : SpinPc → Word

/-- The bits of `mstatus` that `sstatus` shows. -/
def SSTATUS_MASK : Word := 0x80000003000de762

def readSstatus (status : Word) : Word :=
  status &&& SSTATUS_MASK

def writeSstatus (status v : Word) : Word :=
  (status &&& ~~~ SSTATUS_MASK) ||| (v &&& SSTATUS_MASK)

/-- What the hart and the compiled handlers contribute: the values the `rdcycle`
instructions of the spin read, in order; whether an interrupt that can be taken
at the `n`-th boundary is taken there; and what a handler called there leaves
behind. -/
structure World where
  readings : Nat → Word
  take : Nat → Bool
  left : Nat → Leftover

/-- Where the hart is: at an instruction of the pad, back in the caller, or
parked in `msg_m_handler` or elsewhere for good. -/
inductive Status
  | spin (at' : SpinPc) | back | lost
  deriving DecidableEq, Repr

/-- A call of a driver, between two instructions.  `reads` and `boundary` count
the `rdcycle` instructions and the boundaries so far. -/
structure Excursion where
  hart : Hart
  g : Statics
  status : Status
  reads : Nat
  boundary : Nat

/-- `msg_phase1` and `msg_phase2` up to and including `sret`. -/
def phaseCall (sym : Symbols) (ph : Phase) (g : Statics) (h : Hart) : Excursion :=
  let h := run [.la .t0 (sym.spinAt .first), .csrw .sepc .t0] h
  let h := h.setReg .t0 (readSstatus (h.csr .mstatus))
  let h := h.setReg .t0 (h.regs .t0 ||| 0x100)
  let h := h.setCsr .mstatus (writeSstatus (h.csr .mstatus) (h.regs .t0))
  let h := run [.la .t0 sym.msgSave, .csrw .sscratch .t0] h
  let h := run [.la .t0 (sym.resume ph), .la .t1 sym.msgResumePc] h
  let g := { g with resumePc := h.regs .t0 }
  let h := run [.li .t0 ph.expect, .la .t1 sym.msgExpectEcall] h
  let g := { g with expectEcall := (h.regs .t0).setWidth 32 }
  { hart := h.sret, g := g, status := .spin .first, reads := 0, boundary := 0 }

/-! ## Interrupts -/

/-- The interrupts, by priority. -/
def interruptOrder : List Nat :=
  [11, 3, 7, 9, 1, 5]

/-- Interrupt `i` is pending, enabled, and delegated or not. -/
def raised (h : Hart) (delegated : Bool) (i : Nat) : Bool :=
  (h.csr .mip).getLsbD i && (h.csr .mie).getLsbD i &&
    ((h.csr .mideleg).getLsbD i == delegated)

/-- The interrupt that would be taken into M-mode now. -/
def pendingM (h : Hart) : Option Nat :=
  if h.priv ≠ .machine ∨ (h.csr .mstatus).getLsbD bitMIE then
    interruptOrder.find? (raised h false)
  else none

/-- The interrupt that would be taken into S-mode now. -/
def pendingS (h : Hart) : Option Nat :=
  if h.priv = .user ∨ h.priv = .supervisor ∧ (h.csr .mstatus).getLsbD bitSIE then
    interruptOrder.find? (raised h true)
  else none

/-- The cause of interrupt `i`. -/
def interruptCause (i : Nat) : Word :=
  BitVec.twoPow 64 63 ||| BitVec.ofNat 64 i

/-! ## One step -/

section Step

variable (sym : Symbols) (w : World) (e : Excursion)

/-- A trap into M-mode.  If its handler returns to the resume label of a driver
in M-mode, the `ret` there goes back to the caller. -/
def Excursion.trapM (cause : Word) : Excursion :=
  let trapped := e.hart.trapM cause
  if trapped.pc = sym.mTrapEntry then
    let out := mTrapEntry e.g trapped (w.left e.boundary)
    match out.2 with
    | some h =>
        if h.priv = .machine ∧ (h.pc = sym.resume .one ∨ h.pc = sym.resume .two) then
          { e with hart := { h with pc := h.regs .ra }, g := out.1, status := .back }
        else { e with hart := h, g := out.1, status := .lost }
    | none => { e with hart := trapped, g := out.1, status := .lost }
  else { e with hart := trapped, status := .lost }

/-- A trap into S-mode from the instruction `at'` of the pad. -/
def Excursion.trapS (at' : SpinPc) (cause : Word) : Excursion :=
  let trapped := e.hart.trapS cause
  if trapped.pc = sym.sTrapEntry then
    let body := sTrapBody sym.msgSave sym.stackTop e.g trapped (w.left e.boundary)
    if body.2.sretIllegal then
      -- the `sret` at the end of the entry traps in its turn
      ({ e with hart := { body.2 with pc := sym.sTrapSret }, g := body.1 } : Excursion).trapM sym w
        ILLEGAL_INSTRUCTION
    else
      let out := sTrapEntry sym.msgSave sym.stackTop e.g trapped (w.left e.boundary)
      if out.2.pc = sym.spinAt at' ∧ out.2.priv = .supervisor then
        { e with hart := out.2, g := out.1 }
      else { e with hart := out.2, g := out.1, status := .lost }
  else { e with hart := trapped, status := .lost }

/-- Go on to another instruction of the pad. -/
def Excursion.goto (at' : SpinPc) (h : Hart) : Excursion :=
  { e with hart := { h with pc := sym.spinAt at' }, status := .spin at' }

/-- `rdcycle t0`. -/
def Excursion.rdcycle (at' : SpinPc) : Excursion :=
  let next := e.goto sym at' (e.hart.setReg .t0 (w.readings e.reads))
  { next with reads := e.reads + 1 }

/-- One instruction of the pad. -/
def Excursion.exec : SpinPc → Excursion
  | .first => e.rdcycle sym w .keep
  | .keep => e.goto sym .lui (e.hart.setReg .t1 (e.hart.regs .t0))
  | .lui => e.goto sym .addiw (e.hart.setReg .t2 0x31000)
  | .addiw =>
      e.goto sym .poll (e.hart.setReg .t2
        (((e.hart.regs .t2 + (-704)).setWidth 32).signExtend 64))
  | .poll => e.rdcycle sym w .diff
  | .diff => e.goto sym .branch (e.hart.setReg .t0 (e.hart.regs .t0 - e.hart.regs .t1))
  | .branch =>
      if e.hart.regs .t0 < e.hart.regs .t2 then e.goto sym .poll e.hart
      else e.goto sym .call e.hart
  | .call =>
      if (e.hart.csr .medeleg).getLsbD 9 then e.trapS sym w .call (ecallCause e.hart.priv)
      else e.trapM sym w (ecallCause e.hart.priv)

/-- One boundary: an interrupt or an instruction. -/
def Excursion.step : Excursion :=
  let next :=
    match e.status with
    | .spin at' =>
        if w.take e.boundary ∨ at' = SpinPc.call then
          match pendingM e.hart, pendingS e.hart with
          | some i, _ => e.trapM sym w (interruptCause i)
          | none, some i => e.trapS sym w at' (interruptCause i)
          | none, none => e.exec sym w at'
        else e.exec sym w at'
    | .back | .lost => e
  { next with boundary := e.boundary + 1 }

end Step

/-! ## Traps -/

section Traps

variable (sym : Symbols) (w : World) (e : Excursion) (cause : Word)

/-- An M-mode trap other than an S-mode `ecall` is the end. -/
theorem Excursion.trapM_lost (hcause : cause ≠ 9) :
    (e.trapM sym w cause).status = .lost ∧ (e.trapM sym w cause).g.sTraps = e.g.sTraps := by
  rw [Excursion.trapM]
  dsimp only
  by_cases hpc : (e.hart.trapM cause).pc = sym.mTrapEntry
  · obtain ⟨hnone, hkept⟩ := mTrapEntry_parks e.g (e.hart.trapM cause) (w.left e.boundary)
      (by rw [Hart.trapM_mcause]; exact hcause)
    rw [if_pos hpc, hnone]
    exact ⟨rfl, hkept⟩
  · rw [if_neg hpc]
    exact ⟨rfl, rfl⟩

/-- `TSR` decides about the `sret` at the end of `msg_s_trap_entry`. -/
theorem sTrapBody_sretIllegal (msgSave stackTop : Word) (g : Statics) (h : Hart)
    (left : Leftover) :
    (sTrapBody msgSave stackTop g (h.trapS cause) left).2.sretIllegal =
      (h.csr .mstatus).getLsbD bitTSR := by
  obtain ⟨-, hpriv, hstatus⟩ := sTrapBody_status msgSave stackTop g (h.trapS cause) left
  have htrapped : (h.trapS cause).csr .mstatus = enterS h.priv (h.csr .mstatus) := rfl
  have hmode : (h.trapS cause).priv = .supervisor := rfl
  rw [Hart.sretIllegal, hpriv, hstatus, hmode, htrapped, getLsbD_enterS, if_neg (by decide),
    if_neg (by decide), if_neg (by decide)]
  rfl

variable (at' : SpinPc)

/-- An S-mode trap under `TSR` is counted and does not come back. -/
theorem Excursion.trapS_forbidden (hpc : (e.hart.trapS cause).pc = sym.sTrapEntry)
    (htsr : (e.hart.csr .mstatus).getLsbD bitTSR = true) :
    (e.trapS sym w at' cause).status = .lost ∧
      (e.trapS sym w at' cause).g.sTraps = e.g.sTraps + 1 := by
  have hillegal := sTrapBody_sretIllegal cause sym.msgSave sym.stackTop e.g e.hart
    (w.left e.boundary)
  obtain ⟨hcounted, -, -⟩ := sTrapBody_status sym.msgSave sym.stackTop e.g (e.hart.trapS cause)
    (w.left e.boundary)
  rw [htsr] at hillegal
  rw [Excursion.trapS]
  dsimp only
  rw [if_pos hpc, if_pos hillegal]
  generalize sTrapBody sym.msgSave sym.stackTop e.g (e.hart.trapS cause) (w.left e.boundary) =
    body at hcounted
  obtain ⟨hlost, hkept⟩ := Excursion.trapM_lost sym w
    { e with hart := { body.2 with pc := sym.sTrapSret }, g := body.1 } ILLEGAL_INSTRUCTION
    (by decide)
  exact ⟨hlost, hkept.trans hcounted⟩

/-- An S-mode trap without `TSR` runs `msg_s_trap_entry`. -/
theorem Excursion.trapS_legal (hpc : (e.hart.trapS cause).pc = sym.sTrapEntry)
    (htsr : (e.hart.csr .mstatus).getLsbD bitTSR = false) :
    e.trapS sym w at' cause =
      let out := sTrapEntry sym.msgSave sym.stackTop e.g (e.hart.trapS cause) (w.left e.boundary)
      if out.2.pc = sym.spinAt at' ∧ out.2.priv = .supervisor then
        { e with hart := out.2, g := out.1 }
      else { e with hart := out.2, g := out.1, status := .lost } := by
  have hillegal := sTrapBody_sretIllegal cause sym.msgSave sym.stackTop e.g e.hart
    (w.left e.boundary)
  rw [htsr] at hillegal
  rw [Excursion.trapS]
  dsimp only
  rw [if_pos hpc, if_neg (Bool.eq_false_iff.mp hillegal)]

end Traps

/-! ## Landing -/

/-- Writing back what `sstatus` showed, with `SPP` added, sets `SPP` alone. -/
theorem writeSstatus_spp (status : Word) :
    writeSstatus status (readSstatus status ||| 0x100#64) = setBit status bitSPP true := by
  have hspp : 0x100#64 = BitVec.twoPow 64 8 := by decide
  have hshown : 0x100#64 &&& SSTATUS_MASK = 0x100#64 := by decide
  rw [writeSstatus, readSstatus, setBit, if_pos rfl]
  calc (status &&& ~~~ SSTATUS_MASK) |||
        ((status &&& SSTATUS_MASK ||| 0x100#64) &&& SSTATUS_MASK)
      = (status &&& ~~~ SSTATUS_MASK) ||| (status &&& SSTATUS_MASK) ||| 0x100#64 := by
        rw [BitVec.and_or_distrib_right, BitVec.and_assoc, BitVec.and_self, hshown,
          BitVec.or_assoc]
    _ = status ||| 0x100#64 := by
        rw [← BitVec.and_or_distrib_left, BitVec.or_comm (~~~ SSTATUS_MASK),
          BitVec.or_not_self, BitVec.and_allOnes]
    _ = status ||| BitVec.twoPow 64 bitSPP := by rw [hspp]; rfl

/-- The hart and the globals when the landing pad is entered. -/
structure Landed (sym : Symbols) (ph : Phase) (g : Statics) (h : Hart) (e : Excursion) : Prop where
  status : e.status = .spin .first
  reads : e.reads = 0
  pc : e.hart.pc = sym.spinAt .first
  priv : e.hart.priv = .supervisor
  regs : ∀ r, r ≠ .t0 → r ≠ .t1 → e.hart.regs r = h.regs r
  mstatus : e.hart.csr .mstatus = leaveS (setBit (h.csr .mstatus) bitSPP true)
  sscratch : e.hart.csr .sscratch = sym.msgSave
  csr : ∀ k, k ≠ .mstatus → k ≠ .sscratch → k ≠ .sepc → e.hart.csr k = h.csr k
  statics : e.g = { g with resumePc := sym.resume ph, expectEcall := ph.expect.setWidth 32 }

theorem phaseCall_landed (sym : Symbols) (ph : Phase) (g : Statics) (h : Hart) :
    Landed sym ph g h (phaseCall sym ph g h) := by
  have hstatus := writeSstatus_spp (h.csr .mstatus)
  generalize hwritten : setBit (h.csr .mstatus) bitSPP true = written at hstatus
  have hspp : spp written = .supervisor := by
    rw [← hwritten, spp, getLsbD_setBit _ (by decide), if_pos rfl]
    rfl
  refine ⟨rfl, rfl, ?_, ?_, fun r hr0 hr1 => ?_, ?_, ?_, fun k h₁ h₂ h₃ => ?_, ?_⟩
  · simp [phaseCall, Instr.exec, Hart.setReg, Hart.setCsr]
  · simp [phaseCall, Instr.exec, Hart.setReg, Hart.setCsr, Hart.sret, hstatus, hspp]
  · simp [phaseCall, Instr.exec, Hart.setReg, Hart.setCsr, hr0, hr1]
  · simp [phaseCall, Instr.exec, Hart.setReg, Hart.setCsr, Hart.sret, hstatus, hwritten]
  · simp [phaseCall, Instr.exec, Hart.setReg, Hart.setCsr]
  · simp [phaseCall, Instr.exec, Hart.setReg, Hart.setCsr, h₁, h₂, h₃]
  · simp [phaseCall, Instr.exec, Hart.setReg, Hart.setCsr]

/-- The gate at the landing pad is `SPIE` as it was before the call. -/
theorem landing_gate (sym : Symbols) (ph : Phase) (g : Statics) (h : Hart) :
    ((phaseCall sym ph g h).hart.csr .mstatus).getLsbD bitSIE =
      (h.csr .mstatus).getLsbD bitSPIE := by
  rw [(phaseCall_landed sym ph g h).mstatus, getLsbD_leaveS, if_neg (by decide),
    if_neg (by decide), if_neg (by decide), if_pos rfl, getLsbD_setBit _ (by decide),
    if_neg (by decide)]

theorem landing_tsr (sym : Symbols) (ph : Phase) (g : Statics) (h : Hart) :
    ((phaseCall sym ph g h).hart.csr .mstatus).getLsbD bitTSR =
      (h.csr .mstatus).getLsbD bitTSR := by
  rw [(phaseCall_landed sym ph g h).mstatus, getLsbD_leaveS, if_neg (by decide),
    if_neg (by decide), if_neg (by decide), if_neg (by decide), getLsbD_setBit _ (by decide),
    if_neg (by decide)]

end MstatusSieToggle
end BareMetal
