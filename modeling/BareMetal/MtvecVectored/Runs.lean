import BareMetal.MtvecVectored.Trap

/-!
# Whole runs through the vectored table

`main` calls `mtv_umode_entry`, which drops to U-mode for two `ecall`s and
comes back at `mtv_m_resume`; afterwards machine timer interrupts may hit the
M-mode code anywhere.

The call behaves like a C call (`umodeCall_returns`).  The timer interrupts do
not behave like interrupts: the second `ecall` sets `mtv_return_m` and nothing
ever clears it, so every later trap takes the M-mode branch and resumes at
`mtv_m_resume`; and the interrupted `t0` is in a caller-saved register while
the C handler runs.  `run_faithful_iff` is the exact condition under which a
run is transparent all the same.
-/

namespace BareMetal
namespace MtvecVectored

open Machine

/-- The C globals together with the hart. -/
structure Sys where
  g : Globals
  hart : Hart

/-- Take a trap through the table. -/
def Sys.trap (im : Image) (s : Sys) (cause : Word) (left : Leftover) : Option Sys :=
  (MtvecVectored.trap im s.g s.hart cause left).map fun out => ⟨out.1, out.2⟩

/-! ## The U-mode excursion -/

/-- `mtv_umode_entry` without its `mret`. -/
def umodeEntry (im : Image) : List Instr :=
  [.la .t0 im.payload,
   .csrw .mepc .t0,
   .li .t0 mppMask,
   .csrc .mstatus .t0,
   .li .t0 (BitVec.twoPow 64 7),
   .csrs .mstatus .t0]

/-- One `ecall` of the payload, which consists of two of them; `none` when the
hart is not at either. -/
def payloadEcall (im : Image) (s : Sys) (left : Leftover) : Option Sys :=
  if s.hart.pc = im.payload ∨ s.hart.pc = im.payload + 4 then
    s.trap im (ecallCause s.hart.priv) left
  else none

/-- The `ret` at `mtv_m_resume`; `none` when the hart is elsewhere. -/
def resumeRet (im : Image) (s : Sys) : Option Sys :=
  if s.hart.pc = im.mResume then
    some { s with hart := { s.hart with pc := s.hart.regs .ra } }
  else none

/-- A call of `mtv_umode_entry`: the drop, the two `ecall`s with what the
compiled C handler leaves behind in each, and the `ret`. -/
def umodeCall (im : Image) (s : Sys) (first second : Leftover) : Option Sys :=
  let dropped : Sys := { s with hart := (run (umodeEntry im) s.hart).mret }
  (payloadEcall im dropped first).bind fun s₁ =>
    (payloadEcall im s₁ second).bind fun s₂ => resumeRet im s₂

/-! ## Timer interrupts -/

/-- A machine timer interrupt: the interrupted M-mode code may have any
registers, pc and status, and any memory outside the handler's objects. -/
structure Timer where
  regs : Reg → Word
  pc : Word
  mem : Mem
  mstatus : Word
  cycle : Word
  left : Leftover

/-- The hart when that interrupt is taken. -/
def Timer.onHart (im : Image) (t : Timer) (h : Hart) : Hart :=
  { (h.setCsr .mstatus t.mstatus).clobberMem (Owned im) t.mem with
    regs := t.regs, pc := t.pc, cycle := t.cycle }

/-- One timer interrupt. -/
def timerTrap (im : Image) (s : Sys) (t : Timer) : Option Sys :=
  Sys.trap im { s with hart := t.onHart im s.hart } MCAUSE_MTI t.left

/-! ## What the C handler decides -/

section CHandle

variable (im : Image) (g : Globals) (m : Mem)

/-- A timer interrupt resumes where it fired and leaves the flag alone. -/
theorem mtvCHandle_timer (hcause : m (addr im.mtvRegs (2 * 8)) = MCAUSE_MTI) :
    (mtvCHandle im g m).2 =
      Function.update m (addr im.mtvRegs resumeOff) (m (addr im.mtvRegs (3 * 8))) := by
  have hne : MCAUSE_MTI ≠ MCAUSE_ECALL_U := by decide
  simp only [mtvCHandle, hcause, if_neg hne, if_true]

/-- The first U-mode `ecall` resumes behind itself. -/
theorem mtvCHandle_first (hcause : m (addr im.mtvRegs (2 * 8)) = MCAUSE_ECALL_U)
    (hcount : g.ecallCount = 0) :
    (mtvCHandle im g m).1.ecallCount = 1 ∧
      (mtvCHandle im g m).2 =
        Function.update m (addr im.mtvRegs resumeOff) (m (addr im.mtvRegs (3 * 8)) + 4) := by
  have hone : g.ecallCount + 1 = 1 := by rw [hcount]; decide
  simp only [mtvCHandle, hcause, hone, if_true, and_self]

/-- The second U-mode `ecall` raises the flag. -/
theorem mtvCHandle_second (hcause : m (addr im.mtvRegs (2 * 8)) = MCAUSE_ECALL_U)
    (hcount : g.ecallCount = 1) :
    (mtvCHandle im g m).2 im.returnM = 1 := by
  have hne : g.ecallCount + 1 ≠ 1 := by rw [hcount]; decide
  have htwo : g.ecallCount + 1 = 2 := by rw [hcount]; decide
  simp only [mtvCHandle, hcause, if_true, if_neg hne, if_pos htwo]
  rw [Function.update_of_ne, Function.update_self]
  exact ne_addr_of_not_inArea im.returnM_outside (i := 20) (by decide) rfl

end CHandle

/-! ## One trap of a run -/

/-- What the handler needs to find at every trap. -/
structure Installed (im : Image) (h : Hart) : Prop where
  mscratch : h.csr .mscratch = im.mtvRegs
  mtvec : h.csr .mtvec = im.mtvec

/-- A trap that enters the table at entry `n` runs stub `n`. -/
theorem trap_eq_handle (im : Image) (s : Sys) (cause : Word) (left : Leftover) {n : Nat}
    (hn : n < 16) (hinst : Installed im s.hart)
    (hentry : tvecTarget im.mtvec cause = im.vec n) :
    s.trap im cause left =
      some ⟨(handle im n s.g (s.hart.trapM cause) left).1,
        (handle im n s.g (s.hart.trapM cause) left).2⟩ := by
  have hpc : (s.hart.trapM cause).pc = im.vec n := by
    rw [Hart.trapM_pc, hinst.mtvec, hentry]
  simp only [Sys.trap, MtvecVectored.trap, hpc, entryAt_vec im hn, Option.map_some]

/-- What the C handler reads in its first lines is the trap it was called
for. -/
theorem savedMem_trap (im : Image) (n : Nat) (h : Hart) (cause : Word)
    (hscratch : h.csr .mscratch = im.mtvRegs) :
    let m := savedMem im n (h.trapM cause)
    m (addr im.mtvRegs (2 * 8)) = cause ∧
      m (addr im.mtvRegs (3 * 8)) = h.pc ∧
      m im.returnM = h.mem im.returnM := by
  obtain ⟨-, hcause, hepc, -, hframe⟩ := savedMem_slots im n (h.trapM cause)
  rw [Hart.trapM_mscratch, hscratch] at hcause hepc hframe
  exact ⟨hcause, hepc, hframe _ im.returnM_outside⟩

/-- The flag that decides where every timer interrupt resumes. -/
def flagged (im : Image) (s : Sys) : Prop :=
  s.hart.mem im.returnM ≠ 0

/-- A timer interrupt taken with the flag up resumes at `mtv_m_resume` in
M-mode, with `t0` as the C handler left it; the flag stays up. -/
theorem timerTrap_effect (im : Image) (s : Sys) (t : Timer) (hinst : Installed im s.hart)
    (hflag : flagged im s) :
    ∃ s', timerTrap im s t = some s' ∧ Installed im s'.hart ∧ flagged im s' ∧
      s'.hart.pc = im.mResume ∧ s'.hart.priv = .machine ∧
      s'.hart.regs = Function.update t.regs .t0 (t.left.regs .t0) := by
  have hinst' : Installed im (t.onHart im s.hart) := ⟨hinst.mscratch, hinst.mtvec⟩
  have hkept : (t.onHart im s.hart).mem im.returnM = s.hart.mem im.returnM :=
    Hart.clobberMem_keep _ _ _ (.inr rfl)
  have hrun := trap_eq_handle im { s with hart := t.onHart im s.hart } MCAUSE_MTI t.left
    (n := 7) (by decide) hinst' (tvecTarget_timer im)
  obtain ⟨hcause, -, hmem⟩ := savedMem_trap im 7 (t.onHart im s.hart) MCAUSE_MTI hinst'.mscratch
  have hout : (mtvCHandle im s.g (savedMem im 7 ((t.onHart im s.hart).trapM MCAUSE_MTI))).2
      im.returnM ≠ 0 := by
    rw [mtvCHandle_timer im s.g _ hcause, Function.update_of_ne, hmem, hkept]
    · exact hflag
    · exact ne_addr_of_not_inArea im.returnM_outside (i := 20) (by decide) rfl
  obtain ⟨-, hregs, hscratch, htvec, hflag', -, hset⟩ :=
    handle_effect im 7 s.g ((t.onHart im s.hart).trapM MCAUSE_MTI) t.left hinst'.mscratch
  obtain ⟨hpc, hpriv⟩ := hset hout
  rw [← hflag'] at hout
  rw [Hart.trapM_mtvec, hinst'.mtvec] at htvec
  generalize handle im 7 s.g ((t.onHart im s.hart).trapM MCAUSE_MTI) t.left = out at *
  exact ⟨⟨out.1, out.2⟩, hrun, ⟨hscratch, htvec⟩, hout, hpc, hpriv, hregs⟩

/-! ## The call of `mtv_umode_entry` -/

/-- `main` before the call: the table installed, in M-mode, no `ecall` seen and
the flag down. -/
structure BeforeCall (im : Image) (s : Sys) : Prop where
  installed : Installed im s.hart
  count : s.g.ecallCount = 0
  flag : s.hart.mem im.returnM = 0

/-- The caller's view of the call: back in M-mode at its return address, with
`ra` and every callee-saved register intact. -/
structure Returned (before after : Hart) : Prop where
  pc : after.pc = before.regs .ra
  priv : after.priv = .machine
  regs : ∀ r, r = .ra ∨ r.calleeSaved = true → after.regs r = before.regs r

/-- Clearing both `MPP` bits and setting `MPIE` asks for U-mode. -/
theorem mpp_drop (status : Word) :
    mpp ((status &&& ~~~ mppMask) ||| BitVec.twoPow 64 7) = .user := by
  have hbit : ∀ i, i = 11 ∨ i = 12 →
      ((status &&& ~~~ mppMask) ||| BitVec.twoPow 64 7).getLsbD i = false := by
    rintro i (rfl | rfl)
    · rw [BitVec.getLsbD_or, BitVec.getLsbD_and, BitVec.getLsbD_not,
        show mppMask.getLsbD 11 = true by decide, BitVec.getLsbD_twoPow]
      simp
    · rw [BitVec.getLsbD_or, BitVec.getLsbD_and, BitVec.getLsbD_not,
        show mppMask.getLsbD 12 = true by decide, BitVec.getLsbD_twoPow]
      simp
  rw [mpp, hbit 12 (.inr rfl), hbit 11 (.inl rfl)]
  rfl

/-- The drop: U-mode at the payload, only `t0` changed. -/
theorem umodeEntry_effect (im : Image) (h : Hart) :
    let h' := (run (umodeEntry im) h).mret
    h'.pc = im.payload ∧ h'.priv = .user ∧
      h'.csr .mscratch = h.csr .mscratch ∧ h'.csr .mtvec = h.csr .mtvec ∧
      h'.mem = h.mem ∧ ∀ r, r ≠ .t0 → h'.regs r = h.regs r := by
  refine ⟨?_, ?_, ?_, ?_, ?_, fun r hr => ?_⟩
  · simp [umodeEntry, Instr.exec]
  · have hstatus : (run (umodeEntry im) h).csr .mstatus =
        (h.csr .mstatus &&& ~~~ mppMask) ||| BitVec.twoPow 64 7 := by
      simp [umodeEntry, Instr.exec]
    rw [Hart.mret_priv, hstatus, mpp_drop]
  · simp [umodeEntry, Instr.exec]
  · simp [umodeEntry, Instr.exec]
  · simp [umodeEntry, Instr.exec]
  · simp [umodeEntry, Instr.exec, hr]

/-- Both `ecall`s of the payload keep the handler installed and every register
but `t0`.  The first goes on in U-mode behind itself with the flag still down;
the second leaves for `mtv_m_resume` in M-mode with the flag up. -/
theorem payloadEcall_effect (im : Image) (s : Sys) (left : Leftover)
    (hinst : Installed im s.hart) (hpriv : s.hart.priv = .user)
    (hpc : s.hart.pc = im.payload ∨ s.hart.pc = im.payload + 4)
    (hflag : s.hart.mem im.returnM = 0) :
    ∃ s', payloadEcall im s left = some s' ∧ Installed im s'.hart ∧
      s'.hart.regs = Function.update s.hart.regs .t0 (left.regs .t0) ∧
      (s.g.ecallCount = 0 → s'.g.ecallCount = 1 ∧ s'.hart.mem im.returnM = 0 ∧
        s'.hart.pc = s.hart.pc + 4 ∧ s'.hart.priv = .user) ∧
      (s.g.ecallCount = 1 → flagged im s' ∧ s'.hart.pc = im.mResume ∧
        s'.hart.priv = .machine) := by
  have hrun := trap_eq_handle im s MCAUSE_ECALL_U left (n := 0) (by decide) hinst
    (tvecTarget_ecall im)
  obtain ⟨hcause, hepc, hmem⟩ := savedMem_trap im 0 s.hart MCAUSE_ECALL_U hinst.mscratch
  have hne : im.returnM ≠ addr im.mtvRegs resumeOff :=
    ne_addr_of_not_inArea im.returnM_outside (i := 20) (by decide) rfl
  obtain ⟨hg, hregs, hscratch, htvec, hflag', hclear, hset⟩ :=
    handle_effect im 0 s.g (s.hart.trapM MCAUSE_ECALL_U) left hinst.mscratch
  rw [Hart.trapM_mtvec, hinst.mtvec] at htvec
  rw [Hart.trapM_mstatus, mpp_enterM, hpriv] at hclear
  have hstart : payloadEcall im s left = s.trap im MCAUSE_ECALL_U left := by
    rw [payloadEcall, if_pos hpc, hpriv]
    rfl
  rw [hstart, hrun]
  generalize handle im 0 s.g (s.hart.trapM MCAUSE_ECALL_U) left = out at *
  refine ⟨⟨out.1, out.2⟩, rfl, ⟨hscratch, htvec⟩, hregs, fun hcount => ?_, fun hcount => ?_⟩
  · obtain ⟨hone, hwrite⟩ := mtvCHandle_first im s.g _ hcause hcount
    have hdown : (mtvCHandle im s.g (savedMem im 0 (s.hart.trapM MCAUSE_ECALL_U))).2
        im.returnM = 0 := by
      rw [hwrite, Function.update_of_ne hne, hmem, hflag]
    obtain ⟨hpc', hpriv'⟩ := hclear hdown
    refine ⟨by rw [hg, hone], by rw [hflag', hdown], ?_, hpriv'⟩
    rw [hpc', hwrite, Function.update_self, hepc]
  · have hup := mtvCHandle_second im s.g _ hcause hcount
    have hup' : (mtvCHandle im s.g (savedMem im 0 (s.hart.trapM MCAUSE_ECALL_U))).2
        im.returnM ≠ 0 := by
      rw [hup]
      decide
    obtain ⟨hpc', hpriv'⟩ := hset hup'
    exact ⟨by rw [flagged, hflag']; exact hup', hpc', hpriv'⟩

/-- A call of `mtv_umode_entry` is an ordinary call for its caller, and leaves
the flag up. -/
theorem umodeCall_returns (im : Image) (s : Sys) (first second : Leftover)
    (hbefore : BeforeCall im s) :
    ∃ s', umodeCall im s first second = some s' ∧ Returned s.hart s'.hart ∧
      Installed im s'.hart ∧ flagged im s' := by
  obtain ⟨hpc₀, hpriv₀, hscratch₀, htvec₀, hmem₀, hregs₀⟩ := umodeEntry_effect im s.hart
  let dropped : Sys := { s with hart := (run (umodeEntry im) s.hart).mret }
  have hinst₀ : Installed im dropped.hart :=
    ⟨hscratch₀.trans hbefore.installed.mscratch, htvec₀.trans hbefore.installed.mtvec⟩
  have hflag₀ : dropped.hart.mem im.returnM = 0 := by
    rw [← hbefore.flag]
    exact congrFun hmem₀ im.returnM
  obtain ⟨s₁, hrun₁, hinst₁, hregs₁, hfirst, -⟩ :=
    payloadEcall_effect im dropped first hinst₀ hpriv₀ (.inl hpc₀) hflag₀
  obtain ⟨hcount₁, hflag₁, hpc₁, hpriv₁⟩ := hfirst hbefore.count
  have hat₁ : s₁.hart.pc = im.payload + 4 := by
    rw [hpc₁]
    exact congrArg (· + 4) hpc₀
  obtain ⟨s₂, hrun₂, hinst₂, hregs₂, -, hsecond⟩ :=
    payloadEcall_effect im s₁ second hinst₁ hpriv₁ (.inr hat₁) hflag₁
  obtain ⟨hflag₂, hpc₂, hpriv₂⟩ := hsecond hcount₁
  have hkept : ∀ r, r ≠ .t0 → s₂.hart.regs r = s.hart.regs r := by
    intro r hr
    rw [hregs₂, Function.update_of_ne hr, hregs₁, Function.update_of_ne hr]
    exact hregs₀ r hr
  have hsaved : ∀ r : Reg, r = .ra ∨ r.calleeSaved = true → r ≠ .t0 := by
    rintro r hr rfl
    exact absurd hr (by decide)
  refine ⟨{ s₂ with hart := { s₂.hart with pc := s₂.hart.regs .ra } }, ?_, ?_,
    ⟨hinst₂.mscratch, hinst₂.mtvec⟩, hflag₂⟩
  · change (payloadEcall im dropped first).bind _ = _
    rw [hrun₁, Option.bind_some, hrun₂, Option.bind_some, resumeRet, if_pos hpc₂]
  · exact ⟨hkept .ra (by decide), hpriv₂, fun r hr => hkept r (hsaved r hr)⟩

/-! ## Whole runs -/

/-- A timer interrupt is transparent: the interrupted code goes on where it
was, with all its registers, and the handler is ready for the next one. -/
structure Transparent (im : Image) (t : Timer) (h' : Hart) : Prop where
  pc : h'.pc = t.pc
  regs : h'.regs = t.regs
  mscratch : h'.csr .mscratch = im.mtvRegs

/-- Every timer interrupt of the sequence is transparent. -/
def TimersTransparent (im : Image) : Sys → List Timer → Prop
  | _, [] => True
  | s, t :: ts => ∃ s', timerTrap im s t = some s' ∧ Transparent im t s'.hart ∧
      TimersTransparent im s' ts

/-- The whole run is as the header promises: the call returns to its caller,
and every later timer interrupt is transparent. -/
def RunFaithful (im : Image) (s : Sys) (first second : Leftover) (ts : List Timer) : Prop :=
  ∃ s', umodeCall im s first second = some s' ∧ Returned s.hart s'.hart ∧
    TimersTransparent im s' ts

/-- The interrupts that come out transparent: those that hit the `ret` at
`mtv_m_resume` itself, with a compiled C handler that happens to leave `t0`
as it found it. -/
def Timer.Survives (im : Image) (t : Timer) : Prop :=
  t.pc = im.mResume ∧ t.left.regs .t0 = t.regs .t0

/-- With the flag up, a sequence of timer interrupts is transparent exactly
when each of them survives. -/
theorem timersTransparent_iff (im : Image) (s : Sys) (hinst : Installed im s.hart)
    (hflag : flagged im s) (ts : List Timer) :
    TimersTransparent im s ts ↔ ∀ t ∈ ts, t.Survives im := by
  -- the handler stays installed and the flag stays up along the sequence
  induction ts generalizing s with
  | nil => simp [TimersTransparent]
  | cons t ts ih =>
      obtain ⟨s', hrun, hinst', hflag', hpc, -, hregs⟩ := timerTrap_effect im s t hinst hflag
      have hone : Transparent im t s'.hart ↔ t.Survives im := by
        constructor
        · intro htrans
          have ht0 := congrFun (hregs.symm.trans htrans.regs) .t0
          rw [Function.update_self] at ht0
          exact ⟨htrans.pc.symm.trans hpc, ht0⟩
        · rintro ⟨hat, ht0⟩
          refine ⟨hpc.trans hat.symm, ?_, hinst'.mscratch⟩
          rw [hregs, ht0, Function.update_eq_self]
      constructor
      · rintro ⟨s'', hrun', htrans, hrest⟩
        obtain rfl : s' = s'' := Option.some.inj (hrun.symm.trans hrun')
        have hall := (ih s' hinst' hflag').mp hrest
        simpa using ⟨hone.mp htrans, hall⟩
      · intro hall
        exact ⟨s', hrun, hone.mpr (hall t (by simp)), (ih s' hinst' hflag').mpr
          fun q hq => hall q (by simp [hq])⟩

/-- The call always returns; the run as a whole is faithful exactly when every
timer interrupt hits `mtv_m_resume` and finds `t0` unclobbered. -/
theorem run_faithful_iff (im : Image) (s : Sys) (hbefore : BeforeCall im s)
    (first second : Leftover) (ts : List Timer) :
    RunFaithful im s first second ts ↔ ∀ t ∈ ts, t.Survives im := by
  obtain ⟨s', hrun, hreturned, hinst, hflag⟩ := umodeCall_returns im s first second hbefore
  constructor
  · rintro ⟨s'', hrun', -, htimers⟩
    obtain rfl : s' = s'' := Option.some.inj (hrun.symm.trans hrun')
    exact (timersTransparent_iff im s' hinst hflag ts).mp htimers
  · intro hall
    exact ⟨s', hrun, hreturned, (timersTransparent_iff im s' hinst hflag ts).mpr hall⟩

/-- A linked image of the module. -/
def sampleImage : Image where
  table := 0x80000100
  mtvRegs := 0x80002000
  returnM := 0x80003000
  mResume := 0x80000800
  payload := 0x80000700
  table_aligned := by decide
  returnM_outside := by decide

/-- The module as `main` has it before the call. -/
def sampleSys : Sys where
  g := ⟨0, 0, 0, 0, 0, 0, 0, 0, 0, 0, 0⟩
  hart :=
    { regs := fun _ => 3
      csr := Function.update (Function.update (fun _ => 0) .mscratch sampleImage.mtvRegs)
        .mtvec sampleImage.mtvec
      mem := fun _ => 0, time := 0, cycle := 0, pc := 0x80000900, priv := .machine }

theorem sampleSys_beforeCall : BeforeCall sampleImage sampleSys :=
  ⟨⟨rfl, rfl⟩, rfl, rfl⟩

/-- A C handler that leaves zeroes behind. -/
def sampleLeftover : Leftover := ⟨fun _ => 0, fun _ => 0⟩

/-- A timer interrupt at the given pc of code with zeroes in all registers. -/
def sampleTimer (pc : Word) : Timer where
  regs := fun _ => 0
  pc := pc
  mem := fun _ => 0
  mstatus := 0
  cycle := 0
  left := sampleLeftover

/-- The first timer interrupt after the two `ecall`s, taken in the wait loop of
`main`, does not come back to the wait loop. -/
theorem first_timer_not_transparent :
    ¬ RunFaithful sampleImage sampleSys sampleLeftover sampleLeftover
      [sampleTimer 0x80000a00] := by
  rintro ⟨s', hrun, -, s'', htimer, htrans, -⟩
  obtain ⟨s₁, hrun₁, -, hinst, hflag⟩ :=
    umodeCall_returns sampleImage sampleSys sampleLeftover sampleLeftover sampleSys_beforeCall
  obtain rfl : s' = s₁ := Option.some.inj (hrun.symm.trans hrun₁)
  obtain ⟨s₂, htimer₂, -, -, hpc, -⟩ :=
    timerTrap_effect sampleImage s' (sampleTimer 0x80000a00) hinst hflag
  obtain rfl : s'' = s₂ := Option.some.inj (htimer.symm.trans htimer₂)
  have hresumed : sampleImage.mResume = 0x80000a00 := hpc.symm.trans htrans.pc
  exact absurd hresumed (by decide)

/-- A run whose one timer interrupt hits `mtv_m_resume` is faithful. -/
theorem timer_at_resume_faithful :
    RunFaithful sampleImage sampleSys sampleLeftover sampleLeftover
      [sampleTimer sampleImage.mResume] :=
  (run_faithful_iff sampleImage sampleSys sampleSys_beforeCall sampleLeftover sampleLeftover
    [sampleTimer sampleImage.mResume]).mpr (by
      intro t ht
      obtain rfl := List.mem_singleton.mp ht
      exact ⟨rfl, rfl⟩)

end MtvecVectored
end BareMetal
