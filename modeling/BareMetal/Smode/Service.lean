import BareMetal.Smode.Pending

/-!
# The M-mode rearm service over whole runs

`m_trap_entry` of `src/smode/sboot.S` with both of its ends: `mret`, or the
`wfi` loop at `m_trap_halt`.  A run is `m_boot` followed by any number of traps
into M-mode; between two of them S-mode may do what it likes with the registers,
the memory and its own control registers, but the M-mode registers are out of
its reach.

`mscratch` holds `m_estack_top` whenever the service is entered, so the frame is
the same 32 bytes in every call, whatever stack S-mode runs on.
-/

namespace BareMetal
namespace Smode

open Machine Switch

/-- How a trap into M-mode ends.  At `m_trap_halt` there is a `wfi` and a jump
back to it, so the hart stays as it is; `mstatus.MIE` is clear there. -/
inductive Served
  | resumed (h : Hart)
  | parked (h : Hart)

/-- `m_trap_entry`, with the hart at `m_trap_halt` when it parks. -/
def mTrapServe (h : Hart) : Served :=
  let saved := run mTrapSave h
  if saved.regs .t0 ≠ saved.regs .a0 then .parked saved
  else
    let asked := run mTrapService saved
    if asked.regs .a0 ≠ asked.regs .t0 then .parked asked
    else .resumed (run mTrapRearm asked).mret

/-- The hart that comes back from the service, if it does. -/
def Served.back : Served → Option Hart
  | .resumed h => some h
  | .parked _ => none

theorem mTrapServe_back (h : Hart) : (mTrapServe h).back = mTrapEntry h := by
  simp only [mTrapServe, mTrapEntry]
  split
  · rfl
  · split
    · rfl
    · rfl

/-- A service that is not asked for the rearm parks the hart, with nothing but
its own frame written. -/
theorem mTrapServe_parks {h : Hart} (hother : ¬ (h.csr .mcause = 9 ∧ h.regs .a0 = ECALL_REARM)) :
    ∃ h', mTrapServe h = .parked h' ∧ h'.mem = serviceSaved h := by
  have hsaved : (run mTrapSave h).regs .t0 = h.csr .mcause ∧
      (run mTrapSave h).regs .a0 = 9 ∧ (run mTrapSave h).mem = serviceSaved h := by
    rw [run_mTrapSave]
    refine ⟨?_, ?_, rfl⟩
    · dsimp only
      rw [Function.update_of_ne (by decide), Function.update_self]
    · dsimp only
      rw [Function.update_self]
  obtain ⟨ht0, ha0, hmem⟩ := hsaved
  obtain ⟨-, hservice, hone, -, hasked, -⟩ := mTrapService_effect h
  simp only [mTrapServe]
  by_cases hcause : h.csr .mcause = 9
  · have hservice' : h.regs .a0 ≠ ECALL_REARM := fun hrearm => hother ⟨hcause, hrearm⟩
    rw [if_neg (by rw [ht0, ha0, hcause]; exact not_not.mpr rfl),
      if_pos (by rw [hservice, hone]; exact hservice')]
    exact ⟨_, rfl, hasked⟩
  · rw [if_pos (by rw [ht0, ha0]; exact hcause)]
    exact ⟨_, rfl, hmem⟩

/-- The saves leave every address outside the frame alone. -/
theorem serviceSaved_of_not_inArea {h : Hart} {a : Word} (ha : ¬ InArea (serviceFrame h) 4 a) :
    serviceSaved h a = h.mem a := by
  rw [serviceSaved, update_of_not_inArea ha _ _ (by omega), update_of_not_inArea ha _ _ (by omega),
    update_of_not_inArea ha _ _ (by omega)]

/-! ## Runs -/

/-- The control registers that S-mode code can write, `sstatus`, `sie` and `sip`
through the M-mode registers they are views of. -/
def supervisorCsr : Csr → Bool
  | .mstatus | .mie | .mip | .stvec | .sscratch | .sepc | .scause | .stimecmp => true
  | _ => false

/-- The machine at one trap into M-mode: whatever the interrupted code has made
of it since the last one. -/
structure MTrap where
  regs : Reg → Word
  csr : Csr → Word
  mem : Mem
  time : Word
  cycle : Word
  pc : Word
  priv : Priv
  cause : Word

/-- The hart when that trap is about to be taken. -/
def MTrap.onHart (t : MTrap) (h : Hart) : Hart where
  regs := t.regs
  csr := fun c => if supervisorCsr c then t.csr c else h.csr c
  mem := t.mem
  time := t.time
  cycle := t.cycle
  pc := t.pc
  priv := t.priv

/-- The hart at `m_trap_entry`. -/
def MTrap.entered (t : MTrap) (h : Hart) : Hart :=
  (t.onHart h).trapM t.cause

/-- One trap of a run. -/
def serviceStep (h : Hart) (t : MTrap) : Option Hart :=
  (mTrapServe (t.entered h)).back

section Runs

variable {im : Image}

theorem onHart_serviceable {h : Hart} (hs : Serviceable im h) (t : MTrap) :
    Serviceable im (t.onHart h) :=
  ⟨hs.mscratch, hs.mtvec, hs.medeleg⟩

theorem serviceFrame_entered {h : Hart} (hs : Serviceable im h) (t : MTrap) :
    serviceFrame (t.entered h) = im.mFrame := by
  have hscratch : (t.entered h).csr .mscratch = im.mEstackTop := hs.mscratch
  rw [serviceFrame, hscratch]
  rfl

/-- What the rearm service leaves behind: `called` is the hart at the `ecall`. -/
structure Serviced (im : Image) (called h' : Hart) : Prop where
  regs : h'.regs = called.regs
  pc : h'.pc = called.pc + 4
  priv : h'.priv = called.priv
  mscratch : h'.csr .mscratch = im.mEstackTop
  mtimecmp : h'.mem CLINT_MTIMECMP = called.regs .a1
  mem : ∀ a, a ≠ CLINT_MTIMECMP → ¬ InArea im.mFrame 4 a → h'.mem a = called.mem a

/-- A trap for the rearm service, from a serviceable hart. -/
theorem rearm_serviced (him : im.Separate) {h : Hart} (hs : Serviceable im h) (t : MTrap)
    (hcause : t.cause = 9) (ha0 : t.regs .a0 = ECALL_REARM) :
    ∃ h', mTrapServe (t.entered h) = .resumed h' ∧ Serviced im (t.onHart h) h' ∧
      Serviceable im h' := by
  have hframe := serviceFrame_entered hs t
  obtain ⟨h', hentry, hregs, hpc, hpriv, hcsr, hmem, -⟩ :=
    mTrapEntry_effect (t.entered h) hcause ha0 (by rw [hframe]; exact him.mtimecmp)
  have hserve : mTrapServe (t.entered h) = .resumed h' := by
    have hback := (mTrapServe_back (t.entered h)).trans hentry
    cases hserve : mTrapServe (t.entered h) with
    | resumed k =>
        rw [hserve, Served.back, Option.some.injEq] at hback
        rw [hback]
    | parked k =>
        rw [hserve] at hback
        cases hback
  have hscratch : h'.csr .mscratch = im.mEstackTop :=
    (hcsr .mscratch (by decide) (by decide)).trans hs.mscratch
  refine ⟨h', hserve, ⟨hregs, hpc, ?_, hscratch, ?_, ?_⟩, hscratch, ?_, ?_⟩
  · rw [hpriv]
    exact mpp_enterM _ _
  · rw [hmem, Function.update_self]
    rfl
  · intro a ha hout
    rw [hmem, Function.update_of_ne ha, serviceSaved_of_not_inArea (by rw [hframe]; exact hout)]
    rfl
  · exact (hcsr .mtvec (by decide) (by decide)).trans hs.mtvec
  · rw [hcsr .medeleg (by decide) (by decide)]
    exact hs.medeleg

theorem mBoot_serviceable (im : Image) (hasSstc : Bool) (h : Hart) :
    Serviceable im (mBoot im hasSstc h).2 := by
  have hboot := (mBoot_effect im hasSstc h).2
  refine ⟨hboot.mscratch, hboot.mtvec, ?_⟩
  rw [hboot.medeleg]
  decide

/-- A trap that comes back leaves the hart serviceable. -/
theorem serviceStep_serviceable (him : im.Separate) {h h' : Hart} {t : MTrap}
    (hs : Serviceable im h) (hstep : serviceStep h t = some h') : Serviceable im h' := by
  by_cases hrearm : t.cause = 9 ∧ t.regs .a0 = ECALL_REARM
  · obtain ⟨k, hserve, -, hk⟩ := rearm_serviced him hs t hrearm.1 hrearm.2
    rw [serviceStep, hserve, Served.back, Option.some.injEq] at hstep
    rw [← hstep]
    exact hk
  · obtain ⟨k, hserve, -⟩ := mTrapServe_parks (h := t.entered h) hrearm
    rw [serviceStep, hserve] at hstep
    cases hstep

theorem service_run_serviceable (him : im.Separate) {hasSstc : Bool} {h₀ h : Hart}
    {ts : List MTrap} (hrun : runAll serviceStep (mBoot im hasSstc h₀).2 ts = some h) :
    Serviceable im h :=
  runAll_invariant (fun hs hstep => serviceStep_serviceable him hs hstep)
    (mBoot_serviceable im hasSstc h₀) hrun

/-- Any number of rearm calls come back. -/
theorem service_run_returns (him : im.Separate) (hasSstc : Bool) (h₀ : Hart) {ts : List MTrap}
    (hts : ∀ t ∈ ts, t.cause = 9 ∧ t.regs .a0 = ECALL_REARM) :
    ∃ h, runAll serviceStep (mBoot im hasSstc h₀).2 ts = some h ∧ Serviceable im h := by
  apply runAll_returns (P := fun t => t.cause = 9 ∧ t.regs .a0 = ECALL_REARM) ?_ hts
    (mBoot_serviceable im hasSstc h₀)
  intro h t ht hs
  obtain ⟨h', hserve, -, hs'⟩ := rearm_serviced him hs t ht.1 ht.2
  exact ⟨h', by rw [serviceStep, hserve]; rfl, hs'⟩

/-- The next trap into M-mode after `m_boot` and any number of calls: the rearm
service does what it was asked for and nothing else, and everything else parks
the hart with the compare register untouched. -/
theorem rearm_service_frame (him : im.Separate) (hasSstc : Bool) (h₀ h : Hart) (ts : List MTrap)
    (hrun : runAll serviceStep (mBoot im hasSstc h₀).2 ts = some h) (t : MTrap) :
    (t.entered h).pc = im.mTrapEntry ∧
    (t.cause = 9 → t.regs .a0 = ECALL_REARM →
      ∃ h', mTrapServe (t.entered h) = .resumed h' ∧ Serviced im (t.onHart h) h') ∧
    (¬ (t.cause = 9 ∧ t.regs .a0 = ECALL_REARM) →
      ∃ h', mTrapServe (t.entered h) = .parked h' ∧
        h'.mem CLINT_MTIMECMP = t.mem CLINT_MTIMECMP ∧
        ∀ a, ¬ InArea im.mFrame 4 a → h'.mem a = t.mem a) := by
  have hs := service_run_serviceable him hrun
  refine ⟨?_, fun hcause ha0 => ?_, fun hother => ?_⟩
  · show tvecTarget ((t.onHart h).csr .mtvec) t.cause = im.mTrapEntry
    rw [(onHart_serviceable hs t).mtvec, tvecTarget_direct him.aligned]
  · obtain ⟨h', hserve, hserviced, -⟩ := rearm_serviced him hs t hcause ha0
    exact ⟨h', hserve, hserviced⟩
  · obtain ⟨h', hserve, hmem⟩ := mTrapServe_parks (h := t.entered h) hother
    have hout : ∀ a, ¬ InArea im.mFrame 4 a → h'.mem a = t.mem a := by
      intro a ha
      rw [hmem, serviceSaved_of_not_inArea (by rw [serviceFrame_entered hs t]; exact ha)]
      rfl
    exact ⟨h', hserve, hout CLINT_MTIMECMP him.mtimecmp, hout⟩

end Runs

/-- An S-mode `ecall` with the given `a0` and the deadline 5000, on a stack of its
own. -/
def sampleMTrap (service : Word) : MTrap where
  regs := Function.update (Function.update (Function.update (fun _ => 77) .a0 service) .a1 5000)
    .sp 0x80008000
  csr := fun _ => 0
  mem := fun _ => 0
  time := 0
  cycle := 0
  pc := 0x80000700
  priv := .supervisor
  cause := ecallCause .supervisor

/-- After one rearm call of the sample image, a second one is served and a call
for another service parks. -/
theorem sample_rearm_service :
    ∃ h h' k, runAll serviceStep (mBoot sampleImage false sampleHart).2 [sampleMTrap 1] = some h ∧
      mTrapServe ((sampleMTrap 1).entered h) = .resumed h' ∧
      h'.mem CLINT_MTIMECMP = 5000 ∧ h'.pc = 0x80000704 ∧
      mTrapServe ((sampleMTrap 2).entered h) = .parked k ∧ k.mem CLINT_MTIMECMP = 0 := by
  have hrearm : ∀ t ∈ [sampleMTrap 1], t.cause = 9 ∧ t.regs .a0 = ECALL_REARM := by
    intro t ht
    obtain rfl : t = sampleMTrap 1 := by simpa using ht
    exact ⟨rfl, rfl⟩
  obtain ⟨h, hrun, -⟩ := service_run_returns sampleImage_separate false sampleHart hrearm
  obtain ⟨-, hserved, -⟩ := rearm_service_frame sampleImage_separate false sampleHart h
    [sampleMTrap 1] hrun (sampleMTrap 1)
  obtain ⟨-, -, hparked⟩ := rearm_service_frame sampleImage_separate false sampleHart h
    [sampleMTrap 1] hrun (sampleMTrap 2)
  obtain ⟨h', hserve, hback⟩ := hserved rfl rfl
  obtain ⟨k, hpark, hcmp, -⟩ := hparked (by decide)
  exact ⟨h, h', k, hrun, hserve, hback.mtimecmp, hback.pc, hpark, hcmp⟩

end Smode
end BareMetal
