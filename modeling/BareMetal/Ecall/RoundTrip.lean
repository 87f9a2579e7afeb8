import BareMetal.Ecall.Trap

/-!
# The ecall ABI lab: round trips and the exit service

A lab run is any sequence of traps through `ecall_trap_entry` after the setup
of `main`, with arbitrary S-mode code in between.  Two results:

* every trap that finds room in the log is a faithful round trip
  (`trap_roundTrip`): service 1 changes `a0` only, every other service or
  cause changes no register at all, and the log row of that trap, and no
  other, records it;
* the exit service resumes at `m_report`, but in the mode the trap came from
  (`exit_service_stays_in_supervisor`): nothing between trap entry and `mret`
  writes `mstatus.MPP`.
-/

namespace BareMetal
namespace Ecall

open Machine

/-- Link-time symbols of the lab, and its program text. -/
structure Image where
  code : Word → BitVec 32
  ecallRegs : Word
  trapEntryAddr : Word
  mReport : Word

/-- The C globals together with the hart. -/
structure Lab where
  g : Globals
  hart : Hart

/-- The machine at one trap: whatever the interrupted code has made of it,
and what the compiled dispatcher will leave in the registers and memory it may
use. -/
structure Trap where
  regs : Reg → Word
  pc : Word
  mem : Mem
  mstatus : Word
  priv : Priv
  cause : Word
  left : Leftover

/-- The hart when that trap is taken.  The interrupted code does not touch
`mscratch`. -/
def Trap.onHart (t : Trap) (h : Hart) : Hart :=
  { h.setCsr .mstatus t.mstatus with regs := t.regs, pc := t.pc, mem := t.mem, priv := t.priv }

/-- One trap of a lab run. -/
def step (im : Image) (s : Lab) (t : Trap) : Option Lab :=
  (trapEntry im.code im.ecallRegs s.g ((t.onHart s.hart).trapM t.cause) t.left).map
    fun out => ⟨out.1, out.2⟩

/-- The setup of `main` before the drop to S-mode. -/
def setup (im : Image) (g : Globals) (h : Hart) : Lab where
  g := { g with ncalls := 0, unexpected := 0, exitResumePc := im.mReport }
  hart := (h.setCsr .mtvec im.trapEntryAddr).setCsr .mscratch im.ecallRegs

/-! ## The three outcomes of the service part -/

section Serve

variable {g : Globals} {mem : Mem} {r mcause mepc : Word} {insn : BitVec 32}
  {regs : Reg → Word}

/-- Service 1: the xor of the six arguments goes to the word of `a0` and to no
other word of the area. -/
theorem serve_xor (g : Globals) (mepc : Word) (hmem : ∀ q, mem (addr r (numOff q)) = regs q)
    (hcause : mcause = 9) (hinsn : insn = ecallWord) (hsvc : regs .a7 = SVC_XOR_ARGS) :
    let s := serve g mem r mcause mepc insn
    let res := regs .a0 ^^^ regs .a1 ^^^ regs .a2 ^^^ regs .a3 ^^^ regs .a4 ^^^ regs .a5
    s.resume = mepc + 4 ∧
      ∀ q, s.mem (addr r (numOff q)) = Function.update regs .a0 res q := by
  have hword : mem (addr r (8 * 17)) = SVC_XOR_ARGS := (hmem .a7).trans hsvc
  have hargs : ∀ q : Reg, mem (addr r (8 * q.num)) = regs q := hmem
  have h0 := hargs .a0
  have h1 := hargs .a1
  have h2 := hargs .a2
  have h3 := hargs .a3
  have h4 := hargs .a4
  have h5 := hargs .a5
  simp only [Reg.num] at h0 h1 h2 h3 h4 h5
  simp only [serve, hcause, hinsn, hword, h0, h1, h2, h3, h4, h5, and_self, if_true, true_and]
  intro q
  have hq := numOff_lt q
  rw [update_addr _ _ _ (by omega) (by omega)]
  by_cases ha0 : q = .a0
  · subst ha0
    rfl
  · have hoff : numOff q ≠ 8 * 10 := fun hoff => ha0 (@numOff_injective q .a0 hoff)
    rw [if_neg hoff, hmem, Function.update_of_ne ha0]

/-- The exit service: resume at the recorded pc, area untouched. -/
theorem serve_exit (hmem : ∀ q, mem (addr r (numOff q)) = regs q)
    (hcause : mcause = 9) (hinsn : insn = ecallWord) (hsvc : regs .a7 = SVC_EXIT_MMODE) :
    serve g mem r mcause mepc insn = ⟨0, g.exitResumePc, g.unexpected, mem⟩ := by
  have hword : mem (addr r (8 * 17)) = SVC_EXIT_MMODE := (hmem .a7).trans hsvc
  have hne : SVC_EXIT_MMODE ≠ SVC_XOR_ARGS := by decide
  simp only [serve, hcause, hinsn, hword, and_self, if_true, if_neg hne]

/-- Any other service or cause: resume behind the instruction, area untouched,
flag raised. -/
theorem serve_other (g : Globals) (mepc : Word) (hmem : ∀ q, mem (addr r (numOff q)) = regs q)
    (hother : ¬ (mcause = 9 ∧ insn = ecallWord ∧
      (regs .a7 = SVC_XOR_ARGS ∨ regs .a7 = SVC_EXIT_MMODE))) :
    serve g mem r mcause mepc insn = ⟨0, mepc + 4, 1, mem⟩ := by
  have hword : mem (addr r (8 * 17)) = regs .a7 := hmem .a7
  by_cases hecall : mcause = 9 ∧ insn = ecallWord
  · have hxor : regs .a7 ≠ SVC_XOR_ARGS := fun h => hother ⟨hecall.1, hecall.2, .inl h⟩
    have hexit : regs .a7 ≠ SVC_EXIT_MMODE := fun h => hother ⟨hecall.1, hecall.2, .inr h⟩
    simp only [serve, hword, if_pos hecall, if_neg hxor, if_neg hexit]
  · simp only [serve, if_neg hecall]

end Serve

/-! ## Round trips -/

/-- `a0`-`a7`, in the order of the log. -/
def argRegs : List Reg := [.a0, .a1, .a2, .a3, .a4, .a5, .a6, .a7]

/-- `t0`-`t6`, in the order of the log. -/
def tempRegs : List Reg := [.t0, .t1, .t2, .t3, .t4, .t5, .t6]

/-- The log row of a trap records that trap. -/
structure Logged (im : Image) (t : Trap) (row : Nat → Word) : Prop where
  mcause : row 0 = t.cause
  mepc : row 1 = t.pc
  insn : row 2 = (im.code t.pc).setWidth 64
  args : ∀ i r, argRegs[i]? = some r → row (3 + i) = t.regs r
  temps : ∀ i r, tempRegs[i]? = some r → row (11 + i) = t.regs r

/-- What the lab promises about one trap `t` taken in state `s`. -/
structure RoundTrip (im : Image) (s : Lab) (t : Trap) (s' : Lab) : Prop where
  xor : t.cause = 9 → im.code t.pc = ecallWord → t.regs .a7 = SVC_XOR_ARGS →
    s'.hart.pc = t.pc + 4 ∧
      s'.hart.regs = Function.update t.regs .a0 (t.regs .a0 ^^^ t.regs .a1 ^^^ t.regs .a2 ^^^
        t.regs .a3 ^^^ t.regs .a4 ^^^ t.regs .a5)
  other : ¬ (t.cause = 9 ∧ im.code t.pc = ecallWord ∧
      (t.regs .a7 = SVC_XOR_ARGS ∨ t.regs .a7 = SVC_EXIT_MMODE)) →
    s'.hart.pc = t.pc + 4 ∧ s'.hart.regs = t.regs ∧ s'.g.unexpected = 1
  row : Logged im t (s'.g.log s.g.ncalls.toNat)
  rows : ∀ n, n ≠ s.g.ncalls.toNat → s'.g.log n = s.g.log n
  ncalls : s'.g.ncalls = s.g.ncalls + 1
  mscratch : s'.hart.csr .mscratch = im.ecallRegs

theorem argRegs_num {i : Nat} {q : Reg} (hq : argRegs[i]? = some q) :
    i < 8 ∧ q.num = 10 + i := by
  have hi : i < 8 := (List.getElem?_eq_some_iff.mp hq).1
  refine ⟨hi, ?_⟩
  interval_cases i <;> (cases hq; rfl)

theorem tempRegs_num {i : Nat} {q : Reg} (hq : tempRegs[i]? = some q) :
    i < 7 ∧ q.num = tno.getD i 0 := by
  have hi : i < 7 := (List.getElem?_eq_some_iff.mp hq).1
  refine ⟨hi, ?_⟩
  interval_cases i <;> (cases hq; rfl)

/-- The row written by the dispatcher records the registers it found in the
save area. -/
theorem logRow_logged (im : Image) (t : Trap) {mem : Mem} {r : Word}
    (hmem : ∀ q, mem (addr r (numOff q)) = t.regs q) (res resume : Word) (old : Nat → Word) :
    Logged im t (logRow mem r t.cause t.pc (im.code t.pc) res resume old) where
  mcause := rfl
  mepc := rfl
  insn := rfl
  args := by
    intro i q hq
    obtain ⟨hi, hnum⟩ := argRegs_num hq
    rw [logRow, if_neg (by omega), if_neg (by omega), if_neg (by omega), if_pos (by omega),
      show 10 + (3 + i - 3) = q.num by omega]
    exact hmem q
  temps := by
    intro i q hq
    obtain ⟨hi, hnum⟩ := tempRegs_num hq
    rw [logRow, if_neg (by omega), if_neg (by omega), if_neg (by omega), if_neg (by omega),
      if_pos (by omega), show 11 + i - 11 = i by omega, ← hnum]
    exact hmem q

/-- What every state of a lab run keeps. -/
structure Ready (im : Image) (s : Lab) : Prop where
  mscratch : s.hart.csr .mscratch = im.ecallRegs
  exitResumePc : s.g.exitResumePc = im.mReport

/-- The effect of one trap on a ready lab with room in the log, in terms of
the service it asked for. -/
theorem step_effect (im : Image) (s : Lab) (t : Trap) (hready : Ready im s)
    (hroom : s.g.ncalls < ELOG_N) :
    ∃ (mem : Mem) (s' : Lab),
      (∀ q, mem (addr im.ecallRegs (numOff q)) = t.regs q) ∧
      step im s t = some s' ∧
      (let sv := serve s.g mem im.ecallRegs t.cause t.pc (im.code t.pc);
        s'.g = { s.g with
          log := Function.update s.g.log s.g.ncalls.toNat (logRow mem im.ecallRegs t.cause t.pc
            (im.code t.pc) sv.res sv.resume (s.g.log s.g.ncalls.toNat))
          ncalls := s.g.ncalls + 1
          unexpected := sv.unexpected } ∧
        s'.hart.pc = sv.resume ∧
        (∀ q, q ≠ .t0 → s'.hart.regs q = sv.mem (addr im.ecallRegs (numOff q))) ∧
        s'.hart.regs .t0 = t.regs .t0 ∧
        s'.hart.csr .mscratch = im.ecallRegs ∧
        s'.hart.priv = t.priv) := by
  have hscratch : ((t.onHart s.hart).trapM t.cause).csr .mscratch = im.ecallRegs := hready.mscratch
  obtain ⟨mem, g', h', hmem, hrun, hg, hpc, hregs, ht0, hms, hpriv⟩ :=
    trapEntry_effect im.code im.ecallRegs s.g ((t.onHart s.hart).trapM t.cause) t.left hscratch hroom
  refine ⟨mem, ⟨g', h'⟩, hmem, ?_, hg, hpc, hregs, ht0, hms, ?_⟩
  · rw [step, hrun]
    rfl
  · rw [hpriv, Hart.trapM_mstatus, mpp_enterM]
    rfl

theorem setup_ready (im : Image) (g : Globals) (h : Hart) : Ready im (setup im g h) :=
  ⟨rfl, rfl⟩

/-- A trap that returns found room in the log. -/
theorem room_of_step {im : Image} {s s' : Lab} {t : Trap} (hstep : step im s t = some s') :
    s.g.ncalls < ELOG_N := by
  by_contra hfull
  have hnone : ∀ (h : Hart) (r : Word), ecallHandle im.code s.g h r = none := by
    intro h r
    rw [ecallHandle, if_pos (BitVec.not_lt.mp hfull)]
  simp [step, trapEntry, hnone] at hstep

/-- Every trap keeps the lab ready for the next one. -/
theorem step_ready {im : Image} {s s' : Lab} {t : Trap} (hready : Ready im s)
    (hstep : step im s t = some s') : Ready im s' := by
  obtain ⟨mem, s'', -, hrun, hg, -, -, -, hms, -⟩ :=
    step_effect im s t hready (room_of_step hstep)
  obtain rfl : s' = s'' := Option.some.inj (hstep.symm.trans hrun)
  exact ⟨hms, by rw [hg]; exact hready.exitResumePc⟩

/-- Every state of a lab run is ready. -/
theorem run_ready {im : Image} {g : Globals} {h : Hart} {ts : List Trap} {s : Lab}
    (hrun : runAll (step im) (setup im g h) ts = some s) : Ready im s :=
  runAll_invariant (fun hready hstep => step_ready hready hstep) (setup_ready im g h) hrun

/-- The next trap of any lab run that still finds room in the log is a
faithful round trip. -/
theorem trap_roundTrip (im : Image) (g : Globals) (h : Hart) (ts : List Trap) (s : Lab)
    (hrun : runAll (step im) (setup im g h) ts = some s) (hroom : s.g.ncalls < ELOG_N)
    (t : Trap) : ∃ s', step im s t = some s' ∧ RoundTrip im s t s' := by
  obtain ⟨mem, s', hmem, hstep, hg, hpc, hregs, ht0, hms, -⟩ :=
    step_effect im s t (run_ready hrun) hroom
  refine ⟨s', hstep, ?_⟩
  constructor
  case xor =>
    intro hcause hinsn hsvc
    obtain ⟨hresume, hwords⟩ := serve_xor s.g t.pc hmem hcause hinsn hsvc
    refine ⟨hpc.trans hresume, ?_⟩
    funext q
    by_cases hq : q = .t0
    · rw [hq, ht0, Function.update_of_ne (by decide)]
    · rw [hregs q hq, hwords q]
  case other =>
    intro hother
    have hserve := serve_other s.g t.pc hmem hother
    rw [hserve] at hpc hregs hg
    refine ⟨hpc, ?_, by rw [hg]⟩
    funext q
    by_cases hq : q = .t0
    · rw [hq, ht0]
    · exact (hregs q hq).trans (hmem q)
  case row =>
    rw [hg]
    dsimp only
    rw [Function.update_self]
    exact logRow_logged im t hmem _ _ _
  case rows =>
    intro n hn
    rw [hg]
    exact Function.update_of_ne hn _ _
  case ncalls =>
    rw [hg]
  case mscratch =>
    exact hms

/-- A small linked image: the payload is one `ecall` after another. -/
def sampleImage : Image where
  code := fun _ => ecallWord
  ecallRegs := 0x80003000
  trapEntryAddr := 0x80000040
  mReport := 0x80000400

/-- The lab after `main`'s setup on a zeroed hart. -/
def sampleLab : Lab :=
  setup sampleImage ⟨fun _ _ => 0, 0, 0, 0⟩
    ⟨fun _ => 0, fun _ => 0, fun _ => 0, 0, 0, 0x80000000, .machine⟩

/-- An S-mode `ecall` with 5 in every register but `a7`, which names the
service. -/
def sampleTrap (svc : Word) : Trap where
  regs := Function.update (fun _ => 5) .a7 svc
  pc := 0x80001000
  mem := fun _ => 0
  mstatus := 0
  priv := .supervisor
  cause := ecallCause .supervisor
  left := ⟨fun _ => 77, fun _ => 77⟩

theorem sample_first_trap_roundTrip :
    ∃ s', step sampleImage sampleLab (sampleTrap SVC_XOR_ARGS) = some s' ∧
      RoundTrip sampleImage sampleLab (sampleTrap SVC_XOR_ARGS) s' :=
  trap_roundTrip sampleImage ⟨fun _ _ => 0, 0, 0, 0⟩
    ⟨fun _ => 0, fun _ => 0, fun _ => 0, 0, 0, 0x80000000, .machine⟩ [] sampleLab rfl
    (by decide) (sampleTrap SVC_XOR_ARGS)

/-! ## The exit service -/

/-- An S-mode `ecall` asking for the exit service. -/
structure Trap.IsExit (im : Image) (t : Trap) : Prop where
  priv : t.priv = .supervisor
  cause : t.cause = ecallCause .supervisor
  insn : im.code t.pc = ecallWord
  svc : t.regs .a7 = SVC_EXIT_MMODE

/-- The exit service does resume at `m_report`, but never in M-mode: the trap
set `MPP` to S, and neither the assembly nor the dispatcher changes it. -/
theorem exit_service_stays_in_supervisor (im : Image) (g : Globals) (h : Hart)
    (ts : List Trap) (s : Lab) (hrun : runAll (step im) (setup im g h) ts = some s)
    (hroom : s.g.ncalls < ELOG_N) (t : Trap) (hexit : t.IsExit im) :
    ∃ s', step im s t = some s' ∧ s'.hart.pc = im.mReport ∧
      s'.hart.priv = .supervisor ∧ ¬ (s'.hart.pc = im.mReport ∧ s'.hart.priv = .machine) := by
  have hready := run_ready hrun
  obtain ⟨mem, s', hmem, hstep, -, hpc, -, -, -, hpriv⟩ := step_effect im s t hready hroom
  rw [serve_exit hmem hexit.cause hexit.insn hexit.svc] at hpc
  have hmode : s'.hart.priv = .supervisor := hpriv.trans hexit.priv
  refine ⟨s', hstep, hpc.trans hready.exitResumePc, hmode, ?_⟩
  rintro ⟨-, hmachine⟩
  rw [hmode] at hmachine
  exact absurd hmachine (by decide)

theorem sampleTrap_isExit : (sampleTrap SVC_EXIT_MMODE).IsExit sampleImage :=
  ⟨rfl, rfl, rfl, rfl⟩

/-- The exit service of the sample lab prints the report from S-mode. -/
theorem sample_exit_in_supervisor :
    ∃ s', step sampleImage sampleLab (sampleTrap SVC_EXIT_MMODE) = some s' ∧
      s'.hart.pc = sampleImage.mReport ∧ s'.hart.priv = .supervisor ∧
      ¬ (s'.hart.pc = sampleImage.mReport ∧ s'.hart.priv = .machine) :=
  exit_service_stays_in_supervisor sampleImage ⟨fun _ _ => 0, 0, 0, 0⟩
    ⟨fun _ => 0, fun _ => 0, fun _ => 0, 0, 0, 0x80000000, .machine⟩ [] sampleLab rfl
    (by decide) (sampleTrap SVC_EXIT_MMODE) sampleTrap_isExit

/-- The exit `ecall` of the sample lab does not reach `m_report` in M-mode. -/
theorem sample_exit_not_in_machine_mode :
    ¬ ∃ s', step sampleImage sampleLab (sampleTrap SVC_EXIT_MMODE) = some s' ∧
      s'.hart.pc = sampleImage.mReport ∧ s'.hart.priv = .machine := by
  rintro ⟨s', hstep, -, hmachine⟩
  obtain ⟨mem, s'', -, hstep', -, -, -, -, -, hpriv⟩ :=
    step_effect sampleImage sampleLab (sampleTrap SVC_EXIT_MMODE) ⟨rfl, rfl⟩ (by decide)
  obtain rfl : s' = s'' := Option.some.inj (hstep.symm.trans hstep')
  rw [hpriv] at hmachine
  exact absurd hmachine (by decide)

end Ecall
end BareMetal
