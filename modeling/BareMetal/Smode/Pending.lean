import BareMetal.Smode.Timer
import BareMetal.Machine.Runs

/-!
# When the supervisor timer interrupt is pending

After `m_boot` the S-mode code arms and disarms its timer while time goes on.
With Sstc the comparator is `stimecmp`, which drives `STIP`; without it the
M-mode service writes `mtimecmp`, which drives `MTIP` only.  `MTIE` is never
set and nothing ever writes `mip.STIP`, so without Sstc the supervisor timer
interrupt is never pending.

The two paths therefore agree exactly as long as the programmed deadline has
not been reached (`pending_agrees_iff`).
-/

namespace BareMetal
namespace Smode

open Machine Switch

/-! ## Pending bits -/

/-- `mip.STIP`: driven by `stimecmp` when Sstc is enabled, else a bit that only
M-mode software writes. -/
def stip (h : Hart) : Bool :=
  if (h.csr .menvcfg).getLsbD MENVCFG_STCE then h.csr .stimecmp ≤ h.time
  else (h.csr .mip).getLsbD 5

/-- `mip.MTIP`, driven by `mtimecmp`. -/
def mtip (h : Hart) : Bool :=
  h.mem CLINT_MTIMECMP ≤ h.time

/-- A machine timer interrupt is taken into M-mode: it is pending, enabled and
not delegated, and the hart is below M-mode or has `MIE` set. -/
def mTimerTaken (h : Hart) : Bool :=
  mtip h && (h.csr .mie).getLsbD 7 && !(h.csr .mideleg).getLsbD 7 &&
    (h.priv ≠ .machine || (h.csr .mstatus).getLsbD bitMIE)

/-! ## Arming, disarming and the passage of time -/

/-- The S-mode code and the timer registers, with the deadline that was last
programmed.  The code does not read `programmed`. -/
structure Clock where
  tm : Timer
  hart : Hart
  programmed : Word

/-- What happens to the timer in S-mode. -/
inductive Op
  | arm (env : Env)
  | disarm (env : Env)
  | advance (time : Word)

/-- One operation.  While `stimer_arm` runs, time moves on to its last reading. -/
def Clock.step (im : Image) (s : Clock) : Op → Option Clock
  | .arm env =>
      (stimerArm im true s.tm s.hart env).map fun out =>
        ⟨out.1, { out.2 with time := env.readings.getLastD s.hart.time }, out.1.deadline⟩
  | .disarm env =>
      (stimerDisarm im true s.tm s.hart env).map fun out => ⟨out.1, out.2, out.1.deadline⟩
  | .advance time => some { s with hart := { s.hart with time := time } }

/-- The machine when `m_boot` has dropped to S-mode, with both comparators
parked in the far future. -/
def booted (im : Image) (hasSstc : Bool) (h : Hart) : Clock :=
  ⟨⟨(mBoot im hasSstc h).1, 0⟩, (mBoot im hasSstc h).2, ~~~ 0⟩

/-- The bits of the reset state that `m_boot` relies on and does not write. -/
structure ResetBits (h : Hart) : Prop where
  mtie : (h.csr .mie).getLsbD 7 = false
  stip : (h.csr .mip).getLsbD 5 = false

/-- At a moment the supervisor timer interrupt is pending exactly when the last
programmed deadline is reached, and no machine timer interrupt is taken. -/
def AsProgrammed (s : Clock) : Prop :=
  (stip s.hart = true ↔ s.programmed ≤ s.hart.time) ∧ mTimerTaken s.hart = false

/-! ## The invariant -/

/-- What holds after `m_boot` as long as the S-mode code only arms and disarms
its timer. -/
structure Running (im : Image) (hasSstc : Bool) (s : Clock) : Prop where
  useSstc : s.tm.useSstc = hasSstc
  stce : (s.hart.csr .menvcfg).getLsbD MENVCFG_STCE = hasSstc
  mtie : (s.hart.csr .mie).getLsbD 7 = false
  noStip : (s.hart.csr .mip).getLsbD 5 = false
  service : Serviceable im s.hart
  supervisor : s.hart.priv = .supervisor
  comparator : if hasSstc then s.hart.csr .stimecmp = s.programmed
    else s.hart.mem CLINT_MTIMECMP = s.programmed

/-- What `m_boot` leaves behind in the registers that matter for the timer. -/
structure BootState (im : Image) (hasSstc : Bool) (h h' : Hart) : Prop where
  mie : h'.csr .mie = h.csr .mie
  mip : h'.csr .mip = h.csr .mip
  menvcfg : h'.csr .menvcfg = setBit (h.csr .menvcfg) MENVCFG_STCE hasSstc
  mscratch : h'.csr .mscratch = im.mEstackTop
  mtvec : h'.csr .mtvec = im.mTrapEntry
  medeleg : h'.csr .medeleg = MEDELEG_MASK
  stvec : h'.csr .stvec = im.trapEntry
  sscratch : h'.csr .sscratch = im.schedTf
  stimecmp : hasSstc = true → h'.csr .stimecmp = ~~~ 0
  mtimecmp : h'.mem CLINT_MTIMECMP = ~~~ 0
  priv : h'.priv = .supervisor
  time : h'.time = h.time

theorem mBoot_effect (im : Image) (hasSstc : Bool) (h : Hart) :
    (mBoot im hasSstc h).1 = hasSstc ∧ BootState im hasSstc h (mBoot im hasSstc h).2 := by
  have hstce : (setBit (h.csr .menvcfg) MENVCFG_STCE hasSstc).getLsbD MENVCFG_STCE = hasSstc := by
    rw [getLsbD_setBit _ (by decide), if_pos rfl]
  have hspp : ∀ v : Word, (((v ||| BitVec.twoPow 64 bitSPP) &&& ~~~ MPP_MASK) |||
      BitVec.twoPow 64 11).getLsbD bitSPP = true := by
    intro v
    have hmask : MPP_MASK.getLsbD 8 = false := by decide
    simp only [bitSPP, BitVec.getLsbD_or, BitVec.getLsbD_and, BitVec.getLsbD_not, hmask,
      BitVec.getLsbD_twoPow]
    simp
  refine ⟨hstce, ⟨?_, ?_, ?_, ?_, ?_, ?_, ?_, ?_, ?_, ?_, ?_, ?_⟩⟩
  case refine_9 =>
    rintro rfl
    simp [mBoot, hstce]
  case refine_10 => cases hasSstc <;> simp [mBoot, hstce]
  case refine_11 =>
    show spp _ = .supervisor
    rw [spp, if_pos]
    exact hspp _
  case refine_12 => cases hasSstc <;> simp [mBoot, Hart.sret, hstce]
  all_goals cases hasSstc <;> simp [mBoot, hstce]

theorem booted_running (im : Image) (hasSstc : Bool) {h : Hart} (hreset : ResetBits h) :
    Running im hasSstc (booted im hasSstc h) := by
  obtain ⟨huse, hboot⟩ := mBoot_effect im hasSstc h
  refine ⟨huse, ?_, ?_, ?_, ⟨hboot.mscratch, hboot.mtvec, ?_⟩, hboot.priv, ?_⟩
  · show ((mBoot im hasSstc h).2.csr .menvcfg).getLsbD MENVCFG_STCE = hasSstc
    rw [hboot.menvcfg, getLsbD_setBit _ (by decide), if_pos rfl]
  · show ((mBoot im hasSstc h).2.csr .mie).getLsbD 7 = false
    rw [hboot.mie, hreset.mtie]
  · show ((mBoot im hasSstc h).2.csr .mip).getLsbD 5 = false
    rw [hboot.mip, hreset.stip]
  · show ((mBoot im hasSstc h).2.csr .medeleg).getLsbD 9 = false
    rw [hboot.medeleg]
    decide
  · cases hasSstc with
    | false => exact hboot.mtimecmp
    | true => exact hboot.stimecmp rfl

/-- Programming the comparator keeps everything else the invariant speaks of. -/
theorem program_running {im : Image} (him : im.Separate) {hasSstc : Bool} {s : Clock}
    (hs : Running im hasSstc s) (env : Env) (deadline : Word) :
    ∃ h', program im true s.tm.useSstc s.hart env deadline = some h' ∧
      h'.time = s.hart.time ∧
      Running im hasSstc ⟨{ s.tm with deadline := deadline }, h', deadline⟩ := by
  rw [hs.useSstc]
  cases hasSstc with
  | true =>
      refine ⟨s.hart.setCsr .stimecmp deadline, rfl, rfl, hs.useSstc, hs.stce, hs.mtie,
        hs.noStip, ⟨hs.service.mscratch, hs.service.mtvec, hs.service.medeleg⟩,
        hs.supervisor, ?_⟩
      show (s.hart.setCsr .stimecmp deadline).csr .stimecmp = deadline
      rw [Hart.setCsr_csr, Function.update_self]
  | false =>
      obtain ⟨h', hcall, hre⟩ :=
        ecallRearm_returns him hs.service hs.supervisor env deadline
      refine ⟨h', hcall, hre.time, hs.useSstc, ?_, ?_, ?_, ⟨?_, ?_, ?_⟩, ?_, ?_⟩
      · show (h'.csr .menvcfg).getLsbD MENVCFG_STCE = false
        rw [hre.csr .menvcfg rfl]
        exact hs.stce
      · show (h'.csr .mie).getLsbD 7 = false
        rw [hre.csr .mie rfl]
        exact hs.mtie
      · show (h'.csr .mip).getLsbD 5 = false
        rw [hre.csr .mip rfl]
        exact hs.noStip
      · show h'.csr .mscratch = im.mEstackTop
        rw [hre.csr .mscratch rfl]
        exact hs.service.mscratch
      · show h'.csr .mtvec = im.mTrapEntry
        rw [hre.csr .mtvec rfl]
        exact hs.service.mtvec
      · show (h'.csr .medeleg).getLsbD 9 = false
        rw [hre.csr .medeleg rfl]
        exact hs.service.medeleg
      · show h'.priv = .supervisor
        rw [hre.priv]
        exact hs.supervisor
      · exact hre.mtimecmp

/-- The invariant does not depend on the time. -/
theorem Running.at_time {im : Image} {hasSstc : Bool} {s : Clock} (hs : Running im hasSstc s)
    (time : Word) : Running im hasSstc { s with hart := { s.hart with time := time } } where
  useSstc := hs.useSstc
  stce := hs.stce
  mtie := hs.mtie
  noStip := hs.noStip
  service := ⟨hs.service.mscratch, hs.service.mtvec, hs.service.medeleg⟩
  supervisor := hs.supervisor
  comparator := hs.comparator

/-- Whether an operation comes to an end: `stimer_arm` must leave its loop. -/
def Op.Ends : Op → Prop
  | .arm env => (nextDeadline env.readings).isSome
  | .disarm _ => True
  | .advance _ => True

/-- The deadline and the time after an operation do not depend on the path. -/
def Op.moves (programmed time : Word) : Op → Word × Word
  | .arm env => ((nextDeadline env.readings).getD programmed, env.readings.getLastD time)
  | .disarm _ => (~~~ 0, time)
  | .advance time' => (programmed, time')

/-- Every operation that ends keeps the invariant and moves deadline and time
alike on both paths. -/
theorem step_running {im : Image} (him : im.Separate) {hasSstc : Bool} {s : Clock}
    (hs : Running im hasSstc s) {op : Op} (hop : op.Ends) :
    ∃ s', s.step im op = some s' ∧ Running im hasSstc s' ∧
      (s'.programmed, s'.hart.time) = op.moves s.programmed s.hart.time := by
  cases op with
  | arm env =>
      obtain ⟨deadline, hdeadline⟩ := Option.isSome_iff_exists.mp hop
      obtain ⟨h', hprog, -, hrun⟩ := program_running him hs env deadline
      refine ⟨⟨{ s.tm with deadline := deadline },
        { h' with time := env.readings.getLastD s.hart.time }, deadline⟩, ?_,
        hrun.at_time _, ?_⟩
      · simp only [Clock.step, stimerArm, hdeadline, Option.bind_some, hprog, Option.map_some]
      · rw [Op.moves, hdeadline]
        rfl
  | disarm env =>
      obtain ⟨h', hprog, htime, hrun⟩ := program_running him hs env (~~~ 0)
      refine ⟨⟨{ s.tm with deadline := ~~~ 0 }, h', ~~~ 0⟩, ?_, hrun, ?_⟩
      · simp only [Clock.step, stimerDisarm, hprog, Option.map_some]
      · show (~~~ 0, h'.time) = (~~~ 0, s.hart.time)
        rw [htime]
  | advance time => exact ⟨_, rfl, hs.at_time time, rfl⟩

/-- A step that ends is one whose operation ends. -/
theorem ends_of_step {im : Image} {s s' : Clock} {op : Op} (h : s.step im op = some s') :
    op.Ends := by
  cases op with
  | arm env =>
      obtain ⟨out, hout, -⟩ := Option.map_eq_some_iff.mp h
      obtain ⟨deadline, hdeadline, -⟩ := Option.bind_eq_some_iff.mp hout
      exact Option.isSome_iff_exists.mpr ⟨deadline, hdeadline⟩
  | disarm _ => trivial
  | advance _ => trivial

/-! ## The two paths side by side -/

/-- The machines of the two paths at the same moment. -/
structure Abreast (im : Image) (a b : Clock) : Prop where
  sstc : Running im true a
  fallback : Running im false b
  programmed : a.programmed = b.programmed
  time : a.hart.time = b.hart.time

theorem booted_abreast (im : Image) {h : Hart} (hreset : ResetBits h) :
    Abreast im (booted im true h) (booted im false h) :=
  ⟨booted_running im true hreset, booted_running im false hreset, rfl,
    (mBoot_effect im true h).2.time.trans (mBoot_effect im false h).2.time.symm⟩

/-- The same operation keeps the two paths abreast. -/
theorem step_abreast {im : Image} (him : im.Separate) {a b a' b' : Clock} {op : Op}
    (hab : Abreast im a b) (ha : a.step im op = some a') (hb : b.step im op = some b') :
    Abreast im a' b' := by
  have hop := ends_of_step ha
  obtain ⟨a'', ha'', hrun_a, hmoves_a⟩ := step_running him hab.sstc hop
  obtain ⟨b'', hb'', hrun_b, hmoves_b⟩ := step_running him hab.fallback hop
  obtain rfl : a'' = a' := Option.some.inj (ha''.symm.trans ha)
  obtain rfl : b'' = b' := Option.some.inj (hb''.symm.trans hb)
  rw [hab.programmed, hab.time, ← hmoves_b, Prod.mk.injEq] at hmoves_a
  exact ⟨hrun_a, hrun_b, hmoves_a.1, hmoves_a.2⟩

/-- With `MTIE` clear no machine timer interrupt is taken. -/
theorem Running.mTimerTaken_eq_false {im : Image} {hasSstc : Bool} {s : Clock}
    (hs : Running im hasSstc s) : mTimerTaken s.hart = false := by
  rw [mTimerTaken, hs.mtie]
  simp

/-- With Sstc the interrupt is pending exactly as programmed. -/
theorem Running.asProgrammed_sstc {im : Image} {s : Clock} (hs : Running im true s) :
    AsProgrammed s := by
  have hcmp : s.hart.csr .stimecmp = s.programmed := hs.comparator
  refine ⟨?_, hs.mTimerTaken_eq_false⟩
  rw [stip, if_pos hs.stce, hcmp, decide_eq_true_iff]

/-- Without Sstc the interrupt is never pending. -/
theorem Running.stip_fallback {im : Image} {s : Clock} (hs : Running im false s) :
    stip s.hart = false := by
  rw [stip, if_neg (by rw [hs.stce]; decide), hs.noStip]

/-- The two paths have the supervisor timer interrupt pending in the same
states, and as programmed, exactly as long as the programmed deadline has not
been reached. -/
theorem pending_agrees_iff {im : Image} (him : im.Separate) {h : Hart} (hreset : ResetBits h)
    {ops : List Op} {a b : Clock}
    (ha : runAll (Clock.step im) (booted im true h) ops = some a)
    (hb : runAll (Clock.step im) (booted im false h) ops = some b) :
    (AsProgrammed a ∧ AsProgrammed b ∧ stip a.hart = stip b.hart) ↔
      b.hart.time < b.programmed := by
  have hab : Abreast im a b := by
    refine runAll_relates ?_ (booted_abreast im hreset) ha hb
    intro a b op a' b' hab ha hb
    exact step_abreast him hab ha hb
  have hnone := hab.fallback.stip_fallback
  have hsstc := hab.sstc.asProgrammed_sstc
  constructor
  · rintro ⟨-, hb, -⟩
    have hnot : ¬ b.programmed ≤ b.hart.time := by
      rw [← hb.1, hnone]
      decide
    exact BitVec.not_le.mp hnot
  · intro hlt
    have hnot : ¬ b.programmed ≤ b.hart.time := BitVec.not_le.mpr hlt
    have hquiet : stip a.hart = false := by
      rw [← Bool.not_eq_true, hsstc.1, hab.programmed, hab.time]
      exact hnot
    refine ⟨hsstc, ⟨?_, hab.fallback.mTimerTaken_eq_false⟩, ?_⟩
    · rw [hnone]
      exact ⟨fun hf => absurd hf (by decide), fun hle => absurd hle hnot⟩
    · rw [hquiet, hnone]

/-- Both paths complete every run whose `stimer_arm` calls leave their loop. -/
theorem run_returns {im : Image} (him : im.Separate) (hasSstc : Bool) {h : Hart}
    (hreset : ResetBits h) {ops : List Op} (hops : ∀ op ∈ ops, op.Ends) :
    ∃ s, runAll (Clock.step im) (booted im hasSstc h) ops = some s ∧ Running im hasSstc s := by
  refine runAll_returns (P := Op.Ends) ?_ hops (booted_running im hasSstc hreset)
  intro s op hop hs
  obtain ⟨s', hs', hrun, -⟩ := step_running him hs hop
  exact ⟨s', hs', hrun⟩

/-! ### One armed quantum -/

/-- Addresses as the linker could have chosen them. -/
def sampleImage : Image where
  tasks := 0x80004000
  schedTf := 0x80003000
  exitCycles := 0x80002000
  exitMtime := 0x80002008
  stackTop := 0x8000c000
  trapEntry := 0x80000100
  trampoline := 0x80000400
  mTrapEntry := 0x80000200
  mEstackTop := 0x80012000
  sEntry := 0x80000040

theorem sampleImage_separate : sampleImage.Separate where
  layout :=
    { sched := by decide +kernel
      exitCycles := by decide +kernel
      exitMtime := by decide +kernel
      mtimecmp := by decide +kernel
      aligned := by decide }
  mFrame := by decide +kernel
  mtimecmp := by decide +kernel
  aligned := by decide

/-- The hart at reset. -/
def sampleHart : Hart where
  regs := fun _ => 0
  csr := fun _ => 0
  mem := fun _ => 0
  time := 0
  cycle := 0
  pc := 0x80000000
  priv := .machine

/-- `stimer_arm` with the given two readings of the time. -/
def sampleEnv (now now' : Word) : Env where
  readings := [now, now']
  callRegs := fun _ => 0
  ecallPc := 0x80001000

theorem sampleHart_resetBits : ResetBits sampleHart :=
  ⟨by decide, by decide⟩

/-- The timer is armed for 10100 and time goes on to `time`. -/
def sampleOps (time : Word) : List Op :=
  [.arm (sampleEnv 100 101), .advance time]

theorem sampleOps_run (hasSstc : Bool) (time : Word) :
    ∃ s, runAll (Clock.step sampleImage) (booted sampleImage hasSstc sampleHart)
        (sampleOps time) = some s ∧
      Running sampleImage hasSstc s ∧ s.programmed = 10100 ∧ s.hart.time = time := by
  obtain ⟨s₁, hs₁, hrun₁, hmoves₁⟩ := step_running sampleImage_separate
    (booted_running sampleImage hasSstc sampleHart_resetBits)
    (show (Op.arm (sampleEnv 100 101)).Ends from rfl)
  obtain ⟨s₂, hs₂, hrun₂, hmoves₂⟩ := step_running sampleImage_separate hrun₁
    (show (Op.advance time).Ends from trivial)
  have hdeadline : nextDeadline (sampleEnv 100 101).readings = some 10100 := by decide
  refine ⟨s₂, ?_, hrun₂, ?_, ?_⟩
  · rw [sampleOps, runAll_cons_eq_some]
    refine ⟨s₁, hs₁, ?_⟩
    rw [runAll_cons_eq_some]
    exact ⟨s₂, hs₂, rfl⟩
  · rw [Op.moves, hdeadline, Prod.mk.injEq] at hmoves₁
    rw [Op.moves, Prod.mk.injEq] at hmoves₂
    rw [hmoves₂.1, hmoves₁.1]
    rfl
  · rw [Op.moves, Prod.mk.injEq] at hmoves₂
    exact hmoves₂.2

/-- Half way to the deadline the two paths agree. -/
theorem before_deadline_agrees :
    ∃ a b, runAll (Clock.step sampleImage) (booted sampleImage true sampleHart)
        (sampleOps 5000) = some a ∧
      runAll (Clock.step sampleImage) (booted sampleImage false sampleHart)
        (sampleOps 5000) = some b ∧
      AsProgrammed a ∧ AsProgrammed b ∧ stip a.hart = stip b.hart := by
  obtain ⟨a, ha, -⟩ := sampleOps_run true 5000
  obtain ⟨b, hb, -, hprogrammed, htime⟩ := sampleOps_run false 5000
  refine ⟨a, b, ha, hb, ?_⟩
  apply (pending_agrees_iff sampleImage_separate sampleHart_resetBits ha hb).mpr
  rw [hprogrammed, htime]
  decide

/-- At the deadline the interrupt is pending with Sstc and not without. -/
theorem at_deadline_not_pending :
    ∃ a b, runAll (Clock.step sampleImage) (booted sampleImage true sampleHart)
        (sampleOps 10100) = some a ∧
      runAll (Clock.step sampleImage) (booted sampleImage false sampleHart)
        (sampleOps 10100) = some b ∧
      stip a.hart = true ∧ stip b.hart = false ∧ ¬ AsProgrammed b := by
  obtain ⟨a, ha, hrun_a, hprogrammed_a, htime_a⟩ := sampleOps_run true 10100
  obtain ⟨b, hb, hrun_b, hprogrammed_b, htime_b⟩ := sampleOps_run false 10100
  have hnone := hrun_b.stip_fallback
  refine ⟨a, b, ha, hb, ?_, hnone, fun hb => ?_⟩
  · rw [hrun_a.asProgrammed_sstc.1, hprogrammed_a, htime_a]
    exact BitVec.le_refl _
  · have hreached : b.programmed ≤ b.hart.time := by
      rw [hprogrammed_b, htime_b]
      exact BitVec.le_refl _
    rw [← hb.1, hnone] at hreached
    cases hreached

end Smode
end BareMetal
