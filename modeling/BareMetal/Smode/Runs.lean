import BareMetal.Smode.Sched

/-!
# Preemption along whole runs, in both builds

The scheduler goes on as long as ticks arrive, whichever way it rearms its
timer, and whenever it resumes an interrupted context, that context finds its
registers and pc again if and only if its `t1` happened to hold the cycle stamp
(`smode_resume_transparent_iff`).  The nested M-mode trap of the build without Sstc
does no harm: the only slip is the one of the shared entry code, which reads the
stamps into `t1` before it stores `t1`.
-/

namespace BareMetal
namespace Smode

open Machine Switch

/-! ## Runs go on -/

/-- What a tick needs to go through. -/
structure Ready (im : Image) (smode : Bool) (s : State Globals Ctx) : Prop where
  installed : Installed im smode s.hart
  tasks : 0 < s.g.table.nTasks
  bound : s.g.table.nTasks ≤ TASK_MAX
  current : -1 ≤ s.g.current

/-- The C handler is called for the timer interrupt. -/
theorem entered_cause (im : Image) (smode : Bool) (h : Hart) (t : Tick Env) :
    ((switcher im smode).entered h t).csr (causeCsr smode) = CAUSE_TIMER_IRQ smode := by
  have hne : causeCsr smode ≠ scratchCsr smode := by
    cases smode <;> decide
  rw [entered_csr (switcher im smode) h t hne]
  cases smode <;> rfl

/-- In the S-mode build the C handler runs in S-mode. -/
theorem entered_priv (im : Image) (h : Hart) (t : Tick Env) :
    ((switcher im true).entered h t).priv = .supervisor := by
  rw [Switcher.entered, run_priv]
  rfl

/-- A tick whose `stimer_arm` leaves its loop resumes some context. -/
theorem tick_returns {im : Image} (him : im.Separate) {smode : Bool} {s : State Globals Ctx}
    {t : Tick Env} (hs : Ready im smode s) (harm : (nextDeadline t.env.readings).isSome) :
    ∃ s', (switcher im smode).tick s t = some s' ∧ Ready im smode s' := by
  have hW := lawful him smode
  have hok := entered_ok hW t hs.installed
  obtain ⟨i, hnext⟩ := exists_nextTask hs.tasks hs.bound hs.current
  have hpriv : smode = true → ((switcher im smode).entered s.hart t).priv = .supervisor := by
    rintro rfl
    exact entered_priv im s.hart t
  have hsome : (strapHandler im smode s.g ((switcher im smode).entered s.hart t) t.env).isSome :=
    strapHandler_isSome (entered_cause im smode s.hart t)
      (program_isSome him hok hpriv s.g.timer.useSstc t.env) harm (by rw [hnext]; rfl)
  obtain ⟨out, hout⟩ := Option.isSome_iff_exists.mp hsome
  have hchosen := (strapHandler_eq_some hout).chosen
  have htick := tick_eq_map hW t hs.installed
  rw [show (switcher im smode).handler = strapHandler im smode from rfl, hout] at htick
  refine ⟨_, htick, ?_, ?_, ?_, ?_⟩
  · exact left_ok hW out.2.1 t (hW.handler_ok hok hout)
  · show 0 < out.1.table.nTasks
    rw [hchosen.table]
    exact hs.tasks
  · show out.1.table.nTasks ≤ TASK_MAX
    rw [hchosen.table]
    exact hs.bound
  · show -1 ≤ out.1.current
    rcases hchosen.choice with ⟨-, -, hkept, -⟩ | ⟨-, -, ⟨-, hkept, -⟩ | ⟨-, hstep⟩⟩
    · rw [hkept]
      exact hs.current
    · rw [hkept]
      exact hs.current
    · rw [hnext, Option.some.injEq, Prod.mk.injEq] at hstep
      omega

/-- Runs of any length go through, in both builds and with either way to rearm
the timer. -/
theorem sched_run_returns {im : Image} (him : im.Separate) {smode : Bool}
    {s : State Globals Ctx} {ts : List (Tick Env)} (hs : Ready im smode s)
    (harm : ∀ t ∈ ts, (nextDeadline t.env.readings).isSome) :
    ∃ s', runAll (switcher im smode).tick s ts = some s' ∧ Ready im smode s' :=
  runAll_returns (I := Ready im smode) (P := fun t => (nextDeadline t.env.readings).isSome)
    (fun harm hs => tick_returns him hs harm) harm hs

/-- `sched_init` leaves a machine that is ready for ticks. -/
theorem start_returns {im : Image} (him : im.Separate) (smode hasSstc : Bool) {fns : List Word}
    (hfns : fns ≠ []) (h : Hart) {env : Env} (harm : (nextDeadline env.readings).isSome) :
    ∃ s, start im smode hasSstc fns h env = some s ∧ Ready im smode s := by
  have hpriv : smode = true → (bootOf im smode hasSstc h).2.priv = .supervisor := by
    rintro rfl
    exact (mBoot_effect im hasSstc h).2.priv
  obtain ⟨deadline, hdeadline⟩ := Option.isSome_iff_exists.mp harm
  have hsome : (start im smode hasSstc fns h env).isSome := by
    have hprog := program_isSome him
      (installed_before_arm im smode hasSstc h
        (im.createAll fns (bootOf im smode hasSstc h).2.mem).2) hpriv
      (bootOf im smode hasSstc h).1 env deadline
    simp only [start, schedInit, stimerArm, hdeadline, Option.bind_some, Option.isSome_map]
    exact hprog
  obtain ⟨s, hs⟩ := Option.isSome_iff_exists.mp hsome
  have hst := start_eq_some him hs
  refine ⟨s, hs, hst.installed, ?_, ?_, ?_⟩
  · rw [hst.table]
    exact im.createAll_pos hfns _
  · rw [hst.table]
    exact (Layout.createAll_created him.layout fns _).bound
  · rw [hst.current]

/-! ## Transparency -/

/-- In both builds, with either way to rearm the timer, and along every run:
whenever a context is resumed that was interrupted before, it finds all of
`x1`-`x31` and its pc as they were and the scratch register at its own
trapframe, if and only if its `t1` held the cycle count read at its last
interruption. -/
theorem smode_resume_transparent_iff {im : Image} (him : im.Separate) (smode hasSstc : Bool)
    {fns : List Word} {h : Hart} {env : Env} {s₀ s : State Globals Ctx} {ts : List (Tick Env)}
    (hstart : start im smode hasSstc fns h env = some s₀)
    (hrun : runAll (switcher im smode).tick s₀ ts = some s) :
    Transparent (switcher im smode) s ↔ StampInT1 s :=
  transparent_iff (run_inv (lawful him smode) (start_inv him hstart) hrun)

/-! ### A run with one task and the M-mode service -/

/-- A tick that finds `t1` in the register of that name and reads `time` and
`cycle` at trap entry. -/
def sampleTick (t1 time cycle : Word) : Tick Env where
  regs := Function.update (fun _ => 0) .t1 t1
  pc := 0x80000500
  mem := fun _ => 0
  entryTime := time
  entryCycle := cycle
  exitTime := time + 4
  exitCycle := cycle + 90
  env := sampleEnv (time + 2) (time + 3)
  clobber := fun _ => 0

/-- With a single task a tick below the quota resumes that task. -/
theorem tick_single {im : Image} {smode : Bool} {s s' : State Globals Ctx} {t : Tick Env}
    (hn : s.g.table.nTasks = 1) (hcur : s.g.current = -1 ∨ s.g.current = 0)
    (hticks : s.g.ticks < N_TICKS) (hticks' : s.g.ticks + 1 < N_TICKS)
    (htick : (switcher im smode).tick s t = some s') :
    s'.running = .task 0 ∧ s'.g.current = 0 ∧ s'.g.ticks = s.g.ticks + 1 ∧
      s'.g.table.nTasks = 1 := by
  have hchosen := tick_chosen htick
  have hnext : nextTask s.g.current s.g.table.nTasks = some (0, .task 0) := by
    rw [hn, nextTask_single hcur]
  rcases hchosen.choice with ⟨hquota, -⟩ | ⟨-, hadd, ⟨hquota, -⟩ | ⟨-, hstep⟩⟩
  · exact absurd hticks (BitVec.not_lt.mpr hquota)
  · exact absurd hticks' (BitVec.not_lt.mpr hquota)
  · rw [hnext, Option.some.injEq, Prod.mk.injEq] at hstep
    refine ⟨hstep.2.symm, hstep.1.symm, hadd, ?_⟩
    rw [hchosen.table, hn]

/-- One task, two ticks: the second tick interrupts the task and resumes it. -/
theorem single_task_twice (smode hasSstc : Bool) (first second : Tick Env)
    (hfirst : (nextDeadline first.env.readings).isSome)
    (hsecond : (nextDeadline second.env.readings).isSome) :
    ∃ s₀ s, start sampleImage smode hasSstc [0x80000600] sampleHart (sampleEnv 0 1) = some s₀ ∧
      runAll (switcher sampleImage smode).tick s₀ [first, second] = some s ∧
      s.last s.running = some ⟨⟨second.regs, second.pc⟩, second.entryCycle⟩ := by
  have him := sampleImage_separate
  have harm : (nextDeadline (sampleEnv 0 1).readings).isSome := by decide
  obtain ⟨s₀, hstart, hready₀⟩ :=
    start_returns him smode hasSstc (List.cons_ne_nil 0x80000600 []) sampleHart harm
  obtain ⟨s₁, hs₁, hready₁⟩ := tick_returns him hready₀ hfirst
  obtain ⟨s₂, hs₂, -⟩ := tick_returns him hready₁ hsecond
  have hst := start_eq_some him hstart
  have hn : s₀.g.table.nTasks = 1 := by
    rw [hst.table]
    rfl
  obtain ⟨hrun₁, hcur₁, hticks₁, hn₁⟩ := tick_single hn (Or.inl hst.current)
    (by rw [hst.ticks]; decide) (by rw [hst.ticks]; decide) hs₁
  obtain ⟨hrun₂, -⟩ := tick_single hn₁ (Or.inr hcur₁)
    (by rw [hticks₁, hst.ticks]; decide) (by rw [hticks₁, hst.ticks]; decide) hs₂
  refine ⟨s₀, s₂, hstart, ?_, ?_⟩
  · rw [runAll_cons_eq_some]
    refine ⟨s₁, hs₁, ?_⟩
    rw [runAll_cons_eq_some]
    exact ⟨s₂, hs₂, rfl⟩
  · exact Switcher.last_of_same _ hs₂ (hrun₂.trans hrun₁.symm)

/-- In S-mode without Sstc, a task interrupted with the cycle stamp in `t1` is
resumed as it was. -/
theorem smode_stamp_in_t1_transparent :
    ∃ s₀ s, start sampleImage true false [0x80000600] sampleHart (sampleEnv 0 1) = some s₀ ∧
      runAll (switcher sampleImage true).tick s₀
        [sampleTick 0 10002 500, sampleTick 1000 20006 1000] = some s ∧
      s.last s.running ≠ none ∧ Transparent (switcher sampleImage true) s := by
  obtain ⟨s₀, s, hstart, hrun, hlast⟩ := single_task_twice true false
    (sampleTick 0 10002 500) (sampleTick 1000 20006 1000) (by decide) (by decide)
  refine ⟨s₀, s, hstart, hrun, by rw [hlast]; exact Option.some_ne_none _, ?_⟩
  apply (smode_resume_transparent_iff sampleImage_separate true false hstart hrun).mpr
  intro i hi
  rw [hlast] at hi
  obtain rfl := Option.some.inj hi
  rfl

/-- In S-mode with Sstc, a task interrupted with 7 in `t1` while the cycle
counter reads 1000 is resumed with another `t1`. -/
theorem smode_seven_in_t1_not_transparent :
    ∃ s₀ s, start sampleImage true true [0x80000600] sampleHart (sampleEnv 0 1) = some s₀ ∧
      runAll (switcher sampleImage true).tick s₀
        [sampleTick 0 10002 500, sampleTick 7 20006 1000] = some s ∧
      ¬ Transparent (switcher sampleImage true) s := by
  obtain ⟨s₀, s, hstart, hrun, hlast⟩ := single_task_twice true true
    (sampleTick 0 10002 500) (sampleTick 7 20006 1000) (by decide) (by decide)
  refine ⟨s₀, s, hstart, hrun, fun htrans => ?_⟩
  have hinv := run_inv (lawful sampleImage_separate true)
    (start_inv sampleImage_separate hstart) hrun
  have hstamp : (7 : Word) = 1000 := (transparent_iff hinv).mp htrans _ hlast
  exact absurd hstamp (by decide)

end Smode
end BareMetal
