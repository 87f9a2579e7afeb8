import BareMetal.Preempt.Sched

/-!
# Preemption along whole runs

Every run of the scheduler goes on as long as ticks arrive (`run_returns`), and
whenever it resumes an interrupted context, that context finds its registers
and pc again if and only if its `t1` happened to hold the cycle stamp
(`resume_transparent_iff`): `trap_entry` reads the stamps into `t1` before it
stores `t1`, so the interrupted value is lost.
-/

namespace BareMetal
namespace Preempt

open Machine Switch

/-! ## Runs go on -/

/-- What a tick needs to go through. -/
structure Ready (L : Layout) (s : State Globals Ctx) : Prop where
  installed : Installed L s.hart
  tasks : 0 < s.g.table.nTasks
  bound : s.g.table.nTasks ≤ TASK_MAX
  current : -1 ≤ s.g.current

/-- The C handler is called for the timer interrupt. -/
theorem entered_mcause (L : Layout) (h : Hart) (t : Tick (List Word)) :
    ((switcher L).entered h t).csr .mcause = MCAUSE_TIMER_IRQ := by
  have hne : Csr.mcause ≠ Csr.mscratch := by decide
  rw [entered_csr (switcher L) h t hne]
  rfl

/-- A tick whose `timer_arm` leaves its loop resumes some context. -/
theorem tick_returns {L : Layout} (hL : L.Separate) {s : State Globals Ctx}
    {t : Tick (List Word)} (hs : Ready L s) (harm : (nextDeadline t.env).isSome) :
    ∃ s', (switcher L).tick s t = some s' ∧ Ready L s' := by
  obtain ⟨i, hnext⟩ := exists_nextTask hs.tasks hs.bound hs.current
  have hsome : (ptrapHandler L s.g ((switcher L).entered s.hart t) t.env).isSome :=
    ptrapHandler_isSome (entered_mcause L s.hart t) harm (by rw [hnext]; rfl)
  obtain ⟨out, hout⟩ := Option.isSome_iff_exists.mp hsome
  obtain ⟨-, -, hchosen⟩ := ptrapHandler_eq_some hout
  have htick := tick_eq_map (lawful hL) t hs.installed
  rw [show (switcher L).handler = ptrapHandler L from rfl, hout] at htick
  refine ⟨_, htick, ?_, ?_, ?_, ?_⟩
  · exact left_ok (lawful hL) out.2.1 t
      ((lawful hL).handler_ok (entered_ok (lawful hL) t hs.installed) hout)
  · show 0 < out.1.table.nTasks
    rw [hchosen.table]
    exact hs.tasks
  · show out.1.table.nTasks ≤ TASK_MAX
    rw [hchosen.table]
    exact hs.bound
  · show -1 ≤ out.1.current
    rcases hchosen.choice with ⟨-, hkept, -⟩ | ⟨-, hstep⟩
    · rw [hkept]
      exact hs.current
    · rw [hnext, Option.some.injEq, Prod.mk.injEq] at hstep
      omega

/-- Runs of any length go through. -/
theorem run_returns {L : Layout} (hL : L.Separate) {s : State Globals Ctx}
    {ts : List (Tick (List Word))} (hs : Ready L s)
    (harm : ∀ t ∈ ts, (nextDeadline t.env).isSome) :
    ∃ s', runAll (switcher L).tick s ts = some s' ∧ Ready L s' :=
  runAll_returns (I := Ready L) (P := fun t => (nextDeadline t.env).isSome)
    (fun harm hs => tick_returns hL hs harm) harm hs

/-- `preempt_init` leaves a machine that is ready for ticks. -/
theorem start_returns {L : Layout} (hL : L.Separate) {fns : List Word} (hfns : fns ≠ [])
    (h : Hart) {readings : List Word} (harm : (nextDeadline readings).isSome) :
    ∃ s, start L fns h readings = some s ∧ Ready L s := by
  obtain ⟨deadline, hdeadline⟩ := Option.isSome_iff_exists.mp harm
  have hs : (start L fns h readings).isSome := by
    simp only [start, preemptInit, timerArm, hdeadline, Option.map_some, Option.isSome_some]
  obtain ⟨s, hs⟩ := Option.isSome_iff_exists.mp hs
  obtain ⟨-, -, -, hmtvec, -, htable, hcurrent, -⟩ := start_eq_some hs
  refine ⟨s, hs, hmtvec, ?_, ?_, ?_⟩
  · rw [htable]
    exact L.createAll_pos hfns h.mem
  · rw [htable]
    exact (Layout.createAll_created hL fns h.mem).bound
  · rw [hcurrent]

/-! ## Transparency -/

/-- Along every run, whenever a context is resumed that was interrupted
before, it finds all of `x1`-`x31` and its pc as they were and `mscratch` at
its own trapframe, if and only if its `t1` held the cycle count read at its
last interruption. -/
theorem resume_transparent_iff {L : Layout} (hL : L.Separate) {fns : List Word} {h : Hart}
    {readings : List Word} {s₀ s : State Globals Ctx} {ts : List (Tick (List Word))}
    (hstart : start L fns h readings = some s₀)
    (hrun : runAll (switcher L).tick s₀ ts = some s) :
    Transparent (switcher L) s ↔ StampInT1 s :=
  transparent_iff (run_inv (lawful hL) (start_inv hL hstart) hrun)

/-! ### A run with one task -/

/-- Addresses as the linker could have chosen them. -/
def sampleLayout : Layout where
  tasks := 0x80004000
  schedTf := 0x80003000
  exitCycles := 0x80002000
  exitMtime := 0x80002008
  stackTop := 0x8000c000
  trapEntry := 0x80000100
  trampoline := 0x80000400

theorem sampleLayout_separate : sampleLayout.Separate where
  sched := by decide +kernel
  exitCycles := by decide +kernel
  exitMtime := by decide +kernel
  mtimecmp := by decide +kernel
  aligned := by decide

/-- The hart before `main`. -/
def sampleHart : Hart where
  regs := fun _ => 0
  csr := fun _ => 0
  mem := fun _ => 0
  time := 0
  cycle := 0
  pc := 0x80000000
  priv := .machine

/-- A tick that finds `t1` in the register of that name and reads `time` and
`cycle` at trap entry. -/
def sampleTick (t1 time cycle : Word) : Tick (List Word) where
  regs := Function.update (fun _ => 0) .t1 t1
  pc := 0x80000500
  mem := fun _ => 0
  entryTime := time
  entryCycle := cycle
  exitTime := time + 4
  exitCycle := cycle + 90
  env := [time + 2, time + 3]
  clobber := fun _ => 0

/-- With a single task a tick below the quota resumes that task. -/
theorem tick_single {L : Layout} {s s' : State Globals Ctx} {t : Tick (List Word)}
    (hn : s.g.table.nTasks = 1) (hcur : s.g.current = -1 ∨ s.g.current = 0)
    (hticks : s.g.ticks + 1 < N_TICKS) (htick : (switcher L).tick s t = some s') :
    s'.running = .task 0 ∧ s'.g.current = 0 ∧ s'.g.ticks = s.g.ticks + 1 ∧
      s'.g.table.nTasks = 1 := by
  have hchosen := tick_chosen htick
  have hnext : nextTask s.g.current s.g.table.nTasks = some (0, .task 0) := by
    rw [hn, nextTask_single hcur]
  rcases hchosen.choice with ⟨hquota, -⟩ | ⟨-, hstep⟩
  · exact absurd hticks (BitVec.not_lt.mpr hquota)
  · rw [hnext, Option.some.injEq, Prod.mk.injEq] at hstep
    refine ⟨hstep.2.symm, hstep.1.symm, hchosen.ticks, ?_⟩
    rw [hchosen.table, hn]

/-- One task, two ticks: the second tick interrupts the task and resumes it. -/
theorem single_task_twice (first second : Tick (List Word))
    (hfirst : (nextDeadline first.env).isSome) (hsecond : (nextDeadline second.env).isSome) :
    ∃ s₀ s, start sampleLayout [0x80000600] sampleHart [0, 1] = some s₀ ∧
      runAll (switcher sampleLayout).tick s₀ [first, second] = some s ∧
      s.last s.running = some ⟨⟨second.regs, second.pc⟩, second.entryCycle⟩ := by
  have hL := sampleLayout_separate
  have harm : (nextDeadline [0, 1]).isSome := by decide
  obtain ⟨s₀, hstart, hready₀⟩ :=
    start_returns hL (List.cons_ne_nil 0x80000600 []) sampleHart harm
  obtain ⟨s₁, hs₁, hready₁⟩ := tick_returns hL hready₀ hfirst
  obtain ⟨s₂, hs₂, -⟩ := tick_returns hL hready₁ hsecond
  obtain ⟨-, -, -, -, -, htable, hcurrent, hticks, -⟩ := start_eq_some hstart
  have hn : s₀.g.table.nTasks = 1 := by
    rw [htable]
    rfl
  obtain ⟨hrun₁, hcur₁, hticks₁, hn₁⟩ :=
    tick_single hn (Or.inl hcurrent) (by rw [hticks]; decide) hs₁
  obtain ⟨hrun₂, -⟩ :=
    tick_single hn₁ (Or.inr hcur₁) (by rw [hticks₁, hticks]; decide) hs₂
  refine ⟨s₀, s₂, hstart, ?_, ?_⟩
  · rw [runAll_cons_eq_some]
    refine ⟨s₁, hs₁, ?_⟩
    rw [runAll_cons_eq_some]
    exact ⟨s₂, hs₂, rfl⟩
  · exact Switcher.last_of_same _ hs₂ (hrun₂.trans hrun₁.symm)

/-- A task interrupted with the cycle stamp in `t1` is resumed as it was. -/
theorem stamp_in_t1_transparent :
    ∃ s₀ s, start sampleLayout [0x80000600] sampleHart [0, 1] = some s₀ ∧
      runAll (switcher sampleLayout).tick s₀
        [sampleTick 0 10002 500, sampleTick 1000 20006 1000] = some s ∧
      s.last s.running ≠ none ∧ Transparent (switcher sampleLayout) s := by
  obtain ⟨s₀, s, hstart, hrun, hlast⟩ :=
    single_task_twice (sampleTick 0 10002 500) (sampleTick 1000 20006 1000) (by decide) (by decide)
  refine ⟨s₀, s, hstart, hrun, by rw [hlast]; exact Option.some_ne_none _, ?_⟩
  apply (resume_transparent_iff sampleLayout_separate hstart hrun).mpr
  intro i hi
  rw [hlast] at hi
  obtain rfl := Option.some.inj hi
  rfl

/-- A task interrupted with 7 in `t1` while the cycle counter reads 1000 is
resumed with another `t1`. -/
theorem seven_in_t1_not_transparent :
    ∃ s₀ s, start sampleLayout [0x80000600] sampleHart [0, 1] = some s₀ ∧
      runAll (switcher sampleLayout).tick s₀
        [sampleTick 0 10002 500, sampleTick 7 20006 1000] = some s ∧
      ¬ Transparent (switcher sampleLayout) s := by
  obtain ⟨s₀, s, hstart, hrun, hlast⟩ :=
    single_task_twice (sampleTick 0 10002 500) (sampleTick 7 20006 1000) (by decide) (by decide)
  refine ⟨s₀, s, hstart, hrun, fun htrans => ?_⟩
  have hinv := run_inv (lawful sampleLayout_separate)
    (start_inv sampleLayout_separate hstart) hrun
  have hstamp : (7 : Word) = 1000 := (transparent_iff hinv).mp htrans _ hlast
  exact absurd hstamp (by decide)

end Preempt
end BareMetal
