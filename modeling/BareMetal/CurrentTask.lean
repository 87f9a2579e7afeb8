import BareMetal.Preempt.Runs
import BareMetal.Smode.Runs
import BareMetal.Switch.Rotation

/-!
# `current` names the running task

Both preemptive schedulers keep the index of the running task in one global,
`current`, which a fresh task reads late: in its trampoline, when interrupts
are already enabled.  A tick in that window changes `current`, but the task
only runs again after a tick that has set `current` back to its index.

Below the tick quota both schedulers rotate through the table, so that all of
this follows from where the rotation stands.
-/

namespace BareMetal
namespace CurrentTask

open Machine Switch

/-! ## The two schedulers rotate -/

/-- The statics of `psched.c` that the rotation is about. -/
def preemptView : View Preempt.Globals where
  table := Preempt.Globals.table
  current := Preempt.Globals.current
  ticks := Preempt.Globals.ticks

/-- The statics of `ssched.c` that the rotation is about. -/
def smodeView : View Smode.Globals where
  table := Smode.Globals.table
  current := Smode.Globals.current
  ticks := Smode.Globals.ticks

theorem preempt_picks {L : Layout} {s s' : State Preempt.Globals Ctx} {t : Tick (List Word)}
    (htick : (Preempt.switcher L).tick s t = some s') :
    Picks preemptView s.g s'.g s'.running := by
  have hchosen := Preempt.tick_chosen htick
  refine ⟨hchosen.table, fun _ hlt => ⟨hchosen.ticks, ?_⟩⟩
  rcases hchosen.choice with ⟨hquota, -⟩ | ⟨-, hnext⟩
  · exact absurd hlt (BitVec.not_lt.mpr hquota)
  · exact hnext

theorem smode_picks {im : Smode.Image} {smode : Bool} {s s' : State Smode.Globals Ctx}
    {t : Tick Smode.Env} (htick : (Smode.switcher im smode).tick s t = some s') :
    Picks smodeView s.g s'.g s'.running := by
  have hchosen := Smode.tick_chosen htick
  refine ⟨hchosen.table, fun hlt hlt' => ?_⟩
  rcases hchosen.choice with ⟨hquota, -⟩ | ⟨-, hticks, ⟨hquota, -⟩ | ⟨-, hnext⟩⟩
  · exact absurd hlt (BitVec.not_lt.mpr hquota)
  · exact absurd hlt' (BitVec.not_lt.mpr hquota)
  · exact ⟨hticks, hnext⟩

/-! ## The result -/

theorem preempt_ownSlice {L : Layout} (hL : L.Separate) {fns : List Word} (hfns : fns ≠ [])
    {h : Hart} {readings : List Word} {s₀ s : State Preempt.Globals Ctx}
    {ts : List (Tick (List Word))} (hstart : Preempt.start L fns h readings = some s₀)
    (hrun : runAll (Preempt.switcher L).tick s₀ ts = some s)
    (hquota : ts.length < N_TICKS.toNat) :
    OwnSlice (Preempt.switcher L) L preemptView fns s := by
  obtain ⟨-, -, -, -, -, htable, hcurrent, hticks, hrunning, -, hresumed⟩ :=
    Preempt.start_eq_some hstart
  have hcreated := Layout.createAll_created hL fns h.mem
  have hmax : (preemptView.table s₀.g).nTasks ≤ TASK_MAX := by
    show s₀.g.table.nTasks ≤ TASK_MAX
    rw [htable]
    exact hcreated.bound
  have hpos : 0 < (preemptView.table s₀.g).nTasks := by
    show 0 < s₀.g.table.nTasks
    rw [htable]
    exact L.createAll_pos hfns h.mem
  obtain ⟨hsame, hrot⟩ := rotates preempt_picks hpos hmax hcurrent hticks hrunning hresumed
    hrun hquota
  have hinv := run_inv (Preempt.lawful hL) (Preempt.start_inv hL hstart) hrun
  rw [← hsame] at hrot hmax
  rw [show s₀.g.table = preemptView.table s.g from hsame.symm] at hinv htable
  exact ownSlice (Preempt.lawful hL) rfl hfns hmax htable hinv hrot

theorem smode_ownSlice {im : Smode.Image} (him : im.Separate) {smode hasSstc : Bool}
    {fns : List Word} (hfns : fns ≠ []) {h : Hart} {env : Smode.Env}
    {s₀ s : State Smode.Globals Ctx} {ts : List (Tick Smode.Env)}
    (hstart : Smode.start im smode hasSstc fns h env = some s₀)
    (hrun : runAll (Smode.switcher im smode).tick s₀ ts = some s)
    (hquota : ts.length < N_TICKS.toNat) :
    OwnSlice (Smode.switcher im smode) im.toLayout smodeView fns s := by
  have hst := Smode.start_eq_some him hstart
  have hcreated := Layout.createAll_created him.layout fns (Smode.bootOf im smode hasSstc h).2.mem
  have hmax : (smodeView.table s₀.g).nTasks ≤ TASK_MAX := by
    show s₀.g.table.nTasks ≤ TASK_MAX
    rw [hst.table]
    exact hcreated.bound
  have hpos : 0 < (smodeView.table s₀.g).nTasks := by
    show 0 < s₀.g.table.nTasks
    rw [hst.table]
    exact im.createAll_pos hfns _
  obtain ⟨hsame, hrot⟩ := rotates smode_picks hpos hmax hst.current hst.ticks hst.running
    hst.resumed hrun hquota
  have hinv := run_inv (Smode.lawful him smode) (Smode.start_inv him hstart) hrun
  have htable := hst.table
  rw [← hsame] at hrot hmax
  rw [show s₀.g.table = smodeView.table s.g from hsame.symm] at hinv htable
  exact ownSlice (Smode.lawful him smode) rfl hfns hmax htable hinv hrot

/-- In both schedulers, for any tasks and any ticks below the quota: whenever
code of a task runs, `current` is its index, its trampoline would call its own
function, the next interrupt saves it into its own frame, and no task is more
than one slice ahead of another. -/
theorem current_names_running_task :
    (∀ (L : Layout), L.Separate → ∀ fns : List Word, fns ≠ [] →
      ∀ (h : Hart) (readings : List Word) (s₀ s : State Preempt.Globals Ctx)
        (ts : List (Tick (List Word))),
      Preempt.start L fns h readings = some s₀ →
      runAll (Preempt.switcher L).tick s₀ ts = some s → ts.length < N_TICKS.toNat →
      OwnSlice (Preempt.switcher L) L preemptView fns s) ∧
    (∀ (im : Smode.Image), im.Separate → ∀ (smode hasSstc : Bool) (fns : List Word), fns ≠ [] →
      ∀ (h : Hart) (env : Smode.Env) (s₀ s : State Smode.Globals Ctx)
        (ts : List (Tick Smode.Env)),
      Smode.start im smode hasSstc fns h env = some s₀ →
      runAll (Smode.switcher im smode).tick s₀ ts = some s → ts.length < N_TICKS.toNat →
      OwnSlice (Smode.switcher im smode) im.toLayout smodeView fns s) := by
  constructor
  · intro L hL fns hfns h readings s₀ s ts hstart hrun hquota
    exact preempt_ownSlice hL hfns hstart hrun hquota
  · intro im him smode hasSstc fns hfns h env s₀ s ts hstart hrun hquota
    exact smode_ownSlice him hfns hstart hrun hquota

/-- Two tasks and three ticks, in both schedulers. -/
theorem two_tasks_own_slices :
    (∃ s₀ s, Preempt.start Preempt.sampleLayout [0x80000600, 0x80000700] Preempt.sampleHart
          [0, 1] = some s₀ ∧
        runAll (Preempt.switcher Preempt.sampleLayout).tick s₀
          (List.replicate 3 (Preempt.sampleTick 7 10002 1000)) = some s ∧
        OwnSlice (Preempt.switcher Preempt.sampleLayout) Preempt.sampleLayout preemptView
          [0x80000600, 0x80000700] s) ∧
      ∃ s₀ s, Smode.start Smode.sampleImage true false [0x80000600, 0x80000700]
          Smode.sampleHart (Smode.sampleEnv 0 1) = some s₀ ∧
        runAll (Smode.switcher Smode.sampleImage true).tick s₀
          (List.replicate 3 (Smode.sampleTick 7 10002 1000)) = some s ∧
        OwnSlice (Smode.switcher Smode.sampleImage true) Smode.sampleImage.toLayout smodeView
          [0x80000600, 0x80000700] s := by
  have hfns : [(0x80000600 : Word), 0x80000700] ≠ [] := List.cons_ne_nil _ _
  constructor
  · have hL := Preempt.sampleLayout_separate
    have harm : (nextDeadline [0, 1]).isSome := by decide
    obtain ⟨s₀, hstart, hready⟩ := Preempt.start_returns hL hfns Preempt.sampleHart harm
    have hticks : ∀ t ∈ List.replicate 3 (Preempt.sampleTick 7 10002 1000),
        (nextDeadline t.env).isSome := by decide
    obtain ⟨s, hrun, -⟩ := Preempt.run_returns hL hready hticks
    exact ⟨s₀, s, hstart, hrun, current_names_running_task.1 _ hL _ hfns _ _ _ _ _ hstart hrun
      (by decide)⟩
  · have him := Smode.sampleImage_separate
    have harm : (nextDeadline (Smode.sampleEnv 0 1).readings).isSome := by decide
    obtain ⟨s₀, hstart, hready⟩ :=
      Smode.start_returns him true false hfns Smode.sampleHart harm
    have hticks : ∀ t ∈ List.replicate 3 (Smode.sampleTick 7 10002 1000),
        (nextDeadline t.env.readings).isSome := by decide
    obtain ⟨s, hrun, -⟩ := Smode.sched_run_returns him hready hticks
    exact ⟨s₀, s, hstart, hrun, current_names_running_task.2 _ him _ _ _ hfns _ _ _ _ _ hstart
      hrun (by decide)⟩

end CurrentTask
end BareMetal
