import BareMetal.Preempt.Account

/-!
# The end of a preempt run, instruction by instruction

After the final tick `ptrap_handler` has set `done` and hands the CPU back to
the boot context, but it has also rearmed the timer; the interrupt stays
enabled until `preempt_stop` clears `MTIE`.  Between the two lies a window of a
few instructions of `preempt_wait` and `main`, in which one more tick is taken
if the timer reaches the new deadline first.

The system here interleaves the boot context, one instruction at a time, with
the timer: at every instruction boundary the interrupt is taken if it is
pending and enabled.  `run_length_iff` says exactly when the report sees
`N_TICKS` ticks.
-/

namespace BareMetal
namespace Preempt

open Machine Switch

/-! ## Boundaries -/

/-- Where the boot context stands after `preempt_init`. -/
inductive BootPc
  /-- in `main`, with that many instructions to go before `preempt_wait` -/
  | banner (left : Nat)
  /-- in the loop of `preempt_wait`, at the load of `done` -/
  | load
  /-- at the branch on the value that was loaded -/
  | test (done : Bool)
  | wfi
  /-- out of the loop, with that many instructions to go before the `csrrc` of
  `preempt_stop` -/
  | leaving (left : Nat)
  /-- in `preempt_report` -/
  | report
  deriving DecidableEq, Repr

/-- How many instructions the compiler put in front of the loop and between the
loop and the `csrrc`. -/
structure BootCode where
  bannerLen : Nat
  leaveLen : Nat

/-- The scheduler, the boot context, and the ticks taken so far, which the code
does not read. -/
structure Sys where
  sched : State Globals Ctx
  boot : BootPc
  taken : List (Tick (List Word))

/-- An instruction boundary: what `mtime` reads there, and what the trap finds
if it is taken there. -/
structure Boundary where
  now : Word
  tick : Tick (List Word)

/-- The machine timer interrupt is enabled. -/
def timerEnabled (h : Hart) : Bool :=
  (h.csr .mie).getLsbD 7 && (h.priv ≠ .machine || (h.csr .mstatus).getLsbD bitMIE)

/-- The machine timer interrupt is taken at a boundary. -/
def timerTaken (h : Hart) (now : Word) : Bool :=
  timerEnabled h && h.mem CLINT_MTIMECMP ≤ now

/-- One instruction of the boot context.  `wfi` may complete at any time. -/
def bootStep (code : BootCode) (s : Sys) : Sys :=
  match s.boot with
  | .banner (left + 1) => { s with boot := .banner left }
  | .banner 0 => { s with boot := .load }
  | .load => { s with boot := .test s.sched.g.done }
  | .test true => { s with boot := .leaving code.leaveLen }
  | .test false => { s with boot := .wfi }
  | .wfi => { s with boot := .load }
  | .leaving (left + 1) => { s with boot := .leaving left }
  | .leaving 0 =>
      let h := s.sched.hart
      { s with
        sched := { s.sched with hart := h.setCsr .mie (h.csr .mie &&& ~~~ MIE_MTIE) }
        boot := .report }
  | .report => s

/-- The machine at an instruction boundary: either the timer interrupt is
taken, or the running context executes one instruction. -/
def Sys.step (L : Layout) (code : BootCode) (s : Sys) (b : Boundary) : Option Sys :=
  if timerTaken s.sched.hart b.now then
    ((switcher L).tick s.sched b.tick).map fun sched =>
      { s with sched := sched, taken := s.taken ++ [b.tick] }
  else
    match s.sched.running with
    | .boot => some (bootStep code s)
    | .task _ => some s

/-- The machine when `preempt_init` returns into `main`. -/
def bootStart (L : Layout) (code : BootCode) (fns : List Word) (h : Hart)
    (readings : List Word) : Option Sys :=
  (start L fns h readings).map fun sched =>
    { sched := sched, boot := .banner code.bannerLen, taken := [] }

/-- `done` is set and `preempt_stop` has not run yet. -/
def Sys.InWindow (s : Sys) : Prop :=
  s.sched.g.done = true ∧ s.boot ≠ .report

/-! ## One tick -/

/-- The compare register lies apart from the exit stamps. -/
structure TimerApart (L : Layout) : Prop where
  separate : L.Separate
  exitCycles : CLINT_MTIMECMP ≠ L.exitCycles
  exitMtime : CLINT_MTIMECMP ≠ L.exitMtime

/-- What a tick does to the timer, its enable bits and `done`. -/
structure Rearmed (s s' : State Globals Ctx) (t : Tick (List Word)) : Prop where
  deadline : nextDeadline t.env = some (s'.hart.mem CLINT_MTIMECMP)
  mie : s'.hart.csr .mie = s.hart.csr .mie
  mstatus : (s'.hart.csr .mstatus).getLsbD bitMIE = (s.hart.csr .mstatus).getLsbD bitMIE
  ticks : s'.g.ticks = s.g.ticks + 1
  done : s'.g.done = (s.g.done || decide (N_TICKS ≤ s'.g.ticks))

theorem chooseNext_done {g : Globals} {out : Globals × Ctx} (hout : chooseNext g = some out) :
    out.1.done = (g.done || decide (N_TICKS ≤ g.ticks)) := by
  rw [chooseNext] at hout
  split at hout
  · next hquota =>
    obtain rfl := Option.some.inj hout
    rw [decide_eq_true hquota, Bool.or_true]
  · next hquota =>
    obtain ⟨next, -, rfl⟩ := Option.map_eq_some_iff.mp hout
    rw [decide_eq_false hquota, Bool.or_false]

theorem closeSwitch_done (L : Layout) (g : Globals) (m : Mem) :
    (closeSwitch L g m).done = g.done := by
  unfold closeSwitch
  split <;> rfl

/-- The handler sets `done` when the quota is met and never clears it. -/
theorem ptrapHandler_done {L : Layout} {g : Globals} {h : Hart} {readings : List Word}
    {out : Globals × Ctx × Hart} (hout : ptrapHandler L g h readings = some out) :
    out.1.done = (g.done || decide (N_TICKS ≤ out.1.ticks)) := by
  have hticks : out.1.ticks = g.ticks + 1 := (ptrapHandler_eq_some hout).2.2.ticks
  rw [hticks]
  rw [ptrapHandler] at hout
  split at hout
  · cases hout
  · obtain ⟨armed, harmed, hrest⟩ := Option.bind_eq_some_iff.mp hout
    obtain ⟨deadline, -, rfl⟩ := Option.map_eq_some_iff.mp harmed
    obtain ⟨next, hnext, rfl⟩ := Option.map_eq_some_iff.mp hrest
    have hdone := chooseNext_done hnext
    simp only [closeSwitch_done, closeSwitch_ticks] at hdone
    exact hdone

theorem tick_rearmed {L : Layout} (hL : TimerApart L) {s s' : State Globals Ctx}
    {t : Tick (List Word)} (htick : (switcher L).tick s t = some s') : Rearmed s s' t := by
  obtain ⟨out, hout, hg, -, hhart, -, -⟩ := (switcher L).tick_eq_some htick
  have hhandler : ptrapHandler L s.g ((switcher L).entered s.hart t) t.env = some out := hout
  obtain ⟨-, ⟨deadline, hdeadline, hcalled⟩, hchosen⟩ := ptrapHandler_eq_some hhandler
  obtain ⟨hmem, hcsr, -⟩ := run_exit (switcher L).code
    ((out.2.2.callC t.clobber ((switcher L).frame out.2.1)).stamp t.exitTime t.exitCycle)
  -- the enable bits on the way in
  have hin : ∀ k, k ≠ Csr.mscratch → out.2.2.csr k =
      (((switcher L).live s.hart t).trapM MCAUSE_TIMER_IRQ).csr k := by
    intro k hk
    rw [hcalled, Hart.store_csr]
    exact entered_csr (switcher L) s.hart t hk
  -- and out
  have hout' : ∀ k, k ≠ Csr.mscratch → k ≠ Csr.mepc →
      (run (switcher L).code.exit ((out.2.2.callC t.clobber
        ((switcher L).frame out.2.1)).stamp t.exitTime t.exitCycle)).csr k = out.2.2.csr k := by
    intro k hk₁ hk₂
    rw [hcsr]
    show Function.update (Function.update out.2.2.csr .mepc _) .mscratch _ k = _
    rw [Function.update_of_ne hk₁, Function.update_of_ne hk₂]
  have hleft : s'.hart = (run (switcher L).code.exit ((out.2.2.callC t.clobber
      ((switcher L).frame out.2.1)).stamp t.exitTime t.exitCycle)).mret := hhart
  refine ⟨?_, ?_, ?_, ?_, ?_⟩
  · have hstored : s'.hart.mem CLINT_MTIMECMP = deadline := by
      rw [hleft, Hart.mret_mem, hmem]
      show Function.update (Function.update out.2.2.mem L.exitCycles _) L.exitMtime _ _ = _
      rw [Function.update_of_ne hL.exitMtime, Function.update_of_ne hL.exitCycles, hcalled,
        Hart.store_mem, Function.update_self]
    rw [hstored]
    exact hdeadline
  · rw [hleft, Hart.mret_csr_of_ne _ (by decide), hout' _ (by decide) (by decide),
      hin _ (by decide), Hart.trapM_csr_of_ne _ _ (by decide) (by decide) (by decide)]
    rfl
  · rw [hleft, Hart.mret_mstatus, hout' _ (by decide) (by decide), hin _ (by decide),
      Hart.trapM_mstatus, leaveM_enterM_mie]
    rfl
  · rw [hg]
    exact hchosen.ticks
  · rw [hg]
    exact ptrapHandler_done hhandler

/-! ## Every step -/

/-- The boot context has read `done` as set. -/
def BootPc.sawDone : BootPc → Bool
  | .test done => done
  | .leaving _ | .report => true
  | _ => false

/-- What holds at every instruction boundary: the timer interrupt is enabled
until `preempt_stop`, the compare register holds the deadline that was armed
last, and `done` is set from the final tick on. -/
structure Timed (readings : List Word) (s : Sys) : Prop where
  mtie : (s.sched.hart.csr .mie).getLsbD 7 = decide (s.boot ≠ .report)
  mstatus : (s.sched.hart.csr .mstatus).getLsbD bitMIE = true
  comparator : s.sched.hart.mem CLINT_MTIMECMP = deadlineOf (lastEnv readings s.taken)
  ticks : s.sched.g.ticks = BitVec.ofNat 64 s.taken.length
  done : s.sched.g.done = decide (200 ≤ s.taken.length)
  seen : s.boot.sawDone = true → s.sched.g.done = true

theorem mie_setBit_clear (w : Word) : (w &&& ~~~ MIE_MTIE).getLsbD 7 = false := by
  simp [MIE_MTIE]

theorem mie_setBit_set (w : Word) : (w ||| MIE_MTIE).getLsbD 7 = true := by
  simp [MIE_MTIE]

theorem mstatus_setBit_set (w : Word) : (w ||| MSTATUS_MIE).getLsbD bitMIE = true := by
  simp [MSTATUS_MIE, bitMIE]

theorem bootStart_timed {L : Layout} {code : BootCode} {fns : List Word} {h : Hart}
    {readings : List Word} {s : Sys} (hs : bootStart L code fns h readings = some s) :
    Timed readings s ∧ s.boot = .banner code.bannerLen ∧ s.taken = [] ∧
      start L fns h readings = some s.sched := by
  obtain ⟨sched, hsched, rfl⟩ := Option.map_eq_some_iff.mp hs
  have hcmp : sched.hart.mem CLINT_MTIMECMP = deadlineOf readings := by
    obtain ⟨deadline, hdeadline, hmem, -⟩ := start_eq_some hsched
    rw [hmem, Function.update_self, deadlineOf, hdeadline, Option.getD_some]
  refine ⟨?_, rfl, rfl, hsched⟩
  obtain ⟨out, hout, rfl⟩ := Option.map_eq_some_iff.mp hsched
  obtain ⟨armed, harmed, rfl⟩ := Option.map_eq_some_iff.mp hout
  obtain ⟨deadline, -, rfl⟩ := Option.map_eq_some_iff.mp harmed
  refine ⟨?_, ?_, ?_, rfl, rfl, ?_⟩
  · exact mie_setBit_set _
  · exact mstatus_setBit_set _
  · exact hcmp
  · intro hseen
    cases hseen

/-- The timer interrupt is taken exactly when the armed deadline is reached
and `preempt_stop` has not run. -/
theorem Timed.taken_iff {readings : List Word} {s : Sys} (hs : Timed readings s) (now : Word) :
    timerTaken s.sched.hart now = true ↔
      s.boot ≠ .report ∧ deadlineOf (lastEnv readings s.taken) ≤ now := by
  rw [timerTaken, timerEnabled, hs.mtie, hs.mstatus, hs.comparator, Bool.or_true, Bool.and_true,
    Bool.and_eq_true, decide_eq_true_eq, decide_eq_true_eq]

/-- Everything a boundary can do. -/
theorem step_cases {L : Layout} {code : BootCode} {s s' : Sys} {b : Boundary}
    (hstep : s.step L code b = some s') :
    (timerTaken s.sched.hart b.now = true ∧ (switcher L).tick s.sched b.tick = some s'.sched ∧
        s'.boot = s.boot ∧ s'.taken = s.taken ++ [b.tick]) ∨
      (timerTaken s.sched.hart b.now = false ∧
        (s.sched.running = .boot ∧ s' = bootStep code s ∨ s' = s)) := by
  rw [Sys.step] at hstep
  split at hstep
  · next htaken =>
    obtain ⟨sched, htick, rfl⟩ := Option.map_eq_some_iff.mp hstep
    exact Or.inl ⟨htaken, htick, rfl, rfl⟩
  · next htaken =>
    refine Or.inr ⟨Bool.eq_false_iff.mpr htaken, ?_⟩
    split at hstep
    · next hboot => exact Or.inl ⟨hboot, (Option.some.inj hstep).symm⟩
    · exact Or.inr (Option.some.inj hstep).symm

/-- The boot context's instructions keep the invariant and take no tick. -/
theorem bootStep_timed (code : BootCode) {readings : List Word} {s : Sys}
    (hs : Timed readings s) :
    Timed readings (bootStep code s) ∧ (bootStep code s).taken = s.taken := by
  obtain ⟨hmtie, hmstatus, hcmp, hticks, hdone, hseen⟩ := hs
  obtain ⟨sched, boot, taken⟩ := s
  dsimp only at hmtie hmstatus hcmp hticks hdone hseen
  cases boot with
  | banner left =>
      cases left with
      | zero => exact ⟨⟨hmtie, hmstatus, hcmp, hticks, hdone, fun h => by cases h⟩, rfl⟩
      | succ left => exact ⟨⟨hmtie, hmstatus, hcmp, hticks, hdone, fun h => by cases h⟩, rfl⟩
  | load => exact ⟨⟨hmtie, hmstatus, hcmp, hticks, hdone, fun h => h⟩, rfl⟩
  | test done =>
      cases done with
      | false => exact ⟨⟨hmtie, hmstatus, hcmp, hticks, hdone, fun h => by cases h⟩, rfl⟩
      | true => exact ⟨⟨hmtie, hmstatus, hcmp, hticks, hdone, fun _ => hseen rfl⟩, rfl⟩
  | wfi => exact ⟨⟨hmtie, hmstatus, hcmp, hticks, hdone, fun h => by cases h⟩, rfl⟩
  | leaving left =>
      cases left with
      | zero =>
          refine ⟨⟨?_, hmstatus, hcmp, hticks, hdone, fun _ => hseen rfl⟩, rfl⟩
          exact mie_setBit_clear _
      | succ left => exact ⟨⟨hmtie, hmstatus, hcmp, hticks, hdone, fun _ => hseen rfl⟩, rfl⟩
  | report => exact ⟨⟨hmtie, hmstatus, hcmp, hticks, hdone, hseen⟩, rfl⟩

/-- A tick keeps the invariant. -/
theorem tick_timed {L : Layout} (hL : TimerApart L) {readings : List Word} {s s' : Sys}
    {t : Tick (List Word)} (hs : Timed readings s)
    (htick : (switcher L).tick s.sched t = some s'.sched) (hboot : s'.boot = s.boot)
    (htaken : s'.taken = s.taken ++ [t]) : Timed readings s' := by
  have hr := tick_rearmed hL htick
  have hticks : s'.sched.g.ticks = BitVec.ofNat 64 (s.taken.length + 1) := by
    rw [hr.ticks, hs.ticks, BitVec.ofNat_add]
    rfl
  have hdone : s'.sched.g.done = decide (200 ≤ s.taken.length + 1) := by
    rw [hr.done, hs.done, hticks]
    by_cases hbefore : 200 ≤ s.taken.length
    · rw [decide_eq_true hbefore, Bool.true_or, decide_eq_true (by omega)]
    · -- below the quota the counter has not wrapped
      have hquota : N_TICKS ≤ BitVec.ofNat 64 (s.taken.length + 1) ↔
          200 ≤ s.taken.length + 1 := by
        have hnat : N_TICKS.toNat = 200 := rfl
        rw [BitVec.le_def, BitVec.toNat_ofNat, hnat, Nat.mod_eq_of_lt (by omega)]
      rw [decide_eq_false hbefore, Bool.false_or, decide_eq_decide.mpr hquota]
  refine ⟨?_, ?_, ?_, ?_, ?_, fun hseen => ?_⟩
  · rw [hr.mie, hs.mtie, hboot]
  · rw [hr.mstatus, hs.mstatus]
  · rw [htaken, lastEnv_append, deadlineOf, hr.deadline, Option.getD_some]
  · rw [hticks, htaken, List.length_append, List.length_singleton]
  · rw [hdone, htaken, List.length_append, List.length_singleton]
  · rw [hboot] at hseen
    have hset := hs.seen hseen
    rw [hs.done] at hset
    have hle := of_decide_eq_true hset
    rw [hdone]
    exact decide_eq_true (by omega)

/-- Every boundary keeps the invariant, and ticks are only added. -/
theorem step_timed {L : Layout} (hL : TimerApart L) {code : BootCode} {readings : List Word}
    {s s' : Sys} {b : Boundary} (hs : Timed readings s) (hstep : s.step L code b = some s') :
    Timed readings s' ∧ s.taken.length ≤ s'.taken.length := by
  rcases step_cases hstep with ⟨-, htick, hboot, htaken⟩ | ⟨-, ⟨-, rfl⟩ | rfl⟩
  · refine ⟨tick_timed hL hs htick hboot htaken, ?_⟩
    rw [htaken, List.length_append]
    exact Nat.le_add_right _ _
  · obtain ⟨hnew, hsame⟩ := bootStep_timed code hs
    exact ⟨hnew, le_of_eq (by rw [hsame])⟩
  · exact ⟨hs, le_refl _⟩

theorem run_timed {L : Layout} (hL : TimerApart L) {code : BootCode} {readings : List Word}
    {s s' : Sys} {bs : List Boundary} (hs : Timed readings s)
    (hrun : runAll (Sys.step L code) s bs = some s') :
    Timed readings s' ∧ s.taken.length ≤ s'.taken.length :=
  runAll_invariant (I := fun mid => Timed readings mid ∧ s.taken.length ≤ mid.taken.length)
    (fun hmid hstep => by
      obtain ⟨hnew, hmore⟩ := step_timed hL hmid.1 hstep
      exact ⟨hnew, le_trans hmid.2 hmore⟩)
    ⟨hs, le_refl _⟩ hrun

/-! ## The whole run -/

/-- At every boundary of the window `mtime` is still below the deadline that
the last tick armed. -/
def WindowQuiet (L : Layout) (code : BootCode) (readings : List Word) (s₀ : Sys)
    (bs : List Boundary) : Prop :=
  ∀ before b after mid, bs = before ++ b :: after →
    runAll (Sys.step L code) s₀ before = some mid → mid.InWindow →
    b.now < deadlineOf (lastEnv readings mid.taken)

/-- In a quiet window no tick is taken, so no run takes more than the quota. -/
theorem taken_le_of_quiet {L : Layout} (hL : TimerApart L) {code : BootCode}
    {readings : List Word} {s₀ s : Sys} {bs : List Boundary} (hs₀ : Timed readings s₀)
    (hfresh : s₀.taken = []) (hquiet : WindowQuiet L code readings s₀ bs)
    (hrun : runAll (Sys.step L code) s₀ bs = some s) : s.taken.length ≤ 200 := by
  -- induction on the run, from its last boundary
  induction bs using List.reverseRecOn generalizing s with
  | nil =>
      obtain rfl : s₀ = s := by simpa using hrun
      rw [hfresh]
      exact Nat.zero_le _
  | append_singleton bs b ih =>
      rw [runAll_append] at hrun
      obtain ⟨mid, hmid, hlast⟩ := Option.bind_eq_some_iff.mp hrun
      obtain ⟨s', hstep, hend⟩ := runAll_cons_eq_some.mp hlast
      obtain rfl : s' = s := by simpa using hend
      have hearlier : WindowQuiet L code readings s₀ bs := by
        intro before b' after mid' hsplit
        refine hquiet before b' (after ++ [b]) mid' ?_
        rw [hsplit, List.append_assoc, List.cons_append]
      have hle := ih hearlier hmid
      have htimed := (run_timed hL hs₀ hmid).1
      rcases step_cases hstep with ⟨htaken, -, -, hadd⟩ | ⟨-, ⟨-, rfl⟩ | rfl⟩
      · obtain ⟨hboot, hreached⟩ := (htimed.taken_iff b.now).mp htaken
        have hbelow : mid.taken.length < 200 := by
          by_contra hfull
          have hdone : mid.sched.g.done = true := by
            rw [htimed.done]
            exact decide_eq_true (by omega)
          have hnow := hquiet bs b [] mid rfl hmid ⟨hdone, hboot⟩
          exact BitVec.not_le.mpr hnow hreached
        rw [hadd, List.length_append, List.length_singleton]
        omega
      · rw [(bootStep_timed code htimed).2]
        exact hle
      · exact hle

/-- A tick in the window takes the run past the quota. -/
theorem quiet_of_taken_le {L : Layout} (hL : TimerApart L) {code : BootCode}
    {readings : List Word} {s₀ s : Sys} {bs : List Boundary} (hs₀ : Timed readings s₀)
    (hrun : runAll (Sys.step L code) s₀ bs = some s) (hle : s.taken.length ≤ 200) :
    WindowQuiet L code readings s₀ bs := by
  rintro before b after mid rfl hmid ⟨hdone, hboot⟩
  rw [runAll_append, hmid] at hrun
  obtain ⟨next, hstep, hrest⟩ := runAll_cons_eq_some.mp hrun
  have htimed := (run_timed hL hs₀ hmid).1
  have hfull : 200 ≤ mid.taken.length := by
    rw [htimed.done] at hdone
    exact of_decide_eq_true hdone
  have hnext := (run_timed hL (step_timed hL htimed hstep).1 hrest).2
  apply BitVec.not_le.mp
  intro hreached
  have htaken := (htimed.taken_iff b.now).mpr ⟨hboot, hreached⟩
  rcases step_cases hstep with ⟨-, -, -, hadd⟩ | ⟨hnot, -⟩
  · rw [hadd, List.length_append, List.length_singleton] at hnext
    omega
  · rw [hnot] at htaken
    cases htaken

/-- For every timing of the timer relative to the instructions of the boot
context: when `preempt_report` executes, `ticks` is `N_TICKS` and no tick was
taken after the final one, if and only if at every boundary between the final
tick and `preempt_stop` the timer had not reached the deadline the final tick
armed. -/
theorem run_length_iff {L : Layout} (hL : TimerApart L) {code : BootCode} {fns : List Word}
    {h : Hart} {readings : List Word} {s₀ s : Sys} {bs : List Boundary}
    (hstart : bootStart L code fns h readings = some s₀)
    (hrun : runAll (Sys.step L code) s₀ bs = some s) (hreport : s.boot = .report) :
    (s.sched.g.ticks = N_TICKS ∧ s.taken.length = 200) ↔ WindowQuiet L code readings s₀ bs := by
  obtain ⟨hs₀, -, hfresh, -⟩ := bootStart_timed hstart
  have htimed := (run_timed hL hs₀ hrun).1
  constructor
  · rintro ⟨-, hlength⟩
    exact quiet_of_taken_le hL hs₀ hrun (le_of_eq hlength)
  · intro hquiet
    have hle := taken_le_of_quiet hL hs₀ hfresh hquiet hrun
    have hdone : s.sched.g.done = true := htimed.seen (by rw [hreport]; rfl)
    rw [htimed.done] at hdone
    have hlength : s.taken.length = 200 := le_antisymm hle (of_decide_eq_true hdone)
    refine ⟨?_, hlength⟩
    rw [htimed.ticks, hlength]
    rfl

/-! ### Two runs of the sample machine -/

theorem sampleLayout_timerApart : TimerApart sampleLayout where
  separate := sampleLayout_separate
  exitCycles := by decide
  exitMtime := by decide

/-- Boot code without extra instructions. -/
def sampleCode : BootCode :=
  ⟨0, 0⟩

/-- The time of the tick number `k`, counted from 0: each is taken as soon as
it is due. -/
def tickTime (k : Nat) : Word :=
  BitVec.ofNat 64 (10002 * (k + 1))

/-- The boundary at which tick `k` is taken. -/
def dueTick (k : Nat) : Boundary :=
  ⟨tickTime k, sampleTick 0 (tickTime k) (tickTime k)⟩

theorem tickTime_toNat {k : Nat} (hk : k ≤ 201) : (tickTime k).toNat = 10002 * (k + 1) := by
  rw [tickTime, BitVec.toNat_ofNat, Nat.mod_eq_of_lt (by omega)]

/-- Each tick arms the deadline of the next. -/
theorem nextDeadline_dueTick {k : Nat} (hk : k ≤ 200) :
    nextDeadline (dueTick k).tick.env = some (tickTime (k + 1)) := by
  have htime := tickTime_toNat (k := k) (by omega)
  have hnext := tickTime_toNat (k := k + 1) (by omega)
  have hsum : tickTime k + 2 + QUANTUM_TICKS = tickTime (k + 1) := by
    apply BitVec.eq_of_toNat_eq
    rw [BitVec.toNat_add, BitVec.toNat_add, htime, hnext]
    show ((10002 * (k + 1) + 2) % 2 ^ 64 + 10000) % 2 ^ 64 = 10002 * (k + 1 + 1)
    omega
  have hlater : ¬ tickTime (k + 1) ≤ tickTime k + 3 := by
    rw [BitVec.le_def, BitVec.toNat_add, htime, hnext]
    show ¬ 10002 * (k + 1 + 1) ≤ (10002 * (k + 1) + 3) % 2 ^ 64
    omega
  show skipAhead (tickTime k + 2 + QUANTUM_TICKS) [tickTime k + 3] = _
  rw [hsum, skipAhead, if_neg hlater]

/-- A machine that is about to take the tick number `n`. -/
structure Due (n : Nat) (s : Sys) : Prop where
  timed : Timed [2, 3] s
  ready : Ready sampleLayout s.sched
  length : s.taken.length = n
  deadline : deadlineOf (lastEnv [2, 3] s.taken) = tickTime n

/-- A due tick is taken. -/
theorem due_step {n : Nat} {s : Sys} (hs : Due n s) (hn : n ≤ 200) (hboot : s.boot ≠ .report) :
    ∃ s', s.step sampleLayout sampleCode (dueTick n) = some s' ∧ Due (n + 1) s' ∧
      s'.boot = s.boot ∧ (199 ≤ n → s'.sched.running = .boot) := by
  have hL := sampleLayout_timerApart
  have harm := nextDeadline_dueTick hn
  obtain ⟨sched, htick, hready⟩ := tick_returns (t := (dueTick n).tick) hL.separate hs.ready
    (by rw [harm]; rfl)
  have htaken : timerTaken s.sched.hart (dueTick n).now = true := by
    apply (hs.timed.taken_iff _).mpr
    rw [hs.deadline]
    exact ⟨hboot, BitVec.le_refl _⟩
  have hstep : s.step sampleLayout sampleCode (dueTick n) =
      some ⟨sched, s.boot, s.taken ++ [(dueTick n).tick]⟩ := by
    rw [Sys.step, if_pos htaken, htick]
    rfl
  refine ⟨_, hstep, ⟨(step_timed hL hs.timed hstep).1, hready, ?_, ?_⟩, rfl, fun hlast => ?_⟩
  · rw [List.length_append, List.length_singleton, hs.length]
  · rw [lastEnv_append, deadlineOf, harm, Option.getD_some]
  · rcases (tick_chosen htick).choice with ⟨-, -, hrunning⟩ | ⟨hquota, -⟩
    · exact hrunning
    · have hticks : s.sched.g.ticks + 1 = BitVec.ofNat 64 (n + 1) := by
        rw [hs.timed.ticks, hs.length, BitVec.ofNat_add]
        rfl
      have hnat : N_TICKS.toNat = 200 := rfl
      rw [hticks, BitVec.lt_def, BitVec.toNat_ofNat, hnat, Nat.mod_eq_of_lt (by omega)] at hquota
      omega

/-- The machine after `preempt_init`, and after any number of due ticks up to
the quota. -/
theorem due_run {n : Nat} (hn : n ≤ 200) :
    ∃ s₀ s, bootStart sampleLayout sampleCode [0x80000600] sampleHart [2, 3] = some s₀ ∧
      runAll (Sys.step sampleLayout sampleCode) s₀ ((List.range n).map dueTick) = some s ∧
      Due n s ∧ s.boot = .banner 0 ∧ (200 ≤ n → s.sched.running = .boot) := by
  have hL := sampleLayout_timerApart
  have harm : (nextDeadline [2, 3]).isSome := by decide
  obtain ⟨sched, hstart, hready⟩ :=
    start_returns hL.separate (List.cons_ne_nil 0x80000600 []) sampleHart harm
  have hboot : bootStart sampleLayout sampleCode [0x80000600] sampleHart [2, 3] =
      some ⟨sched, .banner 0, []⟩ := by
    rw [bootStart, hstart]
    rfl
  obtain ⟨htimed, -, -, -⟩ := bootStart_timed hboot
  induction n with
  | zero =>
      exact ⟨_, _, hboot, rfl, ⟨htimed, hready, rfl, rfl⟩, rfl, fun h => by omega⟩
  | succ n ih =>
      obtain ⟨s₀, s, hs₀, hrun, hdue, hpc, -⟩ := ih (by omega)
      obtain ⟨s', hstep, hdue', hpc', hrunning⟩ :=
        due_step hdue (by omega) (by rw [hpc]; exact BootPc.noConfusion)
      refine ⟨s₀, s', hs₀, ?_, hdue', hpc'.trans hpc, fun hlast => hrunning (by omega)⟩
      rw [List.range_succ, List.map_append, runAll_append, hrun]
      exact runAll_cons_eq_some.mpr ⟨s', hstep, rfl⟩

/-- The boot context's instructions touch neither the scheduler's data nor its
trap vector. -/
theorem bootStep_sched (code : BootCode) (s : Sys) :
    (bootStep code s).sched.g = s.sched.g ∧ (bootStep code s).sched.running = s.sched.running ∧
      (bootStep code s).sched.hart.csr .mtvec = s.sched.hart.csr .mtvec := by
  obtain ⟨sched, boot, taken⟩ := s
  rcases boot with (_ | _) | _ | (_ | _) | _ | (_ | _) | _
  all_goals exact ⟨rfl, rfl, rfl⟩

/-- While no tick is due the boot context executes. -/
theorem quiet_step {n : Nat} {s : Sys} (hs : Due n s) (hrunning : s.sched.running = .boot)
    {now : Word} (hnow : now < tickTime n) (t : Tick (List Word)) :
    s.step sampleLayout sampleCode ⟨now, t⟩ = some (bootStep sampleCode s) ∧
      Due n (bootStep sampleCode s) ∧ (bootStep sampleCode s).sched.running = .boot := by
  have htaken : timerTaken s.sched.hart now ≠ true := by
    intro htaken
    have hreached := ((hs.timed.taken_iff now).mp htaken).2
    rw [hs.deadline] at hreached
    exact BitVec.not_le.mpr hnow hreached
  obtain ⟨htimed, hkept⟩ := bootStep_timed sampleCode hs.timed
  obtain ⟨hg, hrun, hmtvec⟩ := bootStep_sched sampleCode s
  refine ⟨?_, ⟨htimed, ⟨?_, ?_, ?_, ?_⟩, ?_, ?_⟩, ?_⟩
  · rw [Sys.step, if_neg htaken, hrunning]
  · exact hmtvec.trans hs.ready.installed
  · rw [hg]
    exact hs.ready.tasks
  · rw [hg]
    exact hs.ready.bound
  · rw [hg]
    exact hs.ready.current
  · rw [hkept]
    exact hs.length
  · rw [hkept]
    exact hs.deadline
  · rw [hrun]
    exact hrunning

/-- A boundary shortly after tick `k`, before the next is due. -/
def quietBoundary (k : Nat) : Boundary :=
  ⟨tickTime k + 100, sampleTick 0 0 0⟩

theorem quietBoundary_lt {k : Nat} (hk : k ≤ 200) : (quietBoundary k).now < tickTime (k + 1) := by
  have htime := tickTime_toNat (k := k) (by omega)
  have hnext := tickTime_toNat (k := k + 1) (by omega)
  rw [BitVec.lt_def, hnext]
  show (tickTime k + 100).toNat < _
  rw [BitVec.toNat_add, htime]
  show (10002 * (k + 1) + 100) % 2 ^ 64 < _
  omega

/-- From the final tick the boot context gets to the branch on `done` before
the next tick is due. -/
theorem to_branch :
    ∃ s₀ s, bootStart sampleLayout sampleCode [0x80000600] sampleHart [2, 3] = some s₀ ∧
      runAll (Sys.step sampleLayout sampleCode) s₀ ((List.range 200).map dueTick ++
        [quietBoundary 199, quietBoundary 199]) = some s ∧
      Due 200 s ∧ s.boot = .test true ∧ s.sched.running = .boot := by
  obtain ⟨s₀, s, hs₀, hrun, hdue, hpc, hboot⟩ := due_run (n := 200) (by omega)
  have hrunning := hboot (by omega)
  have hnow := quietBoundary_lt (k := 199) (by omega)
  have hdone : s.sched.g.done = true := by
    rw [hdue.timed.done, hdue.length]
    rfl
  obtain ⟨hstep₁, hdue₁, hrunning₁⟩ := quiet_step hdue hrunning hnow (quietBoundary 199).tick
  obtain ⟨hstep₂, hdue₂, hrunning₂⟩ := quiet_step hdue₁ hrunning₁ hnow (quietBoundary 199).tick
  refine ⟨s₀, _, hs₀, ?_, hdue₂, ?_, hrunning₂⟩
  · rw [runAll_append, hrun]
    exact runAll_cons_eq_some.mpr ⟨_, hstep₁, runAll_cons_eq_some.mpr ⟨_, hstep₂, rfl⟩⟩
  · simp only [bootStep, hpc, hdone]

/-- When the boot context gets to `preempt_stop` in time, the report sees 200
ticks. -/
theorem in_time_report :
    ∃ s₀ s, bootStart sampleLayout sampleCode [0x80000600] sampleHart [2, 3] = some s₀ ∧
      runAll (Sys.step sampleLayout sampleCode) s₀ ((List.range 200).map dueTick ++
        [quietBoundary 199, quietBoundary 199] ++
        [quietBoundary 199, quietBoundary 199]) = some s ∧
      s.boot = .report ∧
      WindowQuiet sampleLayout sampleCode [2, 3] s₀ ((List.range 200).map dueTick ++
        [quietBoundary 199, quietBoundary 199] ++ [quietBoundary 199, quietBoundary 199]) := by
  obtain ⟨s₀, s, hs₀, hrun, hdue, hpc, hrunning⟩ := to_branch
  have hnow := quietBoundary_lt (k := 199) (by omega)
  obtain ⟨hstep₁, hdue₁, hrunning₁⟩ := quiet_step hdue hrunning hnow (quietBoundary 199).tick
  obtain ⟨hstep₂, hdue₂, -⟩ := quiet_step hdue₁ hrunning₁ hnow (quietBoundary 199).tick
  have hreport : (bootStep sampleCode (bootStep sampleCode s)).boot = .report := by
    simp only [bootStep, hpc, sampleCode]
  have hwhole : runAll (Sys.step sampleLayout sampleCode) s₀ ((List.range 200).map dueTick ++
      [quietBoundary 199, quietBoundary 199] ++ [quietBoundary 199, quietBoundary 199]) =
      some (bootStep sampleCode (bootStep sampleCode s)) := by
    rw [runAll_append, hrun]
    exact runAll_cons_eq_some.mpr ⟨_, hstep₁, runAll_cons_eq_some.mpr ⟨_, hstep₂, rfl⟩⟩
  refine ⟨s₀, _, hs₀, hwhole, hreport, ?_⟩
  apply (run_length_iff sampleLayout_timerApart hs₀ hwhole hreport).mp
  refine ⟨?_, hdue₂.length⟩
  rw [hdue₂.timed.ticks, hdue₂.length]
  rfl

/-- When the next tick is due between the load of `done` and the branch, the
report sees 201 ticks. -/
theorem late_report :
    ∃ s₀ s, bootStart sampleLayout sampleCode [0x80000600] sampleHart [2, 3] = some s₀ ∧
      runAll (Sys.step sampleLayout sampleCode) s₀ ((List.range 200).map dueTick ++
        [quietBoundary 199, quietBoundary 199] ++
        [dueTick 200, quietBoundary 200, quietBoundary 200]) = some s ∧
      s.boot = .report ∧ s.sched.g.ticks = 201 ∧
      ¬ (s.sched.g.ticks = N_TICKS ∧ s.taken.length = 200) := by
  obtain ⟨s₀, s, hs₀, hrun, hdue, hpc, -⟩ := to_branch
  obtain ⟨s₁, hstep₁, hdue₁, hpc₁, hboot⟩ :=
    due_step hdue (by omega) (by rw [hpc]; exact BootPc.noConfusion)
  have hnow := quietBoundary_lt (k := 200) (by omega)
  obtain ⟨hstep₂, hdue₂, hrunning₂⟩ :=
    quiet_step hdue₁ (hboot (by omega)) hnow (quietBoundary 200).tick
  obtain ⟨hstep₃, hdue₃, -⟩ := quiet_step hdue₂ hrunning₂ hnow (quietBoundary 200).tick
  refine ⟨s₀, bootStep sampleCode (bootStep sampleCode s₁), hs₀, ?_, ?_, ?_, ?_⟩
  · rw [runAll_append, hrun]
    exact runAll_cons_eq_some.mpr ⟨_, hstep₁, runAll_cons_eq_some.mpr ⟨_, hstep₂,
      runAll_cons_eq_some.mpr ⟨_, hstep₃, rfl⟩⟩⟩
  · simp only [bootStep, hpc₁, hpc, sampleCode]
  · rw [hdue₃.timed.ticks, hdue₃.length]
    rfl
  · rintro ⟨-, hlength⟩
    rw [hdue₃.length] at hlength
    omega

end Preempt
end BareMetal
