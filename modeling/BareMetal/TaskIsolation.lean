import BareMetal.CurrentTask
import BareMetal.Switch.Isolation

/-!
# Preempted tasks run as if they were alone

`Switch.Isolation` for the two preemptive schedulers, `src/preempt/psched.c`
and `src/smode/ssched.c`.  A task that does not use `t1` and keeps to memory of
its own cannot tell that it is preempted, by which scheduler, at what moments,
or what the other tasks do (`tasks_run_as_alone`): at every moment it is where
it would be after as many steps of its own.
-/

namespace BareMetal
namespace TaskIsolation

open Machine Switch CurrentTask

/-! ## The two schedulers -/

/-- The words `trap.S` and `psched.c` store to. -/
def preemptReserved (L : Layout) (a : Word) : Prop :=
  (Preempt.switcher L).Kept a ∨ a = CLINT_MTIMECMP

/-- The words `strap.S` and `ssched.c` store to, the M-mode service included. -/
def smodeReserved (im : Smode.Image) (smode : Bool) (a : Word) : Prop :=
  (Smode.switcher im smode).Kept a ∨ a = CLINT_MTIMECMP ∨ InArea im.mFrame 4 a

theorem preempt_spares (L : Layout) :
    (Preempt.switcher L).Spares (Preempt.Installed L) (preemptReserved L) where
  kept := Or.inl
  handler := fun {g h e out} _ hout a ha => by
    obtain ⟨-, ⟨deadline, -, hhart⟩, -⟩ := Preempt.ptrapHandler_eq_some hout
    have hne : a ≠ CLINT_MTIMECMP := fun h => ha (Or.inr h)
    rw [hhart, Hart.store_mem, Function.update_of_ne hne]

/-- Programming a comparator stores to the compare register, and to the stack
of the M-mode service where that is asked to do it. -/
theorem program_mem {im : Smode.Image} (him : im.Separate) {smode useSstc : Bool} {h h' : Hart}
    {env : Smode.Env} {deadline : Word} (hok : Smode.Installed im smode h)
    (hprog : Smode.program im smode useSstc h env deadline = some h') {a : Word}
    (hcmp : a ≠ CLINT_MTIMECMP) (hframe : ¬ InArea im.mFrame 4 a) : h'.mem a = h.mem a := by
  cases smode with
  | false =>
      obtain rfl : h.store CLINT_MTIMECMP deadline = h' := Option.some.inj hprog
      rw [Hart.store_mem, Function.update_of_ne hcmp]
  | true =>
      cases useSstc with
      | true =>
          obtain rfl : h.setCsr .stimecmp deadline = h' := Option.some.inj hprog
          rfl
      | false =>
          have hcall : Smode.ecallRearm im h env deadline = some h' := hprog
          exact (Smode.ecallRearm_eq_some him (hok.service rfl) hcall).mem a hcmp hframe

theorem smode_spares {im : Smode.Image} (him : im.Separate) (smode : Bool) :
    (Smode.switcher im smode).Spares (Smode.Installed im smode) (smodeReserved im smode) where
  kept := Or.inl
  handler := fun {g h e out} hok hout a ha => by
    obtain ⟨-, ⟨deadline, hprog⟩, -⟩ := Smode.strapHandler_eq_some hout
    exact program_mem him hok hprog (fun h => ha (Or.inr (Or.inl h)))
      fun h => ha (Or.inr (Or.inr h))

theorem preempt_follows {L : Layout} {s s' : State Preempt.Globals Ctx} {t : Tick (List Word)}
    (htick : (Preempt.switcher L).tick s t = some s') :
    Follows preemptView s.g s'.g s'.running := by
  have hchosen := Preempt.tick_chosen htick
  refine ⟨hchosen.table, ?_⟩
  rcases hchosen.choice with ⟨-, -, hboot⟩ | ⟨-, hnext⟩
  · exact Or.inl hboot
  · exact Or.inr hnext

theorem smode_follows {im : Smode.Image} {smode : Bool} {s s' : State Smode.Globals Ctx}
    {t : Tick Smode.Env} (htick : (Smode.switcher im smode).tick s t = some s') :
    Follows smodeView s.g s'.g s'.running := by
  have hchosen := Smode.tick_chosen htick
  refine ⟨hchosen.table, ?_⟩
  rcases hchosen.choice with ⟨-, -, -, hboot⟩ | ⟨-, -, ⟨-, -, hboot⟩ | ⟨-, hnext⟩⟩
  · exact Or.inl hboot
  · exact Or.inl hboot
  · exact Or.inr hnext

/-! ## The result -/

theorem preempt_asAlone {L : Layout} (hL : L.Separate) {P : Workload} {fns : List Word}
    {h : Hart} {readings : List Word} {s : State Preempt.Globals Ctx}
    (hstart : Preempt.start L fns h readings = some s)
    (hP : P.Fits L fns s.hart.mem (preemptReserved L)) {xs : List (Slice (List Word))}
    {o : Counted Preempt.Globals}
    (hrun : runAll (P.slice preemptView (Preempt.switcher L)) (Counted.start s) xs = some o) :
    AsAlone P L preemptView fns s.hart.mem o := by
  obtain ⟨-, -, -, -, -, htable, -, -, hrunning, hlast, -⟩ := Preempt.start_eq_some hstart
  exact runs_alone (Preempt.lawful hL) rfl (preempt_spares L) preempt_follows hP htable
    (Preempt.start_inv hL hstart) hrunning hlast hrun

theorem smode_asAlone {im : Smode.Image} (him : im.Separate) {smode hasSstc : Bool}
    {P : Workload} {fns : List Word} {h : Hart} {env : Smode.Env} {s : State Smode.Globals Ctx}
    (hstart : Smode.start im smode hasSstc fns h env = some s)
    (hP : P.Fits im.toLayout fns s.hart.mem (smodeReserved im smode))
    {xs : List (Slice Smode.Env)} {o : Counted Smode.Globals}
    (hrun : runAll (P.slice smodeView (Smode.switcher im smode)) (Counted.start s) xs = some o) :
    AsAlone P im.toLayout smodeView fns s.hart.mem o := by
  have hst := Smode.start_eq_some him hstart
  exact runs_alone (Smode.lawful him smode) rfl (smode_spares him smode) smode_follows hP
    hst.table (Smode.start_inv him hstart) hst.running hst.last hrun

/-- In both schedulers, for any tasks that keep to themselves and any slices:
every task is at every moment where it is alone after the steps it was given. -/
theorem tasks_run_as_alone :
    (∀ (L : Layout), L.Separate → ∀ (P : Workload) (fns : List Word) (h : Hart)
        (readings : List Word) (s : State Preempt.Globals Ctx),
      Preempt.start L fns h readings = some s →
      P.Fits L fns s.hart.mem (preemptReserved L) →
      ∀ (xs : List (Slice (List Word))) (o : Counted Preempt.Globals),
      runAll (P.slice preemptView (Preempt.switcher L)) (Counted.start s) xs = some o →
      AsAlone P L preemptView fns s.hart.mem o) ∧
    (∀ (im : Smode.Image), im.Separate → ∀ (smode hasSstc : Bool) (P : Workload)
        (fns : List Word) (h : Hart) (env : Smode.Env) (s : State Smode.Globals Ctx),
      Smode.start im smode hasSstc fns h env = some s →
      P.Fits im.toLayout fns s.hart.mem (smodeReserved im smode) →
      ∀ (xs : List (Slice Smode.Env)) (o : Counted Smode.Globals),
      runAll (P.slice smodeView (Smode.switcher im smode)) (Counted.start s) xs = some o →
      AsAlone P im.toLayout smodeView fns s.hart.mem o) := by
  constructor
  · intro L hL P fns h readings s hstart hP xs o hrun
    exact preempt_asAlone hL hstart hP hrun
  · intro im him smode hasSstc P fns h env s hstart hP xs o hrun
    exact smode_asAlone him hstart hP hrun

/-! ## Starting a scheduler -/

/-- Creating tasks writes to trapframes only. -/
theorem createAll_mem (L : Layout) (fns : List Word) (m : Mem) {a : Word}
    (ha : ∀ c, ¬ InArea (L.frame c) TF_WORDS a) : (L.createAll fns m).2 a = m a := by
  unfold Layout.createAll
  induction fns using List.reverseRecOn with
  | nil => rfl
  | append_singleton fns fn ih =>
      rw [List.foldl_append, List.foldl_cons, List.foldl_nil, ← ih]
      unfold Layout.taskCreate
      split
      · exact L.initFrame_of_not_inArea _ _ (ha _)
      · rfl

theorem preempt_start_mem {L : Layout} {fns : List Word} {h : Hart} {readings : List Word}
    {s : State Preempt.Globals Ctx} (hstart : Preempt.start L fns h readings = some s) {a : Word}
    (ha : ¬ preemptReserved L a) : s.hart.mem a = h.mem a := by
  obtain ⟨deadline, -, hmem, -⟩ := Preempt.start_eq_some hstart
  have hcmp : a ≠ CLINT_MTIMECMP := fun h => ha (Or.inr h)
  rw [hmem, Function.update_of_ne hcmp, createAll_mem]
  exact fun c hin => ha (Or.inl (Or.inl ⟨c, hin⟩))

theorem schedInit_mem {im : Smode.Image} (him : im.Separate) {smode : Bool}
    {g : Smode.Globals} {h : Hart} {env : Smode.Env} {out : Smode.Globals × Hart}
    (hok : Smode.Installed im smode ((h.setCsr (Smode.tvecCsr smode) im.trapEntry).setCsr
      (Smode.scratchCsr smode) im.schedTf))
    (hinit : Smode.schedInit im smode g h env = some out) {a : Word} (hcmp : a ≠ CLINT_MTIMECMP)
    (hframe : ¬ InArea im.mFrame 4 a) : out.2.mem a = h.mem a := by
  obtain ⟨armed, harmed, rfl⟩ := Option.map_eq_some_iff.mp hinit
  obtain ⟨deadline, -, hmap⟩ := Option.bind_eq_some_iff.mp harmed
  obtain ⟨h', hprog, rfl⟩ := Option.map_eq_some_iff.mp hmap
  exact program_mem him hok hprog hcmp hframe

theorem mBoot_mem (im : Smode.Image) (hasSstc : Bool) (h : Hart) :
    (Smode.mBoot im hasSstc h).2.mem = Function.update h.mem CLINT_MTIMECMP (~~~ 0) := by
  simp only [Smode.mBoot]
  split
  · rfl
  · rfl

theorem smode_start_mem {im : Smode.Image} (him : im.Separate) {smode hasSstc : Bool}
    {fns : List Word} {h : Hart} {env : Smode.Env} {s : State Smode.Globals Ctx}
    (hstart : Smode.start im smode hasSstc fns h env = some s) {a : Word}
    (ha : ¬ smodeReserved im smode a) : s.hart.mem a = h.mem a := by
  have hcmp : a ≠ CLINT_MTIMECMP := fun h => ha (Or.inr (Or.inl h))
  have hboot : (Smode.bootOf im smode hasSstc h).2.mem a = h.mem a := by
    cases smode with
    | false => rfl
    | true =>
        show (Smode.mBoot im hasSstc h).2.mem a = h.mem a
        rw [mBoot_mem, Function.update_of_ne hcmp]
  obtain ⟨out, hout, rfl⟩ := Option.map_eq_some_iff.mp hstart
  have hinit := schedInit_mem him (Smode.installed_before_arm im smode hasSstc h _) hout hcmp
    fun h => ha (Or.inr (Or.inr h))
  dsimp only at hinit ⊢
  rw [hinit, createAll_mem _ _ _ fun c hin => ha (Or.inl (Or.inl ⟨c, hin⟩)), hboot]

/-! ## Slices go through -/

theorem preempt_slices_return {L : Layout} (hL : L.Separate) (P : Workload)
    {o : Counted Preempt.Globals} (ho : Preempt.Ready L o.sys) {xs : List (Slice (List Word))}
    (harm : ∀ x ∈ xs, (nextDeadline x.env).isSome) :
    ∃ o', runAll (P.slice preemptView (Preempt.switcher L)) o xs = some o' ∧
      Preempt.Ready L o'.sys := by
  refine runAll_returns (I := fun o : Counted Preempt.Globals => Preempt.Ready L o.sys)
    (P := fun x : Slice (List Word) => (nextDeadline x.env).isSome) (fun {o x} harm ho => ?_)
    harm ho
  obtain ⟨s', htick, hready⟩ := Preempt.tick_returns hL (t := P.tickOf preemptView o.sys x) ho harm
  exact ⟨_, by rw [Workload.slice, htick]; rfl, hready⟩

theorem smode_slices_return {im : Smode.Image} (him : im.Separate) {smode : Bool} (P : Workload)
    {o : Counted Smode.Globals} (ho : Smode.Ready im smode o.sys) {xs : List (Slice Smode.Env)}
    (harm : ∀ x ∈ xs, (nextDeadline x.env.readings).isSome) :
    ∃ o', runAll (P.slice smodeView (Smode.switcher im smode)) o xs = some o' ∧
      Smode.Ready im smode o'.sys := by
  refine runAll_returns (I := fun o : Counted Smode.Globals => Smode.Ready im smode o.sys)
    (P := fun x : Slice Smode.Env => (nextDeadline x.env.readings).isSome)
    (fun {o x} harm ho => ?_) harm ho
  obtain ⟨s', htick, hready⟩ := Smode.tick_returns him (t := P.tickOf smodeView o.sys x) ho harm
  exact ⟨_, by rw [Workload.slice, htick]; rfl, hready⟩

/-! ### Two tasks that count -/

/-- The word the task of slot `i` counts in. -/
def sampleWord (i : Fin TASK_MAX) : Word :=
  addr 0x80020000 (8 * i)

/-- The trampoline calls the task's function, which counts for ever. -/
def sampleCode (trampoline : Word) (i : Fin TASK_MAX) : Code := fun fn x =>
  if x.snap.pc = trampoline then { x with snap := ⟨x.snap.regs, fn.getD 0⟩ }
  else { x with mem := Function.update x.mem (sampleWord i) (x.mem (sampleWord i) + 1) }

def sampleWorkload (trampoline : Word) : Workload where
  own := fun i a => a == sampleWord i
  code := sampleCode trampoline

theorem sampleCode_confined (trampoline : Word) (i : Fin TASK_MAX) (fn : Option Word)
    (x₀ : Exec) :
    Code.Confined (fun a => a == sampleWord i) (sampleCode trampoline i) fn x₀ where
  writes := fun {n y a} _ ha => by
    have hne : a ≠ sampleWord i := by simpa using ha
    unfold sampleCode
    split
    · rfl
    · exact Function.update_of_ne hne _ _
  reads := fun {n y} hsame => by
    generalize ((sampleCode trampoline i fn)^[n] x₀) = x at hsame
    have hword : y.mem (sampleWord i) = x.mem (sampleWord i) := hsame.mem _ (by simp)
    unfold sampleCode
    rw [hsame.pc, hword]
    split
    · exact hsame.jump _
    · have hpc : y.snap = ⟨y.snap.regs, x.snap.pc⟩ := by rw [← hsame.pc]
      rw [hpc]
      exact hsame.store _ _ _

theorem sampleWorkload_fits (L : Layout) (fns : List Word) (m : Mem) {reserved : Word → Prop}
    (hfree : ∀ i, ¬ reserved (sampleWord i)) :
    (sampleWorkload L.trampoline).Fits L fns m reserved where
  confined := fun _ => sampleCode_confined L.trampoline _ _ _
  apart := fun {i j a} hi hj => by
    have hi : a = sampleWord i := by simpa [sampleWorkload] using hi
    have hj : a = sampleWord j := by simpa [sampleWorkload] using hj
    have hinj : ∀ i j, sampleWord i = sampleWord j → i = j := by decide
    exact hinj i j (hi.symm.trans hj)
  free := fun {i a} ha => by
    obtain rfl : a = sampleWord i := by simpa [sampleWorkload] using ha
    exact hfree i

/-- A slice of `n` steps that the counters end at `time`. -/
def sampleSlice {E : Type*} (n : Nat) (time : Word) (env : E) : Slice E where
  steps := n
  boot := ⟨⟨fun _ => 0, 0x80000500⟩, fun _ => 0⟩
  entryTime := time
  entryCycle := time
  exitTime := time + 4
  exitCycle := time + 90
  env := env
  clobber := fun _ => 0

def preemptSlices : List (Slice (List Word)) :=
  [sampleSlice 0 10002 [1, 2], sampleSlice 5 20002 [1, 2], sampleSlice 7 30002 [1, 2]]

def smodeSlices : List (Slice Smode.Env) :=
  [sampleSlice 0 10002 (Smode.sampleEnv 1 2), sampleSlice 5 20002 (Smode.sampleEnv 1 2)]

/-- Two tasks and a few slices, in both schedulers. -/
theorem two_tasks_run_as_alone :
    (∃ s o, Preempt.start Preempt.sampleLayout [0x80000600, 0x80000700] Preempt.sampleHart
          [0, 1] = some s ∧
        runAll ((sampleWorkload 0x80000400).slice preemptView
          (Preempt.switcher Preempt.sampleLayout)) (Counted.start s) preemptSlices = some o ∧
        AsAlone (sampleWorkload 0x80000400) Preempt.sampleLayout preemptView
          [0x80000600, 0x80000700] s.hart.mem o) ∧
      ∃ s o, Smode.start Smode.sampleImage true false [0x80000600, 0x80000700]
          Smode.sampleHart (Smode.sampleEnv 0 1) = some s ∧
        runAll ((sampleWorkload 0x80000400).slice smodeView
          (Smode.switcher Smode.sampleImage true)) (Counted.start s) smodeSlices = some o ∧
        AsAlone (sampleWorkload 0x80000400) Smode.sampleImage.toLayout smodeView
          [0x80000600, 0x80000700] s.hart.mem o := by
  have hfns : [(0x80000600 : Word), 0x80000700] ≠ [] := List.cons_ne_nil _ _
  constructor
  · have hL := Preempt.sampleLayout_separate
    have harm : (nextDeadline [0, 1]).isSome := by decide
    obtain ⟨s, hstart, hready⟩ := Preempt.start_returns hL hfns Preempt.sampleHart harm
    have hslices : ∀ x ∈ preemptSlices, (nextDeadline x.env).isSome := by decide
    obtain ⟨o, hrun, -⟩ :=
      preempt_slices_return hL (sampleWorkload 0x80000400) (o := Counted.start s) hready hslices
    have hfree : ∀ i, ¬ preemptReserved Preempt.sampleLayout (sampleWord i) := by
      unfold preemptReserved
      decide +kernel
    exact ⟨s, o, hstart, hrun, tasks_run_as_alone.1 _ hL _ _ _ _ _ hstart
      (sampleWorkload_fits Preempt.sampleLayout _ _ hfree) _ _ hrun⟩
  · have him := Smode.sampleImage_separate
    have harm : (nextDeadline (Smode.sampleEnv 0 1).readings).isSome := by decide
    obtain ⟨s, hstart, hready⟩ := Smode.start_returns him true false hfns Smode.sampleHart harm
    have hslices : ∀ x ∈ smodeSlices, (nextDeadline x.env.readings).isSome := by decide
    obtain ⟨o, hrun, -⟩ :=
      smode_slices_return him (sampleWorkload 0x80000400) (o := Counted.start s) hready hslices
    have hfree : ∀ i, ¬ smodeReserved Smode.sampleImage true (sampleWord i) := by
      unfold smodeReserved
      decide +kernel
    exact ⟨s, o, hstart, hrun, tasks_run_as_alone.2 _ him _ _ _ _ _ _ _ hstart
      (sampleWorkload_fits Smode.sampleImage.toLayout _ _ hfree) _ _ hrun⟩

end TaskIsolation
end BareMetal
