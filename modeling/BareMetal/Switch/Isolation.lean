import BareMetal.Switch.Rotation

/-!
# Tasks that run as if they were alone

`Switch.Runs` lets interrupted code be anything.  Here the tasks have code: a
step function on registers, pc and memory, of which a slice executes as many
steps as fit before the next tick.

Code is `Confined` when it keeps to memory of its own and does not use `t1`,
the one register the switch code loses.  Whatever the ticks are, a confined
task then goes through exactly the states it goes through without any other
task and without interrupts (`runs_alone`): every state of the concurrent
system, seen through one task's own memory and registers, is a state of that
task alone, after as many steps as it was given.
-/

namespace BareMetal
namespace Switch

open Machine

/-! ## Code -/

/-- A task in execution. -/
structure Exec where
  snap : Snap
  mem : Mem

/-- Equal but for `t1` and the memory outside `own`. -/
structure Exec.Same (own : Word → Bool) (x y : Exec) : Prop where
  regs : ∀ r, r ≠ .t1 → x.snap.regs r = y.snap.regs r
  pc : x.snap.pc = y.snap.pc
  mem : ∀ a, own a = true → x.mem a = y.mem a

namespace Exec.Same

variable {own : Word → Bool} {x y z : Exec}

theorem trans (h : Exec.Same own x y) (h' : Exec.Same own y z) : Exec.Same own x z :=
  ⟨fun r hr => (h.regs r hr).trans (h'.regs r hr), h.pc.trans h'.pc,
    fun a ha => (h.mem a ha).trans (h'.mem a ha)⟩

/-- Memory that agrees on the task's own words is the same to it. -/
theorem of_mem (snap : Snap) {m m' : Mem} (h : ∀ a, own a = true → m a = m' a) :
    Exec.Same own ⟨snap, m⟩ ⟨snap, m'⟩ :=
  ⟨fun _ _ => rfl, rfl, h⟩

theorem jump (h : Exec.Same own x y) (pc : Word) :
    Exec.Same own ⟨⟨x.snap.regs, pc⟩, x.mem⟩ ⟨⟨y.snap.regs, pc⟩, y.mem⟩ :=
  ⟨h.regs, rfl, h.mem⟩

/-- The same value into a register. -/
theorem setReg (h : Exec.Same own x y) (r : Reg) (v pc : Word) :
    Exec.Same own ⟨⟨Function.update x.snap.regs r v, pc⟩, x.mem⟩
      ⟨⟨Function.update y.snap.regs r v, pc⟩, y.mem⟩ := by
  refine ⟨fun q hq => ?_, rfl, h.mem⟩
  by_cases hr : q = r
  · simp [hr]
  · simp [hr, h.regs q hq]

/-- The same value into a word. -/
theorem store (h : Exec.Same own x y) (a v pc : Word) :
    Exec.Same own ⟨⟨x.snap.regs, pc⟩, Function.update x.mem a v⟩
      ⟨⟨y.snap.regs, pc⟩, Function.update y.mem a v⟩ := by
  refine ⟨h.regs, rfl, fun b hb => ?_⟩
  by_cases hab : b = a
  · simp [hab]
  · simp [hab, h.mem b hb]

/-- What the switch code saves is the interrupted context, but for `t1`. -/
theorem saved (i : Interrupted) (m : Mem) : Exec.Same own ⟨i.saved, m⟩ ⟨i.snap, m⟩ :=
  ⟨fun r hr => by
    show Function.update i.snap.regs .t1 i.cycle r = i.snap.regs r
    rw [Function.update_of_ne hr], rfl, fun _ _ => rfl⟩

end Exec.Same

/-- One step of a task's code.  The first argument is what `tasks[current].fn`
reads as during the step, for the trampoline. -/
abbrev Code := Option Word → Exec → Exec

/-- Code that from `x₀` on stores to its own memory only, and for which neither
`t1` nor any other memory matters. -/
structure Code.Confined (own : Word → Bool) (code : Code) (fn : Option Word) (x₀ : Exec) :
    Prop where
  writes : ∀ {n y a}, Exec.Same own y ((code fn)^[n] x₀) → own a = false →
    (code fn y).mem a = y.mem a
  reads : ∀ {n y}, Exec.Same own y ((code fn)^[n] x₀) →
    Exec.Same own (code fn y) (code fn ((code fn)^[n] x₀))

/-- Confined code stays where it is from `x₀`, and leaves other memory alone. -/
theorem Code.Confined.iterate {own : Word → Bool} {code : Code} {fn : Option Word} {x₀ : Exec}
    (hcode : Code.Confined own code fn x₀) {k : Nat} {y : Exec}
    (h : Exec.Same own y ((code fn)^[k] x₀)) (n : Nat) :
    Exec.Same own ((code fn)^[n] y) ((code fn)^[k + n] x₀) ∧
      ∀ a, own a = false → ((code fn)^[n] y).mem a = y.mem a := by
  induction n with
  | zero => exact ⟨h, fun _ _ => rfl⟩
  | succ n ih =>
      obtain ⟨hsame, hother⟩ := ih
      rw [Function.iterate_succ_apply', ← Nat.add_assoc, Function.iterate_succ_apply']
      exact ⟨hcode.reads hsame, fun a ha => by rw [hcode.writes hsame ha, hother a ha]⟩

/-- The tasks of a scheduler: their code, and the memory each of them has to
itself (its stack and its statics). -/
structure Workload where
  own : Fin TASK_MAX → Word → Bool
  code : Fin TASK_MAX → Code

/-- The task in slot `i` alone, after `n` steps from its fresh context. -/
def Workload.alone (P : Workload) (L : Layout) (fn : Word) (m : Mem) (i : Fin TASK_MAX)
    (n : Nat) : Exec :=
  (P.code i (some fn))^[n] ⟨L.freshSnap i, m⟩

/-! ## Slices -/

variable {G E : Type*}

/-- A slice and the tick that ends it: the number of steps its task executes,
what the boot context does if it is the boot context's, what the counters read,
and what the compiled handler reads and leaves. -/
structure Slice (E : Type*) where
  steps : Nat
  boot : Exec
  entryTime : Word
  entryCycle : Word
  exitTime : Word
  exitCycle : Word
  env : E
  clobber : Reg → Word

/-- The system and, as a record the code does not read, the number of steps
each task has executed. -/
structure Counted (G : Type*) where
  sys : State G Ctx
  ran : Fin TASK_MAX → Nat

namespace Workload

variable (P : Workload) (V : View G)

/-- The running context `n` steps after it was resumed.  The boot context
leaves the tasks' memory alone. -/
def live (s : State G Ctx) (n : Nat) (boot : Exec) : Exec :=
  match s.running with
  | .task i =>
      (P.code i (trampolineFn (V.table s.g) (V.current s.g)))^[n]
        ⟨⟨s.hart.regs, s.hart.pc⟩, s.hart.mem⟩
  | .boot =>
      { boot with mem := fun a => if ∃ i, P.own i a = true then s.hart.mem a else boot.mem a }

/-- The tick at the end of a slice. -/
def tickOf (s : State G Ctx) (x : Slice E) : Tick E :=
  let y := P.live V s x.steps x.boot
  { regs := y.snap.regs
    pc := y.snap.pc
    mem := y.mem
    entryTime := x.entryTime
    entryCycle := x.entryCycle
    exitTime := x.exitTime
    exitCycle := x.exitCycle
    env := x.env
    clobber := x.clobber }

/-- One slice. -/
def slice (W : Switcher G Ctx E) (o : Counted G) (x : Slice E) : Option (Counted G) :=
  (W.tick o.sys (P.tickOf V o.sys x)).map fun s =>
    { sys := s
      ran := fun i => if o.sys.running = .task i then o.ran i + x.steps else o.ran i }

/-- What the tasks of the functions `fns` keep to: each has memory of its own,
which is neither that of another task nor `reserved`, and code that stays
within it. -/
structure Fits (L : Layout) (fns : List Word) (m : Mem) (reserved : Word → Prop) : Prop where
  confined : ∀ {i : Fin TASK_MAX} {fn}, fns[(i : Nat)]? = some fn →
    Code.Confined (P.own i) (P.code i) (some fn) ⟨L.freshSnap i, m⟩
  apart : ∀ {i j a}, P.own i a = true → P.own j a = true → i = j
  free : ∀ {i a}, P.own i a = true → ¬ reserved a

end Workload

/-- What the scheduler keeps to: outside the `reserved` words neither the
switch code nor the compiled handler stores anything. -/
structure Switcher.Spares (W : Switcher G Ctx E) (Ok : Hart → Prop)
    (reserved : Word → Prop) : Prop where
  kept : ∀ {a}, W.Kept a → reserved a
  handler : ∀ {g h e out}, Ok h → W.handler g h e = some out →
    ∀ a, ¬ reserved a → out.2.2.mem a = h.mem a

/-- What a tick does to `current`: it goes to the boot context, or it advances
`current` and resumes the task that then has this index. -/
structure Follows (V : View G) (g g' : G) (c : Ctx) : Prop where
  table : V.table g' = V.table g
  next : c = .boot ∨ nextTask (V.current g) (V.table g).nTasks = some (V.current g', c)

/-- The task `nextTask` resumes is the one `current` names. -/
theorem current_of_nextTask {current current' : Int} {n : Nat} {i : Fin TASK_MAX}
    (h : nextTask current n = some (current', .task i)) :
    current' = ((i : Nat) : Int) ∧ (i : Nat) < n := by
  rw [nextTask] at h
  split at h
  · cases h
  next hn =>
    obtain ⟨c, hc, heq⟩ := Option.map_eq_some_iff.mp h
    obtain ⟨hcur, rfl⟩ := Prod.mk.inj heq
    rw [taskAt] at hc
    split at hc
    next hin =>
      have hi : (current + 1).tmod n = ((i : Nat) : Int) := by
        obtain rfl := Ctx.task.inj (Option.some.inj hc)
        exact (Int.toNat_of_nonneg hin.1).symm
      have hpos : (0 : Int) < n := Int.natCast_pos.mpr (Nat.pos_of_ne_zero hn)
      have hlt : (current + 1).tmod n < n := Int.tmod_lt_of_pos _ hpos
      refine ⟨by rw [← hcur, hi], ?_⟩
      rw [hi] at hlt
      exact Int.ofNat_lt.mp hlt
    · cases hc

/-! ## One slice -/

section OneSlice

variable {P : Workload} {V : View G} {W : Switcher G Ctx E} {Ok : Hart → Prop}
variable {reserved : Word → Prop}

/-- A tick leaves a word that is not reserved as the interrupted code left it. -/
theorem tick_mem (hW : W.Lawful Ok) (hspares : W.Spares Ok reserved) {s s' : State G Ctx}
    {t : Tick E} (hok : Ok s.hart) (hscratch : s.hart.csr W.code.scratch = W.frame s.running)
    (htick : W.tick s t = some s') {a : Word} (ha : ¬ reserved a) :
    s'.hart.mem a = t.mem a := by
  obtain ⟨out, hout, -, -, hhart, -, -⟩ := W.tick_eq_some htick
  have hkept : ¬ W.Kept a := fun hk => ha (hspares.kept hk)
  have hlive : (W.live s.hart t).mem a = t.mem a := if_neg hkept
  -- the entry half stores to the frame `*scratch` points at
  have hentered : (W.entered s.hart t).mem a = (W.live s.hart t).mem a := by
    obtain ⟨-, -, -, hother, -, -⟩ :=
      entry_effect W.code ((W.trap (W.live s.hart t)).stamp t.entryTime t.entryCycle)
    have hf : ((W.trap (W.live s.hart t)).stamp t.entryTime t.entryCycle).csr W.code.scratch
        = W.frame s.running := by
      rw [Hart.stamp_csr, hW.trap_scratch]
      exact hscratch
    rw [hf] at hother
    calc (W.entered s.hart t).mem a
        = ((W.trap (W.live s.hart t)).stamp t.entryTime t.entryCycle).mem a :=
          hother a fun hin => hkept (Or.inl ⟨_, hin⟩)
      _ = (W.live s.hart t).mem a := by rw [Hart.stamp_mem, hW.trap_mem]
  -- the exit half stores the two exit stamps
  have hleft : (W.left out.2.2 out.2.1 t).mem a = out.2.2.mem a := by
    obtain ⟨hstored, -, -⟩ :=
      run_exit W.code ((out.2.2.callC t.clobber (W.frame out.2.1)).stamp t.exitTime t.exitCycle)
    have hne₁ : a ≠ W.code.exitMtime := fun h => hkept (Or.inr (Or.inr h))
    have hne₂ : a ≠ W.code.exitCycles := fun h => hkept (Or.inr (Or.inl h))
    rw [Switcher.left, hW.ret_mem, hstored, stampedMem, Function.update_of_ne hne₁,
      Function.update_of_ne hne₂, Hart.stamp_mem, Hart.callC_mem]
  rw [hhart, hleft, hspares.handler (entered_ok hW t hok) hout a ha, hentered, hlive]

/-- The tasks of a table and how far each of them has come: `current` names the
running task, and every task's saved context is that of the task alone. -/
structure Apart (P : Workload) (L : Layout) (V : View G) (fns : List Word) (m : Mem)
    (table : Table) (o : Counted G) : Prop where
  same : V.table o.sys.g = table
  current : ∀ {i}, o.sys.running = .task i →
    V.current o.sys.g = ((i : Nat) : Int) ∧ (i : Nat) < table.nTasks
  contexts : ∀ i : Fin TASK_MAX, (i : Nat) < table.nTasks →
    ∃ snap, held (L.fresh table.nTasks) o.sys.last (.task i) = some snap ∧
      Exec.Same (P.own i) ⟨snap, o.sys.hart.mem⟩ (P.alone L (table.fn i) m i (o.ran i))

/-- What a slice does: a tick, at which the running task has executed the
slice's steps. -/
theorem Workload.slice_eq_some {o o' : Counted G} {x : Slice E}
    (h : P.slice V W o x = some o') :
    W.tick o.sys (P.tickOf V o.sys x) = some o'.sys ∧
      ∀ i, o'.ran i = if o.sys.running = .task i then o.ran i + x.steps else o.ran i := by
  obtain ⟨s, hs, rfl⟩ := Option.map_eq_some_iff.mp h
  exact ⟨hs, fun _ => rfl⟩

variable {L : Layout} {fns : List Word} {m : Mem} {table : Table}

/-- The running task, `n` steps into its slice, is where it is alone, and no
other memory has changed. -/
theorem Apart.live (hP : P.Fits L fns m reserved) {o : Counted G}
    (hfns : ∀ i : Fin TASK_MAX, (i : Nat) < table.nTasks → fns[(i : Nat)]? = some (table.fn i))
    (ho : Apart P L V fns m table o) (hinv : Inv W Ok (L.fresh table.nTasks) o.sys)
    {i : Fin TASK_MAX} (hi : o.sys.running = .task i) (n : Nat) (boot : Exec) :
    Exec.Same (P.own i) (P.live V o.sys n boot)
        (P.alone L (table.fn i) m i (o.ran i + n)) ∧
      ∀ a, P.own i a = false → (P.live V o.sys n boot).mem a = o.sys.hart.mem a := by
  obtain ⟨hcur, hlt⟩ := ho.current hi
  obtain ⟨snap, hheld, hsame⟩ := ho.contexts i hlt
  have hfn : trampolineFn (V.table o.sys.g) (V.current o.sys.g) = some (table.fn i) := by
    rw [ho.same, hcur, trampolineFn_natCast]
  -- it was handed the context its frame held
  obtain ⟨hregs, hpc⟩ := hinv.handed (by rw [hi]; exact hheld)
  have hlive : P.live V o.sys n boot =
      (P.code i (some (table.fn i)))^[n] ⟨snap, o.sys.hart.mem⟩ := by
    simp only [Workload.live, hi, hfn, hregs, hpc]
  rw [hlive]
  exact (hP.confined (hfns i hlt)).iterate hsame n

/-- A slice of another context leaves a task's memory alone. -/
theorem Apart.live_mem (hP : P.Fits L fns m reserved) {o : Counted G}
    (hfns : ∀ i : Fin TASK_MAX, (i : Nat) < table.nTasks → fns[(i : Nat)]? = some (table.fn i))
    (ho : Apart P L V fns m table o) (hinv : Inv W Ok (L.fresh table.nTasks) o.sys)
    {i : Fin TASK_MAX} (hi : o.sys.running ≠ .task i) (n : Nat) (boot : Exec) {a : Word}
    (ha : P.own i a = true) : (P.live V o.sys n boot).mem a = o.sys.hart.mem a := by
  by_cases hboot : o.sys.running = .boot
  · simp only [Workload.live, hboot]
    exact if_pos ⟨i, ha⟩
  · obtain ⟨j, hj⟩ : ∃ j, o.sys.running = .task j := by
      cases hrun : o.sys.running with
      | boot => exact absurd hrun hboot
      | task j => exact ⟨j, rfl⟩
    have hother : P.own j a = false := by
      refine Bool.eq_false_iff.mpr fun hown => hi ?_
      rw [hj, hP.apart hown ha]
    exact (ho.live hP hfns hinv hj n boot).2 a hother

/-- One slice keeps every task where it is alone. -/
theorem Apart.slice (hW : W.Lawful Ok) (hspares : W.Spares Ok reserved)
    (hP : P.Fits L fns m reserved)
    (hfns : ∀ i : Fin TASK_MAX, (i : Nat) < table.nTasks → fns[(i : Nat)]? = some (table.fn i))
    (hfollows : ∀ {s t s'}, W.tick s t = some s' → Follows V s.g s'.g s'.running)
    {o o' : Counted G} {x : Slice E} (hinv : Inv W Ok (L.fresh table.nTasks) o.sys)
    (ho : Apart P L V fns m table o) (hslice : P.slice V W o x = some o') :
    Apart P L V fns m table o' := by
  obtain ⟨htick, hran⟩ := Workload.slice_eq_some hslice
  have hfollow := hfollows htick
  obtain ⟨-, -, -, -, -, hlast, -⟩ := W.tick_eq_some htick
  refine ⟨hfollow.table.trans ho.same, fun {i} hi => ?_, fun i hi => ?_⟩
  · rcases hfollow.next with hboot | hnext
    · rw [hboot] at hi
      cases hi
    · rw [hi, ho.same] at hnext
      exact current_of_nextTask hnext
  have hmem : ∀ a, P.own i a = true →
      o'.sys.hart.mem a = (P.live V o.sys x.steps x.boot).mem a :=
    fun a ha => tick_mem hW hspares hinv.ok hinv.scratch htick (hP.free ha)
  rw [hlast]
  by_cases hrunning : o.sys.running = .task i
  · -- the interrupted task: its context was saved, but for `t1`
    refine ⟨_, by rw [hrunning]; exact held_update_self _ _ _ _, ?_⟩
    have hcount : o'.ran i = o.ran i + x.steps := by
      rw [hran, if_pos hrunning]
    rw [hcount]
    refine Exec.Same.trans ?_ (ho.live hP hfns hinv hrunning x.steps x.boot).1
    exact (Exec.Same.of_mem _ hmem).trans (Exec.Same.saved _ _)
  · -- every other task: its frame and its memory are as they were
    obtain ⟨snap, hheld, hsame⟩ := ho.contexts i hi
    have hcount : o'.ran i = o.ran i := by
      rw [hran, if_neg hrunning]
    refine ⟨snap, by rw [held_update_of_ne _ _ (Ne.symm hrunning)]; exact hheld, ?_⟩
    rw [hcount]
    refine Exec.Same.trans (Exec.Same.of_mem snap fun a ha => ?_) hsame
    rw [hmem a ha, ho.live_mem hP hfns hinv hrunning x.steps x.boot ha]

end OneSlice

/-! ## Whole runs -/

section WholeRuns

variable {P : Workload} {V : View G} {W : Switcher G Ctx E} {Ok : Hart → Prop}
variable {reserved : Word → Prop} {L : Layout}

/-- Every task is where it would be without the others and without interrupts:
the running one at every point of its slice, and meanwhile the others, as their
frames and their memory have them. -/
structure AsAlone (P : Workload) (L : Layout) (V : View G) (fns : List Word) (m : Mem)
    (o : Counted G) : Prop where
  running : ∀ {i}, o.sys.running = .task i → ∃ fn, fns[(i : Nat)]? = some fn ∧
    ∀ n boot, Exec.Same (P.own i) (P.live V o.sys n boot) (P.alone L fn m i (o.ran i + n))
  waiting : ∀ {i : Fin TASK_MAX} {fn}, fns[(i : Nat)]? = some fn → o.sys.running ≠ .task i →
    ∃ snap, FrameHolds o.sys.hart.mem (L.frame (.task i)) snap ∧
      ∀ n boot, Exec.Same (P.own i) ⟨snap, (P.live V o.sys n boot).mem⟩
        (P.alone L fn m i (o.ran i))

/-- A freshly started scheduler, no task of which has executed anything. -/
def Counted.start (s : State G Ctx) : Counted G where
  sys := s
  ran := fun _ => 0

/-- Whatever the ticks, every task runs as if it were alone. -/
theorem runs_alone (hW : W.Lawful Ok) (hframe : W.frame = L.frame)
    (hspares : W.Spares Ok reserved)
    (hfollows : ∀ {s t s'}, W.tick s t = some s' → Follows V s.g s'.g s'.running)
    {fns : List Word} {m₀ : Mem} {s : State G Ctx} (hP : P.Fits L fns s.hart.mem reserved)
    (htable : V.table s.g = (L.createAll fns m₀).1)
    (hinv : Inv W Ok (L.fresh (V.table s.g).nTasks) s) (hboot : s.running = .boot)
    (hlast : ∀ c, s.last c = none) {xs : List (Slice E)} {o : Counted G}
    (hrun : runAll (P.slice V W) (Counted.start s) xs = some o) :
    AsAlone P L V fns s.hart.mem o := by
  generalize htab : V.table s.g = table at htable hinv
  obtain ⟨hlen, hfns⟩ := L.createAll_table fns m₀
  rw [← htable] at hlen hfns
  have hstart : Inv W Ok (L.fresh table.nTasks) s ∧
      Apart P L V fns s.hart.mem table (Counted.start s) := by
    refine ⟨hinv, htab, fun hi => ?_, fun i hi => ?_⟩
    · rw [Counted.start, hboot] at hi
      cases hi
    · refine ⟨L.freshSnap i, ?_, Exec.Same.of_mem _ fun _ _ => rfl⟩
      rw [held, Counted.start, hlast]
      exact Layout.fresh_eq_some.mpr ⟨i, rfl, hi, rfl⟩
  obtain ⟨hinv', hapart⟩ : Inv W Ok (L.fresh table.nTasks) o.sys ∧
      Apart P L V fns s.hart.mem table o := by
    refine runAll_invariant (I := fun o : Counted G => Inv W Ok (L.fresh table.nTasks) o.sys ∧
      Apart P L V fns s.hart.mem table o) (fun ho hslice => ?_) hstart hrun
    exact ⟨tick_inv hW ho.1 (Workload.slice_eq_some hslice).1,
      ho.2.slice hW hspares hP hfns hfollows ho.1 hslice⟩
  refine ⟨fun {i} hi => ?_, fun {i fn} hfn hi => ?_⟩
  · have hlt := (hapart.current hi).2
    exact ⟨table.fn i, hfns i hlt, fun n boot => (hapart.live hP hfns hinv' hi n boot).1⟩
  · have hlt : (i : Nat) < table.nTasks := by
      obtain ⟨hin, -⟩ := List.getElem?_eq_some_iff.mp hfn
      rw [hlen]
      exact lt_min hin i.isLt
    obtain ⟨snap, hheld, hsame⟩ := hapart.contexts i hlt
    obtain rfl : table.fn i = fn := Option.some.inj ((hfns i hlt).symm.trans hfn)
    refine ⟨snap, by rw [← hframe]; exact hinv'.frames hheld, fun n boot => ?_⟩
    exact (Exec.Same.of_mem snap fun a ha =>
      hapart.live_mem hP hfns hinv' hi n boot ha).trans hsame

/-- The memory a task has to itself, at any moment. -/
theorem AsAlone.mem {fns : List Word} {m : Mem} {o : Counted G} (ho : AsAlone P L V fns m o)
    {i : Fin TASK_MAX} {fn : Word} (hfn : fns[(i : Nat)]? = some fn) (n : Nat) (boot : Exec)
    {a : Word} (ha : P.own i a = true) :
    (P.live V o.sys n boot).mem a =
      (P.alone L fn m i (o.ran i + if o.sys.running = .task i then n else 0)).mem a := by
  by_cases hi : o.sys.running = .task i
  · obtain ⟨fn', hfn', hsame⟩ := ho.running hi
    obtain rfl : fn' = fn := Option.some.inj (hfn'.symm.trans hfn)
    rw [if_pos hi]
    exact (hsame n boot).mem a ha
  · obtain ⟨snap, -, hsame⟩ := ho.waiting hfn hi
    rw [if_neg hi]
    exact (hsame n boot).mem a ha

end WholeRuns

end Switch
end BareMetal
