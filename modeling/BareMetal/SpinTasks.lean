import BareMetal.TaskIsolation

/-!
# The spin tasks lose no step

The tasks of `src/preempt/ptasks.c` and `src/smode/stasks.c` never yield: each
advances a linear congruential sequence and then a counter, for ever.  Both
variables are volatile, so every read and every write of them is a step of its
own, and a tick can fall between any two (`Spin.next`).

Compiled code that takes these steps one after the other (`Implements`) and
keeps to its own memory counts right under both schedulers: at every moment of
every run the sequence has advanced exactly as often as the counter says, or
once more (`spin_tasks_keep_count`).
-/

namespace BareMetal
namespace SpinTasks

open Machine Switch CurrentTask TaskIsolation

/-! ## The C code -/

/-- A spin task: the step of its sequence and the initial value. -/
structure Spin where
  mul : Word
  add : Word
  seed : Word

def ptaskA : Spin := ⟨6364136223846793005, 1442695040888963407, 1⟩
def ptaskB : Spin := ⟨2862933555777941757, 3037000493, 2⟩
def ptaskC : Spin := ⟨1597334677, 1013904223, 3⟩

/-- The tasks in the order of `ptasks_register` and `stasks_register`. -/
def ptasks : Fin TASK_MAX → Spin
  | 0 => ptaskA
  | 1 => ptaskB
  | 2 => ptaskC

/-- Where the loop is, with the value the next write stores. -/
inductive Point
  | loadState
  | storeState (v : Word)
  | loadIters
  | storeIters (v : Word)

/-- The volatile variables of a task and its place in the loop. -/
structure Vars where
  point : Point
  state : Word
  iters : Word

/-- The right-hand side of the assignment to `state`. -/
def Spin.lcg (p : Spin) (x : Word) : Word :=
  x * p.mul + p.add

/-- The next access to a volatile variable. -/
def Spin.next (p : Spin) (v : Vars) : Vars :=
  match v.point with
  | .loadState => { v with point := .storeState (p.lcg v.state) }
  | .storeState x => { v with state := x, point := .loadIters }
  | .loadIters => { v with point := .storeIters (v.iters + 1) }
  | .storeIters x => { v with iters := x, point := .loadState }

/-- The static initialisers. -/
def Spin.init (p : Spin) : Vars :=
  ⟨.loadState, p.seed, 0⟩

/-- `k` complete rounds of the loop. -/
theorem Spin.next_rounds (p : Spin) (k : Nat) :
    p.next^[4 * k] p.init = ⟨.loadState, p.lcg^[k] p.seed, BitVec.ofNat 64 k⟩ := by
  induction k with
  | zero => rfl
  | succ k ih =>
      rw [show 4 * (k + 1) = 4 + 4 * k by ring, Function.iterate_add_apply, ih,
        Function.iterate_succ_apply' p.lcg, BitVec.ofNat_add]
      rfl

/-- The counter stands at `k`, and the sequence there or one step ahead. -/
structure Spin.Counts (p : Spin) (k : Nat) (state iters : Word) : Prop where
  iters : iters = BitVec.ofNat 64 k
  state : state = p.lcg^[k] p.seed ∨ state = p.lcg^[k + 1] p.seed

/-- Between any two accesses the counter is right. -/
theorem Spin.counts (p : Spin) (n : Nat) :
    p.Counts (n / 4) (p.next^[n] p.init).state (p.next^[n] p.init).iters := by
  obtain ⟨k, r, hr, rfl⟩ : ∃ k r, r < 4 ∧ n = r + 4 * k :=
    ⟨n / 4, n % 4, Nat.mod_lt n (by decide), (Nat.mod_add_div n 4).symm⟩
  rw [show (r + 4 * k) / 4 = k by omega, Function.iterate_add_apply, p.next_rounds k]
  have hstep : p.lcg^[k + 1] p.seed = p.lcg (p.lcg^[k] p.seed) := Function.iterate_succ_apply' ..
  match r, hr with
  | 0, _ => exact ⟨rfl, Or.inl rfl⟩
  | 1, _ => exact ⟨rfl, Or.inl rfl⟩
  | 2, _ => exact ⟨rfl, Or.inr hstep.symm⟩
  | 3, _ => exact ⟨rfl, Or.inr hstep.symm⟩

/-! ## Compiled code -/

/-- Code that from `x₀` on performs the accesses of a task in order, on these
two words, with at most `slack` other instructions before each. -/
def Implements (p : Spin) (stateAt itersAt : Word) (slack : Nat) (step : Exec → Exec)
    (x₀ : Exec) : Prop :=
  ∃ R : Nat → Exec → Vars → Prop, Tracks step p.next slack R ∧ (∃ k ≤ slack, R k x₀ p.init) ∧
    ∀ {k x v}, R k x v → x.mem stateAt = v.state ∧ x.mem itersAt = v.iters

/-- After `n` instructions the counter is right, and has counted at least one
round for every `4 * (slack + 1)` of them. -/
theorem Implements.counts {p : Spin} {stateAt itersAt : Word} {slack : Nat}
    {step : Exec → Exec} {x₀ : Exec} (h : Implements p stateAt itersAt slack step x₀) (n : Nat) :
    ∃ k, n / (4 * (slack + 1)) ≤ k ∧ k ≤ n ∧
      p.Counts k ((step^[n] x₀).mem stateAt) ((step^[n] x₀).mem itersAt) := by
  obtain ⟨R, htracks, ⟨k, hk, hR⟩, hmem⟩ := h
  obtain ⟨j, m, hrel, hle, hbound⟩ := htracks.iterate hk hR n
  obtain ⟨hstate, hiters⟩ := hmem hrel
  refine ⟨m / 4, ?_, (Nat.div_le_self m 4).trans hle, ?_⟩
  · rw [Nat.mul_comm, ← Nat.div_div_eq_div_mul]
    refine Nat.div_le_div_right (Nat.lt_succ_iff.mp ?_)
    rw [Nat.div_lt_iff_lt_mul (show 0 < slack + 1 by omega), Nat.succ_mul]
    omega
  · rw [hstate, hiters]
    exact p.counts m

/-! ## The tasks under a scheduler -/

/-- Where the linker put the task functions and their variables. -/
structure Image where
  fn : Fin TASK_MAX → Word
  stateAt : Fin TASK_MAX → Word
  itersAt : Fin TASK_MAX → Word

/-- The functions `ptasks_register` and `stasks_register` create tasks of. -/
def Image.fns (q : Image) : List Word :=
  List.ofFn q.fn

theorem Image.fns_getElem? (q : Image) (i : Fin TASK_MAX) :
    q.fns[(i : Nat)]? = some (q.fn i) := by
  rw [Image.fns, List.getElem?_ofFn, dif_pos i.isLt]

/-- Each task has its variables in its own memory and its loop as its code. -/
structure Spinning (P : Workload) (L : Layout) (q : Image) (slack : Nat) (m : Mem) : Prop where
  state : ∀ i, P.own i (q.stateAt i) = true
  iters : ∀ i, P.own i (q.itersAt i) = true
  code : ∀ i, Implements (ptasks i) (q.stateAt i) (q.itersAt i) slack
    (P.code i (some (q.fn i))) ⟨L.freshSnap i, m⟩

section Scheduler

variable {G E : Type*}

/-- `n` steps into the current slice the counters of all tasks are right. -/
def KeepsCount (P : Workload) (V : View G) (q : Image) (slack : Nat) (o : Counted G) : Prop :=
  ∀ (n : Nat) (boot : Exec) (i : Fin TASK_MAX),
    let steps := o.ran i + if o.sys.running = .task i then n else 0
    let m := (P.live V o.sys n boot).mem
    ∃ k, steps / (4 * (slack + 1)) ≤ k ∧ k ≤ steps ∧
      (ptasks i).Counts k (m (q.stateAt i)) (m (q.itersAt i))

theorem keepsCount {P : Workload} {L : Layout} {V : View G} {q : Image} {slack : Nat} {m : Mem}
    {o : Counted G} (hspin : Spinning P L q slack m) (ho : AsAlone P L V q.fns m o) :
    KeepsCount P V q slack o := by
  intro n boot i
  have hfn := q.fns_getElem? i
  dsimp only
  rw [ho.mem hfn n boot (hspin.state i), ho.mem hfn n boot (hspin.iters i)]
  exact (hspin.code i).counts _

end Scheduler

/-- In both schedulers, whatever the slices: at every moment every task has
advanced its sequence exactly as often as its counter says, or once more, and
the counter follows the instructions the task was given. -/
theorem spin_tasks_keep_count :
    (∀ (L : Layout), L.Separate → ∀ (P : Workload) (q : Image) (slack : Nat) (h : Hart)
        (readings : List Word) (s : State Preempt.Globals Ctx),
      Preempt.start L q.fns h readings = some s →
      P.Fits L q.fns s.hart.mem (preemptReserved L) → Spinning P L q slack s.hart.mem →
      ∀ (xs : List (Slice (List Word))) (o : Counted Preempt.Globals),
      runAll (P.slice preemptView (Preempt.switcher L)) (Counted.start s) xs = some o →
      KeepsCount P preemptView q slack o) ∧
    (∀ (im : Smode.Image), im.Separate → ∀ (smode hasSstc : Bool) (P : Workload) (q : Image)
        (slack : Nat) (h : Hart) (env : Smode.Env) (s : State Smode.Globals Ctx),
      Smode.start im smode hasSstc q.fns h env = some s →
      P.Fits im.toLayout q.fns s.hart.mem (smodeReserved im smode) →
      Spinning P im.toLayout q slack s.hart.mem →
      ∀ (xs : List (Slice Smode.Env)) (o : Counted Smode.Globals),
      runAll (P.slice smodeView (Smode.switcher im smode)) (Counted.start s) xs = some o →
      KeepsCount P smodeView q slack o) := by
  constructor
  · intro L hL P q slack h readings s hstart hP hspin xs o hrun
    exact keepsCount hspin (preempt_asAlone hL hstart hP hrun)
  · intro im him smode hasSstc P q slack h env s hstart hP hspin xs o hrun
    exact keepsCount hspin (smode_asAlone him hstart hP hrun)

/-! ### A compiled loop -/

/-- Where the sample task of slot `i` starts. -/
def sampleFn (i : Fin TASK_MAX) : Word :=
  addr 0x80000600 (64 * i)

def sampleImage : Image where
  fn := sampleFn
  stateAt := fun i => addr 0x80020000 (8 * i)
  itersAt := fun i => addr 0x80020100 (8 * i)

/-- The trampoline, and the loop compiled with `a5` for the value to store. -/
def sampleCode (i : Fin TASK_MAX) : Code := fun fn x =>
  if x.snap.pc = 0x80000400 then { x with snap := ⟨x.snap.regs, fn.getD 0⟩ }
  else if x.snap.pc = sampleFn i then
    { x with snap := ⟨Function.update x.snap.regs .a5
        ((ptasks i).lcg (x.mem (sampleImage.stateAt i))), sampleFn i + 16⟩ }
  else if x.snap.pc = sampleFn i + 16 then
    { snap := ⟨x.snap.regs, sampleFn i + 24⟩
      mem := Function.update x.mem (sampleImage.stateAt i) (x.snap.regs .a5) }
  else if x.snap.pc = sampleFn i + 24 then
    { x with snap := ⟨Function.update x.snap.regs .a5
        (x.mem (sampleImage.itersAt i) + 1), sampleFn i + 32⟩ }
  else if x.snap.pc = sampleFn i + 32 then
    { snap := ⟨x.snap.regs, sampleFn i⟩
      mem := Function.update x.mem (sampleImage.itersAt i) (x.snap.regs .a5) }
  else x

def sampleWorkload : Workload where
  own := fun i a => a == sampleImage.stateAt i || a == sampleImage.itersAt i
  code := sampleCode

/-- The place of the compiled loop before each access, and what `a5` holds. -/
def samplePlace (i : Fin TASK_MAX) (k : Nat) (pc a5 : Word) : Point → Prop
  | .loadState => (pc = 0x80000400 ∧ k = 1) ∨ pc = sampleFn i
  | .storeState v => pc = sampleFn i + 16 ∧ a5 = v
  | .loadIters => pc = sampleFn i + 24
  | .storeIters v => pc = sampleFn i + 32 ∧ a5 = v

theorem samplePlaces_distinct : ∀ i : Fin TASK_MAX,
    sampleFn i ≠ 0x80000400 ∧ sampleFn i + 16 ≠ 0x80000400 ∧ sampleFn i + 16 ≠ sampleFn i ∧
      sampleFn i + 24 ≠ 0x80000400 ∧ sampleFn i + 24 ≠ sampleFn i ∧
      sampleFn i + 24 ≠ sampleFn i + 16 ∧ sampleFn i + 32 ≠ 0x80000400 ∧
      sampleFn i + 32 ≠ sampleFn i ∧ sampleFn i + 32 ≠ sampleFn i + 16 ∧
      sampleFn i + 32 ≠ sampleFn i + 24 := by
  decide

theorem sampleWords_distinct : ∀ i j : Fin TASK_MAX,
    sampleImage.stateAt i ≠ sampleImage.itersAt j ∧
      (sampleImage.stateAt i = sampleImage.stateAt j → i = j) ∧
      (sampleImage.itersAt i = sampleImage.itersAt j → i = j) := by
  decide

theorem sampleCode_implements (i : Fin TASK_MAX) {x₀ : Exec}
    (hpc : x₀.snap.pc = 0x80000400) (hstate : x₀.mem (sampleImage.stateAt i) = (ptasks i).seed)
    (hiters : x₀.mem (sampleImage.itersAt i) = 0) :
    Implements (ptasks i) (sampleImage.stateAt i) (sampleImage.itersAt i) 1
      (sampleCode i (some (sampleFn i))) x₀ := by
  refine ⟨fun k x v => samplePlace i k x.snap.pc (x.snap.regs .a5) v.point ∧
    x.mem (sampleImage.stateAt i) = v.state ∧ x.mem (sampleImage.itersAt i) = v.iters,
    ⟨fun {k x v} hR => ?_⟩, ⟨1, le_refl 1, Or.inl ⟨hpc, rfl⟩, hstate, hiters⟩, fun hR => hR.2⟩
  obtain ⟨hplace, hst, hit⟩ := hR
  have hpcs := samplePlaces_distinct i
  have hne := (sampleWords_distinct i i).1
  obtain ⟨point, st, it⟩ := v
  cases point with
  | loadState =>
      rcases hplace with ⟨hx, rfl⟩ | hx
      · exact Or.inr ⟨0, by decide, by simp [sampleCode, samplePlace, hx, hst, hit]⟩
      · exact Or.inl (by simp_all [sampleCode, samplePlace, Spin.next])
  | storeState a => exact Or.inl (by simp_all [sampleCode, samplePlace, Spin.next, hne.symm])
  | loadIters => exact Or.inl (by simp_all [sampleCode, samplePlace, Spin.next])
  | storeIters a => exact Or.inl (by simp_all [sampleCode, samplePlace, Spin.next])

theorem sampleCode_confined (i : Fin TASK_MAX) (fn : Option Word) (x₀ : Exec) :
    Code.Confined (sampleWorkload.own i) (sampleCode i) fn x₀ where
  writes := fun {n y a} _ ha => by
    have hne : a ≠ sampleImage.stateAt i ∧ a ≠ sampleImage.itersAt i := by
      simpa [sampleWorkload] using ha
    unfold sampleCode
    split_ifs <;> simp [Function.update_of_ne hne.1, Function.update_of_ne hne.2]
  reads := fun {n y} hsame => by
    generalize (sampleCode i fn)^[n] x₀ = x at hsame
    have ha5 : y.snap.regs .a5 = x.snap.regs .a5 := hsame.regs .a5 (by decide)
    have hst := hsame.mem (sampleImage.stateAt i) (by simp [sampleWorkload])
    have hit := hsame.mem (sampleImage.itersAt i) (by simp [sampleWorkload])
    unfold sampleCode
    rw [hsame.pc, ha5, hst, hit]
    split_ifs
    · exact hsame.jump _
    · exact hsame.setReg _ _ _
    · exact hsame.store _ _ _
    · exact hsame.setReg _ _ _
    · exact hsame.store _ _ _
    · exact hsame

theorem sampleWorkload_fits (L : Layout) (m : Mem) {reserved : Word → Prop}
    (hstate : ∀ i, ¬ reserved (sampleImage.stateAt i))
    (hiters : ∀ i, ¬ reserved (sampleImage.itersAt i)) :
    sampleWorkload.Fits L sampleImage.fns m reserved where
  confined := fun _ => sampleCode_confined _ _ _
  apart := fun {i j a} hi hj => by
    have hi : a = sampleImage.stateAt i ∨ a = sampleImage.itersAt i := by
      simpa [sampleWorkload] using hi
    have hj : a = sampleImage.stateAt j ∨ a = sampleImage.itersAt j := by
      simpa [sampleWorkload] using hj
    rcases hi with rfl | rfl
    · rcases hj with hj | hj
      · exact (sampleWords_distinct i j).2.1 hj
      · exact absurd hj (sampleWords_distinct i j).1
    · rcases hj with hj | hj
      · exact absurd hj.symm (sampleWords_distinct j i).1
      · exact (sampleWords_distinct i j).2.2 hj
  free := fun {i a} ha => by
    have ha : a = sampleImage.stateAt i ∨ a = sampleImage.itersAt i := by
      simpa [sampleWorkload] using ha
    rcases ha with rfl | rfl
    · exact hstate i
    · exact hiters i

/-- The statics before `main`. -/
def sampleMem : Mem :=
  Function.update (Function.update (Function.update (fun _ => 0)
    (sampleImage.stateAt 0) 1) (sampleImage.stateAt 1) 2) (sampleImage.stateAt 2) 3

theorem sampleMem_init : (∀ i, sampleMem (sampleImage.stateAt i) = (ptasks i).seed) ∧
    ∀ i, sampleMem (sampleImage.itersAt i) = 0 := by
  decide

theorem sampleWorkload_spinning {L : Layout} (htramp : L.trampoline = 0x80000400) {m : Mem}
    (hstate : ∀ i, m (sampleImage.stateAt i) = (ptasks i).seed)
    (hiters : ∀ i, m (sampleImage.itersAt i) = 0) :
    Spinning sampleWorkload L sampleImage 1 m where
  state := fun i => by simp [sampleWorkload]
  iters := fun i => by simp [sampleWorkload]
  code := fun i => sampleCode_implements i htramp (hstate i) (hiters i)

/-- The three tasks and a few slices, in both schedulers. -/
theorem three_tasks_keep_count :
    (∃ s o, Preempt.start Preempt.sampleLayout sampleImage.fns
          { Preempt.sampleHart with mem := sampleMem } [0, 1] = some s ∧
        runAll (sampleWorkload.slice preemptView (Preempt.switcher Preempt.sampleLayout))
          (Counted.start s) preemptSlices = some o ∧
        KeepsCount sampleWorkload preemptView sampleImage 1 o) ∧
      ∃ s o, Smode.start Smode.sampleImage true false sampleImage.fns
          { Smode.sampleHart with mem := sampleMem } (Smode.sampleEnv 0 1) = some s ∧
        runAll (sampleWorkload.slice smodeView (Smode.switcher Smode.sampleImage true))
          (Counted.start s) smodeSlices = some o ∧
        KeepsCount sampleWorkload smodeView sampleImage 1 o := by
  have hfns : sampleImage.fns ≠ [] := by decide
  constructor
  · have hL := Preempt.sampleLayout_separate
    have harm : (nextDeadline [0, 1]).isSome := by decide
    obtain ⟨s, hstart, hready⟩ :=
      Preempt.start_returns hL hfns { Preempt.sampleHart with mem := sampleMem } harm
    have hslices : ∀ x ∈ preemptSlices, (nextDeadline x.env).isSome := by decide
    obtain ⟨o, hrun, -⟩ :=
      preempt_slices_return hL sampleWorkload (o := Counted.start s) hready hslices
    have hfree : (∀ i, ¬ preemptReserved Preempt.sampleLayout (sampleImage.stateAt i)) ∧
        ∀ i, ¬ preemptReserved Preempt.sampleLayout (sampleImage.itersAt i) := by
      unfold preemptReserved
      decide +kernel
    refine ⟨s, o, hstart, hrun, spin_tasks_keep_count.1 _ hL _ _ 1 _ _ _ hstart
      (sampleWorkload_fits _ _ hfree.1 hfree.2) (sampleWorkload_spinning rfl ?_ ?_) _ _ hrun⟩
    · intro i
      rw [preempt_start_mem hstart (hfree.1 i)]
      exact sampleMem_init.1 i
    · intro i
      rw [preempt_start_mem hstart (hfree.2 i)]
      exact sampleMem_init.2 i
  · have him := Smode.sampleImage_separate
    have harm : (nextDeadline (Smode.sampleEnv 0 1).readings).isSome := by decide
    obtain ⟨s, hstart, hready⟩ := Smode.start_returns him true false hfns
      { Smode.sampleHart with mem := sampleMem } harm
    have hslices : ∀ x ∈ smodeSlices, (nextDeadline x.env.readings).isSome := by decide
    obtain ⟨o, hrun, -⟩ :=
      smode_slices_return him sampleWorkload (o := Counted.start s) hready hslices
    have hfree : (∀ i, ¬ smodeReserved Smode.sampleImage true (sampleImage.stateAt i)) ∧
        ∀ i, ¬ smodeReserved Smode.sampleImage true (sampleImage.itersAt i) := by
      unfold smodeReserved
      decide +kernel
    refine ⟨s, o, hstart, hrun, spin_tasks_keep_count.2 _ him _ _ _ _ 1 _ _ _ hstart
      (sampleWorkload_fits _ _ hfree.1 hfree.2) (sampleWorkload_spinning rfl ?_ ?_) _ _ hrun⟩
    · intro i
      rw [smode_start_mem him hstart (hfree.1 i)]
      exact sampleMem_init.1 i
    · intro i
      rw [smode_start_mem him hstart (hfree.2 i)]
      exact sampleMem_init.2 i

end SpinTasks
end BareMetal
