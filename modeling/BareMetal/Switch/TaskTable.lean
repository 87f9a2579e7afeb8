import BareMetal.Switch.Runs

/-!
# The task table of the preemptive schedulers

`src/preempt/psched.c` and `src/smode/ssched.c` keep the same table: a static
array of at most three tasks with the trapframe in front, a boot trapframe
beside it, and the index `current` of the running task.  They fill it with the
same code, advance `current` with the same line and compute the next timer
deadline with the same loop.

A task is `trapframe (280) | padding (8) | stack (4096) | fn (8) | name (8)`,
aligned to 16 bytes, hence 4400 bytes long.
-/

namespace BareMetal
namespace Switch

open Machine

/-- `PTASK_MAX` and `STASK_MAX`. -/
def TASK_MAX : Nat := 3

instance : NeZero TASK_MAX :=
  ⟨by decide⟩

/-- `PSTACK_SIZE` and `SSTACK_SIZE`. -/
def STACK_SIZE : Nat := 4096

/-- Byte offset of the stack in a task, behind the frame and its padding. -/
def STACK_OFF : Nat := 288

/-- `sizeof(ptask_t)` and `sizeof(stask_t)`. -/
def TASK_SIZE : Nat := 4400

/-- `QUANTUM_TICKS`. -/
def QUANTUM_TICKS : Word := 10000

/-- `N_TICKS`. -/
def N_TICKS : Word := 200

/-- The machine timer's compare register of hart 0. -/
def CLINT_MTIMECMP : Word := 0x02004000

/-- The contexts of a scheduler: the boot context and the task slots. -/
inductive Ctx
  | boot
  | task (i : Fin TASK_MAX)
  deriving DecidableEq, Repr, Fintype

/-- Where the linker put the objects the scheduler and its trap code share. -/
structure Layout where
  tasks : Word
  schedTf : Word
  exitCycles : Word
  exitMtime : Word
  stackTop : Word
  trapEntry : Word
  trampoline : Word

namespace Layout

variable (L : Layout)

/-- The trapframe of a context. -/
def frame : Ctx → Word
  | .boot => L.schedTf
  | .task i => addr L.tasks (TASK_SIZE * i)

/-- The switch code on this layout, for the given trap registers. -/
def switchCode (scratch epc : Csr) (h : scratch ≠ epc) : SwitchCode where
  scratch := scratch
  epc := epc
  stackTop := L.stackTop
  exitCycles := L.exitCycles
  exitMtime := L.exitMtime
  scratch_ne_epc := h

/-- The objects do not overlap, and the trap vector is aligned. -/
structure Separate : Prop where
  sched : ∀ i k, k < TF_WORDS → ¬ InArea (L.frame (.task i)) TF_WORDS (addr L.schedTf (8 * k))
  exitCycles : ∀ c, ¬ InArea (L.frame c) TF_WORDS L.exitCycles
  exitMtime : ∀ c, ¬ InArea (L.frame c) TF_WORDS L.exitMtime
  mtimecmp : ∀ c, ¬ InArea (L.frame c) TF_WORDS CLINT_MTIMECMP
  aligned : L.trapEntry &&& 3#64 = 0#64

variable {L}

/-- The frames of different contexts share no word. -/
theorem Separate.frames (hL : L.Separate) {c c' : Ctx} {a : Word}
    (ha : InArea (L.frame c) TF_WORDS a) (ha' : InArea (L.frame c') TF_WORDS a) : c = c' := by
  obtain ⟨k, hk, rfl⟩ := ha
  match c, c' with
  | .boot, .boot => rfl
  | .boot, .task j => exact absurd ha' (hL.sched j k hk)
  | .task i, .boot =>
      obtain ⟨k', hk', heq⟩ := ha'
      have hin : InArea (L.frame (.task i)) TF_WORDS (addr L.schedTf (8 * k')) :=
        ⟨k, hk, heq.symm⟩
      exact absurd hin (hL.sched i k' hk')
  | .task i, .task j =>
      obtain ⟨k', hk', heq⟩ := ha'
      have hi : (i : Nat) < 3 := i.isLt
      have hj : (j : Nat) < 3 := j.isLt
      have hwords : TF_WORDS = 35 := rfl
      simp only [frame, addr_addr, TASK_SIZE] at heq
      rw [addr_inj (by omega) (by omega)] at heq
      have hij : (i : Nat) = j := by omega
      rw [Fin.ext hij]

end Layout

/-! ## Creating tasks -/

/-- The part of the table the schedulers read: `tasks[i].fn` and `n_tasks`. -/
structure Table where
  fn : Fin TASK_MAX → Word
  nTasks : Nat

/-- `for (i = 0; i < n; i++) tf.regs[i] = 0`. -/
def zeroRegs (f : Word) : Nat → Mem → Mem
  | 0, m => m
  | n + 1, m => Function.update (zeroRegs f n m) (addr f (8 * n)) 0

/-- The stack pointer a fresh task of slot `i` starts with. -/
def Layout.freshSp (L : Layout) (i : Fin TASK_MAX) : Word :=
  addr (L.frame (.task i)) (STACK_OFF + STACK_SIZE) &&& ~~~ 15#64

/-- The trapframe stores of `ptask_create` and `stask_create` for slot `i`. -/
def Layout.initFrame (L : Layout) (i : Fin TASK_MAX) (m : Mem) : Mem :=
  let f := L.frame (.task i)
  let zeroed := zeroRegs f 32 m
  let withSp := Function.update zeroed (addr f (2 * 8)) (L.freshSp i)
  let withEpc := Function.update withSp (addr f TF_EPC) L.trampoline
  let withMtime := Function.update withEpc (addr f TF_MTIME) 0
  Function.update withMtime (addr f TF_CYCLE) 0

/-- `ptask_create` and `stask_create`.  The name is not kept: only the report
reads it. -/
def Layout.taskCreate (L : Layout) (t : Table × Mem) (fn : Word) : Table × Mem :=
  if h : t.1.nTasks < TASK_MAX then
    let i : Fin TASK_MAX := ⟨t.1.nTasks, h⟩
    (⟨Function.update t.1.fn i fn, t.1.nTasks + 1⟩, L.initFrame i t.2)
  else t

/-- The table before any task is created. -/
def Table.empty : Table :=
  ⟨fun _ => 0, 0⟩

/-- The context a fresh task starts as. -/
def Layout.freshSnap (L : Layout) (i : Fin TASK_MAX) : Snap :=
  ⟨Function.update (fun _ => 0) .sp (L.freshSp i), L.trampoline⟩

/-- The contexts that have a created frame. -/
def Layout.fresh (L : Layout) (n : Nat) : Ctx → Option Snap
  | .boot => none
  | .task i => if (i : Nat) < n then some (L.freshSnap i) else none

theorem Layout.fresh_eq_some {L : Layout} {n : Nat} {c : Ctx} {snap : Snap} :
    L.fresh n c = some snap ↔ ∃ i, c = .task i ∧ (i : Nat) < n ∧ snap = L.freshSnap i := by
  cases c with
  | boot => simp [fresh]
  | task j =>
      simp only [fresh, Option.ite_none_right_eq_some, Option.some.injEq, Ctx.task.injEq]
      constructor
      · rintro ⟨hlt, rfl⟩
        exact ⟨j, rfl, hlt, rfl⟩
      · rintro ⟨i, rfl, hlt, rfl⟩
        exact ⟨hlt, rfl⟩

theorem zeroRegs_addr (f : Word) (n : Nat) (m : Mem) {k : Nat} (hk : k < 35) (hn : n ≤ 32) :
    zeroRegs f n m (addr f (8 * k)) = if k < n then 0 else m (addr f (8 * k)) := by
  induction n with
  | zero => rfl
  | succ n ih =>
      rw [zeroRegs, update_addr _ _ _ (by omega) (by omega), ih (by omega)]
      by_cases hkn : 8 * k = 8 * n
      · rw [if_pos hkn, if_pos (by omega)]
      · rw [if_neg hkn]
        by_cases hlt : k < n
        · rw [if_pos hlt, if_pos (by omega)]
        · rw [if_neg hlt, if_neg (by omega)]

theorem zeroRegs_of_not_inArea (f : Word) (n : Nat) (m : Mem) {a : Word} (hn : n ≤ TF_WORDS)
    (ha : ¬ InArea f TF_WORDS a) : zeroRegs f n m a = m a := by
  induction n with
  | zero => rfl
  | succ n ih =>
      rw [zeroRegs, update_of_not_inArea ha _ _ (by omega), ih (by omega)]

/-- A created frame holds a context that starts in the trampoline on its own
stack. -/
theorem Layout.initFrame_holds (L : Layout) (i : Fin TASK_MAX) (m : Mem) :
    FrameHolds (L.initFrame i m) (L.frame (.task i)) (L.freshSnap i) := by
  have hepc : TF_EPC = 256 := rfl
  have hmtime : TF_MTIME = 264 := rfl
  have hcycle : TF_CYCLE = 272 := rfl
  constructor
  · intro r
    have hr := r.num_lt
    have hpos := r.num_pos
    show L.initFrame i m (addr _ (8 * r.num)) =
      Function.update (fun _ => (0 : Word)) .sp (L.freshSp i) r
    simp only [initFrame]
    rw [update_addr _ _ _ (by omega) (by omega), if_neg (by omega),
      update_addr _ _ _ (by omega) (by omega), if_neg (by omega),
      update_addr _ _ _ (by omega) (by omega), if_neg (by omega),
      update_addr _ _ _ (by omega) (by omega)]
    by_cases hsp : r = .sp
    · rw [hsp, Function.update_self]
      rfl
    · have hnum : r.num ≠ Reg.sp.num := fun h => hsp (Reg.num_injective h)
      have htwo : Reg.sp.num = 2 := rfl
      rw [if_neg (by omega), Function.update_of_ne hsp,
        zeroRegs_addr _ _ _ (by omega) (by omega), if_pos hr]
  · simp only [initFrame]
    rw [update_addr _ _ _ (by omega) (by omega), if_neg (by omega),
      update_addr _ _ _ (by omega) (by omega), if_neg (by omega), Function.update_self]
    rfl

/-- Creating one task writes to no other context's frame. -/
theorem Layout.initFrame_of_not_inArea (L : Layout) (i : Fin TASK_MAX) (m : Mem) {a : Word}
    (ha : ¬ InArea (L.frame (.task i)) TF_WORDS a) : L.initFrame i m a = m a := by
  have hepc : TF_EPC = 256 := rfl
  have hmtime : TF_MTIME = 264 := rfl
  have hcycle : TF_CYCLE = 272 := rfl
  have hwords : TF_WORDS = 35 := rfl
  simp only [initFrame]
  rw [update_of_not_inArea ha _ _ (by omega), update_of_not_inArea ha _ _ (by omega),
    update_of_not_inArea ha _ _ (by omega), update_of_not_inArea ha _ _ (by omega),
    zeroRegs_of_not_inArea _ _ _ (by omega) ha]

/-- What holds of the table while tasks are being created: the slots in use
are exactly those below `n_tasks`, and their frames are fresh. -/
structure Layout.Created (L : Layout) (t : Table × Mem) : Prop where
  bound : t.1.nTasks ≤ TASK_MAX
  frames : ∀ {c snap}, L.fresh t.1.nTasks c = some snap → FrameHolds t.2 (L.frame c) snap

theorem Layout.taskCreate_created {L : Layout} (hL : L.Separate) {t : Table × Mem}
    (ht : L.Created t) (fn : Word) : L.Created (L.taskCreate t fn) := by
  unfold taskCreate
  split
  · next hlt =>
    refine ⟨hlt, fun {c snap} hc => ?_⟩
    obtain ⟨j, rfl, hj, rfl⟩ := fresh_eq_some.mp hc
    by_cases hnew : j = ⟨t.1.nTasks, hlt⟩
    · rw [← hnew]
      exact L.initFrame_holds j t.2
    · -- an older slot: its frame is not the one being written
      have hne : (j : Nat) ≠ t.1.nTasks := fun h => hnew (Fin.ext h)
      have hold : (j : Nat) < t.1.nTasks := by
        have hj' : (j : Nat) < t.1.nTasks + 1 := hj
        omega
      refine (ht.frames (fresh_eq_some.mpr ⟨j, rfl, hold, rfl⟩)).congr fun a ha => ?_
      refine L.initFrame_of_not_inArea _ _ fun hin => hnew ?_
      have hctx := hL.frames ha hin
      simpa using hctx
  · exact ht

/-- Creating a list of tasks, in order. -/
def Layout.createAll (L : Layout) (fns : List Word) (m : Mem) : Table × Mem :=
  fns.foldl L.taskCreate (Table.empty, m)

theorem Layout.createAll_created {L : Layout} (hL : L.Separate) (fns : List Word) (m : Mem) :
    L.Created (L.createAll fns m) := by
  unfold createAll
  have hempty : L.Created (Table.empty, m) := by
    refine ⟨Nat.zero_le _, fun {c snap} hc => ?_⟩
    obtain ⟨j, -, hj, -⟩ := fresh_eq_some.mp hc
    exact absurd hj (Nat.not_lt_zero _)
  generalize (Table.empty, m) = t at hempty
  induction fns generalizing t with
  | nil => exact hempty
  | cons fn fns ih => exact ih _ (taskCreate_created hL hempty fn)

/-- The table after creating a list of tasks: the first `TASK_MAX` of them, in
order. -/
theorem Layout.createAll_table (L : Layout) (fns : List Word) (m : Mem) :
    (L.createAll fns m).1.nTasks = min fns.length TASK_MAX ∧
      ∀ i : Fin TASK_MAX, (i : Nat) < (L.createAll fns m).1.nTasks →
        fns[(i : Nat)]? = some ((L.createAll fns m).1.fn i) := by
  induction fns using List.reverseRecOn with
  | nil => exact ⟨rfl, fun i hi => absurd hi (Nat.not_lt_zero _)⟩
  | append_singleton fns fn ih =>
      obtain ⟨hn, hfn⟩ := ih
      have hstep : L.createAll (fns ++ [fn]) m = L.taskCreate (L.createAll fns m) fn :=
        List.foldl_concat ..
      rw [hstep, taskCreate, List.length_append, List.length_singleton]
      generalize L.createAll fns m = t at hn hfn
      split
      · next hlt =>
        refine ⟨by show t.1.nTasks + 1 = _; omega, fun i hi => ?_⟩
        show (fns ++ [fn])[(i : Nat)]? = some (Function.update t.1.fn ⟨t.1.nTasks, hlt⟩ fn i)
        have hi' : (i : Nat) < t.1.nTasks + 1 := hi
        by_cases hnew : i = ⟨t.1.nTasks, hlt⟩
        · have hlen : t.1.nTasks = fns.length := by omega
          have hindex : (i : Nat) = fns.length := by rw [hnew, ← hlen]
          rw [hindex, hnew, Function.update_self, List.getElem?_concat_length]
        · have hne : (i : Nat) ≠ t.1.nTasks := fun h => hnew (Fin.ext h)
          rw [Function.update_of_ne hnew, List.getElem?_append_left (by omega)]
          exact hfn i (by omega)
      · refine ⟨by omega, fun i hi => ?_⟩
        rw [List.getElem?_append_left (by omega)]
        exact hfn i hi

/-- Creating at least one task leaves at least one in the table. -/
theorem Layout.createAll_pos (L : Layout) {fns : List Word} (hfns : fns ≠ []) (m : Mem) :
    0 < (L.createAll fns m).1.nTasks := by
  have hlen : 0 < fns.length := List.length_pos_iff.mpr hfns
  have hmax : TASK_MAX = 3 := rfl
  rw [(L.createAll_table fns m).1]
  omega

/-! ## Choosing the next task -/

/-- `tasks[current].tf` as a context; `none` outside the array. -/
def taskAt (current : Int) : Option Ctx :=
  if h : 0 ≤ current ∧ current < TASK_MAX then
    some (.task ⟨current.toNat, by omega⟩)
  else none

/-- `current = (current + 1) % n_tasks; next = &tasks[current].tf`; `none` for
a division by zero or an index outside the array. -/
def nextTask (current : Int) (nTasks : Nat) : Option (Int × Ctx) :=
  if nTasks = 0 then none
  else
    let current := (current + 1).tmod nTasks
    (taskAt current).map fun c => (current, c)

/-- `ptask_trampoline` and `stask_trampoline` call `tasks[current].fn`. -/
def trampolineFn (table : Table) (current : Int) : Option Word :=
  match taskAt current with
  | some (.task i) => some (table.fn i)
  | _ => none

theorem trampolineFn_natCast (table : Table) (i : Fin TASK_MAX) :
    trampolineFn table ((i : Nat) : Int) = some (table.fn i) := by
  have hi := i.isLt
  have hin : (0 : Int) ≤ ((i : Nat) : Int) ∧ ((i : Nat) : Int) < TASK_MAX := by omega
  rw [trampolineFn, taskAt, dif_pos hin]
  rfl

/-- Advancing from below `n` tasks picks the next of them, cyclically. -/
theorem nextTask_eq {n : Nat} (hn : 0 < n) (hmax : n ≤ TASK_MAX) (k : Nat) :
    nextTask ((k : Int) - 1) n =
      some (((k % n : Nat) : Int), .task ⟨k % n, (Nat.mod_lt k hn).trans_le hmax⟩) := by
  have hlt : k % n < n := Nat.mod_lt k hn
  have hcur : ((k : Int) - 1 + 1).tmod n = ((k % n : Nat) : Int) := by
    rw [sub_add_cancel, Int.tmod_eq_emod_of_nonneg (Int.natCast_nonneg k), Int.natCast_mod]
  have hin : (0 : Int) ≤ ((k % n : Nat) : Int) ∧ ((k % n : Nat) : Int) < TASK_MAX := by omega
  rw [nextTask, if_neg (by omega)]
  simp only [hcur]
  rw [taskAt, dif_pos hin]
  simp only [Int.toNat_natCast, Option.map_some]

/-- With a task in the table the next one always exists. -/
theorem exists_nextTask {n : Nat} (hn : 0 < n) (hmax : n ≤ TASK_MAX) {current : Int}
    (hcur : -1 ≤ current) :
    ∃ i : Fin TASK_MAX, nextTask current n = some (((i : Nat) : Int), .task i) := by
  obtain ⟨k, hk⟩ : ∃ k : Nat, current = (k : Int) - 1 := ⟨(current + 1).toNat, by omega⟩
  exact ⟨⟨k % n, (Nat.mod_lt k hn).trans_le hmax⟩, by rw [hk, nextTask_eq hn hmax k]⟩

/-- A single task follows itself. -/
theorem nextTask_single {current : Int} (hcur : current = -1 ∨ current = 0) :
    nextTask current 1 = some (0, .task 0) := by
  rcases hcur with rfl | rfl
  · decide
  · decide

/-! ## The timer deadline -/

/-- `while (deadline <= mtime()) deadline += QUANTUM_TICKS`, for the given
readings of the timer; `none` while the loop is still going. -/
def skipAhead (deadline : Word) : List Word → Option Word
  | [] => none
  | now :: later =>
      if deadline ≤ now then skipAhead (deadline + QUANTUM_TICKS) later else some deadline

/-- The deadline `timer_arm` and `stimer_arm` program. -/
def nextDeadline : List Word → Option Word
  | [] => none
  | now :: later => skipAhead (now + QUANTUM_TICKS) later

end Switch
end BareMetal
