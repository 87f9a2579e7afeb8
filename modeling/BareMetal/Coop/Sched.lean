import BareMetal.Machine.Blocks
import BareMetal.Machine.Privilege
import BareMetal.Machine.Runs

/-!
# The cooperative scheduler

`src/sched.c` with the context switch of `src/switch.S`.  `swtch` is executed
instruction by instruction; the C code around it is embedded as functions on
the statics.

A task body is a finite list of segments.  A segment is whatever the task does
between two switches: it may leave any registers and any memory outside the
contexts behind.  All but the last segment end in a call of `sched_yield`, the
last one in the body's return into the trampoline.  Likewise what the code of
`sched_run` does to the registers between its calls of `swtch` is up to the
compiler.

The system keeps a record that the code does not read: which segment ran when
(`trace`), the registers each context had when it last called `swtch` (`left`),
what it found when it came back (`resumes`), and the value of `remaining` at
the heads of the loop beside the number of unfinished tasks (`heads`).
-/

namespace BareMetal
namespace Coop

open Machine

def MAX_TASKS : Nat := 3
def STACK_SIZE : Nat := 4096

/-- `sizeof(context_t)` in doublewords. -/
def CTX_WORDS : Nat := 14

/-- `sizeof(task_t)`: `ctx (112) | stack (4096) | fn (8) | name (8) | state (4)`,
padded to a multiple of 8. -/
def TASK_SIZE : Nat := 4232

/-! ## Contexts and `swtch` -/

/-- The registers of a context, in the order of `context_t`. -/
def ctxPairs : List (Reg × Nat) :=
  [(.ra, 0), (.sp, 8), (.s0, 16), (.s1, 24), (.s2, 32), (.s3, 40), (.s4, 48), (.s5, 56),
   (.s6, 64), (.s7, 72), (.s8, 80), (.s9, 88), (.s10, 96), (.s11, 104)]

/-- The registers `swtch` saves and restores. -/
def ctxRegs : List Reg := ctxPairs.map Prod.fst

/-- The offset of a register in `context_t`. -/
def ctxOff : Reg → Nat
  | .ra => 0 | .sp => 8 | .s0 => 16 | .s1 => 24 | .s2 => 32 | .s3 => 40 | .s4 => 48
  | .s5 => 56 | .s6 => 64 | .s7 => 72 | .s8 => 80 | .s9 => 88 | .s10 => 96 | .s11 => 104
  | _ => 112

theorem ctxPairs_eq_table : ctxPairs = table ctxOff ctxRegs := by
  decide

theorem ctxOff_bound {r : Reg} (hr : r ∈ ctxRegs) : ctxOff r % 8 = 0 ∧ ctxOff r < 8 * CTX_WORDS := by
  revert r
  decide

theorem ctxOff_inj {q r : Reg} (hq : q ∈ ctxRegs) (hr : r ∈ ctxRegs) (h : ctxOff q = ctxOff r) :
    q = r := by
  revert q r
  decide

/-- `swtch` up to its `ret`. -/
def swtchCode : List Instr :=
  sdAll .a0 ctxPairs ++ ldAll .a1 ctxPairs

/-- `swtch`. -/
def swtch (h : Hart) : Hart :=
  { run swtchCode h with pc := (run swtchCode h).regs .ra }

/-- The context at `f` holds the given registers. -/
def CtxHolds (m : Mem) (f : Word) (regs : Reg → Word) : Prop :=
  ∀ r ∈ ctxRegs, m (addr f (ctxOff r)) = regs r

theorem CtxHolds.congr {m m' : Mem} {f : Word} {regs : Reg → Word} (h : CtxHolds m f regs)
    (hsame : ∀ a, InArea f CTX_WORDS a → m' a = m a) : CtxHolds m' f regs := by
  intro r hr
  have hb := ctxOff_bound hr
  rw [hsame _ (inArea_addr (i := ctxOff r / 8) (by omega) (by omega)), h r hr]

/-- What `swtch` does: it saves the context registers to the old context,
writes nothing else, and returns with those of the new context. -/
theorem swtch_effect (h : Hart)
    (hsep : ∀ a, InArea (h.regs .a1) CTX_WORDS a → ¬ InArea (h.regs .a0) CTX_WORDS a) :
    CtxHolds (swtch h).mem (h.regs .a0) h.regs ∧
      (∀ a, ¬ InArea (h.regs .a0) CTX_WORDS a → (swtch h).mem a = h.mem a) ∧
      (∀ r ∈ ctxRegs, (swtch h).regs r = h.mem (addr (h.regs .a1) (ctxOff r))) ∧
      (swtch h).pc = (swtch h).regs .ra := by
  have hpairs : ∀ p ∈ ctxPairs, p.1 ≠ Reg.a1 := by decide
  have hrun : run swtchCode h =
      { h with
        mem := storeAll h.regs (h.regs .a0) ctxPairs h.mem
        regs := loadAll (storeAll h.regs (h.regs .a0) ctxPairs h.mem) (h.regs .a1) ctxPairs
          h.regs } := by
    rw [swtchCode, run_append, run_sdAll, run_ldAll _ _ _ hpairs]
  -- the new context is read after the old one was written, hence `hsep`
  have hkept : ∀ a, ¬ InArea (h.regs .a0) CTX_WORDS a →
      storeAll h.regs (h.regs .a0) ctxPairs h.mem a = h.mem a := by
    intro a ha
    rw [ctxPairs_eq_table, storeAll_table_of_ne]
    intro r hr
    have hb := ctxOff_bound hr
    exact ne_addr_of_not_inArea ha (i := ctxOff r / 8) (by omega) (by omega)
  have hmem : (swtch h).mem = storeAll h.regs (h.regs .a0) ctxPairs h.mem := by
    show (run swtchCode h).mem = _
    rw [hrun]
  have hregs : (swtch h).regs = loadAll (storeAll h.regs (h.regs .a0) ctxPairs h.mem)
      (h.regs .a1) ctxPairs h.regs := by
    show (run swtchCode h).regs = _
    rw [hrun]
  refine ⟨fun r hr => ?_, fun a ha => ?_, fun r hr => ?_, rfl⟩
  · rw [hmem, ctxPairs_eq_table]
    refine storeAll_table h.regs _ h.mem hr (fun q hq heq => ctxOff_inj hq hr heq)
      fun q hq => ?_
    have hb := (ctxOff_bound hq).2
    have hwords : CTX_WORDS = 14 := rfl
    omega
  · rw [hmem]
    exact hkept a ha
  · have hb := ctxOff_bound hr
    have harea : InArea (h.regs .a1) CTX_WORDS (addr (h.regs .a1) (ctxOff r)) :=
      inArea_addr (i := ctxOff r / 8) (by omega) (by omega)
    rw [hregs, ← hkept _ (hsep _ harea)]
    generalize storeAll h.regs (h.regs .a0) ctxPairs h.mem = m
    rw [ctxPairs_eq_table, loadAll_table, if_pos hr]

/-! ## The data of `sched.c` -/

/-- The contexts that `swtch` switches between. -/
inductive Party
  | sched
  | task (i : Nat)
  deriving DecidableEq, Repr

/-- Where the linker put the task table, the scheduler's context and the
trampoline. -/
structure Layout where
  tasks : Word
  schedCtx : Word
  trampoline : Word

namespace Layout

variable (L : Layout)

/-- The saved context of a party. -/
def ctx : Party → Word
  | .sched => L.schedCtx
  | .task i => addr L.tasks (TASK_SIZE * i)

/-- The stack pointer a task starts with. -/
def freshSp (i : Nat) : Word :=
  addr (L.ctx (.task i)) (8 * CTX_WORDS + STACK_SIZE) &&& ~~~ 15#64

/-- The words of all contexts.  Only `swtch` and `task_create` write them. -/
def Kept (a : Word) : Prop :=
  InArea L.schedCtx CTX_WORDS a ∨ ∃ i < MAX_TASKS, InArea (L.ctx (.task i)) CTX_WORDS a

instance (a : Word) : Decidable (L.Kept a) :=
  inferInstanceAs (Decidable (InArea L.schedCtx CTX_WORDS a ∨
    ∃ i < MAX_TASKS, InArea (L.ctx (.task i)) CTX_WORDS a))

/-- The scheduler's context is not part of the task table. -/
def Separate : Prop :=
  ∀ i < MAX_TASKS, ∀ k < CTX_WORDS, ¬ InArea (L.ctx (.task i)) CTX_WORDS (addr L.schedCtx (8 * k))

end Layout

inductive TaskState
  | ready
  | done
  deriving DecidableEq, Repr

/-- One stretch of a task, with the registers at the switch that ends it and
the memory it leaves. -/
structure Seg where
  regs : Reg → Word
  mem : Mem

/-- A task body. -/
structure Body where
  first : Seg
  rest : List Seg

def Body.segs (b : Body) : List Seg :=
  b.first :: b.rest

/-- Where a task is in its own code: not entered yet, about to run the given
segments of a body (with the number of the next one), or in the endless loop of
the trampoline. -/
inductive Pos
  | notStarted
  | inBody (owner next : Nat) (segs : List Seg)
  | inLoop

/-- A context that comes back from `swtch`: the registers it called `swtch`
with, if it ever did, and what it finds. -/
structure Resume where
  who : Party
  left : Option (Reg → Word)
  found : Reg → Word
  pc : Word

/-- The statics of `sched.c`, the machine, the tasks' own control state and the
record. -/
structure Sys where
  hart : Hart
  bodies : List Body
  numTasks : Nat
  states : Nat → TaskState
  current : Option Nat
  pos : Nat → Pos
  calls : Nat
  left : Party → Option (Reg → Word)
  resumes : List Resume
  trace : List (Nat × Nat)
  heads : List (Int × Nat)

/-- The machine before `main`. -/
def Sys.init (h : Hart) : Sys where
  hart := h
  bodies := []
  numTasks := 0
  states := fun _ => .ready
  current := none
  pos := fun _ => .notStarted
  calls := 0
  left := fun _ => none
  resumes := []
  trace := []
  heads := []

/-- `task_create`; `fn` is the body behind the function pointer.  The name is
not kept: nothing reads it. -/
def taskCreate (L : Layout) (s : Sys) (fn : Body) : Sys :=
  if MAX_TASKS ≤ s.numTasks then s
  else
    let t := L.ctx (.task s.numTasks)
    { s with
      hart := (s.hart.store (addr t 8) (L.freshSp s.numTasks)).store (addr t 0) L.trampoline
      bodies := s.bodies ++ [fn]
      numTasks := s.numTasks + 1
      states := Function.update s.states s.numTasks .ready }

/-! ## Switching -/

/-- The registers at a call of `swtch`. -/
def callRegs (regs : Reg → Word) (old new : Word) : Reg → Word :=
  Function.update (Function.update regs .a0 old) .a1 new

theorem callRegs_of_ctxReg (regs : Reg → Word) (old new : Word) {r : Reg} (hr : r ∈ ctxRegs) :
    callRegs regs old new r = regs r := by
  have hne : r ≠ .a0 ∧ r ≠ .a1 := by
    revert r
    decide
  rw [callRegs, Function.update_of_ne hne.2, Function.update_of_ne hne.1]

/-- A call of `swtch` by `who`, with the registers it has at that point. -/
def Sys.swtch (s : Sys) (who : Party) (old new : Word) (regs : Reg → Word) : Sys :=
  { s with
    hart := Coop.swtch { s.hart with regs := callRegs regs old new }
    left := Function.update s.left who (some (callRegs regs old new)) }

theorem Sys.swtch_left (s : Sys) (who : Party) (old new : Word) (regs : Reg → Word) :
    (s.swtch who old new regs).left =
      Function.update s.left who (some (callRegs regs old new)) :=
  rfl

/-- What a call of `swtch` does to the machine. -/
theorem Sys.swtch_hart (s : Sys) (who : Party) {old new : Word} (regs : Reg → Word)
    (hsep : ∀ a, InArea new CTX_WORDS a → ¬ InArea old CTX_WORDS a) :
    CtxHolds (s.swtch who old new regs).hart.mem old (callRegs regs old new) ∧
      (∀ a, ¬ InArea old CTX_WORDS a → (s.swtch who old new regs).hart.mem a = s.hart.mem a) ∧
      (∀ r ∈ ctxRegs, (s.swtch who old new regs).hart.regs r =
        s.hart.mem (addr new (ctxOff r))) ∧
      (s.swtch who old new regs).hart.pc = (s.swtch who old new regs).hart.regs .ra := by
  have ha0 : callRegs regs old new .a0 = old := by
    rw [callRegs, Function.update_of_ne (by decide), Function.update_self]
  have ha1 : callRegs regs old new .a1 = new := by
    rw [callRegs, Function.update_self]
  have heffect := swtch_effect { s.hart with regs := callRegs regs old new }
  simp only [ha0, ha1] at heffect
  exact heffect hsep

/-- Control continues where `who` is. -/
def Sys.resume (s : Sys) (who : Party) : Sys :=
  { s with resumes := s.resumes ++ [⟨who, s.left who, s.hart.regs, s.hart.pc⟩] }

@[simp] theorem Sys.resume_hart (s : Sys) (who : Party) : (s.resume who).hart = s.hart :=
  rfl

/-- `sched_yield`, called by task `i`; `none` if `current` is null. -/
def schedYield (L : Layout) (s : Sys) (i : Nat) (regs : Reg → Word) : Option Sys :=
  s.current.map fun c => s.swtch (.task i) (L.ctx (.task c)) (L.ctx .sched) regs

/-- Task `i` runs one segment, up to the switch that ends it. -/
def runSegment (L : Layout) (s : Sys) (i owner k : Nat) (seg : Seg) (rest : List Seg) :
    Option Sys :=
  let s := { s with
    trace := s.trace ++ [(owner, k)]
    hart := s.hart.clobberMem L.Kept seg.mem }
  match rest with
  | [] =>
      -- the body returns into the trampoline, which marks `current` as done
      s.current.bind fun c =>
        schedYield L { s with
          states := Function.update s.states c .done
          pos := Function.update s.pos i .inLoop } i seg.regs
  | next :: more =>
      schedYield L { s with
        pos := Function.update s.pos i (.inBody owner (k + 1) (next :: more)) } i seg.regs

/-- What task `i` does from where it is up to its next switch. -/
def runTask (L : Layout) (s : Sys) (i : Nat) : Option Sys :=
  match s.pos i with
  | .notStarted =>
      -- the trampoline calls `current->fn`
      s.current.bind fun c =>
        s.bodies[c]?.bind fun body => runSegment L s i c 0 body.first body.rest
  | .inBody owner k (seg :: rest) => runSegment L s i owner k seg rest
  | .inBody _ _ [] => none
  | .inLoop => schedYield L s i s.hart.regs

/-! ## `sched_run` -/

/-- From a call of `swtch` in `sched_run` to its return.  `own k` is what the
code of `sched_run` before its `k`-th call makes of the registers. -/
def slice (L : Layout) (own : Nat → (Reg → Word) → Reg → Word) (s : Sys) (i : Nat) :
    Option Sys :=
  let s := { s with current := some i }
  let s := s.swtch .sched (L.ctx .sched) (L.ctx (.task i)) (own s.calls s.hart.regs)
  let s := { s with calls := s.calls + 1 }
  (runTask L (s.resume (.task i)) i).map fun s => s.resume .sched

/-- The body of the inner loop, on the system and `remaining`. -/
def loopBody (L : Layout) (own : Nat → (Reg → Word) → Reg → Word) (st : Sys × Int) (i : Nat) :
    Option (Sys × Int) :=
  if st.1.states i = .done then some st
  else
    (slice L own st.1 i).map fun s =>
      (s, if s.states i = .done then st.2 - 1 else st.2)

/-- The inner loop. -/
def pass (L : Layout) (own : Nat → (Reg → Word) → Reg → Word) (st : Sys × Int) :
    Option (Sys × Int) :=
  runAll (loopBody L own) st (List.range st.1.numTasks)

/-- The number of tasks whose state is not `TASK_DONE`. -/
def notDone (s : Sys) : Nat :=
  Nat.count (fun i => s.states i ≠ .done) s.numTasks

/-- The outer loop, with a bound on the number of its heads; `none` when that
is not enough. -/
def whileLoop (L : Layout) (own : Nat → (Reg → Word) → Reg → Word) :
    Nat → Sys × Int → Option (Sys × Int)
  | 0, _ => none
  | fuel + 1, st =>
      let st := ({ st.1 with heads := st.1.heads ++ [(st.2, notDone st.1)] }, st.2)
      if 0 < st.2 then (pass L own st).bind (whileLoop L own fuel) else some st

/-- `sched_run`. -/
def schedRun (L : Layout) (own : Nat → (Reg → Word) → Reg → Word) (fuel : Nat) (s : Sys) :
    Option Sys :=
  (whileLoop L own fuel (s, s.numTasks)).map Prod.fst

end Coop
end BareMetal
