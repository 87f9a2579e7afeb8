import BareMetal.Switch.TaskTable
import Mathlib.Data.Int.CardIntervalMod

/-!
# Rotation through the task table

Below the tick quota both preemptive schedulers do the same with `current`:
every tick advances it by one, cyclically, and resumes the task it then names.
`Rotation` is the closed form of what that amounts to after `k` ticks, and
`rotates` derives it for every scheduler whose ticks pick tasks in that way
(`Picks`).
-/

namespace BareMetal
namespace Switch

open Machine

/-! ## The order of slices -/

/-- The context that runs in slice `j` when there are `n` tasks. -/
def slot (n j : Nat) : Ctx :=
  if h : j % n < TASK_MAX then .task ⟨j % n, h⟩ else .boot

theorem slot_eq_task {n : Nat} (hn : 0 < n) (hmax : n ≤ TASK_MAX) (j : Nat) :
    slot n j = .task ⟨j % n, (Nat.mod_lt j hn).trans_le hmax⟩ := by
  rw [slot, dif_pos ((Nat.mod_lt j hn).trans_le hmax)]

/-- Where the rotation stands after `k` slices. -/
structure Rotation (n k : Nat) (current : Int) (running : Ctx) (resumed : List Ctx) : Prop where
  resumed : resumed = (List.range k).map (slot n)
  turn : (k = 0 ∧ current = -1 ∧ running = .boot) ∨
    ∃ j, k = j + 1 ∧ current = ((j % n : Nat) : Int) ∧ running = slot n j

theorem Rotation.start (n : Nat) : Rotation n 0 (-1) .boot [] :=
  ⟨rfl, Or.inl ⟨rfl, rfl, rfl⟩⟩

/-- Advancing `current` once more starts the next slice. -/
theorem Rotation.advance {n k : Nat} (hn : 0 < n) (hmax : n ≤ TASK_MAX) {current current' : Int}
    {running c : Ctx} {resumed : List Ctx} (hrot : Rotation n k current running resumed)
    (hnext : nextTask current n = some (current', c)) :
    Rotation n (k + 1) current' c (resumed ++ [c]) := by
  -- `current + 1` and the slice number agree modulo `n`
  have hstep : nextTask current n = some (((k % n : Nat) : Int), slot n k) := by
    rcases hrot.turn with ⟨hk, hcur, -⟩ | ⟨j, hk, hcur, -⟩
    · rw [hk, hcur, slot_eq_task hn hmax]
      exact nextTask_eq hn hmax 0
    · have hpred : current = ((j % n + 1 : Nat) : Int) - 1 := by
        rw [hcur]
        push_cast
        ring
      have hmod : (j % n + 1) % n = k % n := by
        rw [hk, Nat.mod_add_mod]
      rw [hpred, nextTask_eq hn hmax, slot_eq_task hn hmax]
      simp only [hmod]
  rw [hstep, Option.some.injEq, Prod.mk.injEq] at hnext
  refine ⟨?_, Or.inr ⟨k, rfl, hnext.1.symm, hnext.2.symm⟩⟩
  rw [List.range_succ, List.map_append, ← hrot.resumed, ← hnext.2]
  rfl

/-- While a task runs, `current` is its index. -/
theorem Rotation.current_eq {n k : Nat} (hn : 0 < n) (hmax : n ≤ TASK_MAX) {current : Int}
    {running : Ctx} {resumed : List Ctx} (hrot : Rotation n k current running resumed)
    {i : Fin TASK_MAX} (hi : running = .task i) :
    current = ((i : Nat) : Int) ∧ (i : Nat) < n := by
  rcases hrot.turn with ⟨-, -, hboot⟩ | ⟨j, -, hcur, hrunning⟩
  · rw [hboot] at hi
    cases hi
  · rw [hrunning, slot_eq_task hn hmax, Ctx.task.injEq] at hi
    rw [← hi]
    exact ⟨hcur, Nat.mod_lt j hn⟩

/-- The slices given to a context so far. -/
def slices (resumed : List Ctx) (i : Fin TASK_MAX) : Nat :=
  resumed.count (.task i)

/-- After `k` slices every task has had `k / n` of them, or one more. -/
theorem Rotation.slices_eq {n k : Nat} (hn : 0 < n) (hmax : n ≤ TASK_MAX) {current : Int}
    {running : Ctx} {resumed : List Ctx} (hrot : Rotation n k current running resumed)
    {i : Fin TASK_MAX} (hi : (i : Nat) < n) :
    slices resumed i = k / n + if (i : Nat) < k % n then 1 else 0 := by
  have hcount : slices resumed i = Nat.count (fun j => j ≡ (i : Nat) [MOD n]) k := by
    rw [slices, hrot.resumed, List.count_eq_countP, List.countP_map, Nat.count]
    congr 1
    funext j
    simp only [Function.comp_apply, slot_eq_task hn hmax, Nat.ModEq, Nat.mod_eq_of_lt hi,
      beq_eq_decide, Ctx.task.injEq, Fin.ext_iff]
  rw [hcount, Nat.count_modEq_card k hn, Nat.mod_eq_of_lt hi]

/-- No task is ever more than one slice ahead of another. -/
theorem Rotation.slices_le {n k : Nat} (hn : 0 < n) (hmax : n ≤ TASK_MAX) {current : Int}
    {running : Ctx} {resumed : List Ctx} (hrot : Rotation n k current running resumed)
    {i j : Fin TASK_MAX} (hi : (i : Nat) < n) (hj : (j : Nat) < n) :
    slices resumed i ≤ slices resumed j + 1 := by
  rw [hrot.slices_eq hn hmax hi, hrot.slices_eq hn hmax hj]
  split
  · omega
  · omega

/-! ## Schedulers that rotate -/

section Rotates

variable {G E : Type*}

/-- The statics of a scheduler that the rotation is about. -/
structure View (G : Type*) where
  table : G → Table
  current : G → Int
  ticks : G → Word

/-- Below the quota a tick counts itself and picks the next task. -/
structure Picks (V : View G) (g g' : G) (c : Ctx) : Prop where
  table : V.table g' = V.table g
  next : V.ticks g < N_TICKS → V.ticks g + 1 < N_TICKS →
    V.ticks g' = V.ticks g + 1 ∧
      nextTask (V.current g) (V.table g).nTasks = some (V.current g', c)

/-- The rotation as an invariant of runs; past the quota it claims nothing. -/
structure Turning (V : View G) (table : Table) (s : State G Ctx) : Prop where
  same : V.table s.g = table
  turns : s.resumed.length < N_TICKS.toNat →
    (V.ticks s.g).toNat = s.resumed.length ∧
      Rotation table.nTasks s.resumed.length (V.current s.g) s.running s.resumed

/-- One tick keeps the rotation. -/
theorem tick_turning {W : Switcher G Ctx E} {V : View G} {table : Table}
    (hn : 0 < table.nTasks) (hmax : table.nTasks ≤ TASK_MAX)
    (hpicks : ∀ {s t s'}, W.tick s t = some s' → Picks V s.g s'.g s'.running)
    {s s' : State G Ctx} {t : Tick E} (hs : Turning V table s) (htick : W.tick s t = some s') :
    Turning V table s' := by
  obtain ⟨out, -, -, hrunning, -, -, hresumed⟩ := W.tick_eq_some htick
  have hpick := hpicks htick
  refine ⟨hpick.table.trans hs.same, fun hlen => ?_⟩
  rw [← hrunning] at hresumed
  have hquota : N_TICKS.toNat = 200 := rfl
  have hlen' : s'.resumed.length = s.resumed.length + 1 := by
    rw [hresumed, List.length_append]
    rfl
  rw [hlen'] at hlen ⊢
  obtain ⟨hticks, hrot⟩ := hs.turns (by omega)
  -- the tick counter is far from wrapping
  have hone : (V.ticks s.g + 1).toNat = s.resumed.length + 1 := by
    have h1 : (1 : Word).toNat = 1 := rfl
    rw [BitVec.toNat_add, hticks, h1]
    exact Nat.mod_eq_of_lt (by omega)
  have hlt : V.ticks s.g < N_TICKS := BitVec.lt_def.mpr (by omega)
  have hlt' : V.ticks s.g + 1 < N_TICKS := BitVec.lt_def.mpr (by omega)
  obtain ⟨hadd, hnext⟩ := hpick.next hlt hlt'
  rw [hs.same] at hnext
  refine ⟨by rw [hadd, hone], ?_⟩
  rw [hresumed]
  exact hrot.advance hn hmax hnext

/-- Every run resumes one context a tick. -/
theorem run_resumed_length {W : Switcher G Ctx E} {s s' : State G Ctx} {ts : List (Tick E)}
    (hrun : runAll W.tick s ts = some s') :
    s'.resumed.length = s.resumed.length + ts.length := by
  induction ts generalizing s with
  | nil =>
      obtain rfl : s = s' := by simpa using hrun
      rfl
  | cons t ts ih =>
      obtain ⟨mid, hmid, hrest⟩ := runAll_cons_eq_some.mp hrun
      obtain ⟨out, -, -, -, -, -, hresumed⟩ := W.tick_eq_some hmid
      rw [ih hrest, hresumed, List.length_append, List.length_cons, List.length_cons,
        List.length_nil]
      omega

/-- After fewer ticks than the quota the rotation stands where the number of
ticks says. -/
theorem rotates {W : Switcher G Ctx E} {V : View G}
    (hpicks : ∀ {s t s'}, W.tick s t = some s' → Picks V s.g s'.g s'.running)
    {s s' : State G Ctx} {ts : List (Tick E)}
    (hn : 0 < (V.table s.g).nTasks) (hmax : (V.table s.g).nTasks ≤ TASK_MAX)
    (hcurrent : V.current s.g = -1) (hticks : V.ticks s.g = 0) (hrunning : s.running = .boot)
    (hresumed : s.resumed = []) (hrun : runAll W.tick s ts = some s')
    (hquota : ts.length < N_TICKS.toNat) :
    V.table s'.g = V.table s.g ∧
      Rotation (V.table s.g).nTasks ts.length (V.current s'.g) s'.running s'.resumed := by
  have hstart : Turning V (V.table s.g) s := by
    refine ⟨rfl, fun _ => ?_⟩
    rw [hcurrent, hticks, hrunning, hresumed]
    exact ⟨rfl, Rotation.start _⟩
  have hturning : Turning V (V.table s.g) s' :=
    runAll_invariant (fun hs htick => tick_turning hn hmax hpicks hs htick) hstart hrun
  have hlen : s'.resumed.length = ts.length := by
    rw [run_resumed_length hrun, hresumed, List.length_nil, Nat.zero_add]
  rw [← hlen] at hquota ⊢
  exact ⟨hturning.same, (hturning.turns hquota).2⟩

/-! ## What the rotation means for the tasks -/

/-- What holds whenever code executes between two ticks below the quota. -/
structure OwnSlice (W : Switcher G Ctx E) (L : Layout) (V : View G) (fns : List Word)
    (s : State G Ctx) : Prop where
  /-- `current` is the index of the running task -/
  current : ∀ {i}, s.running = .task i → V.current s.g = ((i : Nat) : Int)
  /-- a trampoline that reads `current` now calls the function its own task was
  created with -/
  trampoline : ∀ {i}, s.running = .task i → ∃ fn, fns[(i : Nat)]? = some fn ∧
    trampolineFn (V.table s.g) (V.current s.g) = some fn
  /-- a task that has not been interrupted yet was started in the trampoline, on
  its own stack -/
  fresh : ∀ {i}, s.running = .task i → s.last s.running = none →
    s.hart.regs = (L.freshSnap i).regs ∧ s.hart.pc = L.trampoline
  /-- an interrupt now saves the running context into its own frame (up to the
  stamp in the word of `t1`) and writes to no other frame -/
  saves : ∀ t : Tick E,
    FrameHolds (W.entered s.hart t).mem (L.frame s.running)
        (Interrupted.saved ⟨⟨t.regs, t.pc⟩, t.entryCycle⟩) ∧
      ∀ c ≠ s.running, ∀ a, InArea (L.frame c) TF_WORDS a →
        (W.entered s.hart t).mem a = s.hart.mem a
  /-- no task is more than one slice ahead of another -/
  fair : ∀ {i j : Fin TASK_MAX}, (i : Nat) < (V.table s.g).nTasks →
    (j : Nat) < (V.table s.g).nTasks → slices s.resumed i ≤ slices s.resumed j + 1

theorem ownSlice {W : Switcher G Ctx E} {Ok : Hart → Prop} (hW : W.Lawful Ok) {L : Layout}
    (hframe : W.frame = L.frame) {V : View G} {fns : List Word} {m : Mem} {s : State G Ctx}
    {k : Nat} (hfns : fns ≠ []) (hmax : (V.table s.g).nTasks ≤ TASK_MAX)
    (htable : V.table s.g = (L.createAll fns m).1)
    (hinv : Inv W Ok (L.fresh (V.table s.g).nTasks) s)
    (hrot : Rotation (V.table s.g).nTasks k (V.current s.g) s.running s.resumed) :
    OwnSlice W L V fns s := by
  have hn : 0 < (V.table s.g).nTasks := by
    rw [htable]
    exact L.createAll_pos hfns m
  refine ⟨fun hi => (hrot.current_eq hn hmax hi).1, fun {i} hi => ?_, fun {i} hi hlast => ?_,
    fun t => ?_, fun hi hj => hrot.slices_le hn hmax hi hj⟩
  · obtain ⟨hcur, hlt⟩ := hrot.current_eq hn hmax hi
    refine ⟨(V.table s.g).fn i, ?_, ?_⟩
    · rw [htable] at hlt ⊢
      exact (L.createAll_table fns m).2 i hlt
    · rw [hcur, trampolineFn_natCast]
  · obtain ⟨-, hlt⟩ := hrot.current_eq hn hmax hi
    apply hinv.handed
    rw [held, hlast, hi]
    exact Layout.fresh_eq_some.mpr ⟨i, rfl, hlt, rfl⟩
  · rw [← hframe]
    exact entered_frames hW t hinv.scratch

end Rotates

end Switch
end BareMetal
