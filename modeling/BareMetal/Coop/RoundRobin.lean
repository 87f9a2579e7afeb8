import BareMetal.Coop.Sched

/-!
# The cooperative scheduler is a round robin

The reference is stated on the numbers of segments alone: pass `k` runs segment
number `k` of every task that has one, in creation order.

The simulation is indexed by the progress `p i` of every task.  `Inv` says what
the machine looks like when `sched_run` is in control and task `i` has run
`p i` of its segments.  One slice advances one task (`slice_inv`), one pass
advances all unfinished ones (`pass_inv`), and the heads of the outer loop are
the states where every task has run `k` segments or all it has (`AtHead`).
-/

namespace BareMetal
namespace Coop

open Machine

/-! ## The reference -/

/-- The number of segments of task `i`. -/
def segCount (bodies : List Body) (i : Nat) : Nat :=
  (bodies[i]?.map fun b => b.segs.length).getD 0

/-- What pass `k` runs of the first `j` tasks. -/
def refPass (bodies : List Body) (k j : Nat) : List (Nat × Nat) :=
  ((List.range j).filter fun i => k < segCount bodies i).map fun i => (i, k)

/-- The number of passes until no task is left. -/
def rounds (bodies : List Body) : Nat :=
  (bodies.map fun b => b.segs.length).foldr max 0

/-- The reference round robin. -/
def reference (bodies : List Body) : List (Nat × Nat) :=
  (List.range (rounds bodies)).flatMap fun k => refPass bodies k bodies.length

/-- The number of tasks that have not run all their segments. -/
def unfinished (bodies : List Body) (p : Nat → Nat) : Nat :=
  Nat.count (fun i => p i < segCount bodies i) bodies.length

/-- Everyone has run `k` segments, or all there are. -/
def progress (bodies : List Body) (k i : Nat) : Nat :=
  min k (segCount bodies i)

section Reference

variable {bodies : List Body}

theorem segCount_of_getElem? {i : Nat} {b : Body} (h : bodies[i]? = some b) :
    segCount bodies i = b.segs.length := by
  rw [segCount, h]
  rfl

theorem segCount_pos {i : Nat} (hi : i < bodies.length) : 0 < segCount bodies i := by
  rw [segCount_of_getElem? (List.getElem?_eq_getElem hi)]
  exact Nat.succ_pos _

theorem segCount_of_le {i : Nat} (hi : bodies.length ≤ i) : segCount bodies i = 0 := by
  rw [segCount, List.getElem?_eq_none hi]
  rfl

/-- Some task is unfinished after `k` passes exactly while `k` is below the
number of rounds. -/
theorem lt_rounds_iff {k : Nat} :
    k < rounds bodies ↔ ∃ i < bodies.length, k < segCount bodies i := by
  have hmax : ∀ ls : List Nat, k < ls.foldr max 0 ↔ ∃ l ∈ ls, k < l := by
    intro ls
    induction ls with
    | nil => simp
    | cons l ls ih => simp [ih]
  rw [rounds, hmax]
  constructor
  · rintro ⟨l, hl, hk⟩
    obtain ⟨b, hb, rfl⟩ := List.mem_map.mp hl
    obtain ⟨i, hi, hget⟩ := List.getElem_of_mem hb
    refine ⟨i, hi, ?_⟩
    rw [segCount_of_getElem? (List.getElem?_eq_getElem hi), hget]
    exact hk
  · rintro ⟨i, hi, hk⟩
    rw [segCount_of_getElem? (List.getElem?_eq_getElem hi)] at hk
    exact ⟨_, List.mem_map.mpr ⟨bodies[i], List.getElem_mem hi, rfl⟩, hk⟩

theorem unfinished_eq_card (p : Nat → Nat) :
    unfinished bodies p =
      ((Finset.range bodies.length).filter fun i => p i < segCount bodies i).card :=
  Nat.count_eq_card_filter_range _ _

/-- A task that is not at its last segment stays unfinished by running one. -/
theorem unfinished_of_more {p : Nat → Nat} {i : Nat} (h : p i + 1 < segCount bodies i) :
    unfinished bodies (Function.update p i (p i + 1)) = unfinished bodies p := by
  rw [unfinished_eq_card, unfinished_eq_card]
  congr 1
  apply Finset.filter_congr
  intro j _
  by_cases hj : j = i
  · rw [hj, Function.update_self]
    omega
  · rw [Function.update_of_ne hj]

/-- A task that runs its last segment is one unfinished task less. -/
theorem unfinished_of_last {p : Nat → Nat} {i : Nat} (hi : i < bodies.length)
    (h : p i + 1 = segCount bodies i) :
    unfinished bodies (Function.update p i (p i + 1)) + 1 = unfinished bodies p := by
  rw [unfinished_eq_card, unfinished_eq_card]
  have hmem : i ∈ (Finset.range bodies.length).filter fun j => p j < segCount bodies j := by
    rw [Finset.mem_filter, Finset.mem_range]
    omega
  have herase : ((Finset.range bodies.length).filter fun j =>
      Function.update p i (p i + 1) j < segCount bodies j) =
      ((Finset.range bodies.length).filter fun j => p j < segCount bodies j).erase i := by
    ext j
    rw [Finset.mem_erase, Finset.mem_filter, Finset.mem_filter]
    by_cases hj : j = i
    · rw [hj, Function.update_self]
      constructor
      · rintro ⟨-, hlt⟩
        omega
      · rintro ⟨hne, -⟩
        exact absurd rfl hne
    · rw [Function.update_of_ne hj]
      exact ⟨fun hm => ⟨hj, hm⟩, fun hm => hm.2⟩
  rw [herase]
  exact Finset.card_erase_add_one hmem

/-- After `k` passes someone is unfinished exactly while `k` is below the number
of rounds. -/
theorem unfinished_progress_pos {k : Nat} :
    0 < unfinished bodies (progress bodies k) ↔ k < rounds bodies := by
  rw [unfinished_eq_card, Finset.card_pos, lt_rounds_iff]
  constructor
  · rintro ⟨i, hi⟩
    rw [Finset.mem_filter, Finset.mem_range, progress] at hi
    exact ⟨i, hi.1, by omega⟩
  · rintro ⟨i, hi, hk⟩
    refine ⟨i, ?_⟩
    rw [Finset.mem_filter, Finset.mem_range, progress]
    omega

end Reference

/-! ## The layout -/

section Layout

variable {L : Layout}

/-- The contexts of two tasks share no word. -/
theorem ctx_task_disjoint {i j : Nat} (hi : i < MAX_TASKS) (hj : j < MAX_TASKS) {a : Word}
    (ha : InArea (L.ctx (.task i)) CTX_WORDS a) (ha' : InArea (L.ctx (.task j)) CTX_WORDS a) :
    i = j := by
  obtain ⟨k, hk, rfl⟩ := ha
  obtain ⟨k', hk', heq⟩ := ha'
  have hwords : CTX_WORDS = 14 := rfl
  have hmax : MAX_TASKS = 3 := rfl
  simp only [Layout.ctx, addr_addr, TASK_SIZE] at heq
  rw [addr_inj (by omega) (by omega)] at heq
  omega

/-- The scheduler's context shares no word with a task's. -/
theorem Layout.Separate.disjoint (hL : L.Separate) {i : Nat} (hi : i < MAX_TASKS) {a : Word}
    (ha : InArea (L.ctx (.task i)) CTX_WORDS a) : ¬ InArea (L.ctx .sched) CTX_WORDS a := by
  rintro ⟨k, hk, rfl⟩
  exact hL i hi k hk ha

end Layout

/-! ## The invariant -/

/-- Where a task that has run `k` segments is in its code. -/
def posOf (bodies : List Body) (i k : Nat) : Pos :=
  match bodies[i]? with
  | none => .notStarted
  | some b =>
      if k = 0 then .notStarted
      else if k = b.segs.length then .inLoop
      else .inBody i k (b.segs.drop k)

/-- The context of task `i` in memory: the one it was created with, or the
registers with which it last called `swtch`. -/
def CtxOk (L : Layout) (m : Mem) (i : Nat) : Option (Reg → Word) → Prop
  | none => m (addr (L.ctx (.task i)) 0) = L.trampoline ∧
      m (addr (L.ctx (.task i)) 8) = L.freshSp i
  | some regs => CtxHolds m (L.ctx (.task i)) regs

/-- A context that comes back from `swtch` finds itself behind its own last
call, with the `ra`, `sp` and `s0`-`s11` of that call; a task that comes in for
the first time finds itself at the trampoline with its own stack. -/
def Resume.Good (L : Layout) (e : Resume) : Prop :=
  match e.left with
  | some regs => e.pc = regs .ra ∧ ∀ r ∈ ctxRegs, e.found r = regs r
  | none => ∃ i, e.who = .task i ∧ e.pc = L.trampoline ∧ e.found .sp = L.freshSp i

/-- What holds while `sched_run` is in control and task `i` has run `p i`
segments.  `regs₀` are the registers with which `sched_run` was entered; those
that its own code leaves alone are still the same. -/
structure Inv (L : Layout) (own : Nat → (Reg → Word) → Reg → Word) (regs₀ : Reg → Word)
    (bodies : List Body) (p : Nat → Nat) (s : Sys) : Prop where
  bodies_eq : s.bodies = bodies
  numTasks : s.numTasks = bodies.length
  le : ∀ i, p i ≤ segCount bodies i
  states : ∀ i < bodies.length, (s.states i = .done ↔ p i = segCount bodies i)
  pos : ∀ i < bodies.length, s.pos i = posOf bodies i (p i)
  ctx : ∀ i < bodies.length, CtxOk L s.hart.mem i (s.left (.task i))
  good : ∀ e ∈ s.resumes, e.Good L
  who : s.resumes.map Resume.who = s.trace.flatMap fun e => [.task e.1, .sched]
  intact : ∀ r ∈ ctxRegs, (∀ k regs, own k regs r = regs r) → s.hart.regs r = regs₀ r

/-- While task `i` is in control, `sched_run` waits in its call of `swtch` with
the registers `regs`. -/
structure Away (L : Layout) (i : Nat) (regs : Reg → Word) (s : Sys) : Prop where
  current : s.current = some i
  left : s.left .sched = some regs
  ctx : CtxHolds s.hart.mem (L.ctx .sched) regs

section Simulation

variable {L : Layout} {own : Nat → (Reg → Word) → Reg → Word} {regs₀ : Reg → Word}
  {bodies : List Body} {p : Nat → Nat} {s : Sys}

theorem CtxOk.congr {m m' : Mem} {i : Nat} {left : Option (Reg → Word)}
    (h : CtxOk L m i left)
    (hsame : ∀ a, InArea (L.ctx (.task i)) CTX_WORDS a → m' a = m a) : CtxOk L m' i left := by
  cases left with
  | none =>
      obtain ⟨hra, hsp⟩ := h
      refine ⟨?_, ?_⟩
      · rw [hsame _ (inArea_addr (i := 0) (by decide) rfl), hra]
      · rw [hsame _ (inArea_addr (i := 1) (by decide) rfl), hsp]
  | some regs => exact CtxHolds.congr h hsame

/-- The registers a party finds when its context is switched in. -/
theorem good_of_ctxOk {i : Nat} {left : Option (Reg → Word)} {h h' : Hart}
    (hctx : CtxOk L h.mem i left)
    (hregs : ∀ r ∈ ctxRegs, h'.regs r = h.mem (addr (L.ctx (.task i)) (ctxOff r)))
    (hpc : h'.pc = h'.regs .ra) : Resume.Good L ⟨.task i, left, h'.regs, h'.pc⟩ := by
  have hra := hregs .ra (by decide)
  have hsp := hregs .sp (by decide)
  cases left with
  | none => exact ⟨i, rfl, by rw [hpc, hra]; exact hctx.1, hsp.trans hctx.2⟩
  | some regs =>
      refine ⟨?_, fun r hr => (hregs r hr).trans (hctx r hr)⟩
      show h'.pc = regs .ra
      rw [hpc, hra]
      exact hctx .ra (by decide)

/-- The system when `sched_run` has switched to task `i`. -/
def switched (L : Layout) (own : Nat → (Reg → Word) → Reg → Word) (s : Sys) (i : Nat) : Sys :=
  let s := { s with current := some i }
  let s := s.swtch .sched (L.ctx .sched) (L.ctx (.task i)) (own s.calls s.hart.regs)
  { s with calls := s.calls + 1 }

/-- Switching to a task leaves every task's context alone and hands the task
what its context holds. -/
theorem switched_effect (hL : L.Separate) (own : Nat → (Reg → Word) → Reg → Word) {i : Nat}
    (hi : i < MAX_TASKS) :
    Away L i (callRegs (own s.calls s.hart.regs) (L.ctx .sched) (L.ctx (.task i)))
        (switched L own s i) ∧
      (∀ j < MAX_TASKS, ∀ a, InArea (L.ctx (.task j)) CTX_WORDS a →
        (switched L own s i).hart.mem a = s.hart.mem a) ∧
      (∀ r ∈ ctxRegs, (switched L own s i).hart.regs r =
        s.hart.mem (addr (L.ctx (.task i)) (ctxOff r))) ∧
      (switched L own s i).hart.pc = (switched L own s i).hart.regs .ra := by
  obtain ⟨hsaved, hother, hloaded, hpc⟩ :=
    Sys.swtch_hart { s with current := some i } .sched (own s.calls s.hart.regs)
      (fun a ha => hL.disjoint hi ha)
  refine ⟨⟨rfl, ?_, hsaved⟩, fun j hj a ha => hother a (hL.disjoint hj ha), hloaded, hpc⟩
  rw [switched, Sys.swtch_left, Function.update_self]

/-- The position behind a segment. -/
def posAfter (owner k : Nat) : List Seg → Pos
  | [] => .inLoop
  | next :: more => .inBody owner (k + 1) (next :: more)

theorem posOf_succ {i k : Nat} {b : Body} {seg : Seg} {rest : List Seg}
    (hb : bodies[i]? = some b) (hdrop : b.segs.drop k = seg :: rest) :
    posOf bodies i (k + 1) = posAfter i k rest := by
  have hrest : b.segs.drop (k + 1) = rest := by
    rw [← List.drop_drop, hdrop]
    rfl
  have hlen : (b.segs.drop (k + 1)).length = b.segs.length - (k + 1) := List.length_drop
  have hk : k < b.segs.length := by
    have hpos : 0 < (b.segs.drop k).length := by
      rw [hdrop]
      exact Nat.succ_pos _
    rw [List.length_drop] at hpos
    omega
  simp only [posOf, hb]
  rw [if_neg (Nat.succ_ne_zero k), hrest]
  cases rest with
  | nil =>
      rw [hrest, List.length_nil] at hlen
      rw [if_pos (by omega)]
      rfl
  | cons next more =>
      rw [hrest, List.length_cons] at hlen
      rw [if_neg (by omega)]
      rfl

/-- A task that has not run all its segments runs the next one. -/
theorem runTask_eq {i : Nat} {b : Body} {seg : Seg} {rest : List Seg} {k : Nat}
    (hbodies : s.bodies = bodies) (hcurrent : s.current = some i)
    (hpos : s.pos i = posOf bodies i k) (hb : bodies[i]? = some b)
    (hdrop : b.segs.drop k = seg :: rest) :
    runTask L s i = runSegment L s i i k seg rest := by
  have hk : k < b.segs.length := by
    have hlen : 0 < (b.segs.drop k).length := by
      rw [hdrop]
      exact Nat.succ_pos _
    rw [List.length_drop] at hlen
    omega
  by_cases hzero : k = 0
  · -- first entry: the trampoline calls the body of `current`
    subst hzero
    have hfirst : b.first = seg ∧ b.rest = rest := by
      rw [List.drop_zero] at hdrop
      exact List.cons.inj hdrop
    have hnot : s.pos i = .notStarted := by
      rw [hpos]
      simp only [posOf, hb, if_true]
    simp only [runTask, hnot, hcurrent, hbodies, hb, Option.bind_some, hfirst.1, hfirst.2]
  · have hin : s.pos i = .inBody i k (seg :: rest) := by
      rw [hpos]
      simp only [posOf, hb]
      rw [if_neg hzero, if_neg (by omega), hdrop]
    simp only [runTask, hin]

/-- The system when the segment has run and the task is about to switch. -/
def ranSegment (L : Layout) (s : Sys) (i k : Nat) (seg : Seg) (rest : List Seg) : Sys :=
  { s with
    trace := s.trace ++ [(i, k)]
    hart := s.hart.clobberMem L.Kept seg.mem
    states := if rest = [] then Function.update s.states i .done else s.states
    pos := Function.update s.pos i (posAfter i k rest) }

/-- A segment of the current task ends in a switch back to the scheduler. -/
theorem runSegment_eq {i k : Nat} {seg : Seg} {rest : List Seg} (hcurrent : s.current = some i) :
    runSegment L s i i k seg rest =
      some ((ranSegment L s i k seg rest).swtch (.task i) (L.ctx (.task i)) (L.ctx .sched)
        seg.regs) := by
  cases rest with
  | nil =>
      simp only [runSegment, schedYield, hcurrent, Option.bind_some, Option.map_some,
        ranSegment, posAfter, if_true]
  | cons next more =>
      have hne : next :: more ≠ [] := List.cons_ne_nil _ _
      simp only [runSegment, schedYield, hcurrent, Option.map_some, ranSegment, posAfter,
        if_neg hne]

/-- Switching back: the task's context holds what the task has left, the other
tasks' contexts are untouched, and `sched_run` finds itself behind its call. -/
theorem back_effect (hL : L.Separate) {i : Nat} (hi : i < MAX_TASKS) {regs : Reg → Word}
    (k : Nat) (seg : Seg) (rest : List Seg) (haway : Away L i regs s) :
    let r := (ranSegment L s i k seg rest).swtch (.task i) (L.ctx (.task i)) (L.ctx .sched)
      seg.regs
    CtxOk L r.hart.mem i (r.left (.task i)) ∧
      (∀ j < MAX_TASKS, j ≠ i → ∀ a, InArea (L.ctx (.task j)) CTX_WORDS a →
        r.hart.mem a = s.hart.mem a) ∧
      (∀ j, j ≠ i → r.left (.task j) = s.left (.task j)) ∧
      (∀ q ∈ ctxRegs, r.hart.regs q = regs q) ∧
      Resume.Good L ⟨.sched, r.left .sched, r.hart.regs, r.hart.pc⟩ := by
  obtain ⟨hsaved, hother, hloaded, hpc⟩ :=
    Sys.swtch_hart (ranSegment L s i k seg rest) (.task i) seg.regs
      (fun a ha hin => hL.disjoint hi hin ha)
  -- the segment wrote to no context
  have hkept : ∀ a, L.Kept a → (ranSegment L s i k seg rest).hart.mem a = s.hart.mem a :=
    fun a ha => Hart.clobberMem_keep s.hart L.Kept seg.mem ha
  have hfound : ∀ r ∈ ctxRegs, ((ranSegment L s i k seg rest).swtch (.task i)
      (L.ctx (.task i)) (L.ctx .sched) seg.regs).hart.regs r = regs r := by
    intro r hr
    have hb := ctxOff_bound hr
    have harea : InArea (L.ctx .sched) CTX_WORDS (addr (L.ctx .sched) (ctxOff r)) :=
      inArea_addr (i := ctxOff r / 8) (by omega) (by omega)
    rw [hloaded r hr, hkept _ (Or.inl harea), haway.ctx r hr]
  have hleft : ((ranSegment L s i k seg rest).swtch (.task i) (L.ctx (.task i)) (L.ctx .sched)
      seg.regs).left .sched = some regs := by
    rw [Sys.swtch_left, Function.update_of_ne (fun h => Party.noConfusion h)]
    exact haway.left
  refine ⟨?_, fun j hj hne a ha => ?_, fun j hne => ?_, hfound, ?_⟩
  · rw [Sys.swtch_left, Function.update_self]
    exact hsaved
  · rw [hother a fun hin => hne (ctx_task_disjoint hj hi ha hin), hkept a (Or.inr ⟨j, hj, ha⟩)]
  · rw [Sys.swtch_left, Function.update_of_ne fun h => hne (Party.task.inj h)]
    rfl
  · rw [hleft]
    exact ⟨by rw [hpc]; exact hfound .ra (by decide), hfound⟩

/-- The system after a slice in which task `i` has run the segment `seg`, its
number `k`. -/
def sliced (L : Layout) (own : Nat → (Reg → Word) → Reg → Word) (s : Sys) (i k : Nat) (seg : Seg)
    (rest : List Seg) : Sys :=
  ((ranSegment L ((switched L own s i).resume (.task i)) i k seg rest).swtch (.task i)
    (L.ctx (.task i)) (L.ctx .sched) seg.regs).resume .sched

theorem slice_eq {i : Nat} {b : Body} {seg : Seg} {rest : List Seg} (hi : i < bodies.length)
    (hinv : Inv L own regs₀ bodies p s) (hb : bodies[i]? = some b)
    (hdrop : b.segs.drop (p i) = seg :: rest) :
    slice L own s i = some (sliced L own s i (p i) seg rest) := by
  show (runTask L ((switched L own s i).resume (.task i)) i).map _ = _
  rw [runTask_eq (s := (switched L own s i).resume (.task i)) hinv.bodies_eq rfl (hinv.pos i hi)
    hb hdrop, runSegment_eq rfl, Option.map_some]
  rfl

/-- What a slice does to the contexts: every task's context is as its task has
left it, both who come back find themselves where they were, and `sched_run`
finds its registers as at its call. -/
theorem sliced_contexts (hL : L.Separate) (hlen : bodies.length ≤ MAX_TASKS) {i : Nat}
    (hi : i < bodies.length) (hinv : Inv L own regs₀ bodies p s) (k : Nat) (seg : Seg)
    (rest : List Seg) :
    (∀ j < bodies.length, CtxOk L (sliced L own s i k seg rest).hart.mem j
        ((sliced L own s i k seg rest).left (.task j))) ∧
      (∀ e ∈ (sliced L own s i k seg rest).resumes, e.Good L) ∧
      (∀ r ∈ ctxRegs, (sliced L own s i k seg rest).hart.regs r = own s.calls s.hart.regs r) := by
  have hi' : i < MAX_TASKS := lt_of_lt_of_le hi hlen
  obtain ⟨haway, hmem, hregs, hpc⟩ := switched_effect (s := s) hL own hi'
  -- the task finds itself where it left off
  have hgood : Resume.Good L ⟨.task i, s.left (.task i), (switched L own s i).hart.regs,
      (switched L own s i).hart.pc⟩ :=
    good_of_ctxOk (hinv.ctx i hi) hregs hpc
  have hsame : ∀ j, (switched L own s i).left (.task j) = s.left (.task j) := by
    intro j
    rw [switched, Sys.swtch_left, Function.update_of_ne fun h => Party.noConfusion h]
  have haway' : Away L i _ ((switched L own s i).resume (.task i)) :=
    ⟨haway.current, haway.left, haway.ctx⟩
  obtain ⟨hown, hmem', hleft', hback, hgood'⟩ := back_effect hL hi' k seg rest haway'
  refine ⟨fun j hj => ?_, fun e he => ?_, fun r hr => ?_⟩
  · have hj' : j < MAX_TASKS := lt_of_lt_of_le hj hlen
    by_cases hji : j = i
    · subst hji
      exact hown
    · have hleft : (sliced L own s i k seg rest).left (.task j) = s.left (.task j) :=
        (hleft' j hji).trans (hsame j)
      rw [hleft]
      exact (hinv.ctx j hj).congr fun a ha =>
        (hmem' j hj' hji a ha).trans (hmem j hj' a ha)
  · rcases List.mem_append.mp he with hfst | hlast
    · rcases List.mem_append.mp hfst with hold | hin
      · exact hinv.good e hold
      · rw [List.mem_singleton.mp hin, hsame i]
        exact hgood
    · rw [List.mem_singleton.mp hlast]
      exact hgood'
  · rw [sliced, Sys.resume_hart, hback r hr, callRegs_of_ctxReg _ _ _ hr]

/-- The task is marked as done exactly with its last segment. -/
theorem sliced_states {i j : Nat} {seg : Seg} {rest : List Seg} (hj : j < bodies.length)
    (hinv : Inv L own regs₀ bodies p s) (hlt : p i < segCount bodies i)
    (hrest : rest = [] ↔ p i + 1 = segCount bodies i) :
    (sliced L own s i (p i) seg rest).states j = .done ↔
      Function.update p i (p i + 1) j = segCount bodies j := by
  show (if rest = [] then Function.update s.states i .done else s.states) j = .done ↔ _
  by_cases hji : j = i
  · subst hji
    rw [Function.update_self, ← hrest]
    by_cases hnil : rest = []
    · simp only [hnil, if_true, Function.update_self]
    · have hnot : s.states j ≠ .done := fun h => by
        have := (hinv.states j hj).mp h
        omega
      simp only [hnil, if_false, hnot]
  · rw [Function.update_of_ne hji, ← hinv.states j hj]
    split
    · rw [Function.update_of_ne hji]
    · exact Iff.rfl

/-- One slice: the task runs its next segment and everything else stays as it
was. -/
theorem slice_inv (hL : L.Separate) (hlen : bodies.length ≤ MAX_TASKS)
    {i : Nat} (hi : i < bodies.length) (hinv : Inv L own regs₀ bodies p s)
    (hlt : p i < segCount bodies i) :
    ∃ s', slice L own s i = some s' ∧
      Inv L own regs₀ bodies (Function.update p i (p i + 1)) s' ∧
      s'.trace = s.trace ++ [(i, p i)] ∧ s'.heads = s.heads := by
  have hb : bodies[i]? = some bodies[i] := List.getElem?_eq_getElem hi
  have hcount := segCount_of_getElem? hb
  have hnext : p i < bodies[i].segs.length := by omega
  obtain ⟨seg, rest, hdrop⟩ : ∃ seg rest, bodies[i].segs.drop (p i) = seg :: rest :=
    ⟨_, _, List.drop_eq_getElem_cons hnext⟩
  have hrest : rest = [] ↔ p i + 1 = segCount bodies i := by
    have hl : (bodies[i].segs.drop (p i)).length = rest.length + 1 := by
      rw [hdrop]
      rfl
    rw [List.length_drop] at hl
    rw [← List.length_eq_zero_iff]
    omega
  -- contexts and registers come from the two switches, the rest is bookkeeping
  obtain ⟨hctx, hgood, hback⟩ := sliced_contexts hL hlen hi hinv (p i) seg rest
  refine ⟨_, slice_eq hi hinv hb hdrop, ?_, rfl, rfl⟩
  refine
    { bodies_eq := hinv.bodies_eq
      numTasks := hinv.numTasks
      le := fun j => ?_
      states := fun j hj => sliced_states hj hinv hlt hrest
      pos := fun j hj => ?_
      ctx := hctx
      good := hgood
      who := ?_
      intact := fun r hr hsame => ?_ }
  · by_cases hj : j = i
    · subst hj
      rw [Function.update_self]
      omega
    · rw [Function.update_of_ne hj]
      exact hinv.le j
  · show Function.update s.pos i (posAfter i (p i) rest) j = _
    by_cases hji : j = i
    · subst hji
      rw [Function.update_self, Function.update_self, posOf_succ hb hdrop]
    · rw [Function.update_of_ne hji, Function.update_of_ne hji]
      exact hinv.pos j hj
  · show ((s.resumes ++ [_]) ++ [_]).map Resume.who = (s.trace ++ [(i, p i)]).flatMap _
    rw [List.map_append, List.map_append, hinv.who, List.flatMap_append, List.append_assoc]
    rfl
  · rw [hback r hr, hsame, hinv.intact r hr hsame]

/-! ## One pass -/

/-- Task `i` runs its next segment if it has one. -/
def advance (bodies : List Body) (p : Nat → Nat) (i : Nat) : Nat → Nat :=
  Function.update p i (min (p i + 1) (segCount bodies i))

/-- The body of the inner loop: a finished task is skipped, any other runs one
segment, and `remaining` keeps count of the unfinished ones. -/
theorem loopBody_inv (hL : L.Separate) (hlen : bodies.length ≤ MAX_TASKS) {i : Nat}
    (hi : i < bodies.length) (hinv : Inv L own regs₀ bodies p s) :
    ∃ s', loopBody L own (s, unfinished bodies p) i =
        some (s', (unfinished bodies (advance bodies p i) : Int)) ∧
      Inv L own regs₀ bodies (advance bodies p i) s' ∧
      s'.trace = s.trace ++ (if p i < segCount bodies i then [(i, p i)] else []) ∧
      s'.heads = s.heads := by
  have hle := hinv.le i
  -- `state != TASK_DONE` is the same as having a segment left
  by_cases hlt : p i < segCount bodies i
  · obtain ⟨s', hslice, hinv', htrace, hheads⟩ := slice_inv hL hlen hi hinv hlt
    have hadv : advance bodies p i = Function.update p i (p i + 1) := by
      rw [advance, Nat.min_eq_left (by omega)]
    have hrun : s.states i ≠ .done := fun h => by
      have := (hinv.states i hi).mp h
      omega
    have hdone : s'.states i = .done ↔ p i + 1 = segCount bodies i := by
      rw [hinv'.states i hi, Function.update_self]
    refine ⟨s', ?_, by rw [hadv]; exact hinv', by rw [htrace, if_pos hlt], hheads⟩
    rw [loopBody, if_neg hrun, hslice, Option.map_some, hadv]
    congr 2
    by_cases hlast : p i + 1 = segCount bodies i
    · rw [if_pos (hdone.mpr hlast)]
      have hcount := unfinished_of_last hi hlast
      omega
    · rw [if_neg (mt hdone.mp hlast), unfinished_of_more (by omega)]
  · have heq : p i = segCount bodies i := by omega
    have hadv : advance bodies p i = p := by
      rw [advance, Nat.min_eq_right (by omega), ← heq, Function.update_eq_self]
    rw [hadv]
    refine ⟨s, ?_, hinv, by rw [if_neg hlt, List.append_nil], rfl⟩
    rw [loopBody, if_pos ((hinv.states i hi).mpr heq)]

/-- The progress in pass `k` when the inner loop is at task `j`. -/
def midPass (bodies : List Body) (k j i : Nat) : Nat :=
  if i < j then progress bodies (k + 1) i else progress bodies k i

theorem advance_midPass (k j : Nat) :
    advance bodies (midPass bodies k j) j = midPass bodies k (j + 1) := by
  funext i
  rw [advance]
  by_cases hi : i = j
  · subst hi
    rw [Function.update_self, midPass, midPass, if_neg (by omega), if_pos (by omega), progress,
      progress]
    omega
  · rw [Function.update_of_ne hi, midPass, midPass]
    by_cases hlt : i < j
    · rw [if_pos hlt, if_pos (by omega)]
    · rw [if_neg hlt, if_neg (by omega)]

theorem refPass_succ (k j : Nat) :
    refPass bodies k (j + 1) =
      refPass bodies k j ++ (if k < segCount bodies j then [(j, k)] else []) := by
  rw [refPass, List.range_succ, List.filter_append, List.map_append]
  congr 1
  by_cases hk : k < segCount bodies j <;> simp [hk]

/-- The inner loop over the first `j` tasks. -/
theorem pass_upTo (hL : L.Separate) (hlen : bodies.length ≤ MAX_TASKS) {k : Nat}
    (hinv : Inv L own regs₀ bodies (progress bodies k) s) {j : Nat} (hj : j ≤ bodies.length) :
    ∃ s', runAll (loopBody L own) (s, unfinished bodies (progress bodies k)) (List.range j) =
        some (s', (unfinished bodies (midPass bodies k j) : Int)) ∧
      Inv L own regs₀ bodies (midPass bodies k j) s' ∧
      s'.trace = s.trace ++ refPass bodies k j ∧ s'.heads = s.heads := by
  induction j with
  | zero =>
      have hmid : midPass bodies k 0 = progress bodies k := by
        funext i
        rw [midPass, if_neg (by omega)]
      rw [hmid]
      exact ⟨s, rfl, hinv, (List.append_nil _).symm, rfl⟩
  | succ j ih =>
      -- tasks below `j` are one segment ahead of those from `j` on
      obtain ⟨mid, hrun, hmid, htrace, hheads⟩ := ih (by omega)
      obtain ⟨s', hbody, hinv', htrace', hheads'⟩ := loopBody_inv hL hlen (i := j) hj hmid
      rw [advance_midPass] at hbody hinv'
      have hnext : midPass bodies k j j < segCount bodies j ↔ k < segCount bodies j := by
        rw [midPass, if_neg (by omega), progress]
        omega
      refine ⟨s', ?_, hinv', ?_, hheads'.trans hheads⟩
      · rw [List.range_succ, runAll_append, hrun, Option.bind_some, runAll, hbody]
        rfl
      · rw [htrace', htrace, List.append_assoc, refPass_succ]
        congr 2
        by_cases hk : k < segCount bodies j
        · have hat : midPass bodies k j j = k := by
            rw [midPass, if_neg (by omega), progress, Nat.min_eq_left (by omega)]
          rw [if_pos hk, if_pos (hnext.mpr hk), hat]
        · rw [if_neg hk, if_neg (mt hnext.mp hk)]

/-- One pass advances every unfinished task. -/
theorem pass_inv (hL : L.Separate) (hlen : bodies.length ≤ MAX_TASKS) {k : Nat}
    (hinv : Inv L own regs₀ bodies (progress bodies k) s) :
    ∃ s', pass L own (s, unfinished bodies (progress bodies k)) =
        some (s', (unfinished bodies (progress bodies (k + 1)) : Int)) ∧
      Inv L own regs₀ bodies (progress bodies (k + 1)) s' ∧
      s'.trace = s.trace ++ refPass bodies k bodies.length ∧ s'.heads = s.heads := by
  have hend : midPass bodies k bodies.length = progress bodies (k + 1) := by
    funext i
    by_cases hi : i < bodies.length
    · rw [midPass, if_pos hi]
    · rw [midPass, if_neg hi, progress, progress, segCount_of_le (by omega), Nat.min_zero,
        Nat.min_zero]
  have hpass := pass_upTo hL hlen hinv le_rfl
  rw [hend] at hpass
  rw [pass, hinv.numTasks]
  exact hpass

/-! ## The outer loop -/

/-- At a head of the outer loop `remaining` is the number of unfinished tasks. -/
theorem notDone_eq (hinv : Inv L own regs₀ bodies p s) : notDone s = unfinished bodies p := by
  rw [notDone, hinv.numTasks, unfinished, Nat.count_eq_card_filter_range,
    Nat.count_eq_card_filter_range]
  congr 1
  apply Finset.filter_congr
  intro i hi
  have hstate := hinv.states i (Finset.mem_range.mp hi)
  have hle := hinv.le i
  rw [ne_eq, hstate]
  omega

/-- The system at the head of the outer loop after `k` passes. -/
structure AtHead (L : Layout) (own : Nat → (Reg → Word) → Reg → Word) (regs₀ : Reg → Word)
    (bodies : List Body) (k : Nat) (s : Sys) : Prop where
  inv : Inv L own regs₀ bodies (progress bodies k) s
  trace : s.trace = (List.range k).flatMap fun j => refPass bodies j bodies.length
  heads : s.heads = (List.range k).map fun j =>
    ((unfinished bodies (progress bodies j) : Int), unfinished bodies (progress bodies j))

/-- What the record looks like when `sched_run` returns. -/
structure Returned (L : Layout) (own : Nat → (Reg → Word) → Reg → Word) (regs₀ : Reg → Word)
    (bodies : List Body) (s : Sys) : Prop where
  inv : Inv L own regs₀ bodies (progress bodies (rounds bodies)) s
  trace : s.trace = reference bodies
  heads : s.heads = (List.range (rounds bodies + 1)).map fun j =>
    ((unfinished bodies (progress bodies j) : Int), unfinished bodies (progress bodies j))

/-- The system with the head of the loop on record. -/
def logged (s : Sys) (remaining : Int) : Sys :=
  { s with heads := s.heads ++ [(remaining, notDone s)] }

theorem AtHead.logged_heads {k : Nat} (hhead : AtHead L own regs₀ bodies k s) :
    (logged s (unfinished bodies (progress bodies k))).heads =
      (List.range (k + 1)).map fun j =>
        ((unfinished bodies (progress bodies j) : Int), unfinished bodies (progress bodies j)) := by
  show s.heads ++ [_] = _
  rw [hhead.heads, notDone_eq hhead.inv, List.range_succ, List.map_append]
  rfl

theorem Inv.logged (hinv : Inv L own regs₀ bodies p s) (remaining : Int) :
    Inv L own regs₀ bodies p (logged s remaining) :=
  ⟨hinv.bodies_eq, hinv.numTasks, hinv.le, hinv.states, hinv.pos, hinv.ctx, hinv.good, hinv.who,
    hinv.intact⟩

theorem whileLoop_succ (fuel : Nat) (remaining : Int) :
    whileLoop L own (fuel + 1) (s, remaining) =
      if 0 < remaining then
        (pass L own (logged s remaining, remaining)).bind (whileLoop L own fuel)
      else some (logged s remaining, remaining) :=
  rfl

/-- The outer loop, by induction on the passes that are left. -/
theorem whileLoop_returns (hL : L.Separate) (hlen : bodies.length ≤ MAX_TASKS) {n k fuel : Nat}
    (hn : k + n = rounds bodies) (hfuel : n < fuel) (hhead : AtHead L own regs₀ bodies k s) :
    ∃ s', whileLoop L own fuel (s, unfinished bodies (progress bodies k)) = some (s', 0) ∧
      Returned L own regs₀ bodies s' := by
  induction n generalizing k fuel s with
  | zero =>
      obtain ⟨fuel, rfl⟩ : ∃ m, fuel = m + 1 := ⟨fuel - 1, by omega⟩
      obtain rfl : k = rounds bodies := by omega
      have hzero : unfinished bodies (progress bodies (rounds bodies)) = 0 := by
        have hpos : ¬ 0 < unfinished bodies (progress bodies (rounds bodies)) :=
          mt unfinished_progress_pos.mp (lt_irrefl _)
        omega
      -- no task is left, so this head is the last
      refine ⟨logged s 0, ?_, ?_⟩
      · rw [hzero, whileLoop_succ, if_neg (by decide)]
        rfl
      · have hheads := hhead.logged_heads
        rw [hzero] at hheads
        exact ⟨hhead.inv.logged 0, hhead.trace, hheads⟩
  | succ n ih =>
      obtain ⟨fuel, rfl⟩ : ∃ m, fuel = m + 1 := ⟨fuel - 1, by omega⟩
      have hpos : 0 < unfinished bodies (progress bodies k) :=
        unfinished_progress_pos.mpr (by omega)
      obtain ⟨mid, hpass, hmid, htrace, hheads⟩ :=
        pass_inv hL hlen (hhead.inv.logged (unfinished bodies (progress bodies k)))
      have hnext : AtHead L own regs₀ bodies (k + 1) mid := by
        refine ⟨hmid, ?_, hheads.trans hhead.logged_heads⟩
        rw [htrace, List.range_succ, List.flatMap_append, ← hhead.trace, List.flatMap_singleton]
        rfl
      have hfuel' : n < fuel := by omega
      obtain ⟨s', hloop, hret⟩ := ih (by omega) hfuel' hnext
      refine ⟨s', ?_, hret⟩
      rw [whileLoop_succ, if_pos (by exact_mod_cast hpos), hpass, Option.bind_some, hloop]

/-! ## Creation and the whole run -/

/-- The system after `task_create` for each of the bodies, before `sched_run`. -/
structure Created (L : Layout) (h : Hart) (bodies : List Body) (s : Sys) : Prop where
  bodies_eq : s.bodies = bodies
  numTasks : s.numTasks = bodies.length
  states : ∀ i, s.states i = .ready
  pos : ∀ i, s.pos i = .notStarted
  left : ∀ who, s.left who = none
  ctx : ∀ i < bodies.length, CtxOk L s.hart.mem i none
  regs : s.hart.regs = h.regs
  record : s.resumes = [] ∧ s.trace = [] ∧ s.heads = []

theorem taskCreate_created {h : Hart} (hlen : bodies.length < MAX_TASKS)
    (hs : Created L h bodies s) (b : Body) : Created L h (bodies ++ [b]) (taskCreate L s b) := by
  have hroom : ¬ MAX_TASKS ≤ s.numTasks := by
    rw [hs.numTasks]
    omega
  rw [taskCreate, if_neg hroom]
  refine ⟨?_, ?_, fun i => ?_, hs.pos, hs.left, fun i hi => ?_, hs.regs, hs.record⟩
  · show s.bodies ++ [b] = _
    rw [hs.bodies_eq]
  · show s.numTasks + 1 = _
    rw [hs.numTasks, List.length_append, List.length_singleton]
  · show Function.update s.states s.numTasks .ready i = .ready
    by_cases hi : i = s.numTasks
    · rw [hi, Function.update_self]
    · rw [Function.update_of_ne hi, hs.states]
  · rw [List.length_append, List.length_singleton] at hi
    show CtxOk L (Function.update (Function.update s.hart.mem (addr (L.ctx (.task s.numTasks)) 8)
      (L.freshSp s.numTasks)) (addr (L.ctx (.task s.numTasks)) 0) L.trampoline) i none
    rw [hs.numTasks]
    by_cases hnew : i = bodies.length
    · subst hnew
      have hne : addr (L.ctx (.task bodies.length)) 8 ≠ addr (L.ctx (.task bodies.length)) 0 := by
        rw [ne_eq, addr_inj (by decide) (by decide)]
        decide
      refine ⟨?_, ?_⟩
      · rw [Function.update_self]
      · rw [Function.update_of_ne hne, Function.update_self]
    · have hlt : i < bodies.length := by omega
      refine (hs.ctx i hlt).congr fun a ha => ?_
      -- the context just written is another task's
      have hother : ∀ k < CTX_WORDS, a ≠ addr (L.ctx (.task bodies.length)) (8 * k) := by
        rintro k hk rfl
        exact hnew (ctx_task_disjoint (by omega) hlen ha ⟨k, hk, rfl⟩)
      rw [Function.update_of_ne (hother 0 (by decide)), Function.update_of_ne
        (hother 1 (by decide))]

/-- `task_create` for a list of at most `MAX_TASKS` bodies. -/
theorem createAll_created (h : Hart) (hlen : bodies.length ≤ MAX_TASKS) :
    Created L h bodies (bodies.foldl (taskCreate L) (Sys.init h)) := by
  induction bodies using List.reverseRecOn with
  | nil =>
      exact ⟨rfl, rfl, fun _ => rfl, fun _ => rfl, fun _ => rfl,
        fun i hi => absurd hi (Nat.not_lt_zero i), rfl, rfl, rfl, rfl⟩
  | append_singleton bs b ih =>
      rw [List.length_append, List.length_singleton] at hlen
      rw [List.foldl_append]
      exact taskCreate_created (by omega) (ih (by omega)) b

theorem Created.atHead {h : Hart} (hs : Created L h bodies s) :
    AtHead L own h.regs bodies 0 s := by
  obtain ⟨hresumes, htrace, hheads⟩ := hs.record
  have hzero : ∀ i, progress bodies 0 i = 0 := fun i => Nat.zero_min _
  refine ⟨⟨hs.bodies_eq, hs.numTasks, fun i => ?_, fun i hi => ?_, fun i hi => ?_, fun i hi => ?_,
    fun e he => ?_, ?_, fun r _ _ => ?_⟩, htrace, hheads⟩
  · rw [hzero]
    exact Nat.zero_le _
  · have hpos := segCount_pos hi
    rw [hs.states, hzero]
    constructor
    · intro hdone
      exact TaskState.noConfusion hdone
    · intro hcount
      omega
  · rw [hs.pos, hzero, posOf, List.getElem?_eq_getElem hi]
    rfl
  · rw [hs.left]
    exact hs.ctx i hi
  · rw [hresumes] at he
    exact absurd he List.not_mem_nil
  · rw [hresumes, htrace]
    rfl
  · rw [hs.regs]

theorem Returned.done {i : Nat} (hret : Returned L own regs₀ bodies s) (hi : i < bodies.length) :
    s.states i = .done := by
  rw [hret.inv.states i hi, progress]
  have hnot : ¬ rounds bodies < segCount bodies i := fun hlt =>
    lt_irrefl _ (lt_rounds_iff.mpr ⟨i, hi, hlt⟩)
  omega

/-- Every head of the outer loop but the last sees unfinished tasks, the last
one sees none. -/
theorem Returned.heads_split (hret : Returned L own regs₀ bodies s) :
    (∀ e ∈ s.heads.dropLast, 0 < e.2) ∧ s.heads.getLast? = some (0, 0) := by
  have hzero : unfinished bodies (progress bodies (rounds bodies)) = 0 := by
    have hpos : ¬ 0 < unfinished bodies (progress bodies (rounds bodies)) :=
      mt unfinished_progress_pos.mp (lt_irrefl _)
    omega
  rw [hret.heads, List.range_succ, List.map_append]
  refine ⟨fun e he => ?_, ?_⟩
  · rw [List.map_singleton, List.dropLast_concat] at he
    obtain ⟨k, hk, rfl⟩ := List.mem_map.mp he
    exact unfinished_progress_pos.mpr (List.mem_range.mp hk)
  · rw [List.map_singleton, List.getLast?_concat, hzero]
    rfl

/-- `sched_run` refines the round robin.  It returns; the segments run in the
order of the reference; whoever comes back from `swtch` finds its own `ra`, `sp`
and `s0`-`s11`; `remaining` is the number of unfinished tasks at every head of
the loop, which is left exactly at the first head without any; and the
callee-saved registers that the code of `sched_run` does not touch itself are
at its return as they were at its entry. -/
theorem schedRun_roundRobin (hL : L.Separate) (own : Nat → (Reg → Word) → Reg → Word)
    (bodies : List Body) (hlen : bodies.length ≤ MAX_TASKS) (h : Hart) {fuel : Nat}
    (hfuel : rounds bodies < fuel) :
    ∃ s, schedRun L own fuel (bodies.foldl (taskCreate L) (Sys.init h)) = some s ∧
      s.trace = reference bodies ∧
      (∀ e ∈ s.resumes, e.Good L) ∧
      s.resumes.map Resume.who = s.trace.flatMap (fun e => [.task e.1, .sched]) ∧
      (∀ e ∈ s.heads, e.1 = e.2) ∧
      (∀ e ∈ s.heads.dropLast, 0 < e.2) ∧ s.heads.getLast? = some (0, 0) ∧
      (∀ i < bodies.length, s.states i = .done) ∧
      (∀ r ∈ ctxRegs, (∀ k regs, own k regs r = regs r) → s.hart.regs r = h.regs r) := by
  have hcreated := createAll_created (L := L) h hlen
  have hstart : (bodies.foldl (taskCreate L) (Sys.init h)).numTasks =
      unfinished bodies (progress bodies 0) := by
    have hall : ∀ i < bodies.length, progress bodies 0 i < segCount bodies i := by
      intro i hi
      have hpos := segCount_pos hi
      rw [progress]
      omega
    rw [hcreated.numTasks, unfinished, Nat.count_iff_forall.mpr hall]
  have hhead : AtHead L own h.regs bodies 0 (bodies.foldl (taskCreate L) (Sys.init h)) :=
    hcreated.atHead
  obtain ⟨s, hloop, hret⟩ := whileLoop_returns hL hlen (by omega) hfuel hhead
  obtain ⟨hmore, hlast⟩ := hret.heads_split
  refine ⟨s, ?_, hret.trace, hret.inv.good, hret.inv.who, fun e he => ?_, hmore, hlast,
    fun i hi => hret.done hi, hret.inv.intact⟩
  · rw [schedRun, hstart, hloop, Option.map_some]
  · rw [hret.heads] at he
    obtain ⟨k, -, rfl⟩ := List.mem_map.mp he
    rfl

end Simulation

/-- A task table at the start of the data section, the scheduler's context
behind it. -/
def sampleLayout : Layout where
  tasks := 0x80010000
  schedCtx := 0x80014000
  trampoline := 0x80000100

/-- A segment that leaves `n` in every register and in all free memory. -/
def sampleSeg (n : Word) : Seg :=
  ⟨fun _ => n, fun _ => n⟩

/-- Two tasks, the first with one `sched_yield`. -/
def sampleBodies : List Body :=
  [⟨sampleSeg 1, [sampleSeg 2]⟩, ⟨sampleSeg 3, []⟩]

def sampleHart : Hart where
  regs := fun _ => 7
  csr := fun _ => 0
  mem := fun _ => 0
  time := 0
  cycle := 0
  pc := 0x80000200
  priv := .machine

theorem sampleLayout_separate : sampleLayout.Separate := by
  unfold Layout.Separate
  decide +kernel

theorem schedRun_roundRobin_sample :
    ∃ s, schedRun sampleLayout (fun _ regs => regs) 3
        (sampleBodies.foldl (taskCreate sampleLayout) (Sys.init sampleHart)) = some s ∧
      s.trace = [(0, 0), (1, 0), (0, 1)] ∧
      s.resumes.map Resume.who = [.task 0, .sched, .task 1, .sched, .task 0, .sched] ∧
      ∀ r ∈ ctxRegs, s.hart.regs r = 7 := by
  have hfuel : rounds sampleBodies < 3 := by decide
  obtain ⟨s, hrun, htrace, -, hwho, -, -, -, -, hintact⟩ :=
    schedRun_roundRobin sampleLayout_separate (fun _ regs => regs) sampleBodies (by decide)
      sampleHart hfuel
  have href : reference sampleBodies = [(0, 0), (1, 0), (0, 1)] := by decide
  rw [href] at htrace
  refine ⟨s, hrun, htrace, ?_, fun r hr => hintact r hr fun _ _ => rfl⟩
  rw [hwho, htrace]
  rfl

end Coop
end BareMetal
