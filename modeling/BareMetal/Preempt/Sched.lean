import BareMetal.Switch.TaskTable

/-!
# The preemptive scheduler on the machine timer

`src/preempt/psched.c` on top of the switch code of `src/preempt/trap.S`: the
static data, `ptask_create`, `timer_arm`, `preempt_init` and the C half
`ptrap_handler` of the trap handler.  The two exit stamps live in memory, since
the assembly writes them; all other statics are fields of `Globals`.

`clint_get_mtime` is read a varying number of times per call; its readings are
an input of each call, in order.
-/

namespace BareMetal
namespace Preempt

open Machine Switch

def MCAUSE_TIMER_IRQ : Word := 0x8000000000000007
def MIE_MTIE : Word := BitVec.twoPow 64 7
def MSTATUS_MIE : Word := BitVec.twoPow 64 3

/-- A running minimum, maximum and sum. -/
structure Stat where
  min : Word
  max : Word
  sum : Word

/-- The static initialiser of a statistic. -/
def Stat.empty : Stat :=
  ⟨~~~ 0, 0, 0⟩

/-- Account for one more value. -/
def Stat.add (st : Stat) (v : Word) : Stat where
  min := if v < st.min then v else st.min
  max := if st.max < v then v else st.max
  sum := st.sum + v

/-- The statics of `psched.c`. -/
structure Globals where
  table : Table
  current : Int
  gEntryCycles : Word
  gEntryMtime : Word
  havePrev : Bool
  ticks : Word
  done : Bool
  deadline : Word
  lat : Stat
  swc : Stat
  swt : Stat
  swn : Word

/-- The statics before `main`, with the tasks already created. -/
def Globals.init (table : Table) : Globals where
  table := table
  current := -1
  gEntryCycles := 0
  gEntryMtime := 0
  havePrev := false
  ticks := 0
  done := false
  deadline := 0
  lat := .empty
  swc := .empty
  swt := .empty
  swn := 0

/-- `timer_arm`, for the given readings of `mtime`. -/
def timerArm (g : Globals) (h : Hart) (readings : List Word) : Option (Globals × Hart) :=
  (nextDeadline readings).map fun deadline =>
    ({ g with deadline := deadline }, h.store CLINT_MTIMECMP deadline)

/-- `preempt_init`. -/
def preemptInit (L : Layout) (g : Globals) (h : Hart) (readings : List Word) :
    Option (Globals × Hart) :=
  let h := (h.setCsr .mtvec L.trapEntry).setCsr .mscratch L.schedTf
  let g := { g with ticks := 0, done := false, havePrev := false }
  (timerArm g h readings).map fun out =>
    let h := out.2.setCsr .mie (out.2.csr .mie ||| MIE_MTIE)
    (out.1, h.setCsr .mstatus (h.csr .mstatus ||| MSTATUS_MIE))

/-- `ptrap_handler` closes out the previous switch, whose exit stamps are now
in memory. -/
def closeSwitch (L : Layout) (g : Globals) (m : Mem) : Globals :=
  if g.havePrev then
    { g with
      swc := g.swc.add (m L.exitCycles - g.gEntryCycles)
      swt := g.swt.add (m L.exitMtime - g.gEntryMtime)
      swn := g.swn + 1 }
  else g

/-- `ptrap_handler` chooses the context to resume. -/
def chooseNext (g : Globals) : Option (Globals × Ctx) :=
  if N_TICKS ≤ g.ticks then
    some ({ g with done := true }, .boot)
  else
    (nextTask g.current g.table.nTasks).map fun next =>
      ({ g with current := next.1 }, next.2)

/-- `ptrap_handler`.  `none` when it parks itself on an unexpected trap, is
still in the loop of `timer_arm`, or divides by zero. -/
def ptrapHandler (L : Layout) (g : Globals) (h : Hart) (readings : List Word) :
    Option (Globals × Ctx × Hart) :=
  if h.csr .mcause ≠ MCAUSE_TIMER_IRQ then none
  else
    let old := h.regs .a0
    let g := { g with ticks := g.ticks + 1 }
    let g := { g with lat := g.lat.add (h.mem (addr old TF_MTIME) - g.deadline) }
    let g := closeSwitch L g h.mem
    (timerArm g h readings).bind fun armed =>
      (chooseNext armed.1).map fun next =>
        ({ next.1 with
            gEntryCycles := armed.2.mem (addr old TF_CYCLE)
            gEntryMtime := armed.2.mem (addr old TF_MTIME)
            havePrev := true },
          next.2, armed.2)

/-! ## What the handler does -/

section Handler

variable {L : Layout} {g : Globals} {h : Hart} {readings : List Word}

@[simp] theorem closeSwitch_ticks (m : Mem) : (closeSwitch L g m).ticks = g.ticks := by
  unfold closeSwitch
  split <;> rfl

@[simp] theorem closeSwitch_current (m : Mem) : (closeSwitch L g m).current = g.current := by
  unfold closeSwitch
  split <;> rfl

@[simp] theorem closeSwitch_table (m : Mem) : (closeSwitch L g m).table = g.table := by
  unfold closeSwitch
  split <;> rfl

/-- The part of the statics that decides which context runs. -/
structure Chosen (g g' : Globals) (c : Ctx) : Prop where
  table : g'.table = g.table
  ticks : g'.ticks = g.ticks + 1
  choice : (N_TICKS ≤ g.ticks + 1 ∧ g'.current = g.current ∧ c = .boot) ∨
    (g.ticks + 1 < N_TICKS ∧ nextTask g.current g.table.nTasks = some (g'.current, c))

theorem chooseNext_eq_some {out : Globals × Ctx} (hout : chooseNext g = some out) :
    out.1.table = g.table ∧ out.1.ticks = g.ticks ∧
      ((N_TICKS ≤ g.ticks ∧ out.1.current = g.current ∧ out.2 = .boot) ∨
        (g.ticks < N_TICKS ∧ nextTask g.current g.table.nTasks = some (out.1.current, out.2))) := by
  rw [chooseNext] at hout
  split at hout
  · next hquota =>
    obtain rfl := Option.some.inj hout
    exact ⟨rfl, rfl, Or.inl ⟨hquota, rfl, rfl⟩⟩
  · next hquota =>
    obtain ⟨next, hnext, rfl⟩ := Option.map_eq_some_iff.mp hout
    exact ⟨rfl, rfl, Or.inr ⟨BitVec.not_le.mp hquota, hnext⟩⟩

/-- A handler call that returns was made for a timer interrupt, stored nothing
but the compare register, and chose a context by the quota. -/
theorem ptrapHandler_eq_some {out : Globals × Ctx × Hart}
    (hout : ptrapHandler L g h readings = some out) :
    h.csr .mcause = MCAUSE_TIMER_IRQ ∧
      (∃ deadline, nextDeadline readings = some deadline ∧
        out.2.2 = h.store CLINT_MTIMECMP deadline) ∧
      Chosen g out.1 out.2.1 := by
  rw [ptrapHandler] at hout
  split at hout
  · cases hout
  · next hcause =>
    obtain ⟨armed, harmed, hrest⟩ := Option.bind_eq_some_iff.mp hout
    obtain ⟨deadline, hdeadline, rfl⟩ := Option.map_eq_some_iff.mp harmed
    obtain ⟨next, hnext, rfl⟩ := Option.map_eq_some_iff.mp hrest
    obtain ⟨htable, hticks, hchoice⟩ := chooseNext_eq_some hnext
    simp only [closeSwitch_table, closeSwitch_ticks, closeSwitch_current] at htable hticks hchoice
    exact ⟨not_not.mp hcause, ⟨deadline, hdeadline, rfl⟩, ⟨htable, hticks, hchoice⟩⟩

/-- The handler returns from every timer interrupt whose `timer_arm` leaves its
loop. -/
theorem ptrapHandler_isSome (hcause : h.csr .mcause = MCAUSE_TIMER_IRQ)
    (harm : (nextDeadline readings).isSome)
    (hnext : (nextTask g.current g.table.nTasks).isSome) :
    (ptrapHandler L g h readings).isSome := by
  obtain ⟨deadline, hdeadline⟩ := Option.isSome_iff_exists.mp harm
  obtain ⟨next, hnext⟩ := Option.isSome_iff_exists.mp hnext
  rw [ptrapHandler, if_neg (not_not.mpr hcause)]
  simp only [timerArm, hdeadline, Option.map_some, Option.bind_some, Option.isSome_map]
  rw [chooseNext]
  split
  · rfl
  · simp only [closeSwitch_table, closeSwitch_current, hnext, Option.map_some,
      Option.isSome_some]

end Handler

/-! ## The scheduler as a switcher -/

/-- The scheduler on the switch code of `trap.S`, with the M-mode registers. -/
def switcher (L : Layout) : Switcher Globals Ctx (List Word) where
  code := L.switchCode .mscratch .mepc (by decide)
  entryPc := L.trapEntry
  frame := L.frame
  trap := fun h => h.trapM MCAUSE_TIMER_IRQ
  ret := Hart.mret
  handler := ptrapHandler L

/-- The trap vector is the entry of the switch code. -/
def Installed (L : Layout) (h : Hart) : Prop :=
  h.csr .mtvec = L.trapEntry

theorem lawful {L : Layout} (hL : L.Separate) : (switcher L).Lawful (Installed L) where
  frames_separate := hL.frames
  exitCycles_free := hL.exitCycles
  exitMtime_free := hL.exitMtime
  trap_regs := fun _ => rfl
  trap_mem := fun _ => rfl
  trap_scratch := fun _ => rfl
  trap_epc := fun _ => rfl
  trap_pc := fun {h} hok => by
    show tvecTarget (h.csr .mtvec) MCAUSE_TIMER_IRQ = L.trapEntry
    rw [hok, tvecTarget_direct hL.aligned]
  ret_regs := fun _ => rfl
  ret_mem := fun _ => rfl
  ret_scratch := fun _ => rfl
  ret_pc := fun _ => rfl
  ok_congr := fun {h h'} hok hsame => by
    show h'.csr .mtvec = L.trapEntry
    have hscratch : Csr.mtvec ≠ Csr.mscratch := by decide
    have hepc : Csr.mtvec ≠ Csr.mepc := by decide
    rw [hsame .mtvec hscratch hepc]
    exact hok
  trap_ok := fun hok => hok
  ret_ok := fun hok => hok
  handler_ok := fun {g h e out} hok hout => by
    obtain ⟨-, ⟨deadline, -, hhart⟩, -⟩ := ptrapHandler_eq_some hout
    show out.2.2.csr .mtvec = L.trapEntry
    rw [hhart]
    exact hok
  handler_frames := fun {g h e out} _ hout c a ha => by
    obtain ⟨-, ⟨deadline, -, hhart⟩, -⟩ := ptrapHandler_eq_some hout
    have hne : a ≠ CLINT_MTIMECMP := by
      rintro rfl
      exact hL.mtimecmp c ha
    rw [hhart, Hart.store_mem, Function.update_of_ne hne]

/-- A tick resumes the context the handler chose. -/
theorem tick_chosen {L : Layout} {s s' : State Globals Ctx} {t : Tick (List Word)}
    (htick : (switcher L).tick s t = some s') : Chosen s.g s'.g s'.running := by
  obtain ⟨out, hout, hg, hrunning, -⟩ := (switcher L).tick_eq_some htick
  have hhandler : ptrapHandler L s.g ((switcher L).entered s.hart t) t.env = some out := hout
  rw [hg, hrunning]
  exact (ptrapHandler_eq_some hhandler).2.2

/-- The machine when `preempt_init` returns: tasks created, timer armed,
nothing interrupted yet. -/
def start (L : Layout) (fns : List Word) (h : Hart) (readings : List Word) :
    Option (State Globals Ctx) :=
  let created := L.createAll fns h.mem
  (preemptInit L (Globals.init created.1) { h with mem := created.2 } readings).map fun out =>
    { g := out.1, hart := out.2, running := .boot, last := fun _ => none, resumed := [] }

/-- The state `preempt_init` leaves behind. -/
theorem start_eq_some {L : Layout} {fns : List Word} {h : Hart} {readings : List Word}
    {s : State Globals Ctx} (hs : start L fns h readings = some s) :
    ∃ deadline, nextDeadline readings = some deadline ∧
      s.hart.mem = Function.update (L.createAll fns h.mem).2 CLINT_MTIMECMP deadline ∧
      s.hart.csr .mtvec = L.trapEntry ∧ s.hart.csr .mscratch = L.schedTf ∧
      s.g.table = (L.createAll fns h.mem).1 ∧ s.g.current = -1 ∧ s.g.ticks = 0 ∧
      s.running = .boot ∧ (∀ c, s.last c = none) ∧ s.resumed = [] := by
  obtain ⟨out, hout, rfl⟩ := Option.map_eq_some_iff.mp hs
  obtain ⟨armed, harmed, rfl⟩ := Option.map_eq_some_iff.mp hout
  obtain ⟨deadline, hdeadline, rfl⟩ := Option.map_eq_some_iff.mp harmed
  exact ⟨deadline, hdeadline, rfl, rfl, rfl, rfl, rfl, rfl, rfl, fun _ => rfl, rfl⟩

/-- The switch invariant holds when `preempt_init` returns. -/
theorem start_inv {L : Layout} (hL : L.Separate) {fns : List Word} {h : Hart}
    {readings : List Word} {s : State Globals Ctx} (hs : start L fns h readings = some s) :
    Inv (switcher L) (Installed L) (L.fresh s.g.table.nTasks) s := by
  obtain ⟨deadline, -, hmem, hmtvec, hscratch, htable, -, -, hrunning, hlast, -⟩ :=
    start_eq_some hs
  have hheld : ∀ c, held (L.fresh s.g.table.nTasks) s.last c = L.fresh s.g.table.nTasks c := by
    intro c
    rw [held, hlast c]
  refine ⟨hmtvec, ?_, fun {c snap} hc => ?_, fun {snap} hc => ?_⟩
  · rw [hrunning]
    exact hscratch
  · rw [hheld, htable] at hc
    refine ((Layout.createAll_created hL fns h.mem).frames hc).congr fun a ha => ?_
    have hne : a ≠ CLINT_MTIMECMP := by
      rintro rfl
      exact hL.mtimecmp c ha
    rw [hmem, Function.update_of_ne hne]
  · rw [hheld, hrunning] at hc
    cases hc

end Preempt
end BareMetal
