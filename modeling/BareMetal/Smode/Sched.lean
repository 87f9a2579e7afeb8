import BareMetal.Smode.Pending

/-!
# The smode scheduler

`src/smode/ssched.c` on top of the switch code of `src/smode/strap.S`, in both
builds: in S-mode on the delegated supervisor timer interrupt (`smode = true`)
and in M-mode on the machine timer interrupt (`smode = false`).

In the S-mode build without Sstc the C handler itself traps into M-mode to
rearm the timer, while the interrupted context sits in its trapframe.
-/

namespace BareMetal
namespace Smode

open Machine Switch

/-! ## The trap registers of the two builds -/

section Builds

variable (smode : Bool)

def scratchCsr : Csr := if smode then .sscratch else .mscratch
def epcCsr : Csr := if smode then .sepc else .mepc
def causeCsr : Csr := if smode then .scause else .mcause
def tvecCsr : Csr := if smode then .stvec else .mtvec

def CAUSE_TIMER_IRQ : Word :=
  if smode then 0x8000000000000005 else 0x8000000000000007

def IE_TIE : Word := if smode then BitVec.twoPow 64 5 else BitVec.twoPow 64 7
def STATUS_IE : Word := if smode then BitVec.twoPow 64 1 else BitVec.twoPow 64 3

theorem scratchCsr_ne_epcCsr : scratchCsr smode ≠ epcCsr smode := by
  cases smode <;> decide

/-- The timer interrupt of the build. -/
def trapIn (h : Hart) : Hart :=
  if smode then h.trapS (CAUSE_TIMER_IRQ smode) else h.trapM (CAUSE_TIMER_IRQ smode)

/-- `sret` or `mret`. -/
def trapReturn (h : Hart) : Hart :=
  if smode then h.sret else h.mret

end Builds

/-! ## The C half -/

/-- The statics of `ssched.c` and `stimer.c`. -/
structure Globals where
  table : Table
  current : Int
  gEntryCycles : Word
  gEntryMtime : Word
  havePrev : Bool
  ticks : Word
  done : Bool
  lat : Word → Word
  swc : Word → Word
  swt : Word → Word
  swn : Word
  timer : Timer

/-- The statics before `main`, with the tasks already created. -/
def Globals.init (table : Table) (useSstc : Bool) : Globals where
  table := table
  current := -1
  gEntryCycles := 0
  gEntryMtime := 0
  havePrev := false
  ticks := 0
  done := false
  lat := fun _ => 0
  swc := fun _ => 0
  swt := fun _ => 0
  swn := 0
  timer := ⟨useSstc, 0⟩

/-- `sched_init`. -/
def schedInit (im : Image) (smode : Bool) (g : Globals) (h : Hart) (env : Env) :
    Option (Globals × Hart) :=
  let h := (h.setCsr (tvecCsr smode) im.trapEntry).setCsr (scratchCsr smode) im.schedTf
  let g := { g with ticks := 0, done := false, havePrev := false, swn := 0 }
  (stimerArm im smode g.timer h env).map fun armed =>
    let h := armed.2.setCsr .mie (armed.2.csr .mie ||| IE_TIE smode)
    ({ g with timer := armed.1 }, h.setCsr .mstatus (h.csr .mstatus ||| STATUS_IE smode))

/-- `strap_handler` stores the cost of the previous switch, whose exit stamps
are now in memory. -/
def closeSwitch (im : Image) (g : Globals) (m : Mem) : Globals :=
  if g.havePrev then
    { g with
      swc := Function.update g.swc g.swn (m im.exitCycles - g.gEntryCycles)
      swt := Function.update g.swt g.swn (m im.exitMtime - g.gEntryMtime)
      swn := g.swn + 1 }
  else g

/-- `strap_handler` ends the run: disarm the timer, resume the boot context. -/
def finish (im : Image) (smode : Bool) (g : Globals) (h : Hart) (env : Env) :
    Option (Globals × Ctx × Hart) :=
  (stimerDisarm im smode g.timer h env).map fun off =>
    ({ g with timer := off.1, done := true }, .boot, off.2)

/-- `strap_handler` rearms the timer and goes on to the next task. -/
def goOn (im : Image) (smode : Bool) (g : Globals) (h : Hart) (env : Env) :
    Option (Globals × Ctx × Hart) :=
  (stimerArm im smode g.timer h env).bind fun armed =>
    (nextTask g.current g.table.nTasks).map fun next =>
      ({ g with timer := armed.1, current := next.1 }, next.2, armed.2)

/-- `strap_handler`.  `none` when it parks itself on an unexpected trap, does
not come back from the timer code, or divides by zero. -/
def strapHandler (im : Image) (smode : Bool) (g : Globals) (h : Hart) (env : Env) :
    Option (Globals × Ctx × Hart) :=
  if h.csr (causeCsr smode) ≠ CAUSE_TIMER_IRQ smode then none
  else if N_TICKS ≤ g.ticks then finish im smode g h env
  else
    let old := h.regs .a0
    let g := { g with
      lat := Function.update g.lat g.ticks (h.mem (addr old TF_MTIME) - g.timer.deadline) }
    let g := closeSwitch im g h.mem
    let g := { g with ticks := g.ticks + 1 }
    let out := if N_TICKS ≤ g.ticks then finish im smode g h env else goOn im smode g h env
    out.map fun next =>
      ({ next.1 with
          gEntryCycles := next.2.2.mem (addr old TF_CYCLE)
          gEntryMtime := next.2.2.mem (addr old TF_MTIME)
          havePrev := true },
        next.2)

/-! ## What the handler does -/

section Handler

variable {im : Image} {smode : Bool} {g : Globals} {h : Hart} {env : Env}

theorem closeSwitch_same (im : Image) (g : Globals) (m : Mem) :
    (closeSwitch im g m).table = g.table ∧ (closeSwitch im g m).current = g.current ∧
      (closeSwitch im g m).ticks = g.ticks ∧ (closeSwitch im g m).timer = g.timer := by
  unfold closeSwitch
  split
  · exact ⟨rfl, rfl, rfl, rfl⟩
  · exact ⟨rfl, rfl, rfl, rfl⟩

/-- The part of the statics that decides which context runs. -/
structure Chosen (g g' : Globals) (c : Ctx) : Prop where
  table : g'.table = g.table
  useSstc : g'.timer.useSstc = g.timer.useSstc
  choice : (N_TICKS ≤ g.ticks ∧ g'.ticks = g.ticks ∧ g'.current = g.current ∧ c = .boot) ∨
    (g.ticks < N_TICKS ∧ g'.ticks = g.ticks + 1 ∧
      ((N_TICKS ≤ g.ticks + 1 ∧ g'.current = g.current ∧ c = .boot) ∨
        (g.ticks + 1 < N_TICKS ∧ nextTask g.current g.table.nTasks = some (g'.current, c))))

/-- A handler call that returns was made for the timer interrupt, touched the
hart only to program a comparator, and chose a context by the quota. -/
structure Handled (im : Image) (smode : Bool) (g : Globals) (h : Hart) (env : Env)
    (out : Globals × Ctx × Hart) : Prop where
  cause : h.csr (causeCsr smode) = CAUSE_TIMER_IRQ smode
  programmed : ∃ deadline, program im smode g.timer.useSstc h env deadline = some out.2.2
  chosen : Chosen g out.1 out.2.1

theorem finish_eq_some {out : Globals × Ctx × Hart} (hout : finish im smode g h env = some out) :
    (∃ deadline, program im smode g.timer.useSstc h env deadline = some out.2.2) ∧
      out.1.table = g.table ∧ out.1.timer.useSstc = g.timer.useSstc ∧
      out.1.ticks = g.ticks ∧ out.1.current = g.current ∧ out.2.1 = .boot := by
  obtain ⟨off, hoff, rfl⟩ := Option.map_eq_some_iff.mp hout
  obtain ⟨h', hprog, rfl⟩ := Option.map_eq_some_iff.mp hoff
  exact ⟨⟨_, hprog⟩, rfl, rfl, rfl, rfl, rfl⟩

theorem goOn_eq_some {out : Globals × Ctx × Hart} (hout : goOn im smode g h env = some out) :
    (∃ deadline, program im smode g.timer.useSstc h env deadline = some out.2.2) ∧
      out.1.table = g.table ∧ out.1.timer.useSstc = g.timer.useSstc ∧
      out.1.ticks = g.ticks ∧
      nextTask g.current g.table.nTasks = some (out.1.current, out.2.1) := by
  obtain ⟨armed, harmed, hrest⟩ := Option.bind_eq_some_iff.mp hout
  obtain ⟨next, hnext, rfl⟩ := Option.map_eq_some_iff.mp hrest
  obtain ⟨deadline, -, hmap⟩ := Option.bind_eq_some_iff.mp harmed
  obtain ⟨h', hprog, rfl⟩ := Option.map_eq_some_iff.mp hmap
  exact ⟨⟨deadline, hprog⟩, rfl, rfl, rfl, hnext⟩

theorem strapHandler_eq_some {out : Globals × Ctx × Hart}
    (hout : strapHandler im smode g h env = some out) : Handled im smode g h env out := by
  rw [strapHandler] at hout
  split at hout
  · cases hout
  next hcause =>
    split at hout
    · next hquota =>
      obtain ⟨hprog, htable, huse, hticks, hcurrent, hboot⟩ := finish_eq_some hout
      exact ⟨not_not.mp hcause, hprog, htable, huse, Or.inl ⟨hquota, hticks, hcurrent, hboot⟩⟩
    · next hquota =>
      have hlt : g.ticks < N_TICKS := BitVec.not_le.mp hquota
      obtain ⟨next, hnext, rfl⟩ := Option.map_eq_some_iff.mp hout
      obtain ⟨htable', hcurrent', hticks', htimer'⟩ :=
        closeSwitch_same im { g with
          lat := Function.update g.lat g.ticks
            (h.mem (addr (h.regs .a0) TF_MTIME) - g.timer.deadline) } h.mem
      split at hnext
      · next hlast =>
        obtain ⟨hprog, htable, huse, hticks, hcurrent, hboot⟩ := finish_eq_some hnext
        rw [hticks'] at hlast
        rw [htimer'] at hprog huse
        refine ⟨not_not.mp hcause, hprog, htable.trans htable', huse,
          Or.inr ⟨hlt, ?_, Or.inl ⟨hlast, hcurrent.trans hcurrent', hboot⟩⟩⟩
        rw [hticks, hticks']
      · next hmore =>
        obtain ⟨hprog, htable, huse, hticks, hstep⟩ := goOn_eq_some hnext
        rw [hticks'] at hmore
        rw [htimer'] at hprog huse
        rw [hcurrent', htable'] at hstep
        refine ⟨not_not.mp hcause, hprog, htable.trans htable', huse,
          Or.inr ⟨hlt, ?_, Or.inr ⟨BitVec.not_le.mp hmore, hstep⟩⟩⟩
        rw [hticks, hticks']

/-- Where the timer code comes back, the handler returns. -/
theorem strapHandler_isSome (hcause : h.csr (causeCsr smode) = CAUSE_TIMER_IRQ smode)
    (hprog : ∀ deadline, (program im smode g.timer.useSstc h env deadline).isSome)
    (harm : (nextDeadline env.readings).isSome)
    (hnext : (nextTask g.current g.table.nTasks).isSome) :
    (strapHandler im smode g h env).isSome := by
  have hfinish : ∀ g' : Globals, g'.timer = g.timer → (finish im smode g' h env).isSome := by
    intro g' htimer
    simp only [finish, stimerDisarm, Option.isSome_map, htimer, hprog]
  have hgoOn : ∀ g' : Globals, g'.timer = g.timer → g'.current = g.current →
      g'.table = g.table → (goOn im smode g' h env).isSome := by
    intro g' htimer hcurrent htable
    obtain ⟨deadline, hdeadline⟩ := Option.isSome_iff_exists.mp harm
    obtain ⟨h', hh'⟩ := Option.isSome_iff_exists.mp (hprog deadline)
    obtain ⟨next, hnext'⟩ := Option.isSome_iff_exists.mp hnext
    simp only [goOn, stimerArm, hdeadline, Option.bind_some, htimer, hh', Option.map_some,
      hcurrent, htable, hnext', Option.isSome_some]
  obtain ⟨htable', hcurrent', -, htimer'⟩ :=
    closeSwitch_same im { g with
      lat := Function.update g.lat g.ticks
        (h.mem (addr (h.regs .a0) TF_MTIME) - g.timer.deadline) } h.mem
  rw [strapHandler, if_neg (not_not.mpr hcause)]
  split
  · exact hfinish g rfl
  · simp only [Option.isSome_map]
    split
    · exact hfinish _ htimer'
    · exact hgoOn _ htimer' hcurrent' htable'

end Handler

/-! ## The scheduler as a switcher -/

/-- The scheduler on the switch code of `strap.S`, with the registers of the
build. -/
def switcher (im : Image) (smode : Bool) : Switcher Globals Ctx Env where
  code := im.switchCode (scratchCsr smode) (epcCsr smode) (scratchCsr_ne_epcCsr smode)
  entryPc := im.trapEntry
  frame := im.frame
  trap := trapIn smode
  ret := trapReturn smode
  handler := strapHandler im smode

/-- The trap vector is the entry of the switch code, and in the S-mode build
the M-mode service is set up. -/
structure Installed (im : Image) (smode : Bool) (h : Hart) : Prop where
  tvec : h.csr (tvecCsr smode) = im.trapEntry
  service : smode = true → Serviceable im h

/-- The control registers `Installed` speaks of. -/
def setupCsr (smode : Bool) : Csr → Bool
  | .stvec | .medeleg => smode
  | .mscratch => smode
  | .mtvec => true
  | _ => false

theorem Installed.congr {im : Image} {smode : Bool} {h h' : Hart} (hok : Installed im smode h)
    (hsame : ∀ k, setupCsr smode k = true → h'.csr k = h.csr k) : Installed im smode h' := by
  cases smode with
  | false =>
      refine ⟨?_, fun hfalse => by cases hfalse⟩
      show h'.csr .mtvec = im.trapEntry
      rw [hsame .mtvec rfl]
      exact hok.tvec
  | true =>
      have hservice := hok.service rfl
      refine ⟨?_, fun _ => ⟨?_, ?_, ?_⟩⟩
      · show h'.csr .stvec = im.trapEntry
        rw [hsame .stvec rfl]
        exact hok.tvec
      · rw [hsame .mscratch rfl]
        exact hservice.mscratch
      · rw [hsame .mtvec rfl]
        exact hservice.mtvec
      · rw [hsame .medeleg rfl]
        exact hservice.medeleg

/-- Programming a comparator writes to no trapframe and leaves the trap setup
alone. -/
theorem program_keeps {im : Image} (him : im.Separate) {smode useSstc : Bool} {h h' : Hart}
    {env : Env} {deadline : Word} (hok : Installed im smode h)
    (hprog : program im smode useSstc h env deadline = some h') :
    Installed im smode h' ∧ h'.csr (scratchCsr smode) = h.csr (scratchCsr smode) ∧
      ∀ c a, InArea (im.frame c) TF_WORDS a → h'.mem a = h.mem a := by
  have hcmp : ∀ c a, InArea (im.frame c) TF_WORDS a → a ≠ CLINT_MTIMECMP := by
    rintro c a ha rfl
    exact him.layout.mtimecmp c ha
  cases smode with
  | false =>
      -- a plain store to the compare register
      obtain rfl : h.store CLINT_MTIMECMP deadline = h' := Option.some.inj hprog
      refine ⟨hok.congr fun _ _ => rfl, rfl, fun c a ha => ?_⟩
      rw [Hart.store_mem, Function.update_of_ne (hcmp c a ha)]
  | true =>
      cases useSstc with
      | true =>
          obtain rfl : h.setCsr .stimecmp deadline = h' := Option.some.inj hprog
          refine ⟨hok.congr fun k hk => ?_, rfl, fun _ _ _ => rfl⟩
          have hne : k ≠ .stimecmp := by
            rintro rfl
            cases hk
          rw [Hart.setCsr_csr, Function.update_of_ne hne]
      | false =>
          -- the nested trap uses its own stack and the M-mode trap registers
          have hcall : ecallRearm im h env deadline = some h' := hprog
          have hre := ecallRearm_eq_some him (hok.service rfl) hcall
          refine ⟨hok.congr fun k hk => hre.csr k ?_, hre.csr .sscratch rfl, fun c a ha => ?_⟩
          · cases k <;> first | rfl | cases hk
          · refine hre.mem a (hcmp c a ha) ?_
            rintro ⟨k, hk, rfl⟩
            exact him.mFrame c k hk ha

theorem program_isSome {im : Image} (him : im.Separate) {smode : Bool} {h : Hart}
    (hok : Installed im smode h) (hpriv : smode = true → h.priv = .supervisor) (useSstc : Bool)
    (env : Env) (deadline : Word) : (program im smode useSstc h env deadline).isSome := by
  cases smode with
  | false => rfl
  | true =>
      cases useSstc with
      | true => rfl
      | false =>
          obtain ⟨h', hcall, -⟩ :=
            ecallRearm_returns him (hok.service rfl) (hpriv rfl) env deadline
          exact Option.isSome_iff_exists.mpr ⟨h', hcall⟩

theorem lawful {im : Image} (him : im.Separate) (smode : Bool) :
    (switcher im smode).Lawful (Installed im smode) where
  frames_separate := him.layout.frames
  exitCycles_free := him.layout.exitCycles
  exitMtime_free := him.layout.exitMtime
  trap_regs := fun _ => by cases smode <;> rfl
  trap_mem := fun _ => by cases smode <;> rfl
  trap_scratch := fun _ => by cases smode <;> rfl
  trap_epc := fun _ => by cases smode <;> rfl
  trap_pc := fun {h} hok => by
    have htarget : (trapIn smode h).pc =
        tvecTarget (h.csr (tvecCsr smode)) (CAUSE_TIMER_IRQ smode) := by
      cases smode <;> rfl
    show (trapIn smode h).pc = im.trapEntry
    rw [htarget, hok.tvec, tvecTarget_direct him.layout.aligned]
  ret_regs := fun _ => by cases smode <;> rfl
  ret_mem := fun _ => by cases smode <;> rfl
  ret_scratch := fun _ => by cases smode <;> rfl
  ret_pc := fun _ => by cases smode <;> rfl
  ok_congr := fun {h h'} hok hsame => hok.congr fun k hk => by
    apply hsame
    · rintro rfl
      cases smode <;> cases hk
    · rintro rfl
      cases smode <;> cases hk
  trap_ok := fun {h} hok => hok.congr fun k hk => by
    cases smode <;> cases k <;> first | rfl | cases hk
  ret_ok := fun {h} hok => hok.congr fun k hk => by
    cases smode <;> cases k <;> first | rfl | cases hk
  handler_ok := fun {g h e out} hok hout => by
    obtain ⟨-, ⟨deadline, hprog⟩, -⟩ := strapHandler_eq_some hout
    exact (program_keeps him hok hprog).1
  handler_frames := fun {g h e out} hok hout => by
    obtain ⟨-, ⟨deadline, hprog⟩, -⟩ := strapHandler_eq_some hout
    exact (program_keeps him hok hprog).2.2

/-- A tick resumes the context the handler chose. -/
theorem tick_chosen {im : Image} {smode : Bool} {s s' : State Globals Ctx} {t : Tick Env}
    (htick : (switcher im smode).tick s t = some s') : Chosen s.g s'.g s'.running := by
  obtain ⟨out, hout, hg, hrunning, -⟩ := (switcher im smode).tick_eq_some htick
  have hhandler : strapHandler im smode s.g ((switcher im smode).entered s.hart t) t.env
      = some out := hout
  rw [hg, hrunning]
  exact (strapHandler_eq_some hhandler).chosen

/-- `m_boot` of the build: the M-mode baseline has an empty one. -/
def bootOf (im : Image) (smode hasSstc : Bool) (h : Hart) : Bool × Hart :=
  if smode then mBoot im hasSstc h else (false, h)

/-- The machine when `sched_init` returns: booted, tasks created, timer armed,
nothing interrupted yet. -/
def start (im : Image) (smode hasSstc : Bool) (fns : List Word) (h : Hart) (env : Env) :
    Option (State Globals Ctx) :=
  let booted := bootOf im smode hasSstc h
  let created := im.createAll fns booted.2.mem
  (schedInit im smode (Globals.init created.1 booted.1) { booted.2 with mem := created.2 }
    env).map fun out =>
      { g := out.1, hart := out.2, running := .boot, last := fun _ => none, resumed := [] }

/-- The hart when `sched_init` arms the timer. -/
theorem installed_before_arm (im : Image) (smode hasSstc : Bool) (h : Hart) (m : Mem) :
    Installed im smode
      ((({ (bootOf im smode hasSstc h).2 with mem := m } : Hart).setCsr (tvecCsr smode)
        im.trapEntry).setCsr (scratchCsr smode) im.schedTf) := by
  cases smode with
  | false => exact ⟨rfl, fun hfalse => by cases hfalse⟩
  | true =>
      have hboot := (mBoot_effect im hasSstc h).2
      rw [show bootOf im true hasSstc h = mBoot im hasSstc h from rfl]
      generalize (mBoot im hasSstc h).2 = b at hboot
      refine ⟨rfl, fun _ => ⟨hboot.mscratch, hboot.mtvec, ?_⟩⟩
      show (b.csr .medeleg).getLsbD 9 = false
      rw [hboot.medeleg]
      decide

/-- The state `sched_init` leaves behind. -/
structure Started (im : Image) (smode hasSstc : Bool) (fns : List Word) (h : Hart)
    (s : State Globals Ctx) : Prop where
  installed : Installed im smode s.hart
  scratch : s.hart.csr (scratchCsr smode) = im.schedTf
  frames : ∀ c a, InArea (im.frame c) TF_WORDS a →
    s.hart.mem a = (im.createAll fns (bootOf im smode hasSstc h).2.mem).2 a
  table : s.g.table = (im.createAll fns (bootOf im smode hasSstc h).2.mem).1
  current : s.g.current = -1
  ticks : s.g.ticks = 0
  running : s.running = .boot
  last : ∀ c, s.last c = none
  resumed : s.resumed = []

theorem start_eq_some {im : Image} (him : im.Separate) {smode hasSstc : Bool} {fns : List Word}
    {h : Hart} {env : Env} {s : State Globals Ctx}
    (hs : start im smode hasSstc fns h env = some s) : Started im smode hasSstc fns h s := by
  obtain ⟨out, hout, rfl⟩ := Option.map_eq_some_iff.mp hs
  obtain ⟨armed, harmed, rfl⟩ := Option.map_eq_some_iff.mp hout
  obtain ⟨deadline, -, hmap⟩ := Option.bind_eq_some_iff.mp harmed
  obtain ⟨h', hprog, rfl⟩ := Option.map_eq_some_iff.mp hmap
  obtain ⟨hok, hscratch, hframes⟩ :=
    program_keeps him (installed_before_arm im smode hasSstc h _) hprog
  refine ⟨hok.congr fun k hk => ?_, ?_, hframes, rfl, rfl, rfl, rfl, fun _ => rfl, rfl⟩
  · -- enabling the interrupt touches `mie` and `mstatus` only
    cases smode <;> cases k <;> first | rfl | cases hk
  · have hset : (scratchCsr smode) ≠ .mie ∧ scratchCsr smode ≠ .mstatus := by
      cases smode <;> decide
    show Function.update (Function.update h'.csr .mie _) .mstatus _ (scratchCsr smode) = _
    rw [Function.update_of_ne hset.2, Function.update_of_ne hset.1, hscratch,
      Hart.setCsr_csr, Function.update_self]

/-- The switch invariant holds when `sched_init` returns. -/
theorem start_inv {im : Image} (him : im.Separate) {smode hasSstc : Bool} {fns : List Word}
    {h : Hart} {env : Env} {s : State Globals Ctx}
    (hs : start im smode hasSstc fns h env = some s) :
    Inv (switcher im smode) (Installed im smode) (im.fresh s.g.table.nTasks) s := by
  have hst := start_eq_some him hs
  have hheld : ∀ c, held (im.fresh s.g.table.nTasks) s.last c = im.fresh s.g.table.nTasks c := by
    intro c
    rw [held, hst.last c]
  refine ⟨hst.installed, ?_, fun {c snap} hc => ?_, fun {snap} hc => ?_⟩
  · rw [hst.running]
    exact hst.scratch
  · rw [hheld, hst.table] at hc
    exact ((Layout.createAll_created him.layout fns _).frames hc).congr (hst.frames c)
  · rw [hheld, hst.running] at hc
    cases hc

end Smode
end BareMetal
