import BareMetal.Switch.Frame
import BareMetal.Machine.Runs

/-!
# Runs of a scheduler built on the context switch

A scheduler adds to the switch code a family of contexts with one trapframe
each, and a C handler that picks the context to resume.  A run is a list of
ticks.  Between two ticks the running context executes arbitrary code of its
own: any registers, any pc and any memory outside the switch's objects.

Along a run the state records, for every context, the register file and pc it
was last interrupted with (`last`) and the contexts resumed so far
(`resumed`).  The code never reads these two fields.

`Inv` relates the trapframes to that record.  `transparent_iff` is what the
switch code makes of it: a resumed context finds everything as it was, except
`t1`, which holds the cycle stamp of its last trap entry.
-/

namespace BareMetal
namespace Switch

open Machine

variable {G C E : Type*}

/-- What a scheduler adds to the switch code. -/
structure Switcher (G C E : Type*) where
  code : SwitchCode
  /-- address of the entry half -/
  entryPc : Word
  /-- the trapframe of a context -/
  frame : C → Word
  /-- the timer trap and the trap return of the mode the scheduler runs in -/
  trap : Hart → Hart
  ret : Hart → Hart
  /-- the C handler, up to its return: the new globals, the context whose
  frame it returns, and its effect on the hart; `none` when it never returns -/
  handler : G → Hart → E → Option (G × C × Hart)

/-- One tick: where it interrupts the running context, what the counters read
on the way in and out, and what the compiled handler reads and leaves. -/
structure Tick (E : Type*) where
  regs : Reg → Word
  pc : Word
  mem : Mem
  entryTime : Word
  entryCycle : Word
  exitTime : Word
  exitCycle : Word
  env : E
  clobber : Reg → Word

/-- A context as it was interrupted, and the cycle count the trap entry read. -/
structure Interrupted where
  snap : Snap
  cycle : Word

/-- The context the entry half leaves in the frame. -/
def Interrupted.saved (i : Interrupted) : Snap :=
  ⟨Function.update i.snap.regs .t1 i.cycle, i.snap.pc⟩

/-- The machine between two ticks. -/
structure State (G C : Type*) where
  g : G
  hart : Hart
  running : C
  last : C → Option Interrupted
  resumed : List C

namespace Switcher

variable (W : Switcher G C E)

/-- The words interrupted code does not write: trapframes and exit stamps. -/
def Kept (a : Word) : Prop :=
  (∃ c, InArea (W.frame c) TF_WORDS a) ∨ a = W.code.exitCycles ∨ a = W.code.exitMtime

instance [Fintype C] (a : Word) : Decidable (W.Kept a) :=
  inferInstanceAs (Decidable ((∃ c, InArea (W.frame c) TF_WORDS a) ∨
    a = W.code.exitCycles ∨ a = W.code.exitMtime))

variable [Fintype C]

/-- The hart when the interrupt arrives. -/
def live (h : Hart) (t : Tick E) : Hart :=
  { h.clobberMem W.Kept t.mem with regs := t.regs, pc := t.pc }

/-- The hart when the C handler is called. -/
def entered (h : Hart) (t : Tick E) : Hart :=
  run W.code.entry ((W.trap (W.live h t)).stamp t.entryTime t.entryCycle)

/-- The hart after the exit half and the trap return, given the handler's. -/
def left (h : Hart) (c : C) (t : Tick E) : Hart :=
  W.ret (run W.code.exit ((h.callC t.clobber (W.frame c)).stamp t.exitTime t.exitCycle))

/-- One tick.  `none` when the trap does not enter the switch code or the
handler does not return. -/
def tick [DecidableEq C] (s : State G C) (t : Tick E) : Option (State G C) :=
  if (W.trap (W.live s.hart t)).pc = W.entryPc then
    (W.handler s.g (W.entered s.hart t) t.env).map fun out =>
      { g := out.1
        hart := W.left out.2.2 out.2.1 t
        running := out.2.1
        last := Function.update s.last s.running (some ⟨⟨t.regs, t.pc⟩, t.entryCycle⟩)
        resumed := s.resumed ++ [out.2.1] }
  else none

/-- Everything a tick does: the handler ran on the entered hart and returned
the resumed context. -/
theorem tick_eq_some [DecidableEq C] {s s' : State G C} {t : Tick E} (h : W.tick s t = some s') :
    ∃ out, W.handler s.g (W.entered s.hart t) t.env = some out ∧
      s'.g = out.1 ∧ s'.running = out.2.1 ∧ s'.hart = W.left out.2.2 out.2.1 t ∧
      s'.last = Function.update s.last s.running (some ⟨⟨t.regs, t.pc⟩, t.entryCycle⟩) ∧
      s'.resumed = s.resumed ++ [out.2.1] := by
  rw [tick] at h
  split at h
  · obtain ⟨out, hout, rfl⟩ := Option.map_eq_some_iff.mp h
    exact ⟨out, hout, rfl, rfl, rfl, rfl, rfl⟩
  · cases h

/-- A tick that resumes the context it has interrupted. -/
theorem last_of_same [DecidableEq C] {s s' : State G C} {t : Tick E} (h : W.tick s t = some s')
    (hsame : s'.running = s.running) :
    s'.last s'.running = some ⟨⟨t.regs, t.pc⟩, t.entryCycle⟩ := by
  obtain ⟨-, -, -, -, -, hlast, -⟩ := W.tick_eq_some h
  rw [hlast, hsame, Function.update_self]

end Switcher

/-! ## What a scheduler must provide -/

/-- The facts about trap, return, handler and layout that the switch relies
on.  `Ok` is the scheduler's own condition on the control registers, of which
the switch code moves only `*scratch` and `*epc`. -/
structure Switcher.Lawful (W : Switcher G C E) (Ok : Hart → Prop) : Prop where
  frames_separate : ∀ {c c' a}, InArea (W.frame c) TF_WORDS a →
    InArea (W.frame c') TF_WORDS a → c = c'
  exitCycles_free : ∀ c, ¬ InArea (W.frame c) TF_WORDS W.code.exitCycles
  exitMtime_free : ∀ c, ¬ InArea (W.frame c) TF_WORDS W.code.exitMtime
  trap_regs : ∀ h, (W.trap h).regs = h.regs
  trap_mem : ∀ h, (W.trap h).mem = h.mem
  trap_scratch : ∀ h, (W.trap h).csr W.code.scratch = h.csr W.code.scratch
  trap_epc : ∀ h, (W.trap h).csr W.code.epc = h.pc
  trap_pc : ∀ {h}, Ok h → (W.trap h).pc = W.entryPc
  ret_regs : ∀ h, (W.ret h).regs = h.regs
  ret_mem : ∀ h, (W.ret h).mem = h.mem
  ret_scratch : ∀ h, (W.ret h).csr W.code.scratch = h.csr W.code.scratch
  ret_pc : ∀ h, (W.ret h).pc = h.csr W.code.epc
  ok_congr : ∀ {h h' : Hart}, Ok h →
    (∀ k, k ≠ W.code.scratch → k ≠ W.code.epc → h'.csr k = h.csr k) → Ok h'
  trap_ok : ∀ {h}, Ok h → Ok (W.trap h)
  ret_ok : ∀ {h}, Ok h → Ok (W.ret h)
  handler_ok : ∀ {g h e out}, Ok h → W.handler g h e = some out → Ok out.2.2
  handler_frames : ∀ {g h e out}, Ok h → W.handler g h e = some out →
    ∀ c a, InArea (W.frame c) TF_WORDS a → out.2.2.mem a = h.mem a

/-! ## What the frames are meant to hold -/

/-- The context a frame is meant to hold: the one last saved into it, else the
one it was created with. -/
def held (fresh : C → Option Snap) (last : C → Option Interrupted) (c : C) : Option Snap :=
  match last c with
  | some i => some i.saved
  | none => fresh c

theorem held_of_last {fresh : C → Option Snap} {last : C → Option Interrupted} {c : C}
    {i : Interrupted} (h : last c = some i) : held fresh last c = some i.saved := by
  rw [held, h]

theorem held_update_self [DecidableEq C] (fresh : C → Option Snap)
    (last : C → Option Interrupted) (c : C) (i : Interrupted) :
    held fresh (Function.update last c (some i)) c = some i.saved := by
  rw [held, Function.update_self]

theorem held_update_of_ne [DecidableEq C] (fresh : C → Option Snap)
    (last : C → Option Interrupted) {c c' : C} (h : c' ≠ c) (i : Interrupted) :
    held fresh (Function.update last c (some i)) c' = held fresh last c' := by
  rw [held, held, Function.update_of_ne h]

/-! ## One tick -/

section OneTick

variable {W : Switcher G C E} {Ok : Hart → Prop}

/-- The exit half and the trap return: every frame keeps its words, `*scratch`
points at the resumed context's frame, and that context finds what its frame
holds. -/
theorem left_effect (hW : W.Lawful Ok) {h : Hart} (c : C) (t : Tick E) :
    (W.left h c t).csr W.code.scratch = W.frame c ∧
      (∀ c' a, InArea (W.frame c') TF_WORDS a → (W.left h c t).mem a = h.mem a) ∧
      (∀ {snap}, FrameHolds h.mem (W.frame c) snap →
        (W.left h c t).regs = snap.regs ∧ (W.left h c t).pc = snap.pc) := by
  generalize hcalled : (h.callC t.clobber (W.frame c)).stamp t.exitTime t.exitCycle = called
  have hleft : W.left h c t = W.ret (run W.code.exit called) := by
    rw [← hcalled]
    rfl
  have ha0 : called.regs .a0 = W.frame c := by
    rw [← hcalled]
    exact Hart.callC_a0 h t.clobber (W.frame c)
  have hmem : called.mem = h.mem := by
    rw [← hcalled]
    rfl
  obtain ⟨hstored, hcsr, -⟩ := run_exit W.code called
  rw [hleft]
  refine ⟨?_, fun c' a ha => ?_, fun {snap} hsnap => ?_⟩
  · rw [hW.ret_scratch, hcsr, Function.update_self, ha0]
  · have hne₁ : a ≠ W.code.exitMtime := by
      rintro rfl
      exact hW.exitMtime_free c' ha
    have hne₂ : a ≠ W.code.exitCycles := by
      rintro rfl
      exact hW.exitCycles_free c' ha
    rw [hW.ret_mem, hstored, stampedMem, Function.update_of_ne hne₁,
      Function.update_of_ne hne₂, hmem]
  · have hframe : FrameHolds called.mem (called.regs .a0) snap := by
      rw [hmem, ha0]
      exact hsnap
    obtain ⟨hregs, -, hepc, -, -⟩ := exit_effect W.code called snap hframe
      (by rw [ha0]; exact hW.exitCycles_free c) (by rw [ha0]; exact hW.exitMtime_free c)
    exact ⟨by rw [hW.ret_regs, hregs], by rw [hW.ret_pc, hepc]⟩

theorem left_ok (hW : W.Lawful Ok) {h : Hart} (c : C) (t : Tick E) (hok : Ok h) :
    Ok (W.left h c t) := by
  obtain ⟨-, hcsr, -⟩ :=
    run_exit W.code ((h.callC t.clobber (W.frame c)).stamp t.exitTime t.exitCycle)
  refine hW.ret_ok (hW.ok_congr hok fun k hk₁ hk₂ => ?_)
  rw [hcsr, Function.update_of_ne hk₁, Function.update_of_ne hk₂]
  rfl

variable [Fintype C]

/-- Interrupted code leaves every frame word alone. -/
theorem live_mem (W : Switcher G C E) (h : Hart) (t : Tick E) {c : C} {a : Word}
    (ha : InArea (W.frame c) TF_WORDS a) : (W.live h t).mem a = h.mem a :=
  Hart.clobberMem_keep h W.Kept t.mem (Or.inl ⟨c, ha⟩)

/-- The entry half saves the interrupted context into the frame `*scratch`
points at, `t1` excepted, and writes no other frame. -/
theorem entered_frames (hW : W.Lawful Ok) {h : Hart} {c : C} (t : Tick E)
    (hscratch : h.csr W.code.scratch = W.frame c) :
    FrameHolds (W.entered h t).mem (W.frame c)
        (Interrupted.saved ⟨⟨t.regs, t.pc⟩, t.entryCycle⟩) ∧
      ∀ c' ≠ c, ∀ a, InArea (W.frame c') TF_WORDS a → (W.entered h t).mem a = h.mem a := by
  obtain ⟨hframe, -, -, hother, -, -⟩ :=
    entry_effect W.code ((W.trap (W.live h t)).stamp t.entryTime t.entryCycle)
  have hf : ((W.trap (W.live h t)).stamp t.entryTime t.entryCycle).csr W.code.scratch
      = W.frame c := by
    rw [Hart.stamp_csr, hW.trap_scratch]
    exact hscratch
  rw [hf] at hframe hother
  constructor
  · rw [Hart.stamp_regs, Hart.stamp_csr, Hart.stamp_cycle, hW.trap_regs, hW.trap_epc] at hframe
    exact hframe
  · intro c' hne a ha
    have hout : ¬ InArea (W.frame c) TF_WORDS a :=
      fun hin => hne (hW.frames_separate ha hin)
    calc (W.entered h t).mem a
        = ((W.trap (W.live h t)).stamp t.entryTime t.entryCycle).mem a := hother a hout
      _ = (W.live h t).mem a := by rw [Hart.stamp_mem, hW.trap_mem]
      _ = h.mem a := live_mem W h t ha

/-- The stamps the entry half leaves in the interrupted context's frame. -/
theorem entered_stamps (hW : W.Lawful Ok) {h : Hart} {c : C} (t : Tick E)
    (hscratch : h.csr W.code.scratch = W.frame c) :
    (W.entered h t).mem (addr (W.frame c) TF_MTIME) = t.entryTime ∧
      (W.entered h t).mem (addr (W.frame c) TF_CYCLE) = t.entryCycle := by
  obtain ⟨-, hmtime, hcycle, -, -, -⟩ :=
    entry_effect W.code ((W.trap (W.live h t)).stamp t.entryTime t.entryCycle)
  have hf : ((W.trap (W.live h t)).stamp t.entryTime t.entryCycle).csr W.code.scratch
      = W.frame c := by
    rw [Hart.stamp_csr, hW.trap_scratch]
    exact hscratch
  rw [hf] at hmtime hcycle
  exact ⟨hmtime, hcycle⟩

/-- The entry half moves no control register but `*scratch`. -/
theorem entered_csr (W : Switcher G C E) (h : Hart) (t : Tick E) {k : Csr}
    (hk : k ≠ W.code.scratch) : (W.entered h t).csr k = (W.trap (W.live h t)).csr k := by
  obtain ⟨-, -, -, -, -, hcsr⟩ :=
    entry_effect W.code ((W.trap (W.live h t)).stamp t.entryTime t.entryCycle)
  exact hcsr k hk

theorem entered_ok (hW : W.Lawful Ok) {h : Hart} (t : Tick E) (hok : Ok h) :
    Ok (W.entered h t) := by
  have hlive : Ok (W.live h t) := hW.ok_congr hok fun _ _ _ => rfl
  exact hW.ok_congr (hW.trap_ok hlive) fun k hk _ => entered_csr W h t hk

/-- A tick enters the switch code. -/
theorem tick_eq_map [DecidableEq C] (hW : W.Lawful Ok) {s : State G C} (t : Tick E)
    (hok : Ok s.hart) :
    W.tick s t = (W.handler s.g (W.entered s.hart t) t.env).map fun out =>
      { g := out.1
        hart := W.left out.2.2 out.2.1 t
        running := out.2.1
        last := Function.update s.last s.running (some ⟨⟨t.regs, t.pc⟩, t.entryCycle⟩)
        resumed := s.resumed ++ [out.2.1] } := by
  have hlive : Ok (W.live s.hart t) := hW.ok_congr hok fun _ _ _ => rfl
  rw [Switcher.tick, if_pos (hW.trap_pc hlive)]

end OneTick

/-! ## Whole runs -/

section WholeRuns

variable {W : Switcher G C E} {Ok : Hart → Prop}
variable {fresh : C → Option Snap}

/-- What holds between any two ticks: `*scratch` points at the running
context's frame, every frame holds the context it is meant to hold, and the
running context was handed exactly that. -/
structure Inv (W : Switcher G C E) (Ok : Hart → Prop) (fresh : C → Option Snap)
    (s : State G C) : Prop where
  ok : Ok s.hart
  scratch : s.hart.csr W.code.scratch = W.frame s.running
  frames : ∀ {c snap}, held fresh s.last c = some snap →
    FrameHolds s.hart.mem (W.frame c) snap
  handed : ∀ {snap}, held fresh s.last s.running = some snap →
    s.hart.regs = snap.regs ∧ s.hart.pc = snap.pc

/-- One tick keeps the invariant. -/
theorem tick_inv [Fintype C] [DecidableEq C] (hW : W.Lawful Ok) {s s' : State G C}
    {t : Tick E} (hinv : Inv W Ok fresh s) (htick : W.tick s t = some s') : Inv W Ok fresh s' := by
  obtain ⟨out, hout, -, hrunning, hhart, hlast, -⟩ := W.tick_eq_some htick
  have hok := entered_ok hW t hinv.ok
  obtain ⟨hown, hothers⟩ := entered_frames hW t hinv.scratch
  obtain ⟨hscratch, hmem, hhanded⟩ := left_effect hW (h := out.2.2) out.2.1 t
  -- the frames are right when the handler returns; the exit half keeps them
  have hframes : ∀ {c snap}, held fresh s'.last c = some snap →
      FrameHolds out.2.2.mem (W.frame c) snap := by
    intro c snap hheld
    have hkept := hW.handler_frames hok hout c
    rw [hlast] at hheld
    by_cases hc : c = s.running
    · rw [hc, held_update_self] at hheld
      obtain rfl := Option.some.inj hheld
      rw [hc] at hkept ⊢
      exact hown.congr hkept
    · rw [held_update_of_ne _ _ hc] at hheld
      exact (hinv.frames hheld).congr fun a ha =>
        (hkept a ha).trans (hothers c hc a ha)
  refine ⟨?_, ?_, fun {c snap} hheld => ?_, fun {snap} hheld => ?_⟩
  · rw [hhart]
    exact left_ok hW _ t (hW.handler_ok hok hout)
  · rw [hhart, hrunning]
    exact hscratch
  · rw [hhart]
    exact (hframes hheld).congr (hmem c)
  · rw [hhart]
    have hframe := hframes hheld
    rw [hrunning] at hframe
    exact hhanded hframe

/-- The invariant holds after every run. -/
theorem run_inv [Fintype C] [DecidableEq C] (hW : W.Lawful Ok) {s s' : State G C}
    {ts : List (Tick E)} (hinv : Inv W Ok fresh s) (hrun : runAll W.tick s ts = some s') :
    Inv W Ok fresh s' :=
  runAll_invariant (fun hinv htick => tick_inv hW hinv htick) hinv hrun

/-- A context that is resumed after an interruption finds all of `x1`-`x31` and
its pc as they were, and `*scratch` points at its own frame. -/
def Transparent (W : Switcher G C E) (s : State G C) : Prop :=
  ∀ i, s.last s.running = some i →
    s.hart.regs = i.snap.regs ∧ s.hart.pc = i.snap.pc ∧
      s.hart.csr W.code.scratch = W.frame s.running

/-- The resumed context's last interruption happened to find the cycle count
that the trap entry read in `t1`. -/
def StampInT1 (s : State G C) : Prop :=
  ∀ i, s.last s.running = some i → i.snap.regs .t1 = i.cycle

/-- The exact condition for transparency: only `t1` can be wrong. -/
theorem transparent_iff {s : State G C} (hinv : Inv W Ok fresh s) :
    Transparent W s ↔ StampInT1 s := by
  have hregs : ∀ i, s.last s.running = some i →
      s.hart.regs = Function.update i.snap.regs .t1 i.cycle ∧ s.hart.pc = i.snap.pc :=
    fun i hi => hinv.handed (held_of_last hi)
  constructor
  · intro htrans i hi
    calc i.snap.regs .t1 = s.hart.regs .t1 := by rw [(htrans i hi).1]
      _ = i.cycle := by rw [(hregs i hi).1, Function.update_self]
  · intro hstamp i hi
    refine ⟨?_, (hregs i hi).2, hinv.scratch⟩
    rw [(hregs i hi).1, ← hstamp i hi, Function.update_eq_self]

end WholeRuns

end Switch
end BareMetal
