import BareMetal.Switch.TaskTable

/-!
# Entry and exit stamps along a run

Every trap reads both counters twice: on entry into the interrupted context's
frame, and on exit into the two exit words.  The handler reads the entry stamps
of its own trap and, since the exit stamps are written after it has returned,
the exit stamps of the trap before.

The lemmas here say which trap's stamps each of these reads finds, for every
scheduler built on the switch code, and which deadline was armed for each trap
of a run.
-/

namespace BareMetal
namespace Switch

open Machine

variable {G C E : Type*}

/-- What a switch costs: exit stamp minus entry stamp of one trap. -/
def Tick.cycles (t : Tick E) : Word :=
  t.exitCycle - t.entryCycle

@[inherit_doc Tick.cycles]
def Tick.duration (t : Tick E) : Word :=
  t.exitTime - t.entryTime

/-- The exit words hold the exit stamps of the given trap. -/
structure Stamped (W : Switcher G C E) (m : Mem) (t : Tick E) : Prop where
  cycles : m W.code.exitCycles = t.exitCycle
  mtime : m W.code.exitMtime = t.exitTime

/-- The exit words keep their stamps when neither changes. -/
theorem Stamped.congr {W : Switcher G C E} {m m' : Mem} {t : Tick E} (hm : Stamped W m t)
    (hcycles : m' W.code.exitCycles = m W.code.exitCycles)
    (hmtime : m' W.code.exitMtime = m W.code.exitMtime) : Stamped W m' t where
  cycles := hcycles.trans hm.cycles
  mtime := hmtime.trans hm.mtime

section OneTick

variable {W : Switcher G C E} {Ok : Hart → Prop}

/-- The exit half leaves the trap's own stamps behind. -/
theorem left_stamped (hW : W.Lawful Ok) (hne : W.code.exitCycles ≠ W.code.exitMtime) (h : Hart)
    (c : C) (t : Tick E) : Stamped W (W.left h c t).mem t := by
  obtain ⟨hstored, -, -⟩ :=
    run_exit W.code ((h.callC t.clobber (W.frame c)).stamp t.exitTime t.exitCycle)
  have hmem : (W.left h c t).mem =
      stampedMem W.code ((h.callC t.clobber (W.frame c)).stamp t.exitTime t.exitCycle) := by
    rw [Switcher.left, hW.ret_mem, hstored]
  constructor
  · rw [hmem, stampedMem, Function.update_of_ne hne, Function.update_self]
    rfl
  · rw [hmem, stampedMem, Function.update_self]
    rfl

variable [Fintype C]

/-- The handler is called on the frame `*scratch` points at. -/
theorem entered_a0 (hW : W.Lawful Ok) {h : Hart} {c : C} (t : Tick E)
    (hscratch : h.csr W.code.scratch = W.frame c) :
    (W.entered h t).regs .a0 = W.frame c := by
  obtain ⟨-, -, -, -, ha0, -⟩ :=
    entry_effect W.code ((W.trap (W.live h t)).stamp t.entryTime t.entryCycle)
  have hf : ((W.trap (W.live h t)).stamp t.entryTime t.entryCycle).csr W.code.scratch
      = W.frame c := by
    rw [Hart.stamp_csr, hW.trap_scratch]
    exact hscratch
  rw [hf] at ha0
  exact ha0

/-- The exit stamps of the trap before are still there when the handler is
called: neither the interrupted code nor the entry half writes them. -/
theorem entered_stamped (hW : W.Lawful Ok) {h : Hart} {c : C} (t : Tick E) {t' : Tick E}
    (hscratch : h.csr W.code.scratch = W.frame c) (hstamped : Stamped W h.mem t') :
    Stamped W (W.entered h t).mem t' := by
  obtain ⟨-, -, -, hother, -, -⟩ :=
    entry_effect W.code ((W.trap (W.live h t)).stamp t.entryTime t.entryCycle)
  have hf : ((W.trap (W.live h t)).stamp t.entryTime t.entryCycle).csr W.code.scratch
      = W.frame c := by
    rw [Hart.stamp_csr, hW.trap_scratch]
    exact hscratch
  rw [hf] at hother
  have hkept : ∀ a, ¬ InArea (W.frame c) TF_WORDS a → W.Kept a →
      (W.entered h t).mem a = h.mem a := by
    intro a hout hkeep
    calc (W.entered h t).mem a
        = ((W.trap (W.live h t)).stamp t.entryTime t.entryCycle).mem a := hother a hout
      _ = (W.live h t).mem a := by rw [Hart.stamp_mem, hW.trap_mem]
      _ = h.mem a := Hart.clobberMem_keep h W.Kept t.mem hkeep
  apply hstamped.congr
  · exact hkept _ (hW.exitCycles_free c) (Or.inr (Or.inl rfl))
  · exact hkept _ (hW.exitMtime_free c) (Or.inr (Or.inr rfl))

/-- Code that keeps off the switch's objects keeps the exit stamps. -/
theorem clobberMem_stamped {h : Hart} {t : Tick E} (hstamped : Stamped W h.mem t) (other : Mem) :
    Stamped W (h.clobberMem W.Kept other).mem t := by
  apply hstamped.congr
  · exact Hart.clobberMem_keep h W.Kept other (Or.inr (Or.inl rfl))
  · exact Hart.clobberMem_keep h W.Kept other (Or.inr (Or.inr rfl))

end OneTick

/-! ## Deadlines and latencies -/

section Latencies

variable (readings : E → List Word)

/-- The deadline the timer code leaves for the given readings, once it is out
of its loop. -/
def deadlineOf (now : List Word) : Word :=
  (nextDeadline now).getD 0

/-- What armed the timer last: the last trap, or the initialisation. -/
def lastEnv (init : E) : List (Tick E) → E
  | [] => init
  | t :: ts => lastEnv t.env ts

/-- Entry time minus the deadline armed for the trap, for every trap. -/
def latencies (init : E) : List (Tick E) → List Word
  | [] => []
  | t :: ts => (t.entryTime - deadlineOf (readings init)) :: latencies t.env ts

theorem lastEnv_append (init : E) (ts : List (Tick E)) (t : Tick E) :
    lastEnv init (ts ++ [t]) = t.env := by
  induction ts generalizing init with
  | nil => rfl
  | cons t' ts ih => exact ih t'.env

theorem latencies_append (init : E) (ts : List (Tick E)) (t : Tick E) :
    latencies readings init (ts ++ [t]) =
      latencies readings init ts ++
        [t.entryTime - deadlineOf (readings (lastEnv init ts))] := by
  induction ts generalizing init with
  | nil => rfl
  | cons t' ts ih =>
      rw [List.cons_append, latencies, ih, latencies, List.cons_append, lastEnv]

theorem length_latencies (init : E) (ts : List (Tick E)) :
    (latencies readings init ts).length = ts.length := by
  induction ts generalizing init with
  | nil => rfl
  | cons t ts ih => rw [latencies, List.length_cons, List.length_cons, ih]

theorem latencies_ne_nil (init : E) {ts : List (Tick E)} (hts : ts ≠ []) :
    latencies readings init ts ≠ [] := by
  intro hnil
  have hlength := length_latencies readings init ts
  rw [hnil, List.length_nil] at hlength
  exact hts (List.length_eq_zero_iff.mp hlength.symm)

end Latencies

end Switch
end BareMetal
