import BareMetal.Preempt.Account
import BareMetal.Smode.Samples

/-!
# Rearming against a moving clock

`timer_arm` of the preempt module and `stimer_arm` of the smode module share a
loop that reads the clock again until the deadline is ahead of it.  The clock
is an endless sequence of readings here, so that "the loop ends" is a statement
about the code: with enough readings it returns, and the reading it stops at is
the last one it makes.

The readings do not decrease and stay a quantum below the wrap of the counter.
Such readings can lie a quantum apart only finitely often, so nothing more is
asked of the gaps between them.
-/

namespace BareMetal
namespace TimerArm

open Machine Switch

/-- The readings of the clock, one after the other. -/
structure Readings (mtime : Nat → Word) : Prop where
  mono : ∀ i, mtime i ≤ mtime (i + 1)
  noWrap : ∀ i, (mtime i).toNat + QUANTUM_TICKS.toNat < 2 ^ 64

/-- The first `n` readings. -/
def firstReadings (mtime : Nat → Word) (n : Nat) : List Word :=
  (List.range' 0 n).map mtime

/-- The deadline lies at most one quantum ahead of reading `k`, in the phase of
the first reading. -/
structure Due (mtime : Nat → Word) (k : Nat) (deadline : Word) : Prop where
  ahead : mtime k < deadline
  within : deadline.toNat ≤ (mtime k).toNat + QUANTUM_TICKS.toNat
  phase : deadline.toNat % QUANTUM_TICKS.toNat = (mtime 0).toNat % QUANTUM_TICKS.toNat

/-! ## The loop -/

section Loop

variable {mtime : Nat → Word}

theorem quantum_toNat : QUANTUM_TICKS.toNat = 10000 := rfl

/-- A deadline that a reading has reached can be moved on without a wrap. -/
theorem toNat_add_quantum (hm : Readings mtime) {deadline : Word} {i : Nat}
    (hle : deadline ≤ mtime i) :
    (deadline + QUANTUM_TICKS).toNat = deadline.toNat + 10000 := by
  have hreading := hm.noWrap i
  rw [BitVec.le_def] at hle
  rw [quantum_toNat] at hreading
  rw [BitVec.toNat_add, quantum_toNat, Nat.mod_eq_of_lt (by omega)]

/-- From any deadline that is at most a quantum ahead of the reading before,
the loop stops at some reading, and no earlier. -/
theorem skipAhead_stops (hm : Readings mtime) (deadline : Word) (i : Nat)
    (hwithin : deadline.toNat ≤ (mtime i).toNat + 10000) :
    ∃ k final,
      (∀ n, n ≤ k → skipAhead deadline ((List.range' (i + 1) n).map mtime) = none) ∧
      (∀ n, k < n → skipAhead deadline ((List.range' (i + 1) n).map mtime) = some final) ∧
      mtime (i + 1 + k) < final ∧ final.toNat ≤ (mtime (i + 1 + k)).toNat + 10000 ∧
      final.toNat % 10000 = deadline.toNat % 10000 := by
  -- a deadline that is moved on is below the next reading, hence below the wrap
  induction hroom : 2 ^ 64 - deadline.toNat using Nat.strong_induction_on generalizing deadline i
    with
  | _ room ih =>
  have hmono : (mtime i).toNat ≤ (mtime (i + 1)).toNat := hm.mono i
  by_cases hpast : deadline ≤ mtime (i + 1)
  · have hadd := toNat_add_quantum hm hpast
    have hwrap := hm.noWrap (i + 1)
    have hpast' : deadline.toNat ≤ (mtime (i + 1)).toNat := hpast
    rw [quantum_toNat] at hwrap
    obtain ⟨k, final, hgoing, hstops, hahead, hbound, hphase⟩ :=
      ih (2 ^ 64 - (deadline + QUANTUM_TICKS).toNat) (by omega) (deadline + QUANTUM_TICKS)
        (i + 1) (by omega) rfl
    rw [hadd, Nat.add_mod_right] at hphase
    have hindex : i + 1 + 1 + k = i + 1 + (k + 1) := by omega
    rw [hindex] at hahead hbound
    refine ⟨k + 1, final, ?_, ?_, hahead, hbound, hphase⟩
    · intro n hn
      cases n with
      | zero => rfl
      | succ n =>
          rw [List.range'_succ, List.map_cons, skipAhead, if_pos hpast]
          exact hgoing n (by omega)
    · intro n hn
      cases n with
      | zero => omega
      | succ n =>
          rw [List.range'_succ, List.map_cons, skipAhead, if_pos hpast]
          exact hstops n (by omega)
  · refine ⟨0, deadline, ?_, ?_, BitVec.not_le.mp hpast, ?_, rfl⟩
    · intro n hn
      obtain rfl : n = 0 := by omega
      rfl
    · intro n hn
      cases n with
      | zero => omega
      | succ n => rw [List.range'_succ, List.map_cons, skipAhead, if_neg hpast]
    · show deadline.toNat ≤ (mtime (i + 1)).toNat + 10000
      omega

/-- The arming loop ends, at a reading that is at most a quantum behind the
deadline. -/
theorem nextDeadline_settles (hm : Readings mtime) :
    ∃ k deadline, Due mtime k deadline ∧
      (∀ n, n ≤ k → nextDeadline (firstReadings mtime n) = none) ∧
      ∀ n, k < n → nextDeadline (firstReadings mtime n) = some deadline := by
  have hfirst := toNat_add_quantum hm (BitVec.le_refl (mtime 0))
  obtain ⟨k, deadline, hgoing, hstops, hahead, hwithin, hphase⟩ :=
    skipAhead_stops hm (mtime 0 + QUANTUM_TICKS) 0 (by omega)
  rw [hfirst, Nat.add_mod_right] at hphase
  have hindex : 0 + 1 + k = k + 1 := by omega
  rw [hindex] at hahead hwithin
  refine ⟨k + 1, deadline, ⟨hahead, hwithin, hphase⟩, ?_, ?_⟩
  · intro n hn
    cases n with
    | zero => rfl
    | succ n =>
        rw [firstReadings, List.range'_succ, List.map_cons, nextDeadline]
        exact hgoing n (by omega)
  · intro n hn
    cases n with
    | zero => omega
    | succ n =>
        rw [firstReadings, List.range'_succ, List.map_cons, nextDeadline]
        exact hstops n (by omega)

end Loop

/-! ## The comparators -/

/-- The comparator a build of the smode module programs. -/
def comparator (smode useSstc : Bool) (h : Hart) : Word :=
  if smode && useSstc then h.csr .stimecmp else h.mem CLINT_MTIMECMP

/-- After `timer_arm`: the compare register equals the cached deadline, from
which the next handler call computes its latency. -/
structure PreemptArmed (deadline : Word) (out : Preempt.Globals × Hart) : Prop where
  cached : out.1.deadline = deadline
  comparator : out.2.mem CLINT_MTIMECMP = out.1.deadline
  latency : ∀ {L g h readings next}, g.deadline = out.1.deadline →
    Preempt.ptrapHandler L g h readings = some next →
    next.1.lat = g.lat.add (h.mem (addr (h.regs .a0) TF_MTIME) - out.2.mem CLINT_MTIMECMP)

/-- After `stimer_arm`, likewise. -/
structure SmodeArmed (smode : Bool) (deadline : Word) (out : Smode.Timer × Hart) : Prop where
  cached : out.1.deadline = deadline
  comparator : comparator smode out.1.useSstc out.2 = out.1.deadline
  latency : ∀ {im g h env next}, g.timer.deadline = out.1.deadline → g.ticks < N_TICKS →
    Smode.strapHandler im smode g h env = some next →
    next.1.lat g.ticks =
      h.mem (addr (h.regs .a0) TF_MTIME) - TimerArm.comparator smode out.1.useSstc out.2

/-- Every way to program the comparator leaves the deadline in it. -/
theorem program_comparator {im : Smode.Image} (him : im.Separate) {smode useSstc : Bool}
    {h h' : Hart} {env : Smode.Env} {deadline : Word} (hok : Smode.Installed im smode h)
    (hprog : Smode.program im smode useSstc h env deadline = some h') :
    comparator smode useSstc h' = deadline := by
  cases smode with
  | false =>
      obtain rfl : h.store CLINT_MTIMECMP deadline = h' := Option.some.inj hprog
      show (h.store CLINT_MTIMECMP deadline).mem CLINT_MTIMECMP = deadline
      rw [Hart.store_mem, Function.update_self]
  | true =>
      cases useSstc with
      | true =>
          obtain rfl : h.setCsr .stimecmp deadline = h' := Option.some.inj hprog
          show (h.setCsr .stimecmp deadline).csr .stimecmp = deadline
          rw [Hart.setCsr_csr, Function.update_self]
      | false => exact (Smode.ecallRearm_eq_some him (hok.service rfl) hprog).mtimecmp

theorem timerArm_armed (g : Preempt.Globals) (h : Hart) {readings : List Word} {deadline : Word}
    (hdeadline : nextDeadline readings = some deadline) :
    ∃ out, Preempt.timerArm g h readings = some out ∧ PreemptArmed deadline out := by
  have hcompare : (h.store CLINT_MTIMECMP deadline).mem CLINT_MTIMECMP = deadline := by
    rw [Hart.store_mem, Function.update_self]
  refine ⟨({ g with deadline := deadline }, h.store CLINT_MTIMECMP deadline), ?_, ?_⟩
  · rw [Preempt.timerArm, hdeadline, Option.map_some]
  · refine ⟨rfl, hcompare, ?_⟩
    intro L g₂ h₂ readings₂ next hcached hnext
    obtain ⟨_, -, hmeasured⟩ := Preempt.ptrapHandler_measured hnext
    rw [hmeasured.lat, hcached]
    dsimp only
    rw [hcompare]

theorem stimerArm_armed {im : Smode.Image} (him : im.Separate) {smode : Bool} {h : Hart}
    (hok : Smode.Installed im smode h) (hpriv : smode = true → h.priv = .supervisor)
    (tm : Smode.Timer) {env : Smode.Env} {deadline : Word}
    (hdeadline : nextDeadline env.readings = some deadline) :
    ∃ out, Smode.stimerArm im smode tm h env = some out ∧ SmodeArmed smode deadline out := by
  obtain ⟨h', hprog⟩ := Option.isSome_iff_exists.mp
    (Smode.program_isSome him hok hpriv tm.useSstc env deadline)
  have hcompare := program_comparator him hok hprog
  refine ⟨({ tm with deadline := deadline }, h'), ?_, ?_⟩
  · rw [Smode.stimerArm, hdeadline, Option.bind_some, hprog, Option.map_some]
  · refine ⟨rfl, hcompare, ?_⟩
    intro im₂ g₂ h₂ env₂ next hcached hticks hnext
    rw [(Smode.strapHandler_counted hticks hnext).lat, Function.update_self, hcached]
    dsimp only
    rw [hcompare]

/-- For every sequence of readings there are a last reading `k` and a deadline
due at it such that `timer_arm`, and `stimer_arm` in each of its builds, is
still in its loop with `k` readings and returns with more, having programmed
that deadline. -/
theorem timer_arm_settles {mtime : Nat → Word} (hm : Readings mtime) :
    ∃ k deadline, Due mtime k deadline ∧
      (∀ (g : Preempt.Globals) (h : Hart) (n : Nat),
        (n ≤ k → Preempt.timerArm g h (firstReadings mtime n) = none) ∧
        (k < n → ∃ out, Preempt.timerArm g h (firstReadings mtime n) = some out ∧
          PreemptArmed deadline out)) ∧
      ∀ (im : Smode.Image), im.Separate →
        ∀ (smode : Bool) (tm : Smode.Timer) (h : Hart), Smode.Installed im smode h →
          (smode = true → h.priv = .supervisor) →
          ∀ (env : Smode.Env) (n : Nat), env.readings = firstReadings mtime n →
            (n ≤ k → Smode.stimerArm im smode tm h env = none) ∧
            (k < n → ∃ out, Smode.stimerArm im smode tm h env = some out ∧
              SmodeArmed smode deadline out) := by
  obtain ⟨k, deadline, hdue, hgoing, hstops⟩ := nextDeadline_settles hm
  refine ⟨k, deadline, hdue, ?_, ?_⟩
  · intro g h n
    constructor
    · intro hn
      rw [Preempt.timerArm, hgoing n hn, Option.map_none]
    · intro hn
      exact timerArm_armed g h (hstops n hn)
  · intro im him smode tm h hok hpriv env n henv
    constructor
    · intro hn
      rw [Smode.stimerArm, henv, hgoing n hn, Option.bind_none]
    · intro hn
      have hdeadline : nextDeadline env.readings = some deadline := by
        rw [henv]
        exact hstops n hn
      exact stimerArm_armed him hok hpriv tm hdeadline

/-- A clock that jumps by two and a half quanta behind its first reading. -/
def lateReadings (i : Nat) : Word :=
  if i = 0 then 100 else 25100

theorem lateReadings_readings : Readings lateReadings where
  mono := fun i => by
    cases i with
    | zero => decide
    | succ i => exact BitVec.le_refl _
  noWrap := fun i => by
    cases i with
    | zero => decide
    | succ i => exact (by decide : (25100 : Word).toNat + QUANTUM_TICKS.toNat < 2 ^ 64)

/-- Behind that clock both arming functions return, the S-mode one through the
M-mode service. -/
theorem timer_arm_settles_late :
    ∃ k deadline, Due lateReadings k deadline ∧
      (∃ out, Preempt.timerArm (.init .empty) Smode.sampleHart
        (firstReadings lateReadings (k + 1)) = some out ∧ PreemptArmed deadline out) ∧
      ∃ out, Smode.stimerArm Smode.sampleImage true ⟨false, 0⟩
        (Smode.mBoot Smode.sampleImage false Smode.sampleHart).2
        { Smode.sampleEnv 0 0 with readings := firstReadings lateReadings (k + 1) } = some out ∧
        SmodeArmed true deadline out := by
  obtain ⟨k, deadline, hdue, hpreempt, hsmode⟩ := timer_arm_settles lateReadings_readings
  have hboot := (Smode.mBoot_effect Smode.sampleImage false Smode.sampleHart).2
  have hinstalled : Smode.Installed Smode.sampleImage true
      (Smode.mBoot Smode.sampleImage false Smode.sampleHart).2 := by
    refine ⟨hboot.stvec, fun _ => ⟨hboot.mscratch, hboot.mtvec, ?_⟩⟩
    rw [hboot.medeleg]
    decide
  have harmed := hsmode Smode.sampleImage Smode.sampleImage_separate true ⟨false, 0⟩ _ hinstalled
    (fun _ => hboot.priv)
    { Smode.sampleEnv 0 0 with readings := firstReadings lateReadings (k + 1) } (k + 1) rfl
  exact ⟨k, deadline, hdue, (hpreempt _ _ (k + 1)).2 (by omega), harmed.2 (by omega)⟩

end TimerArm
end BareMetal
