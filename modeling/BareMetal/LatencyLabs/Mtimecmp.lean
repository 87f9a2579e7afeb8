import BareMetal.Machine.Hart
import BareMetal.Machine.Loops

/-!
# The trials of the mtimecmp lab

`src/mtimecmp/mt_main.c` runs 1000 trials.  An attempt at a trial programs the
comparator, spins until the one timer trap has set `mt_flag`, and is made again,
up to 100 times, if the host came in between.  Half of a trial's record is
written by the trap handler, through the shared `mt_trial_idx`.

What the clocks read in each attempt is the input.  `trial_accounting` relates
the three counters and says whose readings a record holds.
-/

namespace BareMetal
namespace LatencyLabs
namespace Mtimecmp

open Machine

def MCAUSE_MTI : Word := 0x8000000000000007
def MT_NTRIALS : Nat := 1000
def MT_AHEAD_TICKS : Word := 5000
def MT_OFFSET_BOUND : Word := 1000
def MT_MAX_ATTEMPTS : Nat := 100

/-- The fields of `mt_save_t` that the handler reads. -/
structure Save where
  mcause : Word
  mepc : Word
  mtimeEntry : Word
  cycleEntry : Word

/-- `mt_rec_t`. -/
structure Rec where
  cmp : Word
  tPre : Word
  cPre : Word
  mcause : Word
  mepcBefore : Word
  tEntry : Word
  cEntry : Word

/-- The statics of `mt_main.c` that the trials use, and the CLINT comparator. -/
structure Globals where
  recs : Nat → Rec
  trialIdx : Word
  flag : Word
  trapCount : Word
  badSeen : Word
  badMcause : Word
  badMepc : Word
  fails : Nat
  retries : Word
  attempts : Word
  mtimecmp : Word

/-- What an attempt reads: `mtime` when it arms, the two stamps in front of the
spin loop, and where and when the timer trap is taken. -/
structure Attempt where
  mtime : Word
  tPre : Word
  cPre : Word
  mepc : Word
  tEntry : Word
  cEntry : Word

def Attempt.cmp (a : Attempt) : Word :=
  a.mtime + MT_AHEAD_TICKS

/-- The save area of the machine timer trap of an attempt. -/
def Attempt.save (a : Attempt) : Save :=
  ⟨MCAUSE_MTI, a.mepc, a.tEntry, a.cEntry⟩

/-- `mt_trap_handler`. -/
def mtTrapHandler (s : Save) (g : Globals) : Globals :=
  let i := g.trialIdx
  if s.mcause ≠ MCAUSE_MTI ∨ BitVec.ofNat 64 MT_NTRIALS ≤ i then
    { g with badSeen := 1, badMcause := s.mcause, badMepc := s.mepc, mtimecmp := ~~~ 0 }
  else
    { g with
      recs := Function.update g.recs i.toNat
        { g.recs i.toNat with
          mcause := s.mcause, mepcBefore := s.mepc, tEntry := s.mtimeEntry, cEntry := s.cycleEntry }
      mtimecmp := ~~~ 0
      flag := 1
      trapCount := g.trapCount + 1 }

/-- `mt_trial(&mt_rec[i])`; `none` while the loop spins on `mt_flag`. -/
def mtTrial (i : Nat) (a : Attempt) (g : Globals) : Option Globals :=
  let g := mtTrapHandler a.save { g with flag := 0 }
  if g.flag = 0 then none
  else some { g with
    recs := Function.update g.recs i { g.recs i with tPre := a.tPre, cPre := a.cPre } }

/-- The body of the loop in `run_one_trial`; `true` for `break`, `false` for
`continue`. -/
def attemptTrial (i : Nat) (a : Attempt) (g : Globals) : Option (Bool × Globals) :=
  let armed := { g with
    trialIdx := BitVec.ofNat 64 i
    recs := Function.update g.recs i { g.recs i with cmp := a.cmp }
    mtimecmp := a.cmp }
  (mtTrial i a armed).map fun g =>
    let g := { g with attempts := g.attempts + 1 }
    let r := g.recs i
    if r.cmp ≤ r.tPre then (false, { g with retries := g.retries + 1 })
    else if MT_OFFSET_BOUND < r.tEntry - r.cmp then (false, { g with retries := g.retries + 1 })
    else (true, g)

/-- The statics, and the value with which `attempt` left the loop in each trial so
far. -/
structure Run where
  g : Globals
  ends : List Nat

/-- `run_one_trial(i)`. -/
def runOneTrial (env : Nat → Attempt) (i : Nat) (run : Run) : Option Run :=
  (retry (fun k => attemptTrial i (env k)) 0 MT_MAX_ATTEMPTS run.g).map fun out =>
    { g := { out.2 with
        fails := if out.1 < MT_MAX_ATTEMPTS then out.2.fails else out.2.fails + 1 }
      ends := run.ends ++ [out.1] }

/-- The trials of `main`; `env i k` is what attempt `k` of trial `i` reads. -/
def runTrials (env : Nat → Nat → Attempt) (g : Globals) : Option Run :=
  forUp (fun i => runOneTrial (env i) i) MT_NTRIALS ⟨g, []⟩

/-- All counters are zero at the start. -/
structure Globals.Zeroed (g : Globals) : Prop where
  trapCount : g.trapCount = 0
  retries : g.retries = 0
  attempts : g.attempts = 0

/-! ## One attempt -/

/-- Attempt `a` ends its trial. -/
def Attempt.Accepted (a : Attempt) : Prop :=
  a.tPre < a.cmp ∧ a.tEntry - a.cmp ≤ MT_OFFSET_BOUND

/-- Record `i` holds what attempt `a` has read. -/
structure Recorded (i : Nat) (a : Attempt) (g : Globals) : Prop where
  cmp : (g.recs i).cmp = a.cmp
  tPre : (g.recs i).tPre = a.tPre
  tEntry : (g.recs i).tEntry = a.tEntry

/-- What attempt `a` at trial `i` does: one trap and one attempt more, the readings
in record `i`, and nothing in the other records. -/
structure Attempted (i : Nat) (a : Attempt) (g g' : Globals) : Prop where
  trapCount : g'.trapCount = g.trapCount + 1
  attempts : g'.attempts = g.attempts + 1
  recorded : Recorded i a g'
  others : ∀ j, j ≠ i → g'.recs j = g.recs j

theorem index_lt {i : Nat} (hi : i < MT_NTRIALS) :
    ¬ BitVec.ofNat 64 MT_NTRIALS ≤ BitVec.ofNat 64 i ∧ (BitVec.ofNat 64 i).toNat = i := by
  rw [MT_NTRIALS] at hi
  have hindex : (BitVec.ofNat 64 i).toNat = i := by
    rw [BitVec.toNat_ofNat]
    omega
  refine ⟨?_, hindex⟩
  rw [BitVec.le_def, hindex]
  show ¬ 1000 ≤ i
  omega

/-- The handler takes the timer trap of a trial for good and files it under the
trial's index. -/
theorem mtTrapHandler_of_index {i : Nat} (hi : i < MT_NTRIALS) (a : Attempt) {g : Globals}
    (hidx : g.trialIdx = BitVec.ofNat 64 i) :
    mtTrapHandler a.save g = { g with
      recs := Function.update g.recs i
        { g.recs i with
          mcause := MCAUSE_MTI, mepcBefore := a.mepc, tEntry := a.tEntry, cEntry := a.cEntry }
      mtimecmp := ~~~ 0
      flag := 1
      trapCount := g.trapCount + 1 } := by
  obtain ⟨hinside, hindex⟩ := index_lt hi
  have hgood : ¬ (a.save.mcause ≠ MCAUSE_MTI ∨ BitVec.ofNat 64 MT_NTRIALS ≤ g.trialIdx) := by
    rw [hidx]
    rintro (hcause | hout)
    · exact hcause rfl
    · exact hinside hout
  have htoNat : g.trialIdx.toNat = i := by rw [hidx, hindex]
  rw [mtTrapHandler, if_neg hgood, htoNat]
  rfl

/-- The spin loop ends, and both halves of the record are of this attempt. -/
theorem exists_mtTrial {i : Nat} (hi : i < MT_NTRIALS) (a : Attempt) {g : Globals}
    (hidx : g.trialIdx = BitVec.ofNat 64 i) :
    ∃ g', mtTrial i a g = some g' ∧
      g'.trapCount = g.trapCount + 1 ∧ g'.attempts = g.attempts ∧ g'.retries = g.retries ∧
      (g'.recs i).cmp = (g.recs i).cmp ∧ (g'.recs i).tPre = a.tPre ∧
      (g'.recs i).tEntry = a.tEntry ∧ ∀ j, j ≠ i → g'.recs j = g.recs j := by
  have hset : ¬ (1 : Word) = 0 := by decide
  rw [mtTrial, mtTrapHandler_of_index hi a (g := { g with flag := 0 }) hidx]
  dsimp only
  rw [if_neg hset]
  refine ⟨_, rfl, rfl, rfl, rfl, ?_, ?_, ?_, ?_⟩
  · simp only [Function.update_self]
  · simp only [Function.update_self]
  · simp only [Function.update_self]
  · intro j hj
    simp only [Function.update_of_ne hj]

/-- An attempt either ends the trial or counts as a retry. -/
theorem attemptTrial_cases {i : Nat} (hi : i < MT_NTRIALS) (a : Attempt) (g : Globals) :
    ∃ g', Attempted i a g g' ∧
      (attemptTrial i a g = some (true, g') ∧ a.Accepted ∧ g'.retries = g.retries ∨
        attemptTrial i a g = some (false, g') ∧ g'.retries = g.retries + 1) := by
  obtain ⟨mid, hmid, htraps, hattempts, hretries, hcmp, hpre, hentry, hothers⟩ :=
    exists_mtTrial hi a (g := { g with
      trialIdx := BitVec.ofNat 64 i
      recs := Function.update g.recs i { g.recs i with cmp := a.cmp }
      mtimecmp := a.cmp }) rfl
  simp only [Function.update_self] at hcmp
  have hother : ∀ j, j ≠ i → mid.recs j = g.recs j := by
    intro j hj
    rw [hothers j hj]
    exact Function.update_of_ne hj _ _
  have hrecorded : Recorded i a mid := ⟨hcmp, hpre, hentry⟩
  by_cases hlate : (mid.recs i).cmp ≤ (mid.recs i).tPre
  · refine ⟨{ mid with attempts := mid.attempts + 1, retries := mid.retries + 1 },
      ⟨htraps, congrArg (· + 1) hattempts, ⟨hcmp, hpre, hentry⟩, hother⟩,
      .inr ⟨?_, congrArg (· + 1) hretries⟩⟩
    simp only [attemptTrial, hmid, Option.map_some, if_pos hlate]
  · by_cases hfar : MT_OFFSET_BOUND < (mid.recs i).tEntry - (mid.recs i).cmp
    · refine ⟨{ mid with attempts := mid.attempts + 1, retries := mid.retries + 1 },
        ⟨htraps, congrArg (· + 1) hattempts, ⟨hcmp, hpre, hentry⟩, hother⟩,
        .inr ⟨?_, congrArg (· + 1) hretries⟩⟩
      simp only [attemptTrial, hmid, Option.map_some, if_neg hlate, if_pos hfar]
    · have haccepted : a.Accepted := by
        rw [hcmp, hpre] at hlate
        rw [hcmp, hentry] at hfar
        exact ⟨BitVec.not_le.mp hlate, BitVec.not_lt.mp hfar⟩
      refine ⟨{ mid with attempts := mid.attempts + 1 },
        ⟨htraps, congrArg (· + 1) hattempts, ⟨hcmp, hpre, hentry⟩, hother⟩,
        .inl ⟨?_, haccepted, hretries⟩⟩
      simp only [attemptTrial, hmid, Option.map_some, if_neg hlate, if_neg hfar]

/-! ## One trial -/

/-- The trials that ended by `break`. -/
def broken (ends : List Nat) : Nat :=
  ends.countP (· < MT_MAX_ATTEMPTS)

@[simp] theorem broken_nil : broken [] = 0 := rfl

theorem broken_append (ends : List Nat) (k : Nat) :
    broken (ends ++ [k]) = broken ends + if k < MT_MAX_ATTEMPTS then 1 else 0 := by
  by_cases hk : k < MT_MAX_ATTEMPTS <;> simp [broken, List.countP_append, hk]

/-- Between two attempts at trial `i`, with `b` trials ended by `break`. -/
structure Balanced (i b : Nat) (before g : Globals) : Prop where
  traps : g.attempts = g.trapCount
  tries : g.attempts = g.retries + BitVec.ofNat 64 b
  others : ∀ j, j ≠ i → g.recs j = before.recs j

theorem Attempted.traps_eq {i : Nat} {a : Attempt} {g g' : Globals} (h : Attempted i a g g')
    (htraps : g.attempts = g.trapCount) : g'.attempts = g'.trapCount := by
  rw [h.attempts, h.trapCount, htraps]

theorem Attempted.others_eq {i b : Nat} {a : Attempt} {before g g' : Globals}
    (h : Attempted i a g g') (hinv : Balanced i b before g) {j : Nat} (hj : j ≠ i) :
    g'.recs j = before.recs j := by
  rw [h.others j hj, hinv.others j hj]

/-- A retry adds one to both sides of the balance. -/
theorem Attempted.retried {i b : Nat} {a : Attempt} {before g g' : Globals}
    (h : Attempted i a g g') (hretries : g'.retries = g.retries + 1)
    (hinv : Balanced i b before g) : Balanced i b before g' where
  traps := h.traps_eq hinv.traps
  tries := by
    rw [h.attempts, hinv.tries, hretries]
    ac_rfl
  others := fun _ hj => h.others_eq hinv hj

/-- The attempt that breaks is paid for by the trial. -/
theorem Attempted.accepted {i b : Nat} {a : Attempt} {before g g' : Globals}
    (h : Attempted i a g g') (hretries : g'.retries = g.retries)
    (hinv : Balanced i b before g) : Balanced i (b + 1) before g' where
  traps := h.traps_eq hinv.traps
  tries := by
    rw [h.attempts, hinv.tries, hretries, BitVec.ofNat_add, ← BitVec.add_assoc]
    rfl
  others := fun _ hj => h.others_eq hinv hj

/-- A trial ends after at most 100 attempts.  If it broke, its record is the one of
the attempt that broke. -/
theorem trial_ends (env : Nat → Attempt) {i b : Nat} (hi : i < MT_NTRIALS) {g : Globals}
    (hinv : Balanced i b g g) :
    ∃ k g', retry (fun k => attemptTrial i (env k)) 0 MT_MAX_ATTEMPTS g = some (k, g') ∧
      (k < MT_MAX_ATTEMPTS ∧ Balanced i (b + 1) g g' ∧ Recorded i (env k) g' ∧
          (env k).Accepted ∨
        k = MT_MAX_ATTEMPTS ∧ Balanced i b g g') := by
  refine retry_ends (I := fun _ => Balanced i b g)
    (Q := fun k g' => Balanced i (b + 1) g g' ∧ Recorded i (env k) g' ∧ (env k).Accepted)
    ?_ (by omega) hinv
  intro k s _ hs
  obtain ⟨s', hattempt, ⟨hstep, haccepted, hretries⟩ | ⟨hstep, hretries⟩⟩ :=
    attemptTrial_cases hi (env k) s
  · exact ⟨s', .inl ⟨hstep, hattempt.accepted hretries hs, hattempt.recorded, haccepted⟩⟩
  · exact ⟨s', .inr ⟨hstep, hattempt.retried hretries hs⟩⟩

/-! ## All trials -/

/-- After the trials below `n`. -/
structure Accounted (env : Nat → Nat → Attempt) (n : Nat) (run : Run) : Prop where
  trials : run.ends.length = n
  traps : run.g.attempts = run.g.trapCount
  tries : run.g.attempts = run.g.retries + BitVec.ofNat 64 (broken run.ends)
  records : ∀ {i k}, run.ends[i]? = some k → k < MT_MAX_ATTEMPTS →
    Recorded i (env i k) run.g ∧ (env i k).Accepted

theorem Recorded.congr {i : Nat} {a : Attempt} {g g' : Globals} (h : Recorded i a g)
    (hrec : g'.recs i = g.recs i) : Recorded i a g' where
  cmp := by rw [hrec, h.cmp]
  tPre := by rw [hrec, h.tPre]
  tEntry := by rw [hrec, h.tEntry]

/-- Trial `n` leaves the records of the trials before it alone. -/
theorem exists_runOneTrial (env : Nat → Nat → Attempt) {n : Nat} (hn : n < MT_NTRIALS) {run : Run}
    (h : Accounted env n run) :
    ∃ run', runOneTrial (env n) n run = some run' ∧ Accounted env (n + 1) run' := by
  obtain ⟨k, g', hretry, hends⟩ :=
    trial_ends (env n) hn (g := run.g) ⟨h.traps, h.tries, fun _ _ => rfl⟩
  have hbalanced : Balanced n (broken (run.ends ++ [k])) run.g g' := by
    rw [broken_append]
    rcases hends with ⟨hk, hbal, -, -⟩ | ⟨hk, hbal⟩
    · rw [if_pos hk]
      exact hbal
    · rw [if_neg (by omega)]
      exact hbal
  have hlength : (run.ends ++ [k]).length = n + 1 := by
    rw [List.length_append, h.trials, List.length_singleton]
  rw [runOneTrial, hretry]
  refine ⟨_, rfl, hlength, hbalanced.traps, hbalanced.tries, ?_⟩
  intro i m hm hbreak
  by_cases hi : i < n
  · rw [List.getElem?_append_left (by rw [h.trials]; exact hi)] at hm
    obtain ⟨hrec, haccepted⟩ := h.records hm hbreak
    exact ⟨hrec.congr (hbalanced.others i (by omega)), haccepted⟩
  · have hlt : i < n + 1 := by
      rw [← hlength]
      exact (List.getElem?_eq_some_iff.mp hm).1
    obtain rfl : i = n := by omega
    have hlast : m = k := by
      rw [List.getElem?_append_right (by rw [h.trials]), h.trials, Nat.sub_self] at hm
      exact (Option.some.inj hm).symm
    subst hlast
    rcases hends with ⟨-, -, hrec, haccepted⟩ | ⟨hk, -⟩
    · exact ⟨hrec.congr rfl, haccepted⟩
    · omega

/-- An accepted wait of at most `bound` does not go backwards below the wrap. -/
theorem between_of_offset {cmp t : Word} (h : t - cmp ≤ MT_OFFSET_BOUND)
    (hwrap : cmp.toNat + MT_OFFSET_BOUND.toNat < 2 ^ 64) :
    cmp ≤ t ∧ t ≤ cmp + MT_OFFSET_BOUND := by
  unfold MT_OFFSET_BOUND at *
  bv_omega

/-- In every run the attempts are the traps, and are the retries and the trials that
broke; and the record of such a trial is the one of its last attempt, with the trap
in the `MT_OFFSET_BOUND` ticks from `cmp` on. -/
theorem trial_accounting (env : Nat → Nat → Attempt) {g : Globals} (hzero : g.Zeroed) :
    ∃ run, runTrials env g = some run ∧
      run.ends.length = MT_NTRIALS ∧
      run.g.attempts = run.g.trapCount ∧
      run.g.attempts = run.g.retries + BitVec.ofNat 64 (broken run.ends) ∧
      ∀ i k, run.ends[i]? = some k → k < MT_MAX_ATTEMPTS →
        Recorded i (env i k) run.g ∧
        (run.g.recs i).tPre < (run.g.recs i).cmp ∧
        ((run.g.recs i).cmp.toNat + MT_OFFSET_BOUND.toNat < 2 ^ 64 →
          (run.g.recs i).cmp ≤ (run.g.recs i).tEntry ∧
          (run.g.recs i).tEntry ≤ (run.g.recs i).cmp + MT_OFFSET_BOUND) := by
  have hstart : Accounted env 0 ⟨g, []⟩ := by
    refine ⟨rfl, ?_, ?_, ?_⟩
    · rw [hzero.attempts, hzero.trapCount]
    · rw [hzero.attempts, hzero.retries]
      rfl
    · intro i k hk
      simp at hk
  obtain ⟨run, hrun, hacc⟩ := forUp_keeps (I := Accounted env)
    (fun hi hinv => exists_runOneTrial env hi hinv) hstart (le_refl MT_NTRIALS)
  refine ⟨run, hrun, hacc.trials, hacc.traps, hacc.tries, ?_⟩
  intro i k hk hbreak
  obtain ⟨hrec, hpre, hoffset⟩ := hacc.records hk hbreak
  refine ⟨hrec, ?_, ?_⟩
  · rw [hrec.tPre, hrec.cmp]
    exact hpre
  · rw [hrec.tEntry, hrec.cmp]
    exact between_of_offset hoffset

/-- Attempts at which the trap comes 20 ticks late, from counters at zero. -/
theorem punctual_trials_accounted :
    ∃ run, runTrials (fun _ _ => ⟨100, 200, 30000, 0x80000000, 5120, 768000⟩)
        ⟨fun _ => ⟨0, 0, 0, 0, 0, 0, 0⟩, 0, 0, 0, 0, 0, 0, 0, 0, 0, 0⟩ = some run ∧
      run.ends.length = MT_NTRIALS ∧
      run.g.attempts = run.g.trapCount ∧
      run.g.attempts = run.g.retries + BitVec.ofNat 64 (broken run.ends) ∧
      ∀ i k, run.ends[i]? = some k → k < MT_MAX_ATTEMPTS →
        Recorded i ⟨100, 200, 30000, 0x80000000, 5120, 768000⟩ run.g ∧
        (run.g.recs i).tPre < (run.g.recs i).cmp ∧
        ((run.g.recs i).cmp.toNat + MT_OFFSET_BOUND.toNat < 2 ^ 64 →
          (run.g.recs i).cmp ≤ (run.g.recs i).tEntry ∧
          (run.g.recs i).tEntry ≤ (run.g.recs i).cmp + MT_OFFSET_BOUND) :=
  trial_accounting (fun _ _ => ⟨100, 200, 30000, 0x80000000, 5120, 768000⟩) ⟨rfl, rfl, rfl⟩

end Mtimecmp
end LatencyLabs
end BareMetal
