import BareMetal.Machine.Hart
import BareMetal.Machine.Loops
import Mathlib.Data.Nat.Count

/-!
# The trials of the wfi lab

`src/wfi-latency/wfi_main.c` runs 400 trials of either kind, in alternation.  An
attempt at a trial takes the one timer trap, and is made again, up to 100 times, if
the timer was already due when the attempt began.

`report` does not count the attempts.  It expects one trap for every trial and one
for every retry, and a trial that runs out of attempts has no more traps than
retries: `trap_count_expected_iff`.
-/

namespace BareMetal
namespace LatencyLabs
namespace Wfi

open Machine

def MCAUSE_MTI : Word := 0x8000000000000007
def WFI_NTRIALS : Nat := 400
def WFI_AHEAD_TICKS : Word := 20000

/-- The literal in `run_one_trial`. -/
def maxAttempts : Nat := 100

/-- The `kind` of a trial, and of the record array it writes. -/
inductive Kind
  | wfi
  | spin
  deriving DecidableEq

/-- The value of `wfi_current_kind`. -/
def Kind.code : Kind → Word
  | .wfi => 0
  | .spin => 1

/-- The fields of `wfi_save_t` that the handler uses. -/
structure Save where
  mcause : Word
  mepc : Word
  mtimeEntry : Word
  cycleEntry : Word

/-- `trial_rec_t`. -/
structure Rec where
  cmp : Word
  tPre : Word
  cPre : Word
  mcause : Word
  mepcBefore : Word
  tEntry : Word
  cEntry : Word
  cResume : Word
  tResume : Word

/-- The statics of `wfi_main.c` that the trials use (`recs .wfi` is `wfi_rec` and
`recs .spin` is `spin_rec`), and the CLINT comparator. -/
structure Globals where
  recs : Kind → Nat → Rec
  currentKind : Word
  trialIdx : Word
  spinFlag : Word
  trapCount : Word
  badSeen : Word
  badMcause : Word
  badMepc : Word
  fails : Nat
  armRetries : Word
  mtimecmp : Word

/-- Stores into one field or more of `wfi_rec[i]` or `spin_rec[i]`. -/
def Globals.modify (kind : Kind) (i : Nat) (f : Rec → Rec) (g : Globals) : Globals :=
  { g with
    recs := Function.update g.recs kind (Function.update (g.recs kind) i (f (g.recs kind i))) }

/-- The two resume labels of the trial blocks. -/
structure Labels where
  wfiResume : Word
  spinResume : Word

/-- What an attempt reads: `mtime` when it arms, the two stamps of the trial block,
where and when the timer trap is taken, and the stamps behind `mret`. -/
structure Attempt where
  mtime : Word
  tPre : Word
  cPre : Word
  mepc : Word
  tEntry : Word
  cEntry : Word
  cResume : Word
  tResume : Word

def Attempt.cmp (a : Attempt) : Word :=
  a.mtime + WFI_AHEAD_TICKS

/-- The save area of the machine timer trap of an attempt. -/
def Attempt.save (a : Attempt) : Save :=
  ⟨MCAUSE_MTI, a.mepc, a.tEntry, a.cEntry⟩

def Labels.resume (l : Labels) (k : Word) : Word :=
  if k = 0 then l.wfiResume else l.spinResume

/-- The four stores of the handler into a record. -/
def Save.stamp (s : Save) (r : Rec) : Rec :=
  { r with mcause := s.mcause, mepcBefore := s.mepc, tEntry := s.mtimeEntry, cEntry := s.cycleEntry }

/-- `wfi_trap_handler`. -/
def wfiTrapHandler (l : Labels) (s : Save) (g : Globals) : Save × Globals :=
  let k := g.currentKind
  let i := g.trialIdx
  if s.mcause ≠ MCAUSE_MTI ∨ BitVec.ofNat 64 WFI_NTRIALS ≤ i then
    ({ s with mepc := l.resume k },
      { g with badSeen := 1, badMcause := s.mcause, badMepc := s.mepc, mtimecmp := ~~~ 0 })
  else
    ({ s with mepc := l.resume k },
      { g.modify (if k = 0 then .wfi else .spin) i.toNat s.stamp with
        mtimecmp := ~~~ 0
        spinFlag := 1
        trapCount := g.trapCount + 1 })

/-- The four stamps that a trial block leaves in its record. -/
def Attempt.stamp (a : Attempt) (r : Rec) : Rec :=
  { r with tPre := a.tPre, cPre := a.cPre, cResume := a.cResume, tResume := a.tResume }

/-- `wfi_trial(&wfi_rec[i])`; `none` if the trap does not resume at `wfi_resume`. -/
def wfiTrial (l : Labels) (i : Nat) (a : Attempt) (g : Globals) : Option Globals :=
  let out := wfiTrapHandler l a.save g
  if out.1.mepc = l.wfiResume then some (out.2.modify .wfi i a.stamp) else none

/-- `spin_trial(&spin_rec[i])`; `none` if the trap does not resume at `spin_resume`. -/
def spinTrial (l : Labels) (i : Nat) (a : Attempt) (g : Globals) : Option Globals :=
  let out := wfiTrapHandler l a.save { g with spinFlag := 0 }
  if out.1.mepc = l.spinResume then some (out.2.modify .spin i a.stamp) else none

def trial (l : Labels) : Kind → Nat → Attempt → Globals → Option Globals
  | .wfi => wfiTrial l
  | .spin => spinTrial l

/-- The body of the loop in `run_one_trial`; `true` for `break`. -/
def attemptTrial (l : Labels) (kind : Kind) (i : Nat) (a : Attempt) (g : Globals) :
    Option (Bool × Globals) :=
  let armed := { g.modify kind i fun r => { r with cmp := a.cmp } with
    currentKind := kind.code
    trialIdx := BitVec.ofNat 64 i
    mtimecmp := a.cmp }
  (trial l kind i a armed).map fun g =>
    let r := g.recs kind i
    if r.tPre < r.cmp then (true, g)
    else (false, { g with armRetries := g.armRetries + 1 })

/-- `run_one_trial(r, i, kind)` with `r` the record `i` of its kind. -/
def runOneTrial (l : Labels) (env : Nat → Attempt) (kind : Kind) (i : Nat) (g : Globals) :
    Option Globals :=
  (retry (fun k => attemptTrial l kind i (env k)) 0 maxAttempts g).map fun out =>
    { out.2 with fails := if out.1 < maxAttempts then out.2.fails else out.2.fails + 1 }

/-- `run_trials`; `env kind i k` is what attempt `k` of trial `i` of that kind reads. -/
def runTrials (l : Labels) (env : Kind → Nat → Nat → Attempt) (g : Globals) : Option Globals :=
  forUp (fun i g =>
    (runOneTrial l (env .wfi i) .wfi i g).bind (runOneTrial l (env .spin i) .spin i))
    WFI_NTRIALS g

/-- The count that `report` checks `wfi_trap_count` against. -/
def expectedCount (g : Globals) : Word :=
  2 * BitVec.ofNat 64 WFI_NTRIALS + g.armRetries

/-- Both counters are zero at the start. -/
structure Globals.Zeroed (g : Globals) : Prop where
  trapCount : g.trapCount = 0
  armRetries : g.armRetries = 0

/-! ## One attempt -/

/-- The timer was not due when the trial block began. -/
def Attempt.Clean (a : Attempt) : Prop :=
  a.tPre < a.cmp

@[simp] theorem modify_self (kind : Kind) (i : Nat) (f : Rec → Rec) (g : Globals) :
    (g.modify kind i f).recs kind i = f (g.recs kind i) := by
  simp [Globals.modify]

/-- A store that leaves `cmp` of its record leaves it in every record. -/
theorem modify_cmp {f : Rec → Rec} (hf : ∀ r, (f r).cmp = r.cmp) (kind kind' : Kind) (i j : Nat)
    (g : Globals) : ((g.modify kind i f).recs kind' j).cmp = (g.recs kind' j).cmp := by
  by_cases hkind : kind' = kind
  · subst hkind
    by_cases hj : j = i
    · subst hj
      rw [modify_self, hf]
    · simp [Globals.modify, Function.update_of_ne hj]
  · simp [Globals.modify, Function.update_of_ne hkind]

theorem index_lt {i : Nat} (hi : i < WFI_NTRIALS) :
    ¬ BitVec.ofNat 64 WFI_NTRIALS ≤ BitVec.ofNat 64 i := by
  rw [WFI_NTRIALS] at hi
  rw [BitVec.le_def, BitVec.toNat_ofNat, BitVec.toNat_ofNat]
  show ¬ 400 % 2 ^ 64 ≤ i % 2 ^ 64
  omega

/-- What the handler does with the trap of a trial, as far as the counters and the
armed time go. -/
theorem wfiTrapHandler_of_index (l : Labels) (a : Attempt) {kind : Kind} {i : Nat}
    (hi : i < WFI_NTRIALS) {g : Globals} (hkind : g.currentKind = kind.code)
    (hidx : g.trialIdx = BitVec.ofNat 64 i) :
    (wfiTrapHandler l a.save g).1.mepc = l.resume kind.code ∧
      (wfiTrapHandler l a.save g).2.trapCount = g.trapCount + 1 ∧
      (wfiTrapHandler l a.save g).2.armRetries = g.armRetries ∧
      ∀ kind j, ((wfiTrapHandler l a.save g).2.recs kind j).cmp = (g.recs kind j).cmp := by
  have hgood : ¬ (a.save.mcause ≠ MCAUSE_MTI ∨ BitVec.ofNat 64 WFI_NTRIALS ≤ g.trialIdx) := by
    rw [hidx]
    rintro (hcause | hout)
    · exact hcause rfl
    · exact index_lt hi hout
  rw [wfiTrapHandler, if_neg hgood, hkind]
  refine ⟨rfl, rfl, rfl, ?_⟩
  intro kind' j
  exact modify_cmp (f := a.save.stamp) (fun _ => rfl) _ _ _ _ g

/-- A trial comes back with one trap more, and with its first stamp in its record. -/
theorem exists_trial (l : Labels) (a : Attempt) (kind : Kind) {i : Nat} (hi : i < WFI_NTRIALS)
    {g : Globals} (hkind : g.currentKind = kind.code) (hidx : g.trialIdx = BitVec.ofNat 64 i) :
    ∃ g', trial l kind i a g = some g' ∧
      g'.trapCount = g.trapCount + 1 ∧ g'.armRetries = g.armRetries ∧
      (g'.recs kind i).cmp = (g.recs kind i).cmp ∧ (g'.recs kind i).tPre = a.tPre := by
  cases kind with
  | wfi =>
      obtain ⟨hresume, htraps, hretries, hcmp⟩ := wfiTrapHandler_of_index l a hi hkind hidx
      have hback : (wfiTrapHandler l a.save g).1.mepc = l.wfiResume := hresume
      refine ⟨_, if_pos hback, htraps, hretries, ?_, ?_⟩
      · rw [modify_self]
        exact hcmp .wfi i
      · rw [modify_self]
        rfl
  | spin =>
      obtain ⟨hresume, htraps, hretries, hcmp⟩ :=
        wfiTrapHandler_of_index l a hi (g := { g with spinFlag := 0 }) hkind hidx
      have hback : (wfiTrapHandler l a.save { g with spinFlag := 0 }).1.mepc = l.spinResume :=
        hresume
      refine ⟨_, if_pos hback, htraps, hretries, ?_, ?_⟩
      · rw [modify_self]
        exact hcmp .spin i
      · rw [modify_self]
        rfl

/-- Every attempt counts a trap, and a retry unless it was clean. -/
theorem attemptTrial_cases (l : Labels) (kind : Kind) {i : Nat} (hi : i < WFI_NTRIALS)
    (a : Attempt) (g : Globals) :
    ∃ g', g'.trapCount = g.trapCount + 1 ∧
      (attemptTrial l kind i a g = some (true, g') ∧ a.Clean ∧ g'.armRetries = g.armRetries ∨
        attemptTrial l kind i a g = some (false, g') ∧ ¬ a.Clean ∧
          g'.armRetries = g.armRetries + 1) := by
  obtain ⟨mid, hmid, htraps, hretries, hcmp, hpre⟩ :=
    exists_trial l a kind hi (g := { g.modify kind i fun r => { r with cmp := a.cmp } with
      currentKind := kind.code
      trialIdx := BitVec.ofNat 64 i
      mtimecmp := a.cmp }) rfl rfl
  rw [modify_self] at hcmp
  have hclean : (mid.recs kind i).tPre < (mid.recs kind i).cmp ↔ a.Clean := by
    rw [hcmp, hpre]
    rfl
  by_cases hin : (mid.recs kind i).tPre < (mid.recs kind i).cmp
  · refine ⟨mid, htraps, .inl ⟨?_, hclean.mp hin, hretries⟩⟩
    simp only [attemptTrial, hmid, Option.map_some, if_pos hin]
  · refine ⟨{ mid with armRetries := mid.armRetries + 1 }, htraps,
      .inr ⟨?_, mt hclean.mpr hin, congrArg (· + 1) hretries⟩⟩
    simp only [attemptTrial, hmid, Option.map_some, if_neg hin]

/-! ## One trial -/

/-- One of the 100 attempts of the trial is clean. -/
def Cleaned (env : Nat → Attempt) : Prop :=
  ∃ k < maxAttempts, (env k).Clean

instance (env : Nat → Attempt) : Decidable (Cleaned env) :=
  inferInstanceAs (Decidable (∃ k < maxAttempts, (env k).tPre < (env k).cmp))

/-- The traps are the retries and `n` more. -/
def Surplus (n : Nat) (g : Globals) : Prop :=
  g.trapCount = g.armRetries + BitVec.ofNat 64 n

theorem Surplus.retried {n : Nat} {g g' : Globals} (h : Surplus n g)
    (htraps : g'.trapCount = g.trapCount + 1) (hretries : g'.armRetries = g.armRetries + 1) :
    Surplus n g' := by
  rw [Surplus, htraps, hretries, h]
  ac_rfl

theorem Surplus.accepted {n : Nat} {g g' : Globals} (h : Surplus n g)
    (htraps : g'.trapCount = g.trapCount + 1) (hretries : g'.armRetries = g.armRetries) :
    Surplus (n + 1) g' := by
  rw [Surplus, htraps, hretries, h, BitVec.ofNat_add, ← BitVec.add_assoc]
  rfl

/-- The attempts of a trial, up to the first clean one. -/
theorem retry_surplus (l : Labels) (env : Nat → Attempt) (kind : Kind) {i n : Nat}
    (hi : i < WFI_NTRIALS) {g : Globals} (h : Surplus n g) :
    ∃ k g', retry (fun k => attemptTrial l kind i (env k)) 0 maxAttempts g = some (k, g') ∧
      (k < maxAttempts ∧ Surplus (n + 1) g' ∧ (env k).Clean ∨
        k = maxAttempts ∧ Surplus n g' ∧ ∀ m < maxAttempts, ¬ (env m).Clean) := by
  refine retry_ends (I := fun k g => Surplus n g ∧ ∀ m < k, ¬ (env m).Clean)
    (Q := fun k g => Surplus (n + 1) g ∧ (env k).Clean) ?_ (Nat.zero_add maxAttempts)
    ⟨h, fun m hm => (Nat.not_lt_zero m hm).elim⟩
  rintro k s - ⟨hs, hlate⟩
  obtain ⟨s', htraps, ⟨hstep, hclean, hretries⟩ | ⟨hstep, hclean, hretries⟩⟩ :=
    attemptTrial_cases l kind hi (env k) s
  · exact ⟨s', .inl ⟨hstep, hs.accepted htraps hretries, hclean⟩⟩
  · refine ⟨s', .inr ⟨hstep, hs.retried htraps hretries, ?_⟩⟩
    intro m hm
    rcases Nat.lt_succ_iff_lt_or_eq.mp hm with hm | rfl
    · exact hlate m hm
    · exact hclean

/-- A trial adds one to the surplus if it has a clean attempt; otherwise its 100
traps are 100 retries. -/
theorem exists_runOneTrial (l : Labels) (env : Nat → Attempt) (kind : Kind) {i n : Nat}
    (hi : i < WFI_NTRIALS) {g : Globals} (h : Surplus n g) :
    ∃ g', runOneTrial l env kind i g = some g' ∧
      Surplus (n + if Cleaned env then 1 else 0) g' := by
  obtain ⟨k, out, hretry, hends⟩ := retry_surplus l env kind hi h
  rw [runOneTrial, hretry]
  refine ⟨_, rfl, ?_⟩
  rcases hends with ⟨hk, hs, hclean⟩ | ⟨-, hs, hlate⟩
  · rw [if_pos ⟨k, hk, hclean⟩]
    exact hs
  · rw [if_neg (fun ⟨m, hm, hclean⟩ => hlate m hm hclean)]
    exact hs

/-! ## All trials -/

/-- How many of the first `n` trials of a kind have a clean attempt. -/
def cleaned (env : Nat → Nat → Attempt) (n : Nat) : Nat :=
  Nat.count (fun i => Cleaned (env i)) n

theorem cleaned_succ (env : Nat → Nat → Attempt) (n : Nat) :
    cleaned env (n + 1) = cleaned env n + if Cleaned (env n) then 1 else 0 :=
  Nat.count_succ _ n

theorem cleaned_le (env : Nat → Nat → Attempt) (n : Nat) : cleaned env n ≤ n :=
  Nat.count_le _

theorem cleaned_eq_iff (env : Nat → Nat → Attempt) (n : Nat) :
    cleaned env n = n ↔ ∀ i < n, Cleaned (env i) :=
  Nat.count_iff_forall

theorem exists_runTrials (l : Labels) (env : Kind → Nat → Nat → Attempt) {g : Globals}
    (hzero : g.Zeroed) :
    ∃ g', runTrials l env g = some g' ∧
      Surplus (cleaned (env .wfi) WFI_NTRIALS + cleaned (env .spin) WFI_NTRIALS) g' := by
  refine forUp_keeps (I := fun n => Surplus (cleaned (env .wfi) n + cleaned (env .spin) n))
    ?_ ?_ (le_refl WFI_NTRIALS)
  · intro i s hi hs
    obtain ⟨mid, hmid, hmidSurplus⟩ := exists_runOneTrial l (env .wfi i) .wfi hi hs
    obtain ⟨s', hs', hsurplus⟩ := exists_runOneTrial l (env .spin i) .spin hi hmidSurplus
    refine ⟨s', ?_, ?_⟩
    · rw [hmid]
      exact hs'
    · rw [cleaned_succ, cleaned_succ]
      convert hsurplus using 1
      omega
  · rw [Surplus, hzero.trapCount, hzero.armRetries]
    rfl

/-- A count of at most 800 that is 800 as a word. -/
theorem surplus_full_iff {a b : Nat} (ha : a ≤ WFI_NTRIALS) (hb : b ≤ WFI_NTRIALS) {g : Globals}
    (h : Surplus (a + b) g) :
    g.trapCount = expectedCount g ↔ a = WFI_NTRIALS ∧ b = WFI_NTRIALS := by
  rw [h, expectedCount]
  unfold WFI_NTRIALS at *
  constructor
  · intro heq
    have hword : BitVec.ofNat 64 (a + b) = 2 * BitVec.ofNat 64 400 := by
      rw [BitVec.add_comm] at heq
      exact (BitVec.add_left_inj _).mp heq
    have hnat := congrArg BitVec.toNat hword
    rw [BitVec.toNat_ofNat] at hnat
    have hright : (2 * BitVec.ofNat 64 400 : Word).toNat = 800 := by decide
    omega
  · rintro ⟨rfl, rfl⟩
    rw [BitVec.add_comm]
    rfl

/-- `report` expects the right count exactly when every trial of the run has a clean
attempt. -/
theorem trap_count_expected_iff (l : Labels) (env : Kind → Nat → Nat → Attempt) {g : Globals}
    (hzero : g.Zeroed) :
    ∃ g', runTrials l env g = some g' ∧
      (g'.trapCount = expectedCount g' ↔
        ∀ kind i, i < WFI_NTRIALS → ∃ k < maxAttempts, (env kind i k).tPre < (env kind i k).cmp) := by
  obtain ⟨g', hrun, hsurplus⟩ := exists_runTrials l env hzero
  refine ⟨g', hrun, ?_⟩
  rw [surplus_full_iff (cleaned_le _ _) (cleaned_le _ _) hsurplus,
    cleaned_eq_iff, cleaned_eq_iff]
  constructor
  · rintro ⟨hwfi, hspin⟩ (_ | _) i hi
    · exact hwfi i hi
    · exact hspin i hi
  · intro h
    exact ⟨fun i hi => h .wfi i hi, fun i hi => h .spin i hi⟩

def punctual : Attempt := ⟨100, 200, 30000, 0x80000040, 20110, 3016500, 3016800, 20112⟩

/-- The hart was off the host for longer than the armed time. -/
def descheduled : Attempt := ⟨100, 30000, 4500000, 0x80000040, 30001, 4500150, 4500450, 30003⟩

def sampleLabels : Labels := ⟨0x80000044, 0x80000088⟩

def atBoot : Globals :=
  ⟨fun _ _ => ⟨0, 0, 0, 0, 0, 0, 0, 0, 0⟩, 0, 0, 0, 0, 0, 0, 0, 0, 0, 0⟩

theorem punctual_trials_counted :
    ∃ g', runTrials sampleLabels (fun _ _ _ => punctual) atBoot = some g' ∧
      g'.trapCount = expectedCount g' := by
  obtain ⟨g', hrun, hcount⟩ :=
    trap_count_expected_iff sampleLabels (fun _ _ _ => punctual) (g := atBoot) ⟨rfl, rfl⟩
  exact ⟨g', hrun, hcount.mpr fun _ _ _ => ⟨0, by decide, by decide⟩⟩

/-- The host is busy during the first trial only. -/
def busyFirst : Kind → Nat → Nat → Attempt
  | .wfi, 0, _ => descheduled
  | _, _, _ => punctual

/-- One trial out of attempts, and the expected count is one too high. -/
theorem exhausted_trial_miscounted :
    ∃ g', runTrials sampleLabels busyFirst atBoot = some g' ∧ g'.trapCount ≠ expectedCount g' := by
  obtain ⟨g', hrun, hsurplus⟩ := exists_runTrials sampleLabels busyFirst (g := atBoot) ⟨rfl, rfl⟩
  refine ⟨g', hrun, ?_⟩
  rw [Ne, surplus_full_iff (cleaned_le _ _) (cleaned_le _ _) hsurplus]
  rintro ⟨hwfi, -⟩
  obtain ⟨k, -, hclean⟩ := (cleaned_eq_iff _ _).mp hwfi 0 (by decide)
  have hlate : ¬ descheduled.Clean := by
    rw [Attempt.Clean]
    decide
  exact hlate hclean

end Wfi
end LatencyLabs
end BareMetal
