import BareMetal.Machine.Counting

/-!
# The monotonicity verdict of cycmon

`src/cycmon/cyc_main.c` takes 1000 samples, each a pair of readings of the cycle
counter around a window of 100 `nop`s, and judges them in 64-bit arithmetic.
Check 1 guards its differences against a borrow; check 2 compares the
differences between samples without that guard.

A sample whose first reading lies below that of the sample before makes the
difference of check 2 huge and passes.  `verdict_sound_iff` says that this is all
that goes unseen, apart from a last sample across the wrap of the counter.
-/

namespace BareMetal
namespace Cycmon

open Machine

def NSAMPLES : Nat := 1000

/-- `1UL << 20`. -/
def OUTLIER_THRESH : Word := 1 <<< 20

def MAX_OUTLIERS : Word := BitVec.ofNat 64 (NSAMPLES / 100)

/-- What the two `csrr` of a sample read. -/
structure Sample where
  before : Word
  after : Word

/-- `take_sample`: what it stores through `before` and `delta_out`. -/
def takeSample (s : Sample) : Word × Word :=
  (s.before, s.after - s.before)

section Checks

variable (samples : Nat → Sample)

/-- The array `c0`. -/
def c0 (i : Nat) : Word :=
  (takeSample (samples i)).1

/-- The array `delta`. -/
def delta (i : Nat) : Word :=
  (takeSample (samples i)).2

/-- Check 1: no delta is zero or above 2^40. -/
def check1 : Bool :=
  noneSeen (fun i => delta samples i = 0 ∨ 1 <<< 40 < delta samples i) NSAMPLES

/-- The loop of check 2, which runs from sample 1 on. -/
def backwardReads : Word :=
  tally (fun k => c0 samples (k + 1) - c0 samples k < delta samples k) (NSAMPLES - 1)

def check2 : Bool :=
  backwardReads samples = 0

def outliers : Word :=
  tally (fun i => OUTLIER_THRESH < delta samples i) NSAMPLES

def check3 : Bool :=
  outliers samples ≤ MAX_OUTLIERS

/-- `fails` at the end of `main`. -/
def fails : Nat :=
  [check1 samples, check2 samples, check3 samples].count false

/-- `main` prints `RESULT: PASS`. -/
def passes : Bool :=
  fails samples = 0

/-- The readings never decrease: the second of each sample lies above the first,
and no sample starts below the end of the one before. -/
structure InOrder : Prop where
  within : ∀ i < NSAMPLES, (samples i).before < (samples i).after
  across : ∀ i, i + 1 < NSAMPLES → (samples i).after ≤ (samples (i + 1)).before

end Checks

section Verdict

variable {samples : Nat → Sample}

theorem check1_iff : check1 samples = true ↔
    ∀ i < NSAMPLES, delta samples i ≠ 0 ∧ delta samples i ≤ 1 <<< 40 := by
  rw [check1, noneSeen_iff]
  simp only [not_or, BitVec.not_lt, ne_eq]

theorem check2_iff : check2 samples = true ↔
    ∀ k, k + 1 < NSAMPLES → delta samples k ≤ c0 samples (k + 1) - c0 samples k := by
  rw [check2, decide_eq_true_eq, backwardReads, tally_eq_zero_iff (by decide)]
  simp only [BitVec.not_lt, Nat.lt_sub_iff_add_lt]

/-- A sample that does not end behind the start of the next one has not wrapped. -/
theorem after_le_of_delta_le {b a b' : Word} (hdelta : a - b ≤ b' - b) (hstart : b ≤ b') :
    a ≤ b' := by
  bv_omega

theorem before_lt_of_delta_ne {b a b' : Word} (hdelta : a - b ≤ b' - b) (hstart : b ≤ b')
    (hne : a - b ≠ 0) : b < a := by
  bv_omega

/-- For samples that pass checks 1 and 2: all readings are in order exactly if the
first readings of the samples are and the last sample does not run across the
wrap of the counter. -/
theorem verdict_sound_iff (h1 : check1 samples = true) (h2 : check2 samples = true) :
    InOrder samples ↔
      (∀ i, i + 1 < NSAMPLES → (samples i).before ≤ (samples (i + 1)).before) ∧
        (samples (NSAMPLES - 1)).before ≤ (samples (NSAMPLES - 1)).after := by
  rw [check1_iff] at h1
  rw [check2_iff] at h2
  constructor
  · rintro ⟨hwithin, hacross⟩
    refine ⟨fun i hi => ?_, BitVec.le_of_lt (hwithin _ (by decide))⟩
    exact BitVec.le_trans (BitVec.le_of_lt (hwithin i (by omega))) (hacross i hi)
  · rintro ⟨hstarts, hlast⟩
    constructor
    · intro i hi
      have hne : (samples i).after - (samples i).before ≠ 0 := (h1 i hi).1
      rcases Nat.lt_or_ge (i + 1) NSAMPLES with hnext | hend
      · exact before_lt_of_delta_ne (h2 i hnext) (hstarts i hnext) hne
      · -- no sample follows the last one
        obtain rfl : i = NSAMPLES - 1 := by omega
        have hself : (samples (NSAMPLES - 1)).after - (samples (NSAMPLES - 1)).before ≤
            (samples (NSAMPLES - 1)).after - (samples (NSAMPLES - 1)).before := BitVec.le_refl _
        exact before_lt_of_delta_ne hself hlast hne
    · intro i hi
      exact after_le_of_delta_le (h2 i hi) (hstarts i hi)

end Verdict

/-! ### Counters that run forward and backward -/

/-- Samples of 5 ticks, each starting `step` ticks behind the start of the one
before. -/
def evenSamples (step : Word) (i : Nat) : Sample where
  before := 1000000 + step * BitVec.ofNat 64 i
  after := 1000005 + step * BitVec.ofNat 64 i

theorem delta_evenSamples (step : Word) (i : Nat) : delta (evenSamples step) i = 5 := by
  show 1000005 + step * BitVec.ofNat 64 i - (1000000 + step * BitVec.ofNat 64 i) = 5
  generalize step * BitVec.ofNat 64 i = start
  bv_omega

theorem start_evenSamples (step : Word) (i : Nat) :
    c0 (evenSamples step) (i + 1) - c0 (evenSamples step) i = step := by
  show 1000000 + step * BitVec.ofNat 64 (i + 1) - (1000000 + step * BitVec.ofNat 64 i) = step
  rw [BitVec.ofNat_add, BitVec.mul_add, BitVec.mul_one]
  generalize step * BitVec.ofNat 64 i = start
  bv_omega

theorem evenSamples_pass (step : Word) (hstep : 5 ≤ step) :
    check1 (evenSamples step) = true ∧ check2 (evenSamples step) = true := by
  rw [check1_iff, check2_iff]
  constructor
  · intro i _
    rw [delta_evenSamples]
    decide
  · intro i _
    rw [delta_evenSamples, start_evenSamples]
    exact hstep

theorem forward_samples_in_order : InOrder (evenSamples 10) := by
  obtain ⟨h1, h2⟩ := evenSamples_pass 10 (by decide)
  apply (verdict_sound_iff h1 h2).mpr
  constructor
  · intro i hi
    rw [NSAMPLES] at hi
    have hoff : ∀ j ≤ i + 1, (10 * BitVec.ofNat 64 j : Word).toNat = 10 * j := by
      intro j hj
      rw [BitVec.toNat_mul, BitVec.toNat_ofNat]
      show 10 * (j % 2 ^ 64) % 2 ^ 64 = 10 * j
      omega
    have hthis := hoff i (Nat.le_succ i)
    have hnext := hoff (i + 1) (Nat.le_refl _)
    show 1000000 + 10 * BitVec.ofNat 64 i ≤ 1000000 + 10 * BitVec.ofNat 64 (i + 1)
    rw [BitVec.le_def, BitVec.toNat_add, BitVec.toNat_add, hthis, hnext,
      show (1000000 : Word).toNat = 1000000 from rfl, Nat.mod_eq_of_lt (by omega),
      Nat.mod_eq_of_lt (by omega)]
    omega
  · decide

/-- A counter that runs backward by 10 from each sample to the next passes. -/
theorem backward_samples_pass :
    check1 (evenSamples (-10)) = true ∧ check2 (evenSamples (-10)) = true ∧
      passes (evenSamples (-10)) = true ∧ ¬ InOrder (evenSamples (-10)) := by
  obtain ⟨h1, h2⟩ := evenSamples_pass (-10) (by decide)
  have h3 : check3 (evenSamples (-10)) = true := by
    have hnone : outliers (evenSamples (-10)) = 0 := by
      rw [outliers, tally_eq_zero_iff (by decide)]
      intro i _
      rw [delta_evenSamples]
      decide
    rw [check3, hnone]
    decide
  refine ⟨h1, h2, ?_, fun h => ?_⟩
  · rw [passes, fails, h1, h2, h3]
    decide
  · exact absurd (h.across 0 (by decide)) (by decide)

end Cycmon
end BareMetal
