import BareMetal.Machine.ArraySort
import BareMetal.Machine.Counting

/-!
# The verdict of counter-alias

`src/counter-alias/ca_main.c` compares two names of one counter.  It calibrates
`mcycle` against `mtime` over 1000000 ticks, takes 1000 pairs of readings, and
judges the rates of both windows by quotients of quotients.

The quotients are rounded down, and two of them are divisors: a counter that
advances by less than one per tick, a stuck one above all, makes `main` divide by
zero before it has a verdict.  In every other case a counter at half its
calibrated rate fails (`verdict_iff`).
-/

namespace BareMetal
namespace CounterAlias

open Machine

def NSAMPLES : Nat := 1000
def OUTLIER_THRESH : Word := 1024

/-- Everything `main` reads, in the order of reading. -/
structure Readings where
  calT0 : Word
  calM0 : Word
  calR0 : Word
  calPolls : List Word
  calT1 : Word
  calM1 : Word
  calR1 : Word
  t0 : Word
  mcycle : Nat → Word
  rdcycle : Nat → Word
  t1 : Word

/-- Why `main` has no verdict. -/
inductive Fault
  | spinning | divZero
  deriving DecidableEq, Repr

/-- Division in C, undefined for a zero divisor. -/
def udiv (a b : Word) : Except Fault Word :=
  if b = 0 then .error .divZero else .ok (a / b)

/-- `while (read_mtime() - cal_t0 < 1000000UL) ;` with the clock's readings. -/
def calSpin (calT0 : Word) : List Word → Except Fault Unit
  | [] => .error .spinning
  | t :: ts => if t - calT0 < 1000000 then calSpin calT0 ts else .ok ()

/-- The difference of a rate from another, in percent of the latter. -/
def diffPct (base rate : Word) : Except Fault Word :=
  if base > rate then udiv ((base - rate) * 100) base else udiv ((rate - base) * 100) base

/-- The seven calls of `check`, in order. -/
structure Verdict where
  neverBelow : Bool
  tight : Bool
  fewOutliers : Bool
  monotonic : Bool
  lockstep : Bool
  sane : Bool
  calibrated : Bool

/-- `fails` at the end of `main`. -/
def Verdict.fails (v : Verdict) : Nat :=
  [v.neverBelow, v.tight, v.fewOutliers, v.monotonic, v.lockstep, v.sane, v.calibrated].count false

namespace Readings

variable (r : Readings)

/-- The array `deltas`. -/
def deltas (i : Nat) : Word :=
  r.rdcycle i - r.mcycle i

/-- The array `sorted` after `sort_copy`. -/
def sortCopy : Nat → Word :=
  insertRounds r.deltas (NSAMPLES - 1)

def outliers : Word :=
  tally (fun i => OUTLIER_THRESH < r.deltas i) NSAMPLES

/-- The checks, from the rate of the run and the two differences in percent. -/
def checks (mRate rateDiffPct ratioDiffPct : Word) : Verdict :=
  let minD := r.sortCopy 0
  let medD := r.sortCopy (NSAMPLES / 2)
  { neverBelow := noneSeen (fun i => 1 <<< 40 < r.deltas i) NSAMPLES
    tight := medD ≥ minD ∧ medD - minD ≤ 64
    fewOutliers := r.outliers ≤ BitVec.ofNat 64 (NSAMPLES / 100)
    monotonic := noneSeen (fun k => r.mcycle (k + 1) < r.mcycle k) (NSAMPLES - 1)
    lockstep := rateDiffPct ≤ 5
    sane := mRate ≥ 50 ∧ mRate ≤ 500
    calibrated := ratioDiffPct ≤ 25 }

/-- `main`. -/
def main : Except Fault Verdict := do
  calSpin r.calT0 r.calPolls
  -- the two rates printed after the calibration; the first is `cal_ratio`
  let calRatio ← udiv (r.calM1 - r.calM0) (r.calT1 - r.calT0)
  let _ ← udiv (r.calR1 - r.calR0) (r.calT1 - r.calT0)
  let last := NSAMPLES - 1
  let mRate ← udiv (r.mcycle last - r.mcycle 0) (r.t1 - r.t0)
  let rRate ← udiv (r.mcycle last + r.deltas last - (r.mcycle 0 + r.deltas 0)) (r.t1 - r.t0)
  let rateDiffPct ← diffPct mRate rRate
  let ratioDiffPct ← diffPct calRatio mRate
  return r.checks mRate rateDiffPct ratioDiffPct

/-- `mtime` does not decrease, and the run window is at least one tick long. -/
structure Clock : Prop where
  polls : ∀ t ∈ r.calPolls, r.calT0 ≤ t ∧ t ≤ r.calT1
  start : r.calT1 ≤ r.t0
  run : r.t0 < r.t1

/-- All readings of `mcycle` are equal. -/
def Stuck : Prop :=
  r.calM1 = r.calM0 ∧ ∀ i < NSAMPLES, r.mcycle i = r.calM0

/-- Over the run `mcycle` advances at half the rate of the calibration or less. -/
def HalfRate : Prop :=
  2 * (r.mcycle (NSAMPLES - 1) - r.mcycle 0).toNat * (r.calT1 - r.calT0).toNat ≤
    (r.calM1 - r.calM0).toNat * (r.t1 - r.t0).toNat

/-- `main` reaches its verdict, and fails a stuck or a slow counter. -/
def Judged : Prop :=
  ∃ v, r.main = .ok v ∧ (r.Stuck ∨ r.HalfRate → 0 < v.fails)

end Readings

/-! ## Division -/

theorem udiv_of_ne {a b : Word} (hb : b ≠ 0) : udiv a b = .ok (a / b) :=
  if_neg hb

theorem udiv_zero (a : Word) : udiv a 0 = .error .divZero :=
  if_pos rfl

theorem diffPct_zero (rate : Word) : diffPct 0 rate = .error .divZero := by
  rw [diffPct, udiv_zero, udiv_zero, ite_self]

/-- Half the rate or less is a difference of 50 percent or more. -/
theorem diffPct_of_half {base rate : Word} (hbase : base ≠ 0)
    (hfits : base.toNat * 100 < 2 ^ 64) (hhalf : 2 * rate.toNat ≤ base.toNat) :
    ∃ pct, diffPct base rate = .ok pct ∧ 50 ≤ pct.toNat := by
  have hpos : 0 < base.toNat := Nat.pos_of_ne_zero fun h => hbase (BitVec.eq_of_toNat_eq h)
  have hless : base > rate := by
    rw [gt_iff_lt, BitVec.lt_def]
    omega
  refine ⟨(base - rate) * 100 / base, ?_, ?_⟩
  · rw [diffPct, if_pos hless, udiv_of_ne hbase]
  · have hgap : (base - rate).toNat = base.toNat - rate.toNat :=
      BitVec.toNat_sub_of_le (BitVec.le_of_lt hless)
    have hscaled : ((base - rate) * 100).toNat = (base.toNat - rate.toNat) * 100 := by
      rw [BitVec.toNat_mul, hgap]
      show (base.toNat - rate.toNat) * 100 % 2 ^ 64 = _
      omega
    rw [BitVec.toNat_udiv, hscaled, Nat.le_div_iff_mul_le hpos]
    omega

theorem diffPct_of_ne {base : Word} (hbase : base ≠ 0) (rate : Word) :
    ∃ pct, diffPct base rate = .ok pct := by
  rw [diffPct, udiv_of_ne hbase, udiv_of_ne hbase, ← apply_ite Except.ok]
  exact ⟨_, rfl⟩

theorem div_ne_zero_iff {a b : Word} (hb : b ≠ 0) : a / b ≠ 0 ↔ b ≤ a := by
  have hpos : 0 < b.toNat := Nat.pos_of_ne_zero fun h => hb (BitVec.eq_of_toNat_eq h)
  rw [ne_eq, BitVec.toNat_eq, BitVec.toNat_udiv, BitVec.le_def]
  exact Nat.div_ne_zero_iff.trans ⟨fun h => h.2, fun h => ⟨by omega, h⟩⟩

/-- The rounded rates of a counter that slows down to half or less. -/
theorem half_of_rates {m t M T : Nat} (ht : 0 < t) (hT : 0 < T) (h : 2 * m * T ≤ M * t) :
    2 * (m / t) ≤ M / T := by
  rw [Nat.le_div_iff_mul_le hT]
  have hround : m / t * t ≤ m := Nat.div_mul_le_self m t
  apply Nat.le_of_mul_le_mul_right _ ht
  calc 2 * (m / t) * T * t = 2 * (m / t * t) * T := by ring
    _ ≤ 2 * m * T := by gcongr
    _ ≤ M * t := h

/-! ## The verdict -/

section Main

variable {r : Readings}

/-- The calibration window is as long as the loop waits for. -/
theorem calSpin_ok {calT0 calT1 : Word} {polls : List Word}
    (hclock : ∀ t ∈ polls, calT0 ≤ t ∧ t ≤ calT1) (hspin : calSpin calT0 polls = .ok ()) :
    1000000 ≤ (calT1 - calT0).toNat := by
  induction polls with
  | nil => cases hspin
  | cons t ts ih =>
      obtain ⟨hlow, hhigh⟩ := hclock t List.mem_cons_self
      rw [calSpin] at hspin
      split at hspin
      · exact ih (fun u hu => hclock u (List.mem_cons_of_mem t hu)) hspin
      · next hreached =>
        rw [BitVec.not_lt] at hreached
        bv_omega

theorem windows_pos (hclock : r.Clock) (hspin : calSpin r.calT0 r.calPolls = .ok ()) :
    r.calT1 - r.calT0 ≠ 0 ∧ r.t1 - r.t0 ≠ 0 := by
  have hcal := calSpin_ok hclock.polls hspin
  have hrun := hclock.run
  constructor
  · intro hzero
    rw [hzero] at hcal
    exact absurd hcal (by decide)
  · bv_omega

/-- A counter that advances by less than one per tick over one of the windows
makes one of the rates zero, and `main` divides by it. -/
theorem main_divides_by_zero (hclock : r.Clock) (hspin : calSpin r.calT0 r.calPolls = .ok ())
    (hslow : ¬ (r.calT1 - r.calT0 ≤ r.calM1 - r.calM0 ∧
      r.t1 - r.t0 ≤ r.mcycle (NSAMPLES - 1) - r.mcycle 0)) :
    r.main = .error .divZero := by
  obtain ⟨hcal, hrun⟩ := windows_pos hclock hspin
  rw [← div_ne_zero_iff hcal, ← div_ne_zero_iff hrun] at hslow
  simp only [Readings.main, hspin, udiv_of_ne hcal, udiv_of_ne hrun, bind, Except.bind]
  by_cases hrate : (r.mcycle (NSAMPLES - 1) - r.mcycle 0) / (r.t1 - r.t0) = 0
  · rw [hrate, diffPct_zero]
  · have hratio : (r.calM1 - r.calM0) / (r.calT1 - r.calT0) = 0 := by
      by_contra hne
      exact hslow ⟨hne, hrate⟩
    obtain ⟨pct, hpct⟩ := diffPct_of_ne hrate
      ((r.mcycle (NSAMPLES - 1) + r.deltas (NSAMPLES - 1) - (r.mcycle 0 + r.deltas 0)) /
        (r.t1 - r.t0))
    rw [hpct, hratio, diffPct_zero]

/-- Otherwise `main` has a verdict, and check 5 compares the two rounded rates. -/
theorem main_judges (hclock : r.Clock) (hspin : calSpin r.calT0 r.calPolls = .ok ())
    (hcal : r.calT1 - r.calT0 ≤ r.calM1 - r.calM0)
    (hrun : r.t1 - r.t0 ≤ r.mcycle (NSAMPLES - 1) - r.mcycle 0) :
    ∃ v pct, r.main = .ok v ∧
      diffPct ((r.calM1 - r.calM0) / (r.calT1 - r.calT0))
        ((r.mcycle (NSAMPLES - 1) - r.mcycle 0) / (r.t1 - r.t0)) = .ok pct ∧
      v.calibrated = decide (pct ≤ 25) := by
  obtain ⟨hcalPos, hrunPos⟩ := windows_pos hclock hspin
  rw [← div_ne_zero_iff hcalPos] at hcal
  rw [← div_ne_zero_iff hrunPos] at hrun
  obtain ⟨lockPct, hlock⟩ := diffPct_of_ne hrun
    ((r.mcycle (NSAMPLES - 1) + r.deltas (NSAMPLES - 1) - (r.mcycle 0 + r.deltas 0)) /
      (r.t1 - r.t0))
  obtain ⟨pct, hpct⟩ := diffPct_of_ne hcal
    ((r.mcycle (NSAMPLES - 1) - r.mcycle 0) / (r.t1 - r.t0))
  let mRate := (r.mcycle (NSAMPLES - 1) - r.mcycle 0) / (r.t1 - r.t0)
  refine ⟨r.checks mRate lockPct pct, pct, ?_, hpct, rfl⟩
  simp only [Readings.main, hspin, udiv_of_ne hcalPos, udiv_of_ne hrunPos, bind, Except.bind,
    hlock, hpct]
  rfl

theorem fails_pos {v : Verdict} (h : v.calibrated = false) : 0 < v.fails := by
  rw [Verdict.fails, List.count_pos_iff, ← h]
  simp

/-- For every sequence of readings: `main` reaches its verdict, and the verdict on a
stuck or a half-rate counter is FAIL, exactly if `mcycle` advances by at least one
per tick over the calibration and over the run. -/
theorem verdict_iff (hclock : r.Clock) (hspin : calSpin r.calT0 r.calPolls = .ok ()) :
    r.Judged ↔ r.calT1 - r.calT0 ≤ r.calM1 - r.calM0 ∧
      r.t1 - r.t0 ≤ r.mcycle (NSAMPLES - 1) - r.mcycle 0 := by
  obtain ⟨hcalPos, hrunPos⟩ := windows_pos hclock hspin
  have hlong := calSpin_ok hclock.polls hspin
  constructor
  · rintro ⟨v, hmain, -⟩
    by_contra hslow
    rw [main_divides_by_zero hclock hspin hslow] at hmain
    cases hmain
  · rintro ⟨hcal, hrun⟩
    obtain ⟨v, pct, hmain, hpct, hcalibrated⟩ := main_judges hclock hspin hcal hrun
    refine ⟨v, hmain, fun hslow => fails_pos ?_⟩
    rcases hslow with hstuck | hhalf
    · -- a stuck counter does not advance at all
      obtain ⟨hend, -⟩ := hstuck
      rw [hend, BitVec.sub_self, BitVec.le_zero_iff] at hcal
      exact absurd hcal hcalPos
    · have hratio : (r.calM1 - r.calM0) / (r.calT1 - r.calT0) ≠ 0 :=
        (div_ne_zero_iff hcalPos).mpr hcal
      have hfits : ((r.calM1 - r.calM0) / (r.calT1 - r.calT0)).toNat * 100 < 2 ^ 64 := by
        have hM : (r.calM1 - r.calM0).toNat < 2 ^ 64 := BitVec.isLt _
        have hquot : (r.calM1 - r.calM0).toNat / (r.calT1 - r.calT0).toNat ≤
            (r.calM1 - r.calM0).toNat / 1000000 := Nat.div_le_div_left hlong (by decide)
        rw [BitVec.toNat_udiv]
        omega
      have hrates := half_of_rates
        (Nat.pos_of_ne_zero fun h => hrunPos (BitVec.eq_of_toNat_eq h)) (by omega) hhalf
      rw [← BitVec.toNat_udiv, ← BitVec.toNat_udiv] at hrates
      obtain ⟨pct', hpct', hlarge⟩ := diffPct_of_half hratio hfits hrates
      obtain rfl : pct = pct' := Except.ok.inj (hpct.symm.trans hpct')
      rw [hcalibrated, decide_eq_false_iff_not, BitVec.le_def]
      show ¬ pct.toNat ≤ 25
      omega

end Main

/-- A counter that advances by `rate` per tick from its calibration to its run, whose
window is 4000 ticks long. -/
def steadyReadings (calRate rate : Nat) : Readings where
  calT0 := 0
  calM0 := 0
  calR0 := 0
  calPolls := [1000000]
  calT1 := 1000000
  calM1 := BitVec.ofNat 64 (1000000 * calRate)
  calR1 := BitVec.ofNat 64 (1000000 * calRate)
  t0 := 1000000
  mcycle i := BitVec.ofNat 64 (1000000 * calRate + if i = 0 then 0 else 4000 * rate)
  rdcycle i := BitVec.ofNat 64 (1000000 * calRate + if i = 0 then 0 else 4000 * rate)
  t1 := 1004000

theorem steadyReadings_clock (calRate rate : Nat) :
    (steadyReadings calRate rate).Clock ∧
      calSpin (steadyReadings calRate rate).calT0 (steadyReadings calRate rate).calPolls =
        .ok () := by
  have hstart : (1000000 : Word) ≤ 1000000 := BitVec.le_refl _
  have hrun : (1000000 : Word) < 1004000 := by decide
  have hspin : calSpin 0 [1000000] = .ok () := by decide
  refine ⟨⟨?_, hstart, hrun⟩, hspin⟩
  intro t ht
  obtain rfl : t = 1000000 := List.mem_singleton.mp ht
  exact ⟨Nat.zero_le _, hstart⟩

/-- A counter at half its calibrated rate is judged, and fails. -/
theorem half_rate_judged : (steadyReadings 150 75).Judged := by
  obtain ⟨hclock, hspin⟩ := steadyReadings_clock 150 75
  exact (verdict_iff hclock hspin).mpr (by decide)

/-- A stuck counter has no verdict. -/
theorem stuck_divides_by_zero :
    (steadyReadings 0 0).Clock ∧ (steadyReadings 0 0).Stuck ∧
      (steadyReadings 0 0).main = .error .divZero ∧ ¬ (steadyReadings 0 0).Judged := by
  obtain ⟨hclock, hspin⟩ := steadyReadings_clock 0 0
  have hmain := main_divides_by_zero hclock hspin (by decide)
  refine ⟨hclock, ⟨rfl, fun i _ => ?_⟩, hmain, ?_⟩
  · simp [steadyReadings]
  · rintro ⟨v, hv, -⟩
    rw [hmain] at hv
    cases hv

end CounterAlias
end BareMetal
