import BareMetal.Machine.ArraySort
import BareMetal.Machine.Counting
import Mathlib.Data.List.GetD

/-!
# The histogram of cycle-read-latency

`src/cycle-read-latency/crl_main.c` reads the cycle counter in 38 bursts of 27
back-to-back reads and bins the 988 differences inside the bursts into 16 bins,
whose width it derives from the greatest difference.

A reading that lies 1 to 16 below the one before it makes that difference one of
the last 16 numbers below 2^64; `max_d + NBINS` wraps and the width is zero.
`histogram_iff` says that the histogram is right in every other case.
-/

namespace BareMetal
namespace CycleReadLatency

open Machine

def NBURSTS : Nat := 38
def REGS_PER_BURST : Nat := 27
def NDELTAS : Nat := NBURSTS * (REGS_PER_BURST - 1)
def NBINS : Nat := 16

/-- `1UL << 40`: above this a delta is a backward read. -/
def DELTA_CAP : Word := 1 <<< 40

section Main

variable (reads : Nat → Word)

/-- The difference number `i` of burst `b`. -/
def burstDelta (b i : Nat) : Word :=
  reads (b * REGS_PER_BURST + i + 1) - reads (b * REGS_PER_BURST + i)

/-- What the loop over the bursts stores at `delta[k++]`, in order. -/
def deltas : List Word :=
  (List.range NBURSTS).flatMap fun b =>
    (List.range (REGS_PER_BURST - 1)).map fun i => burstDelta reads b i

/-- The array `delta`. -/
def delta (k : Nat) : Word :=
  (deltas reads).getD k 0

/-- The array `sorted` after `sort_copy`. -/
def sortCopy : Nat → Word :=
  insertRounds (delta reads) (NDELTAS - 1)

def maxD : Word := sortCopy reads (NDELTAS - 1)

def width : Word :=
  (maxD reads + BitVec.ofNat 64 NBINS) / BitVec.ofNat 64 NBINS

/-- The bin of delta `i`, for a width that is not zero. -/
def bin (i : Nat) : Nat :=
  let bin := (delta reads i / width reads).toNat
  if bin ≥ NBINS then NBINS - 1 else bin

/-- The array `hist`; `none` where the code divides by zero. -/
def hist : Option (Nat → Word) :=
  if width reads = 0 then none else some (binned (bin reads) NDELTAS)

/-- The range printed for bin `i`. -/
def binLow (i : Nat) : Word :=
  BitVec.ofNat 64 i * width reads

def binHigh (i : Nat) : Word :=
  (BitVec.ofNat 64 i + 1) * width reads - 1

def badDeltas : Word :=
  tally (fun i => delta reads i = 0 ∨ DELTA_CAP < delta reads i) NDELTAS

/-- The histogram says what it is meant to say. -/
structure Histogram (h : Nat → Word) : Prop where
  width_pos : 0 < width reads
  no_clamp : ∀ i < NDELTAS, (delta reads i / width reads).toNat < NBINS
  labels : ∀ b < NBINS, (binLow reads b).toNat = b * (width reads).toNat ∧
    (binHigh reads b).toNat + 1 = (b + 1) * (width reads).toNat
  in_range : ∀ i < NDELTAS, ∀ b < NBINS,
    bin reads i = b ↔ binLow reads b ≤ delta reads i ∧ delta reads i ≤ binHigh reads b
  counted : ∀ b < NBINS, (h b).toNat = Nat.count (fun i => bin reads i = b) NDELTAS
  total : ∑ b ∈ Finset.range NBINS, (h b).toNat = NDELTAS

end Main

section Width

variable {reads : Nat → Word}

theorem length_deltas : (deltas reads).length = NDELTAS := by
  rw [deltas, List.length_flatMap]
  simp only [List.length_map, List.length_range, List.map_const', List.sum_replicate]
  rfl

/-- Every delta is the difference of two readings of one burst, and every such
difference is a delta. -/
theorem forall_delta_iff {p : Word → Prop} : (∀ k < NDELTAS, p (delta reads k)) ↔
    ∀ b < NBURSTS, ∀ i < REGS_PER_BURST - 1, p (burstDelta reads b i) := by
  have hall : (∀ d ∈ deltas reads, p d) ↔
      ∀ b < NBURSTS, ∀ i < REGS_PER_BURST - 1, p (burstDelta reads b i) := by
    simp only [deltas, List.forall_mem_flatMap, List.forall_mem_map, List.mem_range]
  have hlength : (deltas reads).length = NDELTAS := length_deltas
  rw [← hall, List.forall_mem_iff_forall_getElem]
  constructor
  · intro h k hk
    have hget : delta reads k = (deltas reads)[k] := List.getD_eq_getElem _ _ hk
    rw [← hget]
    exact h k (hlength ▸ hk)
  · intro h k hk
    rw [← hlength] at hk
    rw [delta, List.getD_eq_getElem _ _ hk]
    exact h k hk

theorem pred_NDELTAS : NDELTAS - 1 + 1 = NDELTAS := by
  decide

theorem delta_le_maxD {i : Nat} (hi : i < NDELTAS) : delta reads i ≤ maxD reads := by
  rw [← pred_NDELTAS] at hi
  exact le_insertRounds_last (delta reads) hi

theorem exists_delta_eq_maxD : ∃ i < NDELTAS, delta reads i = maxD reads := by
  have hlast := exists_eq_insertRounds (delta reads) (Nat.lt_succ_self (NDELTAS - 1))
  rw [pred_NDELTAS] at hlast
  exact hlast

/-- The width is zero exactly if the sum in front of the division wraps. -/
theorem width_ne_zero_iff : width reads ≠ 0 ↔ (maxD reads).toNat + 16 < 2 ^ 64 := by
  rw [width, ne_eq, BitVec.toNat_eq, BitVec.toNat_udiv, BitVec.toNat_add]
  show ¬ ((maxD reads).toNat + 16) % 2 ^ 64 / 16 = 0 ↔ _
  omega

theorem toNat_width (h : (maxD reads).toNat + 16 < 2 ^ 64) :
    (width reads).toNat = (maxD reads).toNat / 16 + 1 := by
  rw [width, BitVec.toNat_udiv, BitVec.toNat_add]
  show ((maxD reads).toNat + 16) % 2 ^ 64 / 16 = _
  omega

/-- No reading of a burst lies 1 to 16 below the one before it. -/
theorem maxD_small_iff : (maxD reads).toNat + 16 < 2 ^ 64 ↔
    ∀ b < NBURSTS, ∀ i < REGS_PER_BURST - 1,
      ¬ (0 < reads (b * REGS_PER_BURST + i) - reads (b * REGS_PER_BURST + i + 1) ∧
        reads (b * REGS_PER_BURST + i) - reads (b * REGS_PER_BURST + i + 1) ≤ 16) := by
  have hdelta : ∀ before after : Word, (after - before).toNat + 16 < 2 ^ 64 ↔
      ¬ (0 < before - after ∧ before - after ≤ 16) := by
    intro before after
    bv_omega
  have hmax : (maxD reads).toNat + 16 < 2 ^ 64 ↔
      ∀ k < NDELTAS, (delta reads k).toNat + 16 < 2 ^ 64 := by
    constructor
    · intro h k hk
      have hle : (delta reads k).toNat ≤ (maxD reads).toNat := delta_le_maxD hk
      omega
    · intro h
      obtain ⟨k, hk, heq⟩ : ∃ k < NDELTAS, delta reads k = maxD reads := exists_delta_eq_maxD
      rw [← heq]
      exact h k hk
  rw [hmax, forall_delta_iff (p := fun d => d.toNat + 16 < 2 ^ 64)]
  simp only [burstDelta, hdelta]

end Width

section Bins

variable {reads : Nat → Word}

/-- Sixteen widths reach beyond every delta and stay below 2^64. -/
theorem bins_cover (h : (maxD reads).toNat + 16 < 2 ^ 64) :
    0 < (width reads).toNat ∧ (maxD reads).toNat < NBINS * (width reads).toNat ∧
      NBINS * (width reads).toNat < 2 ^ 64 := by
  rw [toNat_width h, NBINS]
  omega

theorem labels_eq (h : (maxD reads).toNat + 16 < 2 ^ 64) {b : Nat} (hb : b < NBINS) :
    (binLow reads b).toNat = b * (width reads).toNat ∧
      (binHigh reads b).toNat + 1 = (b + 1) * (width reads).toNat := by
  obtain ⟨hpos, -, hfits⟩ := bins_cover h
  have hnext : (b + 1) * (width reads).toNat ≤ NBINS * (width reads).toNat :=
    Nat.mul_le_mul_right _ hb
  have hthis : b * (width reads).toNat ≤ (b + 1) * (width reads).toNat :=
    Nat.mul_le_mul_right _ (Nat.le_succ b)
  have hlarge : 0 < (b + 1) * (width reads).toNat := Nat.mul_pos (Nat.succ_pos b) hpos
  have hb64 : b + 1 < 2 ^ 64 := by rw [NBINS] at hb; omega
  constructor
  · rw [binLow, BitVec.toNat_mul, BitVec.toNat_ofNat, Nat.mod_eq_of_lt (a := b) (by omega),
      Nat.mod_eq_of_lt (by omega)]
  · have hindex : (BitVec.ofNat 64 b + 1).toNat = b + 1 := by
      rw [BitVec.toNat_add, BitVec.toNat_ofNat]
      show (b % 2 ^ 64 + 1) % 2 ^ 64 = b + 1
      omega
    have hend : ((BitVec.ofNat 64 b + 1) * width reads).toNat = (b + 1) * (width reads).toNat := by
      rw [BitVec.toNat_mul, hindex, Nat.mod_eq_of_lt (by omega)]
    rw [binHigh]
    generalize (BitVec.ofNat 64 b + 1) * width reads = next at hend
    rw [← hend] at hlarge ⊢
    bv_omega

theorem quotient_lt (h : (maxD reads).toNat + 16 < 2 ^ 64) {i : Nat} (hi : i < NDELTAS) :
    (delta reads i / width reads).toNat < NBINS := by
  obtain ⟨hpos, hcover, -⟩ := bins_cover h
  have hle : (delta reads i).toNat ≤ (maxD reads).toNat := delta_le_maxD hi
  rw [BitVec.toNat_udiv, Nat.div_lt_iff_lt_mul hpos]
  omega

theorem bin_eq (h : (maxD reads).toNat + 16 < 2 ^ 64) {i : Nat} (hi : i < NDELTAS) :
    bin reads i = (delta reads i).toNat / (width reads).toNat := by
  have hlt := quotient_lt h hi
  rw [bin, if_neg (by omega), BitVec.toNat_udiv]

theorem bin_eq_iff (h : (maxD reads).toNat + 16 < 2 ^ 64) {i b : Nat} (hi : i < NDELTAS)
    (hb : b < NBINS) :
    bin reads i = b ↔ binLow reads b ≤ delta reads i ∧ delta reads i ≤ binHigh reads b := by
  obtain ⟨hpos, -, -⟩ := bins_cover h
  obtain ⟨hlow, hhigh⟩ := labels_eq h hb
  rw [Nat.add_one_mul] at hhigh
  rw [bin_eq h hi, Nat.div_eq_iff hpos, BitVec.le_def, BitVec.le_def, hlow]
  omega

theorem histogram_of_small (h : (maxD reads).toNat + 16 < 2 ^ 64) :
    Histogram reads (binned (bin reads) NDELTAS) := by
  have hcounted : ∀ b, (binned (bin reads) NDELTAS b).toNat =
      Nat.count (fun i => bin reads i = b) NDELTAS := by
    intro b
    rw [binned_apply, toNat_tally (by decide)]
  refine ⟨?_, fun i hi => quotient_lt h hi, fun b hb => labels_eq h hb,
    fun i hi b hb => bin_eq_iff h hi hb, fun b _ => hcounted b, ?_⟩
  · rw [BitVec.lt_def]
    exact (bins_cover h).1
  · simp only [hcounted]
    apply sum_count_bins
    intro i hi
    rw [bin_eq h hi, ← BitVec.toNat_udiv]
    exact quotient_lt h hi

/-- The histogram is computed and right exactly if no reading of a burst lies 1 to
16 below the one before it. -/
theorem histogram_iff (reads : Nat → Word) :
    (∃ h, hist reads = some h ∧ Histogram reads h) ↔
      ∀ b < NBURSTS, ∀ i < REGS_PER_BURST - 1,
        ¬ (0 < reads (b * REGS_PER_BURST + i) - reads (b * REGS_PER_BURST + i + 1) ∧
          reads (b * REGS_PER_BURST + i) - reads (b * REGS_PER_BURST + i + 1) ≤ 16) := by
  rw [← maxD_small_iff, ← width_ne_zero_iff]
  constructor
  · rintro ⟨h, hhist, -⟩ hzero
    rw [hist, if_pos hzero] at hhist
    cases hhist
  · intro hne
    refine ⟨_, if_neg hne, ?_⟩
    exact histogram_of_small (width_ne_zero_iff.mp hne)

/-- Where the lab counts no bad delta its histogram is right. -/
theorem histogram_of_no_bad (hbad : badDeltas reads = 0) :
    ∃ h, hist reads = some h ∧ Histogram reads h := by
  rw [badDeltas, tally_eq_zero_iff (by decide)] at hbad
  obtain ⟨i, hi, hmax⟩ : ∃ i < NDELTAS, delta reads i = maxD reads := exists_delta_eq_maxD
  have hcap : (maxD reads).toNat ≤ DELTA_CAP.toNat := by
    rw [← hmax, ← BitVec.le_def, ← BitVec.not_lt]
    exact fun habove => hbad i hi (Or.inr habove)
  have hsmall : (maxD reads).toNat + 16 < 2 ^ 64 := by
    have hvalue : DELTA_CAP.toNat = 2 ^ 40 := rfl
    omega
  exact ⟨_, if_neg (width_ne_zero_iff.mpr hsmall), histogram_of_small hsmall⟩

end Bins

/-- Readings of a counter that advances by 40 but for one step back by 3. -/
def backstepReads (k : Nat) : Word :=
  if k = 5 then 157 else BitVec.ofNat 64 (40 * k)

/-- One small step back in the first burst makes the width zero. -/
theorem width_zero_of_backstep : width backstepReads = 0 ∧ hist backstepReads = none := by
  have hzero : width backstepReads = 0 := by
    by_contra hne
    rw [← ne_eq, width_ne_zero_iff, maxD_small_iff] at hne
    exact hne 0 (by decide) 4 (by decide) (by decide)
  exact ⟨hzero, if_pos hzero⟩

end CycleReadLatency
end BareMetal
