import BareMetal.Machine.ArraySort
import BareMetal.Machine.Counting
import BareMetal.Machine.Strides

/-!
# The histograms of the latency labs

`hist_ticks` of `src/wfi-latency/wfi_main.c` and `src/mtimecmp/mt_main.c`, and
`hist_cyc` of the former.  The loop variable runs over the machine words from the
least sample to the greatest, and both the test that ends the loop and the end of a
bucket wrap when there are samples close to 2^64, as there are if a stamp is out of
order.

`histograms_right_iff` says when every sample is counted once.
-/

namespace BareMetal
namespace LatencyLabs
namespace Histogram

open Machine

/-- The length of `sort_tmp` in `mt_main.c`; in `wfi_main.c` it is 400. -/
def MT_NTRIALS : Nat := 1000

/-- `stats_t` of `mt_main.c`; the one of `wfi_main.c` has no `p99`. -/
structure Stats where
  min : Word
  p50 : Word
  p99 : Word
  max : Word
  mean : Word

/-- A printed line: the range of the bucket and its count. -/
structure Line where
  low : Word
  high : Word
  count : Word

/-- The lines that a loop over the buckets `bs` prints. -/
def printed (high : Word → Word) (hits : Word → Nat → Prop) [∀ b, DecidablePred (hits b)] (n : Nat)
    (bs : List Word) : List Line :=
  bs.filterMap fun b =>
    let c := tally (hits b) n
    if 0 < c then some ⟨b, high b, c⟩ else none

section Samples

variable (vals : Nat → Word) (n : Nat)

/-- The array `sort_tmp` after `sort_asc`. -/
def sortAsc : Nat → Word :=
  insertRounds vals (n - 1)

def calcStats : Stats :=
  let sorted := sortAsc vals n
  { min := sorted 0
    max := sorted (n - 1)
    p50 := sorted (n / 2)
    p99 := sorted (n * 99 / 100)
    mean := (elems sorted n).sum / BitVec.ofNat 64 n }

/-- `vals[i] == v`. -/
def ticksHit (v : Word) (i : Nat) : Prop :=
  vals i = v

instance (v : Word) : DecidablePred (ticksHit vals v) := fun i =>
  inferInstanceAs (Decidable (vals i = v))

/-- `hist_ticks`; `none` if the loop is still running after `fuel` rounds. -/
def histTicks (fuel : Nat) : Option (List Line) :=
  let s := calcStats vals n
  (strided s.max 1 fuel s.min).map (printed (fun v => v) (ticksHit vals) n)

variable (width : Word)

/-- `vals[i] >= b && vals[i] < b + width`. -/
def cycHit (b : Word) (i : Nat) : Prop :=
  b ≤ vals i ∧ vals i < b + width

instance (b : Word) : DecidablePred (cycHit vals width b) := fun i =>
  inferInstanceAs (Decidable (b ≤ vals i ∧ vals i < b + width))

/-- `hist_cyc`. -/
def histCyc (fuel : Nat) : Option (List Line) :=
  let s := calcStats vals n
  let lo := s.min / width * width
  (strided s.max width fuel lo).map (printed (fun b => b + width - 1) (cycHit vals width) n)

end Samples

/-- Every sample is counted in one line, and the counts add up. -/
structure Complete (hits : Word → Nat → Prop) [∀ b, DecidablePred (hits b)] (n : Nat)
    (lines : List Line) : Prop where
  once : ∀ i < n, lines.countP (fun line => decide (hits line.low i)) = 1
  total : (lines.map fun line => line.count.toNat).sum = n

/-- The loop ends and its lines are complete. -/
def Right (hits : Word → Nat → Prop) [∀ b, DecidablePred (hits b)] (n : Nat)
    (hist : Nat → Option (List Line)) : Prop :=
  ∃ fuel lines, hist fuel = some lines ∧ Complete hits n lines

/-! ## The lines of a loop -/

section Lines

variable {hits : Word → Nat → Prop} [∀ b, DecidablePred (hits b)] {n : Nat}

/-- A bucket that is not printed holds no sample. -/
theorem countP_printed (hn : n < 2 ^ 64) (high : Word → Word) (bs : List Word) {i : Nat}
    (hi : i < n) :
    (printed high hits n bs).countP (fun line => decide (hits line.low i)) =
      bs.countP fun b => decide (hits b i) := by
  induction bs with
  | nil => rfl
  | cons b bs ih =>
      by_cases hc : 0 < tally (hits b) n
      · have hprinted : printed high hits n (b :: bs) =
            ⟨b, high b, tally (hits b) n⟩ :: printed high hits n bs :=
          List.filterMap_cons_some (if_pos hc)
        rw [hprinted, List.countP_cons, List.countP_cons, ih]
      · have hskipped : printed high hits n (b :: bs) = printed high hits n bs :=
          List.filterMap_cons_none (if_neg hc)
        have hmiss : ¬ hits b i := by
          intro hit
          exact hc ((tally_pos_iff hn).mpr ⟨i, hi, hit⟩)
        rw [hskipped, ih, List.countP_cons_of_neg (by simpa using hmiss)]

theorem sum_printed (hn : n < 2 ^ 64) (high : Word → Word) (bs : List Word) :
    ((printed high hits n bs).map fun line => line.count.toNat).sum =
      (bs.map fun b => Nat.count (hits b) n).sum := by
  induction bs with
  | nil => rfl
  | cons b bs ih =>
      rw [List.map_cons, List.sum_cons, ← toNat_tally hn, ← ih]
      by_cases hc : 0 < tally (hits b) n
      · have hprinted : printed high hits n (b :: bs) =
            ⟨b, high b, tally (hits b) n⟩ :: printed high hits n bs :=
          List.filterMap_cons_some (if_pos hc)
        rw [hprinted, List.map_cons, List.sum_cons]
      · have hskipped : printed high hits n (b :: bs) = printed high hits n bs :=
          List.filterMap_cons_none (if_neg hc)
        have hzero : (tally (hits b) n).toNat = 0 := Nat.eq_zero_of_not_pos hc
        rw [hskipped, hzero, Nat.zero_add]

/-- Counting by buckets and counting by samples. -/
theorem sum_count_eq (bs : List Word) :
    (bs.map fun b => Nat.count (hits b) n).sum =
      ∑ i ∈ Finset.range n, bs.countP fun b => decide (hits b i) := by
  induction bs with
  | nil => simp
  | cons b bs ih =>
      rw [List.map_cons, List.sum_cons, ih, Nat.count_eq_card_filter_range, Finset.card_filter,
        ← Finset.sum_add_distrib]
      apply Finset.sum_congr rfl
      intro i _
      rw [List.countP_cons, Nat.add_comm]
      congr 1
      simp

/-- The counts add up as soon as every sample lies in one of the buckets. -/
theorem complete_printed_iff (hn : n < 2 ^ 64) (high : Word → Word) (bs : List Word) :
    Complete hits n (printed high hits n bs) ↔
      ∀ i < n, bs.countP (fun b => decide (hits b i)) = 1 := by
  constructor
  · intro h i hi
    rw [← countP_printed hn high bs hi]
    exact h.once i hi
  · intro h
    refine ⟨?_, ?_⟩
    · intro i hi
      rw [countP_printed hn high bs hi]
      exact h i hi
    · rw [sum_printed hn, sum_count_eq,
        Finset.sum_congr rfl fun i hi => h i (Finset.mem_range.mp hi)]
      simp

theorem countP_range_eq_one_iff {p : Nat → Prop} [DecidablePred p] {K : Nat} :
    (List.range K).countP (fun k => decide (p k)) = 1 ↔ ∃! k, k < K ∧ p k := by
  show Nat.count p K = 1 ↔ _
  rw [Nat.count_eq_card_filter_range, Finset.card_eq_one, Finset.singleton_iff_unique_mem]
  simp only [Finset.mem_filter, Finset.mem_range]

/-- A histogram is right if its loop ends and passes one bucket of each sample. -/
theorem right_iff (hn : n < 2 ^ 64) (high : Word → Word) (hi step lo : Word) :
    Right hits n (fun fuel => (strided hi step fuel lo).map (printed high hits n)) ↔
      ∃ K, (∀ k < K, stride lo step k ≤ hi) ∧ hi < stride lo step K ∧
        ∀ i < n, ∃! k, k < K ∧ hits (stride lo step k) i := by
  constructor
  · rintro ⟨fuel, lines, hrun, hcomplete⟩
    obtain ⟨bs, hbs, rfl⟩ := Option.map_eq_some_iff.mp hrun
    obtain ⟨K, hbelow, habove, rfl⟩ := strided_iff.mp ⟨fuel, hbs⟩
    refine ⟨K, hbelow, habove, ?_⟩
    intro i hi
    have honce := (complete_printed_iff hn high _).mp hcomplete i hi
    rw [List.countP_map] at honce
    exact countP_range_eq_one_iff.mp honce
  · rintro ⟨K, hbelow, habove, honce⟩
    obtain ⟨fuel, hrun⟩ := strided_iff.mpr ⟨K, hbelow, habove, rfl⟩
    refine ⟨fuel, _, congrArg (Option.map _) hrun, ?_⟩
    rw [complete_printed_iff hn]
    intro i hi
    rw [List.countP_map]
    exact countP_range_eq_one_iff.mpr (honce i hi)

end Lines

/-! ## The two loops -/

section Ends

variable {vals : Nat → Word} {n : Nat}

theorem min_le {i : Nat} (hi : i < n) : (calcStats vals n).min ≤ vals i := by
  have hpred : n - 1 + 1 = n := by omega
  rw [← hpred] at hi
  exact insertRounds_first_le vals hi

theorem le_max {i : Nat} (hi : i < n) : vals i ≤ (calcStats vals n).max := by
  have hpred : n - 1 + 1 = n := by omega
  rw [← hpred] at hi
  exact le_insertRounds_last vals hi

theorem exists_eq_max (vals : Nat → Word) (hpos : 0 < n) : ∃ i < n, vals i = (calcStats vals n).max := by
  obtain ⟨i, hi, heq⟩ := exists_eq_insertRounds vals (Nat.lt_succ_self (n - 1))
  exact ⟨i, by omega, heq⟩

theorem histTicks_of_top {i : Nat} (hi : i < n) (htop : vals i = BitVec.allOnes 64) (fuel : Nat) :
    histTicks vals n fuel = none := by
  have hmax : (calcStats vals n).max = BitVec.allOnes 64 := by
    have hle : vals i ≤ (calcStats vals n).max := le_max hi
    rw [htop] at hle
    exact BitVec.allOnes_le_iff.mp hle
  rw [histTicks, hmax, strided_allOnes, Option.map_none]

/-- `hist_ticks` is right up to the last word below 2^64, and does not end there. -/
theorem histTicks_right_iff (hpos : 0 < n) (hn : n < 2 ^ 64) :
    Right (ticksHit vals) n (histTicks vals n) ↔ ∀ i < n, vals i ≠ BitVec.allOnes 64 := by
  constructor
  · rintro ⟨fuel, lines, hrun, -⟩ i hi htop
    rw [histTicks_of_top hi htop fuel] at hrun
    cases hrun
  · intro hbelow
    obtain ⟨top, htop, hmax⟩ := exists_eq_max vals hpos
    have hroom : (calcStats vals n).max.toNat + 1 < 2 ^ 64 := by
      have hne := hbelow top htop
      rw [hmax, ne_eq, BitVec.toNat_eq, BitVec.toNat_allOnes] at hne
      omega
    have hminmax : (calcStats vals n).min.toNat ≤ (calcStats vals n).max.toNat :=
      BitVec.le_def.mp (hmax ▸ min_le htop)
    have hstep : (1 : Word).toNat = 1 := rfl
    refine (right_iff hn (fun v => v) _ 1 _).mpr
      ⟨(calcStats vals n).max.toNat - (calcStats vals n).min.toNat + 1, ?_, ?_, ?_⟩
    · intro k hk
      rw [BitVec.le_def, toNat_stride, hstep]
      omega
    · rw [BitVec.lt_def, toNat_stride, hstep]
      omega
    · intro i hi
      have hlow : (calcStats vals n).min.toNat ≤ (vals i).toNat := BitVec.le_def.mp (min_le hi)
      have hhigh : (vals i).toNat ≤ (calcStats vals n).max.toNat := BitVec.le_def.mp (le_max hi)
      refine ⟨(vals i).toNat - (calcStats vals n).min.toNat, ⟨by omega, ?_⟩, ?_⟩
      · rw [ticksHit, BitVec.toNat_eq, toNat_stride, hstep]
        omega
      · rintro k ⟨hk, hit⟩
        rw [ticksHit, BitVec.toNat_eq, toNat_stride, hstep] at hit
        omega

variable {width : Word}

/-- The buckets of `hist_cyc` are the multiples of the width from that of the least
sample on. -/
theorem toNat_bucket (low : Word) (k : Nat) :
    (stride (low / width * width) width k).toNat =
      (low.toNat / width.toNat + k) * width.toNat % 2 ^ 64 := by
  have hle : low.toNat / width.toNat * width.toNat ≤ low.toNat := Nat.div_mul_le_self _ _
  have hlo : (low / width * width).toNat = low.toNat / width.toNat * width.toNat := by
    rw [BitVec.toNat_mul, BitVec.toNat_udiv, Nat.mod_eq_of_lt (by omega)]
  rw [toNat_stride, hlo, ← Nat.add_mul]

theorem cycHit_iff (low : Word) (k i : Nat) :
    cycHit vals width (stride (low / width * width) width k) i ↔
      (low.toNat / width.toNat + k) * width.toNat % 2 ^ 64 ≤ (vals i).toNat ∧
        (vals i).toNat < (low.toNat / width.toNat + k + 1) * width.toNat % 2 ^ 64 := by
  rw [cycHit, ← stride_succ, BitVec.le_def, BitVec.lt_def, toNat_bucket, toNat_bucket,
    Nat.add_assoc]

/-- The greatest sample closes last. -/
theorem closes_max_iff (hpos : 0 < n) {w r : Nat} :
    Closes (2 ^ 64) w r (calcStats vals n).max.toNat ↔
      ∀ i < n, Closes (2 ^ 64) w r (vals i).toNat := by
  constructor
  · intro h i hi
    exact h.mono (BitVec.le_def.mp (le_max hi))
  · intro h
    obtain ⟨top, htop, hmax⟩ := exists_eq_max vals hpos
    rw [← hmax]
    exact h top htop

/-- `hist_cyc` is right if the loop leaves in some round, in which first every bucket
of a sample is closed, and each sample has its bucket inside one round up to then. -/
theorem histCyc_right_iff (hpos : 0 < n) (hn : n < 2 ^ 64) (hw : 0 < width) :
    Right (cycHit vals width) n (histCyc vals n width) ↔
      ∃ R, (∀ i < n, Closes (2 ^ 64) width.toNat R (vals i).toNat) ∧
        (∀ r < R, ∃ i < n, ¬ Closes (2 ^ 64) width.toNat r (vals i).toNat) ∧
        ∀ i < n, ∃! r, r ≤ R ∧ Begins (2 ^ 64) width.toNat r (vals i).toNat ∧
          Closes (2 ^ 64) width.toNat r (vals i).toNat := by
  have hw' : 0 < width.toNat := BitVec.lt_def.mp hw
  have hfirst : ∀ i < n, (calcStats vals n).min.toNat / width.toNat * width.toNat ≤
      (vals i).toNat := by
    intro i hi
    exact (Nat.div_mul_le_self _ _).trans (BitVec.le_def.mp (min_le hi))
  have hlast : ∀ i < n, (vals i).toNat ≤ (calcStats vals n).max.toNat := fun i hi =>
    BitVec.le_def.mp (le_max hi)
  obtain ⟨top, htop, hmax⟩ := exists_eq_max vals hpos
  have hfirstMax := hfirst top htop
  rw [hmax] at hfirstMax
  have hrounds : ∀ R, FirstClosed (2 ^ 64) width.toNat R (calcStats vals n).max.toNat ↔
      (∀ i < n, Closes (2 ^ 64) width.toNat R (vals i).toNat) ∧
        ∀ r < R, ∃ i < n, ¬ Closes (2 ^ 64) width.toNat r (vals i).toNat := by
    intro R
    constructor
    · rintro ⟨hclosed, hopen⟩
      refine ⟨(closes_max_iff hpos).mp hclosed, ?_⟩
      intro r hr
      by_contra! hall
      exact hopen r hr ((closes_max_iff hpos).mpr hall)
    · rintro ⟨hclosed, hopen⟩
      refine ⟨(closes_max_iff hpos).mpr hclosed, ?_⟩
      intro r hr hearly
      obtain ⟨i, hi, hnot⟩ := hopen r hr
      exact hnot ((closes_max_iff hpos).mp hearly i hi)
  refine (right_iff hn (fun b => b + width - 1) _ width _).trans ?_
  simp only [BitVec.le_def, BitVec.lt_def, toNat_bucket, cycHit_iff]
  rw [walk_iff hw' (by omega) hfirst hlast hfirstMax (by omega)]
  simp only [hrounds, and_assoc]

/-- With the buckets of all samples ending below 2^64 the loop leaves in round 0. -/
theorem histCyc_right_of_room (hpos : 0 < n) (hn : n < 2 ^ 64) (hw : 0 < width)
    (hroom : ∀ i < n, ((vals i).toNat / width.toNat + 1) * width.toNat < 2 ^ 64) :
    Right (cycHit vals width) n (histCyc vals n width) := by
  have hclosed : ∀ i < n, Closes (2 ^ 64) width.toNat 0 (vals i).toNat := by
    intro i hi
    rw [Closes, Nat.zero_mul, Nat.zero_add, Nat.zero_add, Nat.one_mul]
    exact hroom i hi
  rw [histCyc_right_iff hpos hn hw]
  refine ⟨0, hclosed, fun r hr => absurd hr (Nat.not_lt_zero r), ?_⟩
  intro i hi
  refine ⟨0, ⟨Nat.le_refl 0, begins_zero, hclosed i hi⟩, ?_⟩
  rintro r ⟨hr, -⟩
  exact Nat.le_zero.mp hr

/-- For all widths at once: no sample may reach 2^63. -/
theorem forall_width_right_iff (hpos : 0 < n) (hn : n < 2 ^ 64) :
    (∀ width : Word, 0 < width → Right (cycHit vals width) n (histCyc vals n width)) ↔
      ∀ i < n, (vals i).toNat < 2 ^ 63 := by
  constructor
  · intro hall i hi
    obtain ⟨R, hclosed, -⟩ :=
      (histCyc_right_iff hpos hn (by decide)).mp (hall (BitVec.ofNat 64 (2 ^ 63)) (by decide))
    have hi := hclosed i hi
    have hwidth : (BitVec.ofNat 64 (2 ^ 63)).toNat = 2 ^ 63 := by decide
    rw [Closes, hwidth] at hi
    omega
  · intro hsmall width hw
    apply histCyc_right_of_room hpos hn hw
    intro i hi
    have hle : (vals i).toNat / width.toNat * width.toNat ≤ (vals i).toNat :=
      Nat.div_mul_le_self _ _
    have hi := hsmall i hi
    rw [Nat.add_one_mul]
    rcases Nat.lt_or_ge (vals i).toNat width.toNat with hlt | hge
    · rw [Nat.div_eq_of_lt hlt]
      omega
    · omega

/-- `hist_ticks` is right exactly if no sample is the last word below 2^64.  `hist_cyc`
is right exactly if there is a round in which first all buckets of samples end, and
until then there is for each sample just one round that contains its bucket. -/
theorem histograms_right_iff (vals : Nat → Word) {n : Nat} (hpos : 0 < n) (hn : n ≤ MT_NTRIALS)
    {width : Word} (hw : 0 < width) :
    (Right (ticksHit vals) n (histTicks vals n) ↔ ∀ i < n, vals i ≠ BitVec.allOnes 64) ∧
      (Right (cycHit vals width) n (histCyc vals n width) ↔
        ∃ R, (∀ i < n, Closes (2 ^ 64) width.toNat R (vals i).toNat) ∧
          (∀ r < R, ∃ i < n, ¬ Closes (2 ^ 64) width.toNat r (vals i).toNat) ∧
          ∀ i < n, ∃! r, r ≤ R ∧ Begins (2 ^ 64) width.toNat r (vals i).toNat ∧
            Closes (2 ^ 64) width.toNat r (vals i).toNat) := by
  have hbound : n < 2 ^ 64 := by
    rw [MT_NTRIALS] at hn
    omega
  exact ⟨histTicks_right_iff hpos hbound, histCyc_right_iff hpos hbound hw⟩

/-- Samples of 25, 125, 225 and 325: two in the first bucket of 150, one in each of the
next two. -/
def spread (i : Nat) : Word :=
  BitVec.ofNat 64 (100 * i + 25)

theorem spread_samples_histograms :
    Right (ticksHit spread) 4 (histTicks spread 4) ∧
      Right (cycHit spread 150) 4 (histCyc spread 4 150) := by
  obtain ⟨hticks, hcyc⟩ := histograms_right_iff spread (show 0 < 4 by decide) (by decide)
    (show (0 : Word) < 150 by decide)
  have hclosed : ∀ i < 4, Closes (2 ^ 64) (150 : Word).toNat 0 (spread i).toNat := by
    unfold Closes
    decide
  refine ⟨hticks.mpr (by decide), hcyc.mpr ⟨0, hclosed, fun r hr => ?_, fun i hi => ?_⟩⟩
  · exact absurd hr (Nat.not_lt_zero r)
  · exact ⟨0, ⟨Nat.le_refl 0, begins_zero, hclosed i hi⟩, fun r hr => Nat.le_zero.mp hr.1⟩

/-- Latencies of 25 ticks but for one, whose later stamp is one tick before the other. -/
def oneBackward (i : Nat) : Word :=
  if i = 3 then BitVec.allOnes 64 else 25

theorem backward_stamp_never_ends :
    ¬ ∃ fuel lines, histTicks oneBackward 392 fuel = some lines := by
  rintro ⟨fuel, lines, hrun⟩
  rw [histTicks_of_top (i := 3) (by decide) rfl fuel] at hrun
  cases hrun

end Ends

end Histogram
end LatencyLabs
end BareMetal
