import BareMetal.Machine.ArraySort
import BareMetal.Smode.Samples
import Mathlib.Data.List.GetD

/-!
# The statistics of the smode report

`sort_copy`, `median_of`, `min_of` and `max_of` of `src/smode/ssched.c`, and the
cycles-per-tick ratio at the end of `sched_report`.  The report works on four
arrays: the three sample arrays and the static buffer in which `median_of`
sorts.

The median of an even number of samples is the average of the two middle ones,
computed in 64 bits; the ratio divides by such a median.  `medianOf_exact_iff`
and `ratioDivisor_ne_zero_iff` say for which samples that goes well.
-/

namespace BareMetal
namespace Smode

open Machine Switch

/-! ## Sorting into the buffer -/

/-- The arrays of the report: the `buf` of `median_of` and the samples. -/
inductive ReportArray
  | buf
  | samples (a : SampleArray)
  deriving DecidableEq, Repr

/-- The first loop of `sort_copy`, for the elements below `n`. -/
def copyLoop (m : ReportArray → Nat → Word) (dst src : ReportArray) :
    Nat → ReportArray → Nat → Word
  | 0 => m
  | i + 1 =>
      let m := copyLoop m dst src i
      Function.update m dst (Function.update (m dst) i (m src i))

/-- `sort_copy`. -/
def sortCopy (m : ReportArray → Nat → Word) (dst src : ReportArray) (n : Nat) :
    ReportArray → Nat → Word :=
  let m := copyLoop m dst src n
  Function.update m dst (insertRounds (m dst) (n - 1))

/-- `median_of`: the value, and the arrays with the buffer it has sorted in. -/
def medianOf (m : ReportArray → Nat → Word) (a : ReportArray) (n : Word) :
    Word × (ReportArray → Nat → Word) :=
  let m := sortCopy m .buf a n.toNat
  ((m .buf (n / 2 - 1).toNat + m .buf (n / 2).toNat) / 2, m)

/-- The loop of `min_of` up to the element `k`. -/
def minLoop (a : Nat → Word) : Nat → Word
  | 0 => a 0
  | k + 1 => if a (k + 1) < minLoop a k then a (k + 1) else minLoop a k

/-- `min_of`. -/
def minOf (a : Nat → Word) (n : Word) : Word :=
  minLoop a (n.toNat - 1)

/-- The loop of `max_of` up to the element `k`. -/
def maxLoop (a : Nat → Word) : Nat → Word
  | 0 => a 0
  | k + 1 => if maxLoop a k < a (k + 1) then a (k + 1) else maxLoop a k

/-- `max_of`. -/
def maxOf (a : Nat → Word) (n : Word) : Word :=
  maxLoop a (n.toNat - 1)

/-- The destination is the sorted permutation of the source; the source, every
other array and the destination from `n` on are as they were. -/
structure SortedCopy (m : ReportArray → Nat → Word) (dst src : ReportArray) (n : Nat) : Prop where
  perm : (elems (sortCopy m dst src n dst) n).Perm (elems (m src) n)
  ascending : Ascending (sortCopy m dst src n dst) n
  others : ∀ a, a ≠ dst → sortCopy m dst src n a = m a
  bounded : ∀ i, n ≤ i → sortCopy m dst src n dst i = m dst i

section SortCopy

variable (m : ReportArray → Nat → Word) {dst src : ReportArray}

theorem copyLoop_others (n : Nat) {a : ReportArray} (ha : a ≠ dst) :
    copyLoop m dst src n a = m a := by
  induction n with
  | zero => rfl
  | succ n ih =>
      rw [copyLoop, Function.update_of_ne ha, ih]

/-- The copy, element by element. -/
theorem copyLoop_dst (hne : src ≠ dst) (n i : Nat) :
    copyLoop m dst src n dst i = if i < n then m src i else m dst i := by
  induction n with
  | zero => rfl
  | succ n ih =>
      rw [copyLoop, Function.update_self, copyLoop_others m n hne]
      by_cases hi : i = n
      · rw [hi, Function.update_self, if_pos (Nat.lt_succ_self n)]
      · rw [Function.update_of_ne hi, ih]
        by_cases hlt : i < n
        · rw [if_pos hlt, if_pos (by omega)]
        · rw [if_neg hlt, if_neg (by omega)]

theorem sortCopy_dst (n : Nat) :
    sortCopy m dst src n dst = insertRounds (copyLoop m dst src n dst) (n - 1) := by
  rw [sortCopy, Function.update_self]

theorem elems_copyLoop (hne : src ≠ dst) (n : Nat) :
    elems (copyLoop m dst src n dst) n = elems (m src) n :=
  elems_congr fun i hi => by rw [copyLoop_dst m hne, if_pos hi]

/-- The buffer holds the sorted list of the samples. -/
theorem elems_sortCopy (hne : src ≠ dst) (n : Nat) :
    elems (sortCopy m dst src n dst) n = sorted (elems (m src) n) := by
  rw [sortCopy_dst, elems_insertRounds, elems_copyLoop m hne]

theorem sortCopy_sortedCopy (hne : src ≠ dst) (n : Nat) : SortedCopy m dst src n where
  perm := by
    rw [elems_sortCopy m hne]
    exact sorted_perm _
  ascending := by
    rw [sortCopy_dst]
    intro i j hij hj
    exact insertRounds_ascending _ (n - 1) i j hij (by omega)
  others := fun a ha => by
    rw [sortCopy, Function.update_of_ne ha, copyLoop_others m n ha]
  bounded := fun i hi => by
    rw [sortCopy_dst]
    rcases Nat.eq_zero_or_pos n with rfl | hn
    · rfl
    · rw [insertRounds_of_lt _ (by omega), copyLoop_dst m hne, if_neg (by omega)]

end SortCopy

/-! ## The median -/

/-- The two middle samples in ascending order, for an even number of them. -/
def lowMiddle (vs : List Word) : Word :=
  (sorted vs).getD (vs.length / 2 - 1) 0

@[inherit_doc lowMiddle]
def highMiddle (vs : List Word) : Word :=
  (sorted vs).getD (vs.length / 2) 0

/-- The median is the floor of the average of the two middle samples, and lies
between the least and the greatest. -/
structure MedianExact (m : ReportArray → Nat → Word) (a : ReportArray) (n : Word) : Prop where
  floor : (medianOf m a n).1.toNat =
    ((lowMiddle (elems (m a) n.toNat)).toNat + (highMiddle (elems (m a) n.toNat)).toNat) / 2
  ge_min : minOf (m a) n ≤ (medianOf m a n).1
  le_max : (medianOf m a n).1 ≤ maxOf (m a) n

theorem minLoop_le (a : Nat → Word) {k i : Nat} (hi : i ≤ k) : minLoop a k ≤ a i := by
  induction k with
  | zero =>
      obtain rfl : i = 0 := by omega
      exact BitVec.le_refl _
  | succ k ih =>
      rw [minLoop]
      rcases Nat.lt_or_ge i (k + 1) with hlt | hge
      · have hbelow := ih (by omega)
        split
        · next hless => exact BitVec.le_trans (BitVec.le_of_lt hless) hbelow
        · exact hbelow
      · obtain rfl : i = k + 1 := by omega
        split
        · exact BitVec.le_refl _
        · next hless => exact BitVec.not_lt.mp hless

theorem le_maxLoop (a : Nat → Word) {k i : Nat} (hi : i ≤ k) : a i ≤ maxLoop a k := by
  induction k with
  | zero =>
      obtain rfl : i = 0 := by omega
      exact BitVec.le_refl _
  | succ k ih =>
      rw [maxLoop]
      rcases Nat.lt_or_ge i (k + 1) with hlt | hge
      · have hbelow := ih (by omega)
        split
        · next hgreater => exact BitVec.le_trans hbelow (BitVec.le_of_lt hgreater)
        · exact hbelow
      · obtain rfl : i = k + 1 := by omega
        split
        · exact BitVec.le_refl _
        · next hgreater => exact BitVec.not_lt.mp hgreater

section Median

variable {m : ReportArray → Nat → Word} {a : SampleArray} {n : Word}

/-- The elements of the sorted list are samples. -/
theorem sorted_getD_mem {vs : List Word} {k : Nat} (hk : k < vs.length) :
    (sorted vs).getD k 0 ∈ vs := by
  have hlength : (sorted vs).length = vs.length := (sorted_perm vs).length_eq
  rw [List.getD_eq_getElem _ _ (by omega)]
  exact (sorted_perm vs).mem_iff.mp (List.getElem_mem _)

/-- Every sample is between the least and the greatest. -/
theorem minOf_le_maxOf_of_mem {b : Nat → Word} {v : Word} (hv : v ∈ elems b n.toNat) :
    minOf b n ≤ v ∧ v ≤ maxOf b n := by
  obtain ⟨i, hi, rfl⟩ := List.mem_map.mp hv
  rw [List.mem_range] at hi
  exact ⟨minLoop_le b (by omega), le_maxLoop b (by omega)⟩

theorem lowMiddle_le_highMiddle (vs : List Word) (hvs : 2 ≤ vs.length) :
    lowMiddle vs ≤ highMiddle vs := by
  have hlength : (sorted vs).length = vs.length := (sorted_perm vs).length_eq
  rw [lowMiddle, highMiddle, List.getD_eq_getElem _ _ (by omega),
    List.getD_eq_getElem _ _ (by omega)]
  exact List.pairwise_iff_getElem.mp (sorted_pairwise vs) _ _ _ _ (by omega)

/-- The value of `median_of`, in terms of the two middle samples. -/
theorem medianOf_eq (heven : n.toNat % 2 = 0) (hn : 1 ≤ n) :
    (medianOf m (.samples a) n).1 =
      (lowMiddle (elems (m (.samples a)) n.toNat) +
        highMiddle (elems (m (.samples a)) n.toNat)) / 2 := by
  have hpos : 1 ≤ n.toNat := hn
  have hhalf : (n / 2).toNat = n.toNat / 2 := by
    rw [BitVec.toNat_udiv]
    rfl
  have hbelow : (n / 2 - 1).toNat = n.toNat / 2 - 1 := by
    have hone : (1 : Word) ≤ n / 2 := by
      rw [BitVec.le_def, hhalf]
      show 1 ≤ n.toNat / 2
      omega
    rw [BitVec.toNat_sub_of_le hone, hhalf]
    rfl
  have hbuf : ∀ k, k < n.toNat → sortCopy m .buf (.samples a) n.toNat .buf k =
      (sorted (elems (m (.samples a)) n.toNat)).getD k 0 := by
    intro k hk
    have hne : ReportArray.samples a ≠ .buf := nofun
    rw [← elems_sortCopy m hne n.toNat, List.getD_eq_getElem?_getD, getElem?_elems _ hk,
      Option.getD_some]
  rw [medianOf]
  dsimp only
  rw [hhalf, hbelow, hbuf _ (by omega), hbuf _ (by omega), lowMiddle, highMiddle, length_elems]

/-- For an even number of samples `median_of` is exact if and only if the sum
of the two middle ones fits into a word. -/
theorem medianOf_exact_iff (heven : n.toNat % 2 = 0) (hn : 1 ≤ n) :
    MedianExact m (.samples a) n ↔
      (lowMiddle (elems (m (.samples a)) n.toNat)).toNat +
        (highMiddle (elems (m (.samples a)) n.toNat)).toNat < 2 ^ 64 := by
  have hpos : 1 ≤ n.toNat := hn
  have hvalue := congrArg BitVec.toNat (medianOf_eq (m := m) (a := a) heven hn)
  rw [BitVec.toNat_udiv, BitVec.toNat_add, show (2 : Word).toNat = 2 from rfl] at hvalue
  generalize hvs : elems (m (.samples a)) n.toNat = vs at hvalue ⊢
  have hlength : vs.length = n.toNat := by
    rw [← hvs, length_elems]
  constructor
  · intro hexact
    have hfloor := hexact.floor
    rw [hvs, hvalue] at hfloor
    have hlow := (lowMiddle vs).isLt
    have hhigh := (highMiddle vs).isLt
    omega
  · intro hfits
    rw [Nat.mod_eq_of_lt hfits] at hvalue
    -- the average lies between the two middle samples, and these between all
    have hmiddle : (lowMiddle vs).toNat ≤ (highMiddle vs).toNat :=
      lowMiddle_le_highMiddle vs (by omega)
    obtain ⟨hmin, -⟩ := minOf_le_maxOf_of_mem (b := m (.samples a)) (n := n) (v := lowMiddle vs)
      (by rw [hvs]; exact sorted_getD_mem (by omega))
    obtain ⟨-, hmax⟩ := minOf_le_maxOf_of_mem (b := m (.samples a)) (n := n) (v := highMiddle vs)
      (by rw [hvs]; exact sorted_getD_mem (by omega))
    rw [BitVec.le_def] at hmin hmax
    refine ⟨by rw [hvs]; exact hvalue, ?_, ?_⟩
    · rw [BitVec.le_def, hvalue]
      omega
    · rw [BitVec.le_def, hvalue]
      omega

/-- For every number of samples from 1 on: `sort_copy` makes a sorted copy of
them and, where their number is even, `median_of` is exact and between the
extremes, if and only if the sum of the two middle ones fits into a word. -/
theorem sort_and_median_iff (m : ReportArray → Nat → Word) (a : SampleArray) {n : Word}
    (hn : 1 ≤ n) :
    ((∀ dst src, src ≠ dst → SortedCopy m dst src n.toNat) ∧
        (n.toNat % 2 = 0 → MedianExact m (.samples a) n)) ↔
      (n.toNat % 2 = 0 →
        (lowMiddle (elems (m (.samples a)) n.toNat)).toNat +
          (highMiddle (elems (m (.samples a)) n.toNat)).toNat < 2 ^ 64) := by
  constructor
  · rintro ⟨-, hmedian⟩ heven
    exact (medianOf_exact_iff heven hn).mp (hmedian heven)
  · intro hfits
    refine ⟨fun dst src hne => sortCopy_sortedCopy m hne n.toNat, fun heven => ?_⟩
    exact (medianOf_exact_iff heven hn).mpr (hfits heven)

end Median

/-- Two equal samples are their own middle samples. -/
theorem middles_pair (v : Word) : lowMiddle [v, v] = v ∧ highMiddle [v, v] = v := by
  have hsorted : sorted [v, v] = [v, v] := by
    refine (eq_sorted (List.Perm.refl _) ?_).symm
    exact List.pairwise_pair.mpr (BitVec.le_refl v)
  have hhalf : [v, v].length / 2 = 1 := by
    rw [List.length_cons, List.length_singleton]
  rw [lowMiddle, highMiddle, hsorted, hhalf]
  exact ⟨rfl, rfl⟩

/-- Two samples of 500 have the median 500. -/
theorem median_of_small_pair :
    MedianExact (fun _ _ => 500) (.samples .lat) 2 := by
  obtain ⟨hlow, hhigh⟩ := middles_pair 500
  refine ((sort_and_median_iff (fun _ _ => 500) .lat (n := 2) (by decide)).mpr fun _ => ?_).2 rfl
  show (lowMiddle [500, 500]).toNat + (highMiddle [500, 500]).toNat < 2 ^ 64
  rw [hlow, hhigh]
  decide

/-- Two samples of `2 ^ 63` have a median below both of them. -/
theorem median_of_large_pair :
    ∃ (m : ReportArray → Nat → Word) (n : Word), 1 ≤ n ∧ n ≤ N_TICKS ∧ n.toNat % 2 = 0 ∧
      elems (m (.samples .lat)) n.toNat = [BitVec.twoPow 64 63, BitVec.twoPow 64 63] ∧
      ¬ MedianExact m (.samples .lat) n := by
  refine ⟨fun _ _ => BitVec.twoPow 64 63, 2, by decide, by decide, rfl, rfl, fun hexact => ?_⟩
  obtain ⟨hlow, hhigh⟩ := middles_pair (BitVec.twoPow 64 63)
  have hfits := (medianOf_exact_iff rfl (by decide)).mp hexact
  change (lowMiddle [BitVec.twoPow 64 63, BitVec.twoPow 64 63]).toNat +
    (highMiddle [BitVec.twoPow 64 63, BitVec.twoPow 64 63]).toNat < 2 ^ 64 at hfits
  rw [hlow, hhigh] at hfits
  exact absurd hfits (by decide)

/-! ## The ratio -/

/-- The arrays of the report, with the given contents of the buffer. -/
def Globals.arrays (g : Globals) (buf : Nat → Word) : ReportArray → Nat → Word
  | .buf => buf
  | .samples a => fun i => g.samples a (BitVec.ofNat 64 i)

/-- The divisor of the ratio in `sched_report`, behind `account_final_switch`. -/
def ratioDivisor (im : Image) (g : Globals) (m : Mem) (buf : Nat → Word) : Word :=
  let final := accountFinalSwitch im g m
  (medianOf (medianOf (final.arrays buf) (.samples .swc) final.swn).2 (.samples .swt)
    final.swn).1

/-- The ratio in `sched_report`: `none` when it divides by zero. -/
def reportRatio (im : Image) (g : Globals) (m : Mem) (buf : Nat → Word) : Option Word :=
  let final := accountFinalSwitch im g m
  let divisor := ratioDivisor im g m buf
  if divisor = 0 then none
  else some ((medianOf (final.arrays buf) (.samples .swc) final.swn).1 / divisor)

/-- What `account_final_switch` measures: from the entry of the last counted
trap to the exit of the last trap of the run. -/
def finalSpan (ts : List (Tick Env)) : Word :=
  match ts[199]?, ts.getLast? with
  | some t, some last => last.exitTime - t.entryTime
  | _, _ => 0

/-- The switch times in mtime ticks that the report is made from. -/
def switchSpans (ts : List (Tick Env)) : List Word :=
  (ts.take 199).map Tick.duration ++ [finalSpan ts]

/-- The mtime stamps of a run do not decrease, from trap entry to trap exit and
from one trap to the next. -/
def StampsInOrder (ts : List (Tick Env)) : Prop :=
  (ts.flatMap fun t => [t.entryTime, t.exitTime]).Pairwise (· ≤ ·)

/-- The spans of successive traps add up to at most the time between a stamp
before them and one behind them. -/
theorem sum_durations_le {ts : List (Tick Env)} (hts : StampsInOrder ts) (first last : Word)
    (hfirst : ∀ t ∈ ts, first ≤ t.entryTime) (hlast : ∀ t ∈ ts, t.exitTime ≤ last)
    (hle : first ≤ last) :
    ((ts.map Tick.duration).map BitVec.toNat).sum + first.toNat ≤ last.toNat := by
  induction ts generalizing first with
  | nil =>
      rw [List.map_nil, List.map_nil, List.sum_nil, Nat.zero_add]
      exact hle
  | cons t ts ih =>
      have horder : (t.entryTime :: t.exitTime ::
          ts.flatMap fun t => [t.entryTime, t.exitTime]).Pairwise (· ≤ ·) := hts
      obtain ⟨hentry, hrest⟩ := List.pairwise_cons.mp horder
      obtain ⟨hexit, hts'⟩ := List.pairwise_cons.mp hrest
      have hspan : t.duration.toNat = t.exitTime.toNat - t.entryTime.toNat :=
        BitVec.toNat_sub_of_le (hentry _ List.mem_cons_self)
      have hthrough : t.entryTime.toNat ≤ t.exitTime.toNat := hentry _ List.mem_cons_self
      have hstart : first.toNat ≤ t.entryTime.toNat := hfirst t List.mem_cons_self
      have hnext := ih hts' t.exitTime
        (fun u hu => hexit _ (List.mem_flatMap.mpr ⟨u, hu, List.mem_cons_self⟩))
        (fun u hu => hlast u (List.mem_cons_of_mem t hu)) (hlast t List.mem_cons_self)
      rw [List.map_cons, List.map_cons, List.sum_cons, hspan]
      omega

theorem finalSpan_eq {ts : List (Tick Env)} {t last : Tick Env} (ht : ts[199]? = some t)
    (hlast : ts.getLast? = some last) : finalSpan ts = last.exitTime - t.entryTime := by
  rw [finalSpan, ht, hlast]

/-- With stamps in order, the switch times of a run add up without overflow. -/
theorem sum_switchSpans_lt {ts : List (Tick Env)} (hts : StampsInOrder ts)
    (hlength : 200 ≤ ts.length) : ((switchSpans ts).map BitVec.toNat).sum < 2 ^ 64 := by
  -- cut the run at its last counted trap
  obtain ⟨before, t, rest, hsplit, hbefore⟩ : ∃ before t rest,
      ts = before ++ t :: rest ∧ before.length = 199 := by
    refine ⟨ts.take 199, ts.get ⟨199, by omega⟩, ts.drop 200, ?_, ?_⟩
    · rw [List.get_eq_getElem, List.cons_getElem_drop_succ, List.take_append_drop]
    · rw [List.length_take]
      omega
  obtain ⟨last, hlast⟩ : ∃ last, (t :: rest).getLast? = some last :=
    ⟨_, List.getLast?_eq_some_getLast (List.cons_ne_nil t rest)⟩
  have hend : last ∈ t :: rest := List.mem_of_getLast? hlast
  subst hsplit
  have htake : (before ++ t :: rest).take 199 = before := by
    rw [← hbefore, List.take_left]
  have hfinal : finalSpan (before ++ t :: rest) = last.exitTime - t.entryTime := by
    apply finalSpan_eq
    · rw [← hbefore, List.getElem?_append_right (Nat.le_refl _), Nat.sub_self]
      rfl
    · rw [List.getLast?_append, hlast]
      rfl
  rw [StampsInOrder, List.flatMap_append, List.pairwise_append] at hts
  obtain ⟨horder, hrest, hacross⟩ := hts
  have hentry : t.entryTime ∈ (t :: rest).flatMap fun t => [t.entryTime, t.exitTime] :=
    List.mem_cons_self
  have hthrough : t.entryTime ≤ last.exitTime := by
    have hexit : last.exitTime ∈ t.exitTime :: rest.flatMap fun t => [t.entryTime, t.exitTime] := by
      rcases List.mem_cons.mp hend with rfl | hmem
      · exact List.mem_cons_self
      · apply List.mem_cons_of_mem
        exact List.mem_flatMap.mpr ⟨last, hmem, List.mem_cons_of_mem _ List.mem_cons_self⟩
    exact (List.pairwise_cons.mp hrest).1 _ hexit
  have hsum := sum_durations_le horder 0 t.entryTime
    (fun u _ => Nat.zero_le u.entryTime.toNat)
    (fun u hu => hacross _
      (List.mem_flatMap.mpr ⟨u, hu, List.mem_cons_of_mem _ List.mem_cons_self⟩) _ hentry)
    (Nat.zero_le t.entryTime.toNat)
  have hbound : last.exitTime.toNat < 2 ^ 64 := last.exitTime.isLt
  have hspan : (last.exitTime - t.entryTime).toNat =
      last.exitTime.toNat - t.entryTime.toNat := BitVec.toNat_sub_of_le hthrough
  rw [switchSpans, htake, hfinal, List.map_append, List.sum_append, List.map_singleton,
    List.sum_singleton, hspan]
  rw [BitVec.le_def] at hthrough
  omega

/-- The middle samples together are at most the sum of all. -/
theorem middles_le_sum (vs : List Word) (hvs : 2 ≤ vs.length) :
    (lowMiddle vs).toNat + (highMiddle vs).toNat ≤ (vs.map BitVec.toNat).sum := by
  have hlength : (sorted vs).length = vs.length := (sorted_perm vs).length_eq
  rw [← ((sorted_perm vs).map BitVec.toNat).sum_eq, lowMiddle, highMiddle]
  obtain ⟨k, hk⟩ : ∃ k, vs.length / 2 = k + 1 := ⟨vs.length / 2 - 1, by omega⟩
  rw [hk, Nat.add_sub_cancel]
  generalize sorted vs = ws at hlength ⊢
  have hk' : k + 1 < ws.length := by omega
  have hcut : ws = ws.take k ++ ws[k] :: ws[k + 1] :: ws.drop (k + 2) := by
    rw [List.cons_getElem_drop_succ, List.cons_getElem_drop_succ, List.take_append_drop]
  have hsum : (ws.map BitVec.toNat).sum = ((ws.take k).map BitVec.toNat).sum +
      (ws[k].toNat + (ws[k + 1].toNat + ((ws.drop (k + 2)).map BitVec.toNat).sum)) := by
    conv_lhs => rw [hcut]
    rw [List.map_append, List.sum_append, List.map_cons, List.sum_cons, List.map_cons,
      List.sum_cons]
  rw [List.getD_eq_getElem _ _ (by omega), List.getD_eq_getElem _ _ hk', hsum]
  omega

/-- Fewer than 100 of the switches take no tick at all, or at most 100 take less
than two. -/
def SlowEnough (spans : List Word) : Prop :=
  spans.countP (fun v => decide (v < 1)) < 100 ∨ spans.countP (fun v => decide (v < 2)) ≤ 100

instance (spans : List Word) : Decidable (SlowEnough spans) :=
  inferInstanceAs (Decidable (_ ∨ _))

/-- The middle two of 200 samples add up to at least two exactly when enough
samples are that large. -/
theorem two_le_middles_iff {vs : List Word} (hvs : vs.length = 200) :
    2 ≤ (lowMiddle vs).toNat + (highMiddle vs).toNat ↔ SlowEnough vs := by
  have hlength : (sorted vs).length = 200 := (sorted_perm vs).length_eq.trans hvs
  have hcount : ∀ c : Word, (sorted vs).countP (fun v => decide (v < c)) =
      vs.countP (fun v => decide (v < c)) := fun c => (sorted_perm vs).countP_eq _
  have hlow : lowMiddle vs = (sorted vs).get ⟨99, by omega⟩ := by
    rw [lowMiddle, hvs]
    exact List.getD_eq_getElem _ _ (by omega)
  have hhigh : highMiddle vs = (sorted vs).get ⟨100, by omega⟩ := by
    rw [highMiddle, hvs]
    exact List.getD_eq_getElem _ _ (by omega)
  have hzero := countP_lt_le_iff (sorted_pairwise vs) 1 (k := 99) (by omega)
  have htwo := countP_lt_le_iff (sorted_pairwise vs) 2 (k := 100) (by omega)
  have horder : (lowMiddle vs).toNat ≤ (highMiddle vs).toNat :=
    lowMiddle_le_highMiddle vs (by omega)
  rw [hcount, ← hlow, BitVec.lt_def, show (1 : Word).toNat = 1 from rfl] at hzero
  rw [hcount, ← hhigh, BitVec.lt_def, show (2 : Word).toNat = 2 from rfl] at htwo
  rw [SlowEnough, Nat.lt_succ_iff, hzero, htwo]
  omega

/-- Sorting one array into the buffer leaves the samples alone. -/
theorem medianOf_samples (m : ReportArray → Nat → Word) (a b : SampleArray) (n : Word) :
    (medianOf m (.samples a) n).2 (.samples b) = m (.samples b) := by
  have hne : ∀ c : SampleArray, ReportArray.samples c ≠ .buf := fun c h => nomatch h
  exact (sortCopy_sortedCopy m (hne a) n.toNat).others _ (hne b)

/-- The first elements of an array that holds a list. -/
theorem elems_of_holds {a : Word → Word} {vs : List Word} (ha : Holds a vs) :
    elems (fun i => a (BitVec.ofNat 64 i)) vs.length = vs := by
  apply List.ext_getElem?
  intro i
  rcases Nat.lt_or_ge i vs.length with hlt | hge
  · rw [getElem?_elems _ hlt, List.getElem?_eq_getElem hlt]
    exact congrArg some (ha i _ (List.getElem?_eq_getElem hlt))
  · rw [List.getElem?_eq_none (by rw [length_elems]; exact hge), List.getElem?_eq_none hge]

/-- When the run is over, `account_final_switch` completes the switch times. -/
theorem finalSwitch_spans {im : Image} {smode : Bool} {env : Env} {ts : List (Tick Env)}
    {s : State Globals Ctx} (hs : Sampled im smode env ts s) (hdone : s.g.done = true)
    (other : Mem) :
    let final := accountFinalSwitch im s.g (s.hart.clobberMem (switcher im smode).Kept other).mem
    (switchSpans ts).length = 200 ∧ Holds final.swt (switchSpans ts) := by
  obtain ⟨hfull, hlength, hdrop⟩ := hs.full hdone
  obtain ⟨t, ht⟩ : ∃ t, ts[199]? = some t := ⟨_, List.getElem?_eq_getElem (by omega)⟩
  obtain ⟨last, hlast⟩ : ∃ last, ts.getLast? = some last := by
    refine ⟨_, List.getLast?_eq_some_getLast ?_⟩
    rintro rfl
    cases ht
  have hentry : s.g.gEntryMtime = t.entryTime := by
    refine (hs.waiting ?_).2
    rw [List.getLast?_eq_getElem?, hfull, counted, quota_eq,
      List.getElem?_take_of_lt (by omega), ht]
    rfl
  have hexit := (clobberMem_stamped (hs.stamped hlast) other).mtime
  have htake : ((ts.take 199).map Tick.duration).length = 199 := by
    rw [List.length_map, List.length_take]
    omega
  have hswn : s.g.swn = BitVec.ofNat 64 ((ts.take 199).map Tick.duration).length := by
    rw [hs.swn, hfull, htake]
  have hstored := hs.swt
  rw [hdrop] at hstored
  constructor
  · rw [switchSpans, List.length_append, htake, List.length_singleton]
  · show Holds (Function.update s.g.swt s.g.swn (_ - s.g.gEntryMtime)) _
    rw [switchSpans, finalSpan_eq ht hlast, hswn, hentry, ← hexit]
    exact hstored.append (by omega) _

/-- In every run that is over, with its stamps in order, the divisor is nonzero
exactly when the switches were slow enough. -/
theorem ratioDivisor_ne_zero_iff {im : Image} {smode : Bool} {env : Env}
    {ts : List (Tick Env)} {s : State Globals Ctx} (hs : Sampled im smode env ts s)
    (hdone : s.g.done = true) (horder : StampsInOrder ts) (other : Mem) (buf : Nat → Word) :
    ratioDivisor im s.g (s.hart.clobberMem (switcher im smode).Kept other).mem buf ≠ 0 ↔
      SlowEnough (switchSpans ts) := by
  obtain ⟨hlength, hholds⟩ := finalSwitch_spans hs hdone other
  obtain ⟨hlong, hswn, -⟩ := finalSwitch_stored hs hdone other
  rw [ratioDivisor, hswn, medianOf_eq (by decide) (by decide), medianOf_samples]
  have hvs : elems ((accountFinalSwitch im s.g
      (s.hart.clobberMem (switcher im smode).Kept other).mem).arrays buf (.samples .swt))
      N_TICKS.toNat = switchSpans ts := by
    have helems := elems_of_holds hholds
    rw [hlength] at helems
    exact helems
  have hfits := (middles_le_sum (switchSpans ts) (by omega)).trans_lt
    (sum_switchSpans_lt horder hlong)
  rw [hvs, ← two_le_middles_iff hlength, ne_eq, BitVec.toNat_eq, BitVec.toNat_udiv,
    BitVec.toNat_add, Nat.mod_eq_of_lt hfits]
  show ¬ _ / 2 = 0 ↔ _
  omega

/-- In both builds and along every run that meets the quota, with mtime stamps
that do not decrease: the divisor of the ratio is nonzero, and the report prints
a ratio, if and only if fewer than 100 of its 200 switches begin and end within
one tick or at most 100 of them take less than two ticks. -/
theorem report_ratio_defined_iff {im : Image} (him : im.Separate)
    (hne : im.exitCycles ≠ im.exitMtime) (smode hasSstc : Bool) {fns : List Word} {h : Hart}
    {env : Env} {s₀ s : State Globals Ctx} {ts : List (Tick Env)}
    (hstart : start im smode hasSstc fns h env = some s₀)
    (hrun : runAll (switcher im smode).tick s₀ ts = some s) (hdone : s.g.done = true)
    (horder : StampsInOrder ts) (other : Mem) (buf : Nat → Word) :
    let m := (s.hart.clobberMem (switcher im smode).Kept other).mem
    (ratioDivisor im s.g m buf ≠ 0 ↔ SlowEnough (switchSpans ts)) ∧
      ((reportRatio im s.g m buf).isSome ↔ SlowEnough (switchSpans ts)) := by
  have hiff := ratioDivisor_ne_zero_iff (run_sampled him hne hstart hrun) hdone horder other buf
  refine ⟨hiff, ?_⟩
  rw [← hiff, reportRatio]
  split
  · next hzero => exact ⟨fun hnone => (nomatch hnone), fun hnonzero => absurd hzero hnonzero⟩
  · next hnonzero => exact ⟨fun _ => hnonzero, fun _ => rfl⟩

/-! ### Two runs of the sample machine -/

/-- The time of the tick number `k`. -/
def tickTime (k : Nat) : Word :=
  BitVec.ofNat 64 (10000 * (k + 1))

/-- A tick that is taken when it is due and whose switch takes `span` ticks. -/
def timedTick (span k : Nat) : Tick Env :=
  { sampleTick 0 (tickTime k) (tickTime k) with
    exitTime := BitVec.ofNat 64 (10000 * (k + 1) + span)
    env := sampleEnv (tickTime k) (tickTime k) }

theorem timedTick_stamps {span k : Nat} (hspan : span < 10000) (hk : k < 200) :
    (timedTick span k).entryTime.toNat = 10000 * (k + 1) ∧
      (timedTick span k).exitTime.toNat = 10000 * (k + 1) + span := by
  constructor
  · show (BitVec.ofNat 64 (10000 * (k + 1))).toNat = _
    rw [BitVec.toNat_ofNat, Nat.mod_eq_of_lt (by omega)]
  · show (BitVec.ofNat 64 (10000 * (k + 1) + span)).toNat = _
    rw [BitVec.toNat_ofNat, Nat.mod_eq_of_lt (by omega)]

theorem timedTick_duration {span k : Nat} (hspan : span < 10000) (hk : k < 200) :
    (timedTick span k).duration = BitVec.ofNat 64 span := by
  obtain ⟨hentry, hexit⟩ := timedTick_stamps hspan hk
  apply BitVec.eq_of_toNat_eq
  have hle : (timedTick span k).entryTime ≤ (timedTick span k).exitTime := by
    rw [BitVec.le_def]
    omega
  rw [Tick.duration, BitVec.toNat_sub_of_le hle, hentry, hexit, BitVec.toNat_ofNat,
    Nat.mod_eq_of_lt (by omega)]
  omega

theorem timedTick_arms {span k : Nat} (hspan : span < 10000) (hk : k < 200) :
    (nextDeadline (timedTick span k).env.readings).isSome := by
  obtain ⟨hentry, -⟩ := timedTick_stamps hspan hk
  have htime : (tickTime k).toNat = 10000 * (k + 1) := hentry
  have hahead : ¬ tickTime k + QUANTUM_TICKS ≤ tickTime k := by
    rw [BitVec.le_def, BitVec.toNat_add, htime, show QUANTUM_TICKS.toNat = 10000 from rfl]
    omega
  show (skipAhead (tickTime k + QUANTUM_TICKS) [tickTime k]).isSome
  rw [skipAhead, if_neg hahead]
  rfl

/-- A run of 200 ticks, each switch taking `span` ticks. -/
def timedRun (span : Nat) : List (Tick Env) :=
  (List.range 200).map (timedTick span)

theorem timedRun_inOrder (span : Nat) (hspan : span < 10000) :
    StampsInOrder (timedRun span) := by
  rw [StampsInOrder, timedRun, List.flatMap_map, List.pairwise_flatMap]
  constructor
  · intro k hk
    obtain ⟨hentry, hexit⟩ := timedTick_stamps hspan (List.mem_range.mp hk)
    rw [List.pairwise_pair, BitVec.le_def]
    omega
  · refine List.pairwise_lt_range.imp_of_mem fun {j k} hj hk hjk v hv w hw => ?_
    obtain ⟨hentry, hexit⟩ := timedTick_stamps hspan (List.mem_range.mp hj)
    obtain ⟨hentry', hexit'⟩ := timedTick_stamps hspan (List.mem_range.mp hk)
    rw [List.mem_cons, List.mem_singleton] at hv hw
    rw [BitVec.le_def]
    rcases hv with rfl | rfl <;> rcases hw with rfl | rfl <;> omega

theorem switchSpans_timedRun {span : Nat} (hspan : span < 10000) :
    switchSpans (timedRun span) = List.replicate 200 (BitVec.ofNat 64 span) := by
  have hfinal : finalSpan (timedRun span) = (timedTick span 199).duration :=
    finalSpan_eq rfl rfl
  have hmap : ((timedRun span).take 199).map Tick.duration =
      List.replicate 199 (BitVec.ofNat 64 span) := by
    rw [timedRun, ← List.map_take, List.map_map, List.take_range, List.eq_replicate_iff]
    refine ⟨by rw [List.length_map, List.length_range]; rfl, fun v hv => ?_⟩
    obtain ⟨k, hk, rfl⟩ := List.mem_map.mp hv
    rw [List.mem_range] at hk
    exact timedTick_duration hspan (by omega)
  rw [switchSpans, hmap, hfinal, timedTick_duration hspan (by omega), ← List.replicate_succ']

/-- The sample machine runs through such a run and is done. -/
theorem timedRun_runs (span : Nat) (hspan : span < 10000) :
    ∃ s₀ s, start sampleImage true true [0x80000600] sampleHart (sampleEnv 0 1) = some s₀ ∧
      runAll (switcher sampleImage true).tick s₀ (timedRun span) = some s ∧
      s.g.done = true := by
  have him := sampleImage_separate
  have harm : (nextDeadline (sampleEnv 0 1).readings).isSome := by decide
  obtain ⟨s₀, hstart, hready⟩ :=
    start_returns him true true (List.cons_ne_nil 0x80000600 []) sampleHart harm
  have harms : ∀ t ∈ timedRun span, (nextDeadline t.env.readings).isSome := by
    intro t ht
    obtain ⟨k, hk, rfl⟩ := List.mem_map.mp ht
    exact timedTick_arms hspan (List.mem_range.mp hk)
  obtain ⟨s, hrun, -⟩ := sched_run_returns him hready harms
  refine ⟨s₀, s, hstart, hrun, ?_⟩
  rw [(run_sampled him (by decide) hstart hrun).done, counted, List.length_take, timedRun,
    List.length_map, List.length_range]
  rfl

/-- Switches of four ticks each give a ratio. -/
theorem ratio_defined_four_ticks :
    ∃ s₀ s, start sampleImage true true [0x80000600] sampleHart (sampleEnv 0 1) = some s₀ ∧
      runAll (switcher sampleImage true).tick s₀ (timedRun 4) = some s ∧ s.g.done = true ∧
      (reportRatio sampleImage s.g
        (s.hart.clobberMem (switcher sampleImage true).Kept sampleHart.mem).mem
        fun _ => 0).isSome := by
  obtain ⟨s₀, s, hstart, hrun, hdone⟩ := timedRun_runs 4 (by decide)
  refine ⟨s₀, s, hstart, hrun, hdone, ?_⟩
  apply (report_ratio_defined_iff sampleImage_separate (by decide) true true hstart hrun hdone
    (timedRun_inOrder 4 (by decide)) sampleHart.mem fun _ => 0).2.mpr
  rw [switchSpans_timedRun (by decide)]
  decide +kernel

/-- Switches that begin and end within one tick make the divisor zero. -/
theorem ratio_divides_by_zero :
    ∃ s₀ s, start sampleImage true true [0x80000600] sampleHart (sampleEnv 0 1) = some s₀ ∧
      runAll (switcher sampleImage true).tick s₀ (timedRun 0) = some s ∧
      s.g.done = true ∧ StampsInOrder (timedRun 0) ∧
      ratioDivisor sampleImage s.g
        (s.hart.clobberMem (switcher sampleImage true).Kept sampleHart.mem).mem
        (fun _ => 0) = 0 := by
  obtain ⟨s₀, s, hstart, hrun, hdone⟩ := timedRun_runs 0 (by decide)
  have horder := timedRun_inOrder 0 (by decide)
  refine ⟨s₀, s, hstart, hrun, hdone, horder, ?_⟩
  have hiff := ratioDivisor_ne_zero_iff (run_sampled sampleImage_separate (by decide) hstart hrun)
    hdone horder sampleHart.mem fun _ => 0
  rw [switchSpans_timedRun (by decide)] at hiff
  by_contra hnonzero
  exact absurd (hiff.mp hnonzero) (by decide +kernel)

end Smode
end BareMetal
