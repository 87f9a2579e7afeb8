import BareMetal.LatencyLabs.Histogram
import BareMetal.Machine.Loops
import BareMetal.Machine.Objects

/-!
# The statistics of the mtimecmp lab

`calc_stats` of `src/mtimecmp/mt_main.c` copies the samples to the static array
`sort_tmp`, sorts the copy in place, and reads five numbers off.  Here this is done in
memory, and an access behind the end of an array is a failure.

`calcStats_refines` relates it to the arithmetic of `Histogram.calcStats`, and
`calcStats_described` says what the five numbers are.
-/

namespace BareMetal
namespace LatencyLabs
namespace Statistics

open Machine Histogram

/-- The array of the caller and `sort_tmp`. -/
inductive Obj
  | samples | sortTmp
  deriving DecidableEq

/-- Their lengths.  Of the caller's array only the `n` samples count. -/
def words (n : Nat) : Obj → Nat
  | .samples => n
  | .sortTmp => MT_NTRIALS

section Code

variable {n : Nat} (l : Layout Obj (words n))

/-- The contents of an array. -/
def contents (o : Obj) (m : Mem) (i : Nat) : Word :=
  m (l.word o i)

def load (o : Obj) (i : Nat) (m : Mem) : Option Word :=
  if i < words n o then some (contents l o m i) else none

def store (o : Obj) (i : Nat) (v : Word) (m : Mem) : Option Mem :=
  if i < words n o then some (Function.update m (l.word o i) v) else none

/-- `while (j > 0 && sort_tmp[j - 1] > v)`, with the final `j`. -/
def shiftLoop (v : Word) : Nat → Mem → Option (Nat × Mem)
  | 0, m => some (0, m)
  | j + 1, m => do
      let w ← load l .sortTmp j m
      if v < w then
        let m ← store l .sortTmp (j + 1) w m
        shiftLoop v j m
      else
        some (j + 1, m)

/-- The body of the loop over `i`. -/
def sortRound (i : Nat) (m : Mem) : Option Mem := do
  let v ← load l .sortTmp i m
  let (j, m) ← shiftLoop l v i m
  store l .sortTmp j v m

def copyRound (i : Nat) (m : Mem) : Option Mem := do
  let v ← load l .samples i m
  store l .sortTmp i v m

def sortAsc (m : Mem) : Option Mem := do
  let m ← forUp (copyRound l) n m
  -- `for (i = 1; i < n; i++)`
  forUp (fun i => sortRound l (i + 1)) (n - 1) m

/-- `sum += sort_tmp[i]`. -/
def sumRound (m : Mem) (i : Nat) (sum : Word) : Option Word := do
  let v ← load l .sortTmp i m
  some (sum + v)

/-- `calc_stats`, for `n` of at least 1. -/
def calcStats (m : Mem) : Option (Stats × Mem) := do
  let m ← sortAsc l m
  let min ← load l .sortTmp 0 m
  let max ← load l .sortTmp (n - 1) m
  let p50 ← load l .sortTmp (n / 2) m
  let p99 ← load l .sortTmp (n * 99 / 100) m
  let sum ← forUp (sumRound l m) n 0
  some ({ min, p50, p99, max, mean := sum / BitVec.ofNat 64 n }, m)

end Code

/-! ## The sort in memory -/

section InPlace

variable {n : Nat} {l : Layout Obj (words n)} {m₀ m : Mem} {tmp : Nat → Word}

/-- Since `m₀` only the first `n` elements of `sort_tmp` have been written, and they are
those of `tmp`. -/
structure Sorting (l : Layout Obj (words n)) (m₀ : Mem) (tmp : Nat → Word) (m : Mem) : Prop where
  tmp : ∀ i < n, contents l .sortTmp m i = tmp i
  elsewhere : ∀ a, (∀ i < n, a ≠ l.word .sortTmp i) → m a = m₀ a

theorem Sorting.congr {tmp' : Nat → Word} (h : Sorting l m₀ tmp m) (heq : ∀ i < n, tmp i = tmp' i) :
    Sorting l m₀ tmp' m :=
  ⟨fun i hi => (h.tmp i hi).trans (heq i hi), h.elsewhere⟩

theorem Sorting.load (h : Sorting l m₀ tmp m) (hn : n ≤ MT_NTRIALS) {i : Nat} (hi : i < n) :
    load l .sortTmp i m = some (tmp i) := by
  have hin : i < words n .sortTmp := Nat.lt_of_lt_of_le hi hn
  rw [Statistics.load, if_pos hin, h.tmp i hi]

theorem Sorting.store (h : Sorting l m₀ tmp m) (hn : n ≤ MT_NTRIALS) {i : Nat} (hi : i < n)
    (v : Word) :
    ∃ m', store l .sortTmp i v m = some m' ∧ Sorting l m₀ (Function.update tmp i v) m' := by
  have hin : ∀ {j}, j < n → j < words n .sortTmp := fun hj => Nat.lt_of_lt_of_le hj hn
  refine ⟨_, if_pos (hin hi), ?_, ?_⟩
  · intro j hj
    rw [contents, l.update_word _ _ (hin hi) (hin hj)]
    by_cases hji : j = i
    · rw [if_pos ⟨rfl, hji⟩, hji, Function.update_self]
    · rw [if_neg (fun hboth => hji hboth.2), Function.update_of_ne hji]
      exact h.tmp j hj
  · intro a ha
    rw [Function.update_of_ne (ha i hi)]
    exact h.elsewhere a ha

/-- The samples stay where they are. -/
theorem Sorting.samples (h : Sorting l m₀ tmp m) (hn : n ≤ MT_NTRIALS) {i : Nat} (hi : i < n) :
    contents l .samples m i = contents l .samples m₀ i := by
  apply h.elsewhere
  intro j hj heq
  have hin : i < words n .samples := hi
  have hjn : j < words n .sortTmp := Nat.lt_of_lt_of_le hj hn
  obtain ⟨hobj, -⟩ := (l.word_inj hin hjn).mp heq
  nomatch hobj

theorem Sorting.copyRound (h : Sorting l m₀ tmp m) (hn : n ≤ MT_NTRIALS) {i : Nat} (hi : i < n) :
    ∃ m', copyRound l i m = some m' ∧
      Sorting l m₀ (Function.update tmp i (contents l .samples m₀ i)) m' := by
  have hin : i < words n .samples := hi
  have hload : Statistics.load l .samples i m = some (contents l .samples m₀ i) := by
    rw [Statistics.load, if_pos hin, h.samples hn hi]
  obtain ⟨m', hstore, hm'⟩ := h.store hn hi (contents l .samples m₀ i)
  refine ⟨m', ?_, hm'⟩
  rw [Statistics.copyRound, hload]
  exact hstore

/-- The inner loop is that of an insertion sort. -/
theorem Sorting.shiftLoop (h : Sorting l m₀ tmp m) (hn : n ≤ MT_NTRIALS) (v : Word) {j : Nat}
    (hj : j < n) :
    ∃ m', shiftLoop l v j m = some ((shiftUp v j tmp).2, m') ∧
      Sorting l m₀ (shiftUp v j tmp).1 m' := by
  induction j generalizing m tmp with
  | zero => exact ⟨m, rfl, h⟩
  | succ j ih =>
      rw [Statistics.shiftLoop, h.load hn (Nat.lt_of_succ_lt hj), shiftUp]
      by_cases hgreater : v < tmp j
      · obtain ⟨mid, hstore, hmid⟩ := h.store hn hj (tmp j)
        obtain ⟨m', hrest, hm'⟩ := ih hmid (Nat.lt_of_succ_lt hj)
        rw [if_pos hgreater]
        refine ⟨m', ?_, hm'⟩
        simp only [Option.bind_eq_bind, Option.bind_some, if_pos hgreater, hstore]
        exact hrest
      · rw [if_neg hgreater]
        refine ⟨m, ?_, h⟩
        simp only [Option.bind_eq_bind, Option.bind_some, if_neg hgreater]

theorem Sorting.sortRound (h : Sorting l m₀ tmp m) (hn : n ≤ MT_NTRIALS) {i : Nat} (hi : i < n) :
    ∃ m', sortRound l i m = some m' ∧ Sorting l m₀ (insertAt tmp i) m' := by
  obtain ⟨mid, hshift, hmid⟩ := h.shiftLoop hn (tmp i) hi
  have hhole : (shiftUp (tmp i) i tmp).2 < n :=
    Nat.lt_of_le_of_lt (shiftUp_spec (tmp i) i tmp).hole hi
  obtain ⟨m', hstore, hm'⟩ := hmid.store hn hhole (tmp i)
  refine ⟨m', ?_, hm'⟩
  simp only [Statistics.sortRound, Option.bind_eq_bind, h.load hn hi, Option.bind_some, hshift]
  exact hstore

/-- `sort_tmp` after `k` rounds of the copy. -/
def copied (l : Layout Obj (words n)) (m₀ : Mem) (k : Nat) (i : Nat) : Word :=
  if i < k then contents l .samples m₀ i else contents l .sortTmp m₀ i

theorem update_copied (k : Nat) :
    Function.update (copied l m₀ k) k (contents l .samples m₀ k) = copied l m₀ (k + 1) := by
  ext1 i
  by_cases hi : i = k
  · rw [hi, Function.update_self, copied, if_pos (Nat.lt_succ_self k)]
  · rw [Function.update_of_ne hi, copied, copied]
    by_cases hlt : i < k
    · rw [if_pos hlt, if_pos (Nat.lt_succ_of_lt hlt)]
    · rw [if_neg hlt, if_neg (by omega)]

theorem copy_sorting (l : Layout Obj (words n)) (hn : n ≤ MT_NTRIALS) (m₀ : Mem) :
    ∃ m, forUp (copyRound l) n m₀ = some m ∧ Sorting l m₀ (copied l m₀ n) m := by
  have hstart : Sorting l m₀ (copied l m₀ 0) m₀ := ⟨fun _ _ => rfl, fun _ _ => rfl⟩
  refine forUp_keeps (I := fun k m => Sorting l m₀ (copied l m₀ k) m) ?_ hstart (Nat.le_refl n)
  intro k m hk hm
  obtain ⟨m', hround, hm'⟩ := hm.copyRound hn hk
  rw [update_copied] at hm'
  exact ⟨m', hround, hm'⟩

theorem Sorting.rounds (h : Sorting l m₀ tmp m) (hn : n ≤ MT_NTRIALS) :
    ∃ m', forUp (fun i => Statistics.sortRound l (i + 1)) (n - 1) m = some m' ∧
      Sorting l m₀ (insertRounds tmp (n - 1)) m' := by
  refine forUp_keeps (I := fun k m => Sorting l m₀ (insertRounds tmp k) m) ?_ h (Nat.le_refl _)
  intro k m hk hm
  exact hm.sortRound hn (show k + 1 < n by omega)

/-- The whole sort is that of an array of its own. -/
theorem sortAsc_sorting (l : Layout Obj (words n)) (hn : n ≤ MT_NTRIALS) (m₀ : Mem) :
    ∃ m, sortAsc l m₀ = some m ∧
      Sorting l m₀ (Histogram.sortAsc (contents l .samples m₀) n) m := by
  obtain ⟨mid, hcopy, hmid⟩ := copy_sorting l hn m₀
  obtain ⟨m, hrounds, hm⟩ := hmid.rounds hn
  refine ⟨m, ?_, hm.congr ?_⟩
  · simp only [sortAsc, Option.bind_eq_bind, hcopy, Option.bind_some]
    exact hrounds
  · intro i hi
    refine insertRounds_congr ?_ hi
    intro j hj
    rw [copied, if_pos hj]

theorem Sorting.sum (h : Sorting l m₀ tmp m) (hn : n ≤ MT_NTRIALS) :
    forUp (sumRound l m) n 0 = some (elems tmp n).sum := by
  obtain ⟨sum, hloop, rfl⟩ : ∃ sum, forUp (sumRound l m) n 0 = some sum ∧
      sum = (elems tmp n).sum := by
    refine forUp_keeps (I := fun k sum => sum = (elems tmp k).sum) ?_ rfl (Nat.le_refl n)
    intro k sum hk hsum
    refine ⟨sum + tmp k, ?_, ?_⟩
    · simp only [sumRound, Option.bind_eq_bind, h.load hn hk, Option.bind_some]
    · rw [elems_succ, List.sum_append, List.sum_singleton, hsum]
  exact hloop

/-- `calc_stats` comes back with the numbers of the arithmetic model. -/
theorem calcStats_refines (l : Layout Obj (words n)) (hpos : 0 < n) (hn : n ≤ MT_NTRIALS)
    (m₀ : Mem) :
    ∃ m, calcStats l m₀ = some (Histogram.calcStats (contents l .samples m₀) n, m) ∧
      Sorting l m₀ (Histogram.sortAsc (contents l .samples m₀) n) m := by
  obtain ⟨m, hsort, hm⟩ := sortAsc_sorting l hn m₀
  refine ⟨m, ?_, hm⟩
  simp only [calcStats, Option.bind_eq_bind, hsort, Option.bind_some, hm.load hn hpos,
    hm.load hn (show n - 1 < n by omega), hm.load hn (show n / 2 < n by omega),
    hm.load hn (show n * 99 / 100 < n by omega), hm.sum hn, Histogram.calcStats]

end InPlace

/-! ## The five numbers -/

section Numbers

variable {vals : Nat → Word} {n : Nat}

theorem elems_sortAsc (vals : Nat → Word) (n : Nat) :
    elems (Histogram.sortAsc vals n) n = sorted (elems vals n) :=
  elems_insertRounds vals n

/-- The number read at place `k` is the `k`-th order statistic. -/
theorem sorted_getElem? {k : Nat} (hk : k < n) :
    (sorted (elems vals n))[k]? = some (Histogram.sortAsc vals n k) := by
  rw [← elems_sortAsc, getElem?_elems _ hk]

theorem sortAsc_ascending (vals : Nat → Word) (hpos : 0 < n) :
    Ascending (Histogram.sortAsc vals n) n := by
  have hrounds := insertRounds_ascending vals (n - 1)
  rwa [Nat.sub_add_cancel hpos] at hrounds

theorem toNat_sum (vs : List Word) : vs.sum.toNat = (vs.map BitVec.toNat).sum % 2 ^ 64 := by
  induction vs with
  | nil => rfl
  | cons v vs ih =>
      rw [List.sum_cons, List.map_cons, List.sum_cons, BitVec.toNat_add, ih, Nat.add_mod_mod]

/-- Without a wrap the mean is the quotient of the sum of the samples. -/
theorem toNat_mean (hn : n ≤ MT_NTRIALS)
    (hsum : ((elems vals n).map BitVec.toNat).sum < 2 ^ 64) :
    (Histogram.calcStats vals n).mean.toNat = ((elems vals n).map BitVec.toNat).sum / n := by
  have hperm : (elems (Histogram.sortAsc vals n) n).Perm (elems vals n) := by
    rw [elems_sortAsc]
    exact sorted_perm _
  have htotal : ((elems (Histogram.sortAsc vals n) n).map BitVec.toNat).sum =
      ((elems vals n).map BitVec.toNat).sum := (hperm.map _).sum_eq
  have hlength : (BitVec.ofNat 64 n).toNat = n := by
    rw [MT_NTRIALS] at hn
    exact Nat.mod_eq_of_lt (by omega)
  show ((elems (Histogram.sortAsc vals n) n).sum / BitVec.ofNat 64 n).toNat = _
  rw [BitVec.toNat_udiv, toNat_sum, htotal, Nat.mod_eq_of_lt hsum, hlength]

theorem mean_between (hpos : 0 < n) (hn : n ≤ MT_NTRIALS)
    (hsum : ((elems vals n).map BitVec.toNat).sum < 2 ^ 64) :
    (Histogram.calcStats vals n).min ≤ (Histogram.calcStats vals n).mean ∧
      (Histogram.calcStats vals n).mean ≤ (Histogram.calcStats vals n).max := by
  have hmem : ∀ x ∈ (elems vals n).map BitVec.toNat, ∃ i < n, (vals i).toNat = x := by
    intro x hx
    obtain ⟨v, hv, rfl⟩ := List.mem_map.mp hx
    obtain ⟨i, hi, rfl⟩ := List.mem_map.mp hv
    exact ⟨i, List.mem_range.mp hi, rfl⟩
  have hlow := List.card_nsmul_le_sum ((elems vals n).map BitVec.toNat)
    (Histogram.calcStats vals n).min.toNat (by
      intro x hx
      obtain ⟨i, hi, rfl⟩ := hmem x hx
      exact BitVec.le_def.mp (min_le hi))
  have hhigh := List.sum_le_card_nsmul ((elems vals n).map BitVec.toNat)
    (Histogram.calcStats vals n).max.toNat (by
      intro x hx
      obtain ⟨i, hi, rfl⟩ := hmem x hx
      exact BitVec.le_def.mp (le_max hi))
  rw [List.length_map, length_elems, smul_eq_mul, Nat.mul_comm] at hlow hhigh
  rw [BitVec.le_def, BitVec.le_def, toNat_mean hn hsum]
  exact ⟨(Nat.le_div_iff_mul_le hpos).mpr hlow,
    Nat.div_le_of_le_mul ((Nat.mul_comm _ _).symm ▸ hhigh)⟩

end Numbers

/-- What `calc_stats` is meant to leave and to return, if the sum does not wrap. -/
structure Described {n : Nat} (l : Layout Obj (words n)) (m : Mem) (s : Stats) (m' : Mem) :
    Prop where
  samples : ∀ i < n, contents l .samples m' i = contents l .samples m i
  elsewhere : ∀ a, (∀ i < n, a ≠ l.word .sortTmp i) → m' a = m a
  perm : (elems (contents l .sortTmp m') n).Perm (elems (contents l .samples m) n)
  ascending : Ascending (contents l .sortTmp m') n
  min : (sorted (elems (contents l .samples m) n))[0]? = some s.min
  p50 : (sorted (elems (contents l .samples m) n))[n / 2]? = some s.p50
  p99 : (sorted (elems (contents l .samples m) n))[99 * n / 100]? = some s.p99
  max : (sorted (elems (contents l .samples m) n))[n - 1]? = some s.max
  mean : s.mean.toNat = ((elems (contents l .samples m) n).map BitVec.toNat).sum / n
  order : s.min ≤ s.p50 ∧ s.p50 ≤ s.p99 ∧ s.p99 ≤ s.max
  between : s.min ≤ s.mean ∧ s.mean ≤ s.max

/-- For every number of trials and every samples whose sum does not wrap, `calc_stats`
stays inside the arrays and does what it is meant to do. -/
theorem calcStats_described {n : Nat} (l : Layout Obj (words n)) (hpos : 0 < n)
    (hn : n ≤ MT_NTRIALS) (m : Mem)
    (hsum : ((elems (contents l .samples m) n).map BitVec.toNat).sum < 2 ^ 64) :
    ∃ s m', calcStats l m = some (s, m') ∧ Described l m s m' := by
  obtain ⟨m', hrun, hm'⟩ := calcStats_refines l hpos hn m
  have hsame : elems (contents l .sortTmp m') n =
      elems (Histogram.sortAsc (contents l .samples m) n) n := elems_congr hm'.tmp
  have hasc := sortAsc_ascending (contents l .samples m) hpos
  refine ⟨_, m', hrun, ?_⟩
  constructor
  case samples => exact fun i hi => hm'.samples hn hi
  case elsewhere => exact hm'.elsewhere
  case perm =>
    rw [hsame, elems_sortAsc]
    exact sorted_perm _
  case ascending =>
    intro i j hij hj
    rw [hm'.tmp i (Nat.lt_of_le_of_lt hij hj), hm'.tmp j hj]
    exact hasc i j hij hj
  case min => exact sorted_getElem? hpos
  case p50 => exact sorted_getElem? (by omega)
  case p99 =>
    rw [Nat.mul_comm]
    exact sorted_getElem? (by omega)
  case max => exact sorted_getElem? (by omega)
  case mean => exact toNat_mean hn hsum
  case order =>
    exact ⟨hasc _ _ (Nat.zero_le _) (by omega), hasc _ _ (by omega) (by omega),
      hasc _ _ (by omega) (by omega)⟩
  case between => exact mean_between hpos hn hsum

/-- Four samples in front of `sort_tmp`. -/
def samplePlace : Obj → Word
  | .samples => 0x80020000
  | .sortTmp => 0x80030000

theorem sample_words_le (o : Obj) : words 4 o ≤ 2 ^ 32 := by
  cases o <;> decide

theorem samplePlace_apart (o o' : Obj) : ∀ i < words 4 o, ∀ j < words 4 o',
    addr (samplePlace o) (i * 8) = addr (samplePlace o') (j * 8) → o = o' := by
  have hapart : ∀ i < 4, ∀ j < 1000, addr 0x80020000 (i * 8) ≠ addr 0x80030000 (j * 8) := by
    intro i hi j hj heq
    unfold addr at heq
    bv_omega
  intro i hi j hj heq
  cases o <;> cases o'
  · rfl
  · exact absurd heq (hapart i hi j hj)
  · exact absurd heq.symm (hapart j hj i hi)
  · rfl

def sampleLayout : Layout Obj (words 4) where
  place := samplePlace
  words_le := sample_words_le
  disjoint := samplePlace_apart

/-- The samples 25, 7, 25 and 25. -/
def sampleMem (a : Word) : Word :=
  if a = 0x80020008 then 7 else 25

theorem sample_described :
    ∃ s m', calcStats sampleLayout sampleMem = some (s, m') ∧
      Described sampleLayout sampleMem s m' :=
  calcStats_described sampleLayout (by decide) (by decide) sampleMem (by decide)

end Statistics
end LatencyLabs
end BareMetal
