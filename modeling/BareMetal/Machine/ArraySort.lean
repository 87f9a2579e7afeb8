import Mathlib.Logic.Function.Basic
import Mathlib.Tactic

/-!
# Insertion sort in an array

The usual in-place insertion sort over any linear order, with the array a map
from indices.  An outer round takes the element behind the sorted part, shifts
the greater elements in front of it up by one, and puts it into the hole.

`shiftUp_spec` describes the inner loop and `insertAt_apply` the array after a
round, element by element; that a round permutes and keeps the sorted part
sorted is read off from there.  `elems_insertRounds` says that the whole sort
computes the sorted list.
-/

namespace BareMetal
namespace Machine

/-- The first `n` elements of an array. -/
def elems {α : Type*} (a : Nat → α) (n : Nat) : List α :=
  (List.range n).map a

@[simp] theorem length_elems {α : Type*} (a : Nat → α) (n : Nat) : (elems a n).length = n := by
  rw [elems, List.length_map, List.length_range]

theorem elems_succ {α : Type*} (a : Nat → α) (n : Nat) : elems a (n + 1) = elems a n ++ [a n] := by
  rw [elems, List.range_succ, List.map_append, List.map_singleton, elems]

theorem elems_congr {α : Type*} {a b : Nat → α} {n : Nat} (h : ∀ i, i < n → a i = b i) :
    elems a n = elems b n :=
  List.map_congr_left fun i hi => h i (List.mem_range.mp hi)

theorem getElem?_elems {α : Type*} (a : Nat → α) {n i : Nat} (hi : i < n) :
    (elems a n)[i]? = some (a i) := by
  rw [elems, List.getElem?_map, List.getElem?_range hi, Option.map_some]

section Loops

variable {α : Type*} [LT α] [DecidableLT α]

/-- The inner loop: move the elements below `j` that are greater than `v` up by
one.  The result is the array and the index of the hole. -/
def shiftUp (v : α) : Nat → (Nat → α) → (Nat → α) × Nat
  | 0, a => (a, 0)
  | j + 1, a =>
      if v < a j then shiftUp v j (Function.update a (j + 1) (a j)) else (a, j + 1)

/-- One round: insert element `i` into the elements before it. -/
def insertAt (a : Nat → α) (i : Nat) : Nat → α :=
  let out := shiftUp (a i) i a
  Function.update out.1 out.2 (a i)

/-- The rounds for the elements 1 to `k`. -/
def insertRounds (a : Nat → α) : Nat → Nat → α
  | 0 => a
  | k + 1 => insertAt (insertRounds a k) (k + 1)

/-- What the inner loop does from `j` down to the hole `k`. -/
structure Shifted (v : α) (j : Nat) (a b : Nat → α) (k : Nat) : Prop where
  hole : k ≤ j
  low : ∀ i, i ≤ k → b i = a i
  high : ∀ i, j < i → b i = a i
  moved : ∀ i, k ≤ i → i < j → b (i + 1) = a i ∧ v < a i
  stopped : ∀ i, i + 1 = k → ¬ v < a i

theorem shiftUp_spec (v : α) (j : Nat) (a : Nat → α) :
    Shifted v j a (shiftUp v j a).1 (shiftUp v j a).2 := by
  induction j generalizing a with
  | zero =>
      rw [shiftUp]
      exact ⟨Nat.le_refl 0, fun _ _ => rfl, fun _ _ => rfl, fun i _ hi => absurd hi (by omega),
        fun i hi => absurd hi (by omega)⟩
  | succ j ih =>
      rw [shiftUp]
      split
      · next hgreater =>
        obtain ⟨hhole, hlow, hhigh, hmoved, hstopped⟩ :=
          ih (Function.update a (j + 1) (a j))
        have hbelow : ∀ i, i ≤ j → Function.update a (j + 1) (a j) i = a i := fun i hi =>
          Function.update_of_ne (by omega) _ _
        refine ⟨by omega, fun i hi => ?_, fun i hi => ?_, fun i hk hi => ?_, fun i hi => ?_⟩
        · rw [hlow i hi, hbelow i (by omega)]
        · rw [hhigh i (by omega), Function.update_of_ne (by omega)]
        · rcases Nat.lt_or_ge i j with hij | hij
          · obtain ⟨heq, hlt⟩ := hmoved i hk hij
            rw [hbelow i (by omega)] at heq hlt
            exact ⟨heq, hlt⟩
          · obtain rfl : i = j := by omega
            refine ⟨?_, hgreater⟩
            rw [hhigh (i + 1) (by omega), Function.update_self]
        · rw [← hbelow i (by omega)]
          exact hstopped i hi
      · next hstop =>
        refine ⟨Nat.le_refl _, fun _ _ => rfl, fun _ _ => rfl, fun i hk hi => absurd hi (by omega),
          fun i hi => ?_⟩
        obtain rfl : i = j := by omega
        exact hstop

/-- The array after a round: the element sits at `k` and those from there on
have moved up. -/
theorem insertAt_apply (a : Nat → α) (n : Nat) :
    ∃ k, k ≤ n ∧ (∀ i, i < k → insertAt a n i = a i) ∧ insertAt a n k = a n ∧
      (∀ i, k ≤ i → i < n → insertAt a n (i + 1) = a i ∧ a n < a i) ∧
      (∀ i, n < i → insertAt a n i = a i) ∧ ∀ i, i + 1 = k → ¬ a n < a i := by
  obtain ⟨hhole, hlow, hhigh, hmoved, hstopped⟩ := shiftUp_spec (a n) n a
  unfold insertAt
  generalize (shiftUp (a n) n a).2 = k at *
  refine ⟨k, hhole, fun i hi => ?_, Function.update_self .., fun i hk hi => ?_, fun i hi => ?_,
    hstopped⟩
  · rw [Function.update_of_ne (by omega), hlow i (by omega)]
  · rw [Function.update_of_ne (by omega)]
    exact hmoved i hk hi
  · rw [Function.update_of_ne (by omega), hhigh i hi]

theorem range_split {k n : Nat} (hk : k ≤ n) :
    List.range n = List.range k ++ List.range' k (n - k) := by
  have happend := List.range'_append_1 (s := 0) (m := k) (n := n - k)
  rw [Nat.zero_add, Nat.add_sub_cancel' hk] at happend
  rw [List.range_eq_range', List.range_eq_range', happend]

/-- A round permutes the elements up to the one it inserts. -/
theorem elems_insertAt_perm (a : Nat → α) (n : Nat) :
    (elems (insertAt a n) (n + 1)).Perm (elems a (n + 1)) := by
  obtain ⟨k, hk, hlow, hhole, hmoved, -, -⟩ := insertAt_apply a n
  have hbelow : (List.range k).map (insertAt a n) = (List.range k).map a :=
    List.map_congr_left fun i hi => hlow i (List.mem_range.mp hi)
  have habove : (List.range' (k + 1) (n - k)).map (insertAt a n) =
      (List.range' k (n - k)).map a := by
    rw [List.range'_succ_left, List.map_map]
    apply List.map_congr_left
    intro i hi
    rw [List.mem_range'_1] at hi
    exact (hmoved i hi.1 (by omega)).1
  have hafter : elems (insertAt a n) (n + 1) =
      (List.range k).map a ++ a n :: (List.range' k (n - k)).map a := by
    rw [elems, range_split (Nat.le_succ_of_le hk), Nat.succ_sub hk, List.range'_succ,
      List.map_append, List.map_cons, hbelow, hhole, habove]
  have hbefore : elems a (n + 1) =
      (List.range k).map a ++ (List.range' k (n - k)).map a ++ [a n] := by
    rw [elems_succ, elems, range_split hk, List.map_append]
  rw [hafter, hbefore]
  exact List.perm_middle.trans (List.perm_append_singleton _ _).symm

/-- A round does not touch the elements behind the one it inserts. -/
theorem insertAt_of_lt (a : Nat → α) {n i : Nat} (hi : n < i) : insertAt a n i = a i := by
  obtain ⟨-, -, -, -, -, hhigh, -⟩ := insertAt_apply a n
  exact hhigh i hi

theorem insertRounds_of_lt (a : Nat → α) {k i : Nat} (hi : k < i) :
    insertRounds a k i = a i := by
  induction k with
  | zero => rfl
  | succ k ih => rw [insertRounds, insertAt_of_lt _ hi, ih (by omega)]

theorem elems_insertRounds_perm (a : Nat → α) (k : Nat) :
    (elems (insertRounds a k) (k + 1)).Perm (elems a (k + 1)) := by
  induction k with
  | zero => exact List.Perm.refl _
  | succ k ih =>
      rw [insertRounds]
      refine (elems_insertAt_perm _ _).trans ?_
      rw [elems_succ, elems_succ a, insertRounds_of_lt a (Nat.lt_succ_self k)]
      exact ih.append_right _

/-- Sorting brings every element to some place and puts an element into every
place. -/
theorem exists_insertRounds_eq (a : Nat → α) {k i : Nat} (hi : i < k + 1) :
    ∃ j < k + 1, insertRounds a k j = a i := by
  have hmem : a i ∈ elems (insertRounds a k) (k + 1) :=
    (elems_insertRounds_perm a k).mem_iff.mpr
      (List.mem_map.mpr ⟨i, List.mem_range.mpr hi, rfl⟩)
  obtain ⟨j, hj, heq⟩ := List.mem_map.mp hmem
  exact ⟨j, List.mem_range.mp hj, heq⟩

theorem exists_eq_insertRounds (a : Nat → α) {k j : Nat} (hj : j < k + 1) :
    ∃ i < k + 1, a i = insertRounds a k j := by
  have hmem : insertRounds a k j ∈ elems a (k + 1) :=
    (elems_insertRounds_perm a k).mem_iff.mp
      (List.mem_map.mpr ⟨j, List.mem_range.mpr hj, rfl⟩)
  obtain ⟨i, hi, heq⟩ := List.mem_map.mp hmem
  exact ⟨i, List.mem_range.mp hi, heq⟩

end Loops

/-! ## Order -/

section SortedList

variable {α : Type*} [LE α] [DecidableLE α]

/-- A list in ascending order. -/
def sorted (vs : List α) : List α :=
  vs.mergeSort fun v w => decide (v ≤ w)

theorem sorted_perm (vs : List α) : (sorted vs).Perm vs :=
  List.mergeSort_perm vs _

variable [Std.IsLinearOrder α]

theorem sorted_pairwise (vs : List α) : (sorted vs).Pairwise (· ≤ ·) := by
  have htrans : ∀ u v w : α, decide (u ≤ v) = true → decide (v ≤ w) = true →
      decide (u ≤ w) = true := by
    intro u v w huv hvw
    exact decide_eq_true (Std.le_trans (of_decide_eq_true huv) (of_decide_eq_true hvw))
  have htotal : ∀ v w : α, (decide (v ≤ w) || decide (w ≤ v)) = true := by
    intro v w
    rw [Bool.or_eq_true, decide_eq_true_eq, decide_eq_true_eq]
    exact Std.le_total
  exact (List.pairwise_mergeSort htrans htotal vs).imp fun h => of_decide_eq_true h

/-- The sorted list is the only ascending permutation. -/
theorem eq_sorted {vs ws : List α} (hperm : ws.Perm vs) (hws : ws.Pairwise (· ≤ ·)) :
    ws = sorted vs :=
  List.Perm.eq_of_pairwise (fun _ _ _ _ => Std.le_antisymm) hws (sorted_pairwise vs)
    (hperm.trans (sorted_perm vs).symm)

end SortedList

section Ascending

variable {α : Type*} [LE α]

/-- The first `n` elements are in ascending order. -/
def Ascending (a : Nat → α) (n : Nat) : Prop :=
  ∀ i j, i ≤ j → j < n → a i ≤ a j

theorem Ascending.pairwise {a : Nat → α} {n : Nat} (ha : Ascending a n) :
    (elems a n).Pairwise (· ≤ ·) := by
  rw [elems, List.pairwise_map]
  refine List.pairwise_lt_range.imp_of_mem fun {i j} _ hj hij => ?_
  exact ha i j (Nat.le_of_lt hij) (List.mem_range.mp hj)

variable [LT α] [DecidableLT α] [Std.IsLinearOrder α] [Std.LawfulOrderLT α]

/-- In an ascending list the element `k` is below a bound exactly when more
than `k` elements are. -/
theorem countP_lt_le_iff {vs : List α} (hvs : vs.Pairwise (· ≤ ·)) (c : α) {k : Nat}
    (hk : k < vs.length) : vs.countP (fun v => decide (v < c)) ≤ k ↔ ¬ vs.get ⟨k, hk⟩ < c := by
  induction vs generalizing k with
  | nil => cases hk
  | cons x xs ih =>
      obtain ⟨hx, hxs⟩ := List.pairwise_cons.mp hvs
      by_cases hlow : x < c
      · have hcount : (x :: xs).countP (fun v => decide (v < c)) =
            xs.countP (fun v => decide (v < c)) + 1 :=
          List.countP_cons_of_pos (decide_eq_true hlow)
        rw [hcount]
        cases k with
        | zero => exact ⟨fun hle => absurd hle (by omega), fun hnot => absurd hlow hnot⟩
        | succ k =>
            rw [Nat.add_le_add_iff_right, ih hxs (Nat.lt_of_succ_lt_succ hk)]
            rfl
      · -- the first element is not below the bound, so none is
        have hnone : ∀ v ∈ x :: xs, ¬ v < c := by
          intro v hv
          rcases List.mem_cons.mp hv with rfl | hmem
          · exact hlow
          · exact Std.not_lt.mpr (Std.le_trans (Std.not_lt.mp hlow) (hx v hmem))
        have hcount : (x :: xs).countP (fun v => decide (v < c)) = 0 := by
          rw [List.countP_eq_zero]
          intro v hv
          rw [decide_eq_true_eq]
          exact hnone v hv
        rw [hcount]
        exact ⟨fun _ => hnone _ (List.get_mem _ _), fun _ => Nat.zero_le k⟩

/-- A round keeps the sorted part sorted and makes it one element longer. -/
theorem insertAt_ascending {a : Nat → α} {n : Nat} (ha : Ascending a n) :
    Ascending (insertAt a n) (n + 1) := by
  obtain ⟨k, hk, hlow, hhole, hmoved, -, hstopped⟩ := insertAt_apply a n
  -- everything in front of the hole is below the inserted element
  have hfront : ∀ i, i < k → a i ≤ a n := by
    intro i hi
    obtain ⟨top, rfl⟩ : ∃ top, k = top + 1 := ⟨k - 1, by omega⟩
    exact Std.le_trans (ha i top (by omega) (by omega)) (Std.not_lt.mp (hstopped top rfl))
  intro i j hij hj
  rcases Nat.lt_trichotomy j k with hjk | rfl | hjk
  · rw [hlow i (by omega), hlow j hjk]
    exact ha i j hij (by omega)
  · rw [hhole]
    rcases Nat.lt_or_eq_of_le hij with hlt | rfl
    · rw [hlow i hlt]
      exact hfront i hlt
    · rw [hhole]
      exact Std.le_refl _
  · obtain ⟨j, rfl⟩ : ∃ j', j = j' + 1 := ⟨j - 1, by omega⟩
    obtain ⟨hjmoved, hjgreater⟩ := hmoved j (by omega) (by omega)
    rw [hjmoved]
    rcases Nat.lt_trichotomy i k with hik | rfl | hik
    · rw [hlow i hik]
      exact ha i j (by omega) (by omega)
    · rw [hhole]
      exact Std.le_of_lt hjgreater
    · obtain ⟨i, rfl⟩ : ∃ i', i = i' + 1 := ⟨i - 1, by omega⟩
      rw [(hmoved i (by omega) (by omega)).1]
      exact ha i j (by omega) (by omega)

theorem insertRounds_ascending (a : Nat → α) (k : Nat) :
    Ascending (insertRounds a k) (k + 1) := by
  induction k with
  | zero =>
      intro i j hij hj
      obtain ⟨rfl, rfl⟩ : i = 0 ∧ j = 0 := by omega
      exact Std.le_refl _
  | succ k ih => exact insertAt_ascending ih

/-- The rounds up to the last element sort the array. -/
theorem elems_insertRounds [DecidableLE α] (a : Nat → α) (n : Nat) :
    elems (insertRounds a (n - 1)) n = sorted (elems a n) := by
  cases n with
  | zero => exact (List.mergeSort_nil).symm
  | succ k =>
      exact eq_sorted (elems_insertRounds_perm a k) (insertRounds_ascending a k).pairwise

/-- Sorting the first `n` elements looks at no others. -/
theorem insertRounds_congr [DecidableLE α] {a b : Nat → α} {n : Nat} (h : ∀ i < n, a i = b i)
    {i : Nat} (hi : i < n) : insertRounds a (n - 1) i = insertRounds b (n - 1) i := by
  have helems : elems (insertRounds a (n - 1)) n = elems (insertRounds b (n - 1)) n := by
    rw [elems_insertRounds, elems_insertRounds, elems_congr h]
  have hget := congrArg (fun vs => vs[i]?) helems
  rw [getElem?_elems _ hi, getElem?_elems _ hi] at hget
  exact Option.some.inj hget

/-- The first place holds the least element and the last place the greatest. -/
theorem insertRounds_first_le (a : Nat → α) {k i : Nat} (hi : i < k + 1) :
    insertRounds a k 0 ≤ a i := by
  obtain ⟨j, hj, heq⟩ := exists_insertRounds_eq a hi
  rw [← heq]
  exact insertRounds_ascending a k 0 j (Nat.zero_le j) hj

theorem le_insertRounds_last (a : Nat → α) {k i : Nat} (hi : i < k + 1) :
    a i ≤ insertRounds a k k := by
  obtain ⟨j, hj, heq⟩ := exists_insertRounds_eq a hi
  rw [← heq]
  exact insertRounds_ascending a k j k (Nat.le_of_lt_succ hj) (Nat.lt_succ_self k)

end Ascending

end Machine
end BareMetal
