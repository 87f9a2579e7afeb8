import BareMetal.Machine.Hart
import Mathlib.Algebra.BigOperators.Ring.Finset
import Mathlib.Data.Nat.Count

/-!
# Loops that count

A loop that looks at the elements of an array and counts some of them in a
machine word, one that only notes whether it has seen any, and one that counts
each element in the bin it falls into.  As long as there are fewer elements than
words the counts are those of `Nat.count`.
-/

namespace BareMetal
namespace Machine

/-- `for (i = 0; i < n; i++) if (p(i)) c++;` -/
def tally (p : Nat → Prop) [DecidablePred p] : Nat → Word
  | 0 => 0
  | n + 1 => if p n then tally p n + 1 else tally p n

section Tally

variable {p : Nat → Prop} [DecidablePred p] {n : Nat}

theorem tally_eq_ofNat (p : Nat → Prop) [DecidablePred p] (n : Nat) :
    tally p n = BitVec.ofNat 64 (Nat.count p n) := by
  induction n with
  | zero => rfl
  | succ n ih =>
      rw [tally, Nat.count_succ]
      split
      · rw [ih, BitVec.ofNat_add]
        rfl
      · rw [ih, Nat.add_zero]

theorem toNat_tally (hn : n < 2 ^ 64) : (tally p n).toNat = Nat.count p n := by
  have hle : Nat.count p n ≤ n := Nat.count_le p
  rw [tally_eq_ofNat, BitVec.toNat_ofNat, Nat.mod_eq_of_lt (by omega)]

theorem tally_eq_zero_iff (hn : n < 2 ^ 64) : tally p n = 0 ↔ ∀ i < n, ¬ p i := by
  rw [← Nat.count_iff_forall_not, ← toNat_tally hn, BitVec.toNat_eq]
  rfl

theorem tally_pos_iff (hn : n < 2 ^ 64) : 0 < tally p n ↔ ∃ i < n, p i := by
  rw [← Nat.count_ne_iff_exists, ← toNat_tally hn, BitVec.lt_def]
  exact Nat.pos_iff_ne_zero

end Tally

/-- `ok = 1; for (i = 0; i < n; i++) if (p(i)) ok = 0;` -/
def noneSeen (p : Nat → Prop) [DecidablePred p] : Nat → Bool
  | 0 => true
  | n + 1 => if p n then false else noneSeen p n

theorem noneSeen_iff {p : Nat → Prop} [DecidablePred p] {n : Nat} :
    noneSeen p n = true ↔ ∀ i < n, ¬ p i := by
  induction n with
  | zero => exact ⟨fun _ i hi => absurd hi (Nat.not_lt_zero i), fun _ => rfl⟩
  | succ n ih =>
      rw [noneSeen]
      by_cases hp : p n
      · rw [if_pos hp]
        exact ⟨fun h => (nomatch h), fun h => absurd hp (h n (Nat.lt_succ_self n))⟩
      · rw [if_neg hp, ih]
        constructor
        · intro h i hi
          rcases Nat.lt_succ_iff_lt_or_eq.mp hi with hlt | rfl
          · exact h i hlt
          · exact hp
        · exact fun h i hi => h i (Nat.lt_succ_of_lt hi)

/-- `for (i = 0; i < n; i++) h[bin(i)]++;` on an array of zeroes. -/
def binned (bin : Nat → Nat) : Nat → Nat → Word
  | 0 => fun _ => 0
  | n + 1 => Function.update (binned bin n) (bin n) (binned bin n (bin n) + 1)

theorem binned_apply (bin : Nat → Nat) (n b : Nat) :
    binned bin n b = tally (fun i => bin i = b) n := by
  induction n with
  | zero => rfl
  | succ n ih =>
      rw [binned, tally]
      by_cases hb : bin n = b
      · rw [if_pos hb, ← hb, Function.update_self, hb, ih]
      · rw [if_neg hb, Function.update_of_ne (Ne.symm hb), ih]

/-- Elements that all fall into one of `k` bins are counted once each. -/
theorem sum_count_bins {bin : Nat → Nat} {n k : Nat} (hbin : ∀ i < n, bin i < k) :
    ∑ b ∈ Finset.range k, Nat.count (fun i => bin i = b) n = n := by
  have hmaps : ∀ i ∈ Finset.range n, bin i ∈ Finset.range k := fun i hi =>
    Finset.mem_range.mpr (hbin i (Finset.mem_range.mp hi))
  have hfibers := Finset.card_eq_sum_card_fiberwise hmaps
  rw [Finset.card_range] at hfibers
  simp only [Nat.count_eq_card_filter_range]
  exact hfibers.symm

end Machine
end BareMetal
