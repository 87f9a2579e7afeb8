import BareMetal.Machine.Hart

/-!
# The FNV-1a family

A 64-bit hash that takes its input in units: xor the unit into the state, then
multiply by a fixed number.  If that number is odd the step can be undone, so two
runs over the same input agree exactly if they have started from the same state, and
two inputs with one unit changed never agree.

`fnv1a64` is the standard member: bytes as units, and the published constants.
-/

namespace BareMetal
namespace Machine
namespace Fnv

/-- One xor-multiply. -/
def xorMul (prime h u : Word) : Word :=
  (h ^^^ u) * prime

/-- The state after some units. -/
def absorb (prime h : Word) (us : List Word) : Word :=
  us.foldl (xorMul prime) h

def OFFSET_BASIS : Word := 14695981039346656037
def PRIME : Word := 1099511628211

/-- FNV-1a 64 of some bytes. -/
def fnv1a64 (bs : List (BitVec 8)) : Word :=
  bs.foldl (fun h b => xorMul PRIME h (b.setWidth 64)) OFFSET_BASIS

/-- The bytes of a value of `n` bytes, least significant first. -/
def leBytes {n : Nat} (v : BitVec (8 * n)) : List (BitVec 8) :=
  (List.range n).map fun j => v.extractLsb' (8 * j) 8

/-- The bytes of a value as units. -/
def byteUnits {n : Nat} (v : BitVec (8 * n)) : List Word :=
  (leBytes v).map (·.setWidth 64)

section Rounds

variable {prime inv : Word} (hinv : prime * inv = 1#64)

include hinv

theorem xorMul_injective (u : Word) : Function.Injective fun h => xorMul prime h u := by
  intro h h' heq
  have hproduct : (h ^^^ u) * prime * inv = (h' ^^^ u) * prime * inv := congrArg (· * inv) heq
  rw [BitVec.mul_assoc, BitVec.mul_assoc, hinv, BitVec.mul_one, BitVec.mul_one] at hproduct
  have hxor : h ^^^ u ^^^ u = h' ^^^ u ^^^ u := congrArg (· ^^^ u) hproduct
  rwa [BitVec.xor_assoc, BitVec.xor_assoc, BitVec.xor_self, BitVec.xor_zero, BitVec.xor_zero]
    at hxor

theorem xorMul_unit_injective (h : Word) : Function.Injective (xorMul prime h) := by
  intro u u' heq
  rw [xorMul, xorMul, BitVec.xor_comm h u, BitVec.xor_comm h u'] at heq
  exact xorMul_injective hinv h heq

/-- Different states stay different under the same input. -/
theorem absorb_injective (us : List Word) : Function.Injective fun h => absorb prime h us := by
  induction us with
  | nil => exact fun h h' heq => heq
  | cons u us ih =>
      intro h h' heq
      exact xorMul_injective hinv u (ih heq)

/-- A changed unit is never lost. -/
theorem absorb_ne_of_unit {u u' : Word} (hne : u ≠ u') (h : Word) (front back : List Word) :
    absorb prime h (front ++ u :: back) ≠ absorb prime h (front ++ u' :: back) := by
  intro heq
  simp only [absorb, List.foldl_append, List.foldl_cons] at heq
  have hstep := absorb_injective hinv back heq
  exact hne (xorMul_unit_injective hinv _ hstep)

end Rounds

/-! ## Inputs that differ in one place -/

section Differences

variable {α : Type} [DecidableEq α]

/-- In how many places two lists differ. -/
def differences (xs ys : List α) : Nat :=
  (xs.zip ys).countP fun p => p.1 ≠ p.2

theorem differences_cons (x y : α) (xs ys : List α) :
    differences (x :: xs) (y :: ys) = differences xs ys + if x ≠ y then 1 else 0 := by
  rw [differences, List.zip_cons_cons, List.countP_cons, differences]
  simp only [decide_eq_true_eq]

theorem eq_of_differences_eq_zero {xs ys : List α} (hlen : xs.length = ys.length)
    (h : differences xs ys = 0) : xs = ys := by
  induction xs generalizing ys with
  | nil => exact (List.length_eq_zero_iff.mp hlen.symm).symm
  | cons x xs ih =>
      cases ys with
      | nil => nomatch hlen
      | cons y ys =>
          rw [differences_cons] at h
          have hhead : x = y := by
            by_contra hne
            rw [if_pos hne] at h
            omega
          rw [hhead, ih (Nat.succ.inj hlen) (by omega)]

/-- Lists that differ in one place are equal in front of it and behind it. -/
theorem exists_split {xs ys : List α} (hlen : xs.length = ys.length)
    (h : differences xs ys = 1) :
    ∃ front x y back, x ≠ y ∧ xs = front ++ x :: back ∧ ys = front ++ y :: back := by
  induction xs generalizing ys with
  | nil =>
      obtain rfl : ys = [] := List.length_eq_zero_iff.mp hlen.symm
      nomatch h
  | cons x xs ih =>
      cases ys with
      | nil => nomatch hlen
      | cons y ys =>
          have hrest : xs.length = ys.length := Nat.succ.inj hlen
          rw [differences_cons] at h
          by_cases hxy : x = y
          · rw [if_neg (not_not.mpr hxy)] at h
            obtain ⟨front, u, v, back, huv, rfl, rfl⟩ := ih hrest h
            exact ⟨x :: front, u, v, back, huv, rfl, by rw [hxy]; rfl⟩
          · rw [if_pos hxy] at h
            obtain rfl := eq_of_differences_eq_zero hrest (by omega)
            exact ⟨[], x, y, xs, hxy, rfl, rfl⟩

end Differences

/-- Two records of equal length, of which exactly one byte differs. -/
def DifferInOneByte {n : Nat} (vs ws : List (BitVec (8 * n))) : Prop :=
  vs.length = ws.length ∧ differences (vs.flatMap leBytes) (ws.flatMap leBytes) = 1

instance {n : Nat} (vs ws : List (BitVec (8 * n))) : Decidable (DifferInOneByte vs ws) :=
  inferInstanceAs (Decidable (_ ∧ _))

theorem length_leBytes {n : Nat} (v : BitVec (8 * n)) : (leBytes v).length = n := by
  rw [leBytes, List.length_map, List.length_range]

/-- Absorbed byte by byte, such records end in different states. -/
theorem absorb_ne_of_byte {prime inv : Word} (hinv : prime * inv = 1#64) {n : Nat}
    {vs ws : List (BitVec (8 * n))} (hdiffer : DifferInOneByte vs ws) (h : Word) :
    absorb prime h (vs.flatMap byteUnits) ≠ absorb prime h (ws.flatMap byteUnits) := by
  obtain ⟨hlen, hone⟩ := hdiffer
  have hbytes : (vs.flatMap leBytes).length = (ws.flatMap leBytes).length := by
    simp only [List.length_flatMap, length_leBytes, List.map_const', List.sum_replicate, hlen]
  have hunits : ∀ xs : List (BitVec (8 * n)),
      xs.flatMap byteUnits = (xs.flatMap leBytes).map (·.setWidth 64) := by
    intro xs
    rw [List.map_flatMap]
    rfl
  obtain ⟨front, b, c, back, hbc, hvs, hws⟩ := exists_split hbytes hone
  rw [hunits, hunits, hvs, hws, List.map_append, List.map_append, List.map_cons, List.map_cons]
  refine absorb_ne_of_unit hinv ?_ h _ _
  intro heq
  have hback := congrArg (BitVec.setWidth 8) heq
  rw [BitVec.setWidth_setWidth_of_le _ (by decide), BitVec.setWidth_setWidth_of_le _ (by decide),
    BitVec.setWidth_eq, BitVec.setWidth_eq] at hback
  exact hbc hback

/-- Values absorbed one after the other, each in its units. -/
theorem absorb_flatMap {α : Type} (prime h : Word) (units : α → List Word) (vs : List α) :
    absorb prime h (vs.flatMap units) = vs.foldl (fun h v => absorb prime h (units v)) h :=
  List.foldl_flatMap

theorem fnv1a64_eq_absorb (bs : List (BitVec 8)) :
    fnv1a64 bs = absorb PRIME OFFSET_BASIS (bs.map (·.setWidth 64)) := by
  rw [fnv1a64, absorb, List.foldl_map]

/-- The hash of the bytes of some values. -/
theorem fnv1a64_leBytes {n : Nat} (vs : List (BitVec (8 * n))) :
    fnv1a64 (vs.flatMap leBytes) = absorb PRIME OFFSET_BASIS (vs.flatMap byteUnits) := by
  rw [fnv1a64_eq_absorb, List.map_flatMap]
  rfl

theorem testBit_mask (i : Nat) : Nat.testBit 255 i = decide (i < 8) := by
  have hmask : (255 : Nat) = 2 ^ 8 - 1 := by norm_num
  rw [hmask, Nat.testBit_two_pow_sub_one]

/-- Shifting and masking picks a byte. -/
theorem shift_mask_eq {w : Nat} (v : BitVec w) (j : Nat) :
    ((v >>> (8 * j)) &&& 255#w).setWidth 64 = (v.extractLsb' (8 * j) 8).setWidth 64 := by
  ext i hi
  have houtside : w ≤ i → v.getLsbD (8 * j + i) = false := fun hle =>
    BitVec.getLsbD_of_ge v (8 * j + i) (by omega)
  simp only [BitVec.getElem_setWidth, BitVec.getLsbD_and, BitVec.getLsbD_ushiftRight,
    BitVec.getLsbD_ofNat, testBit_mask, BitVec.getLsbD_extractLsb']
  by_cases hbyte : i < 8 <;> by_cases hwidth : i < w <;> simp [hbyte, hwidth]
  exact houtside (by omega)

/-- So does shifting and cutting off. -/
theorem shift_cut_eq {w : Nat} (v : BitVec w) (j : Nat) :
    (v >>> (8 * j)).setWidth 8 = v.extractLsb' (8 * j) 8 := by
  ext i hi
  simp

end Fnv
end Machine
end BareMetal
